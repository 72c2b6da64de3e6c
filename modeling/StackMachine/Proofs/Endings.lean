import StackMachine.Proofs.Encoding
import StackMachine.Proofs.Limits

/-!
# Line endings

A line feed ends a line, with or without a carriage return before it, and both may stand in
one file. What is between two endings is a line again, as long as no carriage return of its own
stands before a line feed. So a launch runs the lines that were written, however they were
ended, and reports the same in each case.
-/

namespace StackMachine

set_option autoImplicit false

/-- What may stand between two lines. -/
inductive Ending where
  | feed
  | returnAndFeed

def Ending.text : Ending → Text
  | .feed => ['\n']
  | .returnAndFeed => ['\r', '\n']

namespace Text

/-- The text has the lines in their order, and an ending of either kind between each and
the next. -/
inductive Joined : List Text → Text → Prop
  | single (line : Text) : Joined [line] line
  | more (line : Text) (ending : Ending) {rest : List Text} {text : Text}
      (behind : Joined rest text) : Joined (line :: rest) (line ++ (ending.text ++ text))

/-- No line has a line feed in it, and only the last one may end with a carriage return,
which no line feed follows there. -/
structure Unbroken (lines : List Text) : Prop where
  feeds : ∀ line ∈ lines, '\n' ∉ line
  returns : ∀ line ∈ lines.dropLast, line.getLast? ≠ some '\r'

variable {line text other : Text} {rest source : List Text}

theorem Joined.nonempty (joined : Joined source text) : source ≠ [] := by
  cases joined <;> exact List.cons_ne_nil _ _

theorem lines_single (whole : '\n' ∉ line) : lines line = [line] := by
  rw [lines, List.splitOn_eq_singleton whole]
  rfl

theorem lines_cons (whole : '\n' ∉ line) (text : Text) :
    lines (line ++ '\n' :: text) = dropReturn line :: lines text := by
  have pieces : text.splitOn '\n' ≠ [] := List.splitOn_ne_nil '\n' text
  simp only [lines, List.splitOn_append_cons_self_of_not_mem whole]
  rw [List.dropLast_cons_of_ne_nil pieces, List.map_cons, List.getLast?_cons_of_ne_nil pieces,
    List.cons_append]

theorem drop_return_concat (line : Text) : dropReturn (line ++ ['\r']) = line := by
  rw [dropReturn, if_pos List.getLast?_concat, List.dropLast_concat]

/-- Either ending takes a line off the text. -/
theorem lines_ended (whole : '\n' ∉ line) (unreturned : line.getLast? ≠ some '\r')
    (ending : Ending) (text : Text) :
    lines (line ++ (ending.text ++ text)) = line :: lines text := by
  cases ending with
  | feed =>
      change lines (line ++ '\n' :: text) = _
      rw [lines_cons whole, dropReturn, if_neg unreturned]
  | returnAndFeed =>
      have returned : '\n' ∉ line ++ ['\r'] := by simp [whole]
      have split : line ++ (Ending.returnAndFeed.text ++ text) =
          (line ++ ['\r']) ++ '\n' :: text := by simp [Ending.text]
      rw [split, lines_cons returned, drop_return_concat]

/-- By induction on the endings: the lines come back one by one. -/
theorem lines_joined (joined : Joined source text) (unbroken : Unbroken source) :
    lines text = source := by
  induction joined with
  | single line => exact lines_single (unbroken.feeds line List.mem_cons_self)
  | more line ending behind ih =>
      have remains := behind.nonempty
      have here : ∀ other ∈ List.dropLast (line :: _), other.getLast? ≠ some '\r' :=
        unbroken.returns
      rw [List.dropLast_cons_of_ne_nil remains] at here
      have later : Unbroken _ :=
        ⟨fun other member => unbroken.feeds other (List.mem_cons_of_mem _ member),
          fun other member => here other (List.mem_cons_of_mem _ member)⟩
      rw [lines_ended (unbroken.feeds line List.mem_cons_self) (here line List.mem_cons_self),
        ih later]

end Text

namespace Launch

/-- Builds a machine from lines, and runs it. -/
def runLines (source : List Text) (options : Options) (environment : Environment)
    (fuel : Nat) : Report :=
  match Machine.build source { trace := options.trace || isOn environment.debugTrace } with
  | .error failure => ⟨errorMessages environment failure.message, some 1⟩
  | .ok machine => runMachine options environment fuel machine

variable {tree other : FileTree} {path : Text} {source : List Text} {text retext : Text}

theorem run_reading_contents (path : Text) (octets : List UInt8) (options : Options)
    (environment : Environment) (fuel : Nat) :
    runReading path (.contents octets) options environment fuel =
      runLines (Text.lines (Utf8.decode octets)) options environment fuel := by
  unfold runReading runLines
  cases built : Machine.build (Text.lines (Utf8.decode octets))
      { trace := options.trace || isOn environment.debugTrace } with
  | error failure => simp only [built]
  | ok machine => simp only [built]

theorem lines_stored (unbroken : Text.Unbroken source) (joined : Text.Joined source text) :
    Text.lines (Utf8.decode (Utf8.encode text)) = source := by
  rw [Utf8.decode_encode, Text.lines_joined joined unbroken]

theorem run_file_stored (unbroken : Text.Unbroken source) (joined : Text.Joined source text)
    (stored : tree.read path = .contents (Utf8.encode text)) (options : Options)
    (environment : Environment) (fuel : Nat) :
    runFile tree path options environment fuel = runLines source options environment fuel := by
  rw [runFile, stored, run_reading_contents, lines_stored unbroken joined]

theorem loads_stored (unbroken : Text.Unbroken source) (joined : Text.Joined source text)
    (stored : tree.read path = .contents (Utf8.encode text)) (options : Options)
    (environment : Environment) (machine : Machine) :
    Loads tree path options environment machine ↔
      Machine.build source { trace := options.trace || isOn environment.debugTrace } =
        .ok machine := by
  constructor
  · rintro ⟨octets, read, built⟩
    rw [stored] at read
    cases read
    rwa [lines_stored unbroken joined] at built
  · intro built
    refine ⟨Utf8.encode text, stored, ?_⟩
    rwa [lines_stored unbroken joined]

/-- A file gives back the lines it was written from, whichever endings stand between them:
its machine is the one built from these lines, and a file with other endings is run alike. -/
theorem endings_are_alike (unbroken : Text.Unbroken source) (joined : Text.Joined source text)
    (rejoined : Text.Joined source retext)
    (stored : tree.read path = .contents (Utf8.encode text))
    (restored : other.read path = .contents (Utf8.encode retext)) (options : Options)
    (environment : Environment) (fuel : Nat) :
    Text.lines (Utf8.decode (Utf8.encode text)) = source ∧
      (∀ machine, Loads tree path options environment machine ↔
        Machine.build source { trace := options.trace || isOn environment.debugTrace } =
          .ok machine) ∧
      runFile tree path options environment fuel = runLines source options environment fuel ∧
      runFile other path options environment fuel =
        runFile tree path options environment fuel := by
  have here := run_file_stored unbroken joined stored options environment fuel
  have there := run_file_stored unbroken rejoined restored options environment fuel
  exact ⟨lines_stored unbroken joined, loads_stored unbroken joined stored options environment,
    here, there.trans here.symm⟩

/-- With a mark in front, a carriage return inside one line and another one at the very end. -/
def mixedLines : List Text := ["\uFEFF# é".toList, "push\r5".toList, [], "prt\r".toList]

def mixedText : Text := "\uFEFF# é\r\npush\r5\n\r\nprt\r".toList

def uniformText : Text := "\uFEFF# é\npush\r5\n\nprt\r".toList

def mixedFile : FileTree := FileTree.empty.insert "code.txt".toList (Utf8.encode mixedText)

def uniformFile : FileTree := FileTree.empty.insert "code.txt".toList (Utf8.encode uniformText)

theorem endings_are_alike_mixed :
    Text.Unbroken mixedLines ∧ Text.Joined mixedLines mixedText ∧
      Text.Joined mixedLines uniformText ∧
      mixedFile.read "code.txt".toList = .contents (Utf8.encode mixedText) ∧
      uniformFile.read "code.txt".toList = .contents (Utf8.encode uniformText) ∧
      Text.lines (Utf8.decode (Utf8.encode mixedText)) = mixedLines ∧
      runFile uniformFile "code.txt".toList { trace := true } {} 3 =
        runFile mixedFile "code.txt".toList { trace := true } {} 3 := by
  have unbroken : Text.Unbroken mixedLines := by
    constructor
    · decide
    · decide
  have joined : Text.Joined mixedLines mixedText :=
    .more _ .returnAndFeed (.more _ .feed (.more _ .returnAndFeed (.single _)))
  have rejoined : Text.Joined mixedLines uniformText :=
    .more _ .feed (.more _ .feed (.more _ .feed (.single _)))
  have stored : mixedFile.read "code.txt".toList = .contents (Utf8.encode mixedText) := rfl
  have restored : uniformFile.read "code.txt".toList = .contents (Utf8.encode uniformText) := rfl
  have alike := endings_are_alike unbroken joined rejoined stored restored { trace := true } {} 3
  exact ⟨unbroken, joined, rejoined, stored, restored, alike.1, alike.2.2.2⟩

end Launch

end StackMachine
