import StackMachine.Proofs.Assembly
import StackMachine.Proofs.Guises

/-!
# Comments

Labels are put in wherever their names occur, in comments too. The first character of a
comment that is not blank can only become a digit by this: as long as no name holds the mark
of a comment it stays what it is, and the line may as well be empty. Else the line may turn
into a statement, but into one that is never decoded, for no mnemonic starts with a digit.
-/

namespace StackMachine

set_option autoImplicit false

namespace Text

/-- There is a last character, and it is not blank. -/
def EndsSolid (text : Text) : Prop := ∃ c, text.getLast? = some c ∧ isBlank c = false

theorem EndsSolid.not_blank {text : Text} (solid : EndsSolid text) : ¬AllBlank text := by
  obtain ⟨c, last, mark⟩ := solid
  intro blank
  rw [blank c (List.mem_of_getLast? last)] at mark
  cases mark

end Text

namespace Statement

open Text (AllBlank first?)

/-- Blank, a comment, or begun by a digit: all that a line without a statement can turn into. -/
def Tame (text : Text) : Prop :=
  ∀ c, first? text = some c → c = commentMark ∨ c.isDigit = true

theorem tame_of_skipped {line : Text} (skipped : isSkipped line = true) : Tame line :=
  fun c first => .inl ((skipped_iff_first line).mp skipped c first)

theorem tame_substitute {text : Text} (ranking : List Label) (tame : Tame text) :
    Tame (Label.substitute ranking text) := by
  intro c first
  rcases Label.first_substitute first with same | digit
  · exact tame c same
  · exact .inr digit

theorem no_mnemonic_of_digit {text : Text} {c : Char} (first : text.head? = some c)
    (digit : c.isDigit = true) : Move.isMove text = false ∧ Opcode.ofMnemonic? text = none := by
  obtain ⟨rest, rfl⟩ := List.head?_eq_some_iff.mp first
  constructor
  · rw [Bool.eq_false_iff]
    intro moves
    simp only [Move.isMove, Move.mnemonics, List.any_cons, List.any_nil, Bool.or_false,
      Bool.or_eq_true, beq_iff_eq] at moves
    rcases moves with same | same
    · cases same
      cases digit
    · cases same
      cases digit
  · cases found : Opcode.ofMnemonic? (c :: rest) with
    | none => rfl
    | some opcode =>
        have named := Opcode.mnemonic_of_of_mnemonic found
        cases opcode <;> cases named <;> cases digit

theorem digit_of_tame {text : Text} {statement : Statement} (tame : Tame text)
    (read : ofLine? text = some statement) :
    ∃ c, statement.mnemonic.head? = some c ∧ c.isDigit = true := by
  have kept : ¬isSkipped text = true := by
    rw [← of_line_eq_none_iff, read]
    exact Option.some_ne_none statement
  rw [skipped_iff_first] at kept
  push Not at kept
  obtain ⟨c, first, plain⟩ := kept
  exact ⟨c, (head_of_line read).trans first, (tame c first).resolve_left plain⟩

theorem expand_tame {text : Text} (tame : Tame text) : Move.expandLine text = .ok text := by
  rw [Move.expandLine]
  cases read : ofLine? text with
  | none => rfl
  | some statement =>
      obtain ⟨c, first, digit⟩ := digit_of_tame tame read
      simp only [(no_mnemonic_of_digit first digit).1, Bool.false_eq_true, if_false]

/-- A tame line that holds a statement does not decode. -/
theorem decode_tame {text : Text} (tame : Tame text) (kept : isSkipped text = false) :
    ∃ digit rest, digit.isDigit = true ∧
      Instruction.decode text = .error (.unknownInstruction (digit :: rest)) := by
  cases read : ofLine? text with
  | none =>
      rw [(of_line_eq_none_iff text).mp read] at kept
      cases kept
  | some statement =>
      obtain ⟨digit, first, leads⟩ := digit_of_tame tame read
      obtain ⟨rest, spelled⟩ := List.head?_eq_some_iff.mp first
      refine ⟨digit, rest, leads, ?_⟩
      rw [Instruction.decode_of_line read, Instruction.ofStatement,
        (no_mnemonic_of_digit first leads).2, spelled]
      rfl

end Statement

namespace Label

open Text (AllBlank)

/-- A name ends where its line is trimmed. -/
theorem ends_solid_of_declared {line name : Text} (declares : declared? line = some name)
    (nonempty : name ≠ []) : Text.EndsSolid name := by
  have trimmed := declared_eq_some_iff.mp declares
  obtain ⟨before, c, rfl⟩ := (List.eq_nil_or_concat' name).resolve_left nonempty
  have last : (Text.trim line).getLast? = some c := by
    rw [trimmed, ← List.cons_append, List.getLast?_concat]
  exact ⟨c, List.getLast?_concat, Text.last_trim last⟩

theorem ends_solid_of_collect {source : List Text} {labels : List Label}
    (collected : collect source = .ok labels) {label : Label} (member : label ∈ labels) :
    Text.EndsSolid label.name := by
  obtain ⟨same, -, named⟩ := declarations_of_collect collected
  have nonempty : label.name ≠ [] := fun empty =>
    named (empty ▸ List.mem_map_of_mem member)
  rw [same] at member
  obtain ⟨offset, text, -, declares, -⟩ := line_of_mem_declarations member
  exact ends_solid_of_declared declares nonempty

/-- No name occurs among blanks. -/
theorem substitute_blank {ranking : List Label} (marked : ∀ label ∈ ranking, ¬AllBlank label.name)
    {text : Text} (blank : AllBlank text) : substitute ranking text = text := by
  apply substitute_absent
  intro label member occurs
  exact marked label member fun c there => blank c (occurs.subset there)

/-- A blank line stays blank, and a comment stays a comment unless a name holds its mark. -/
theorem skipped_substitute {ranking : List Label}
    (marked : ∀ label ∈ ranking, ¬AllBlank label.name) {line : Text}
    (skipped : Statement.isSkipped line = true)
    (untouched : AllBlank line ∨ Apart ranking Statement.commentMark) :
    Statement.isSkipped (substitute ranking line) = true := by
  have named : [] ∉ names ranking := by
    intro member
    obtain ⟨label, there, empty⟩ := List.mem_map.mp member
    exact marked label there (empty ▸ Text.all_blank_nil)
  cases first : Text.first? line with
  | none =>
      have blank := (Text.first_eq_none_iff line).mp first
      rw [substitute_blank marked blank]
      exact skipped
  | some c =>
      have comment := (Statement.skipped_iff_first line).mp skipped c first
      have visible : ¬AllBlank line := by
        rw [← Text.first_eq_none_iff, first]
        exact Option.some_ne_none c
      have apart := untouched.resolve_left visible
      obtain ⟨-, lead, rest, split, blanks⟩ := List.find?_eq_some_iff_append.mp first
      have blank : AllBlank lead := fun other member => by simpa using blanks other member
      rw [split, comment, substitute_across named apart, substitute_blank marked blank]
      exact Statement.skipped_of_comment blank _

/-- Lines that declare nothing do not matter for the labels. -/
theorem collect_from_set {source : List Text} {index line : Nat} {text : Text}
    (there : source[index]? = some text) (undeclared : declared? text = none)
    (labels : List Label) :
    collectFrom line labels (source.set index []) = collectFrom line labels source := by
  induction source generalizing index line labels with
  | nil => rfl
  | cons first rest ih =>
      cases index with
      | zero =>
          cases there
          have same : declare labels [] line = declare labels text line := by
            simp only [declare, undeclared]
            rfl
          rw [List.set_cons_zero, collectFrom, collectFrom, same]
      | succ index =>
          rw [List.set_cons_succ, collectFrom, collectFrom]
          congr 1
          funext after
          exact ih there after

theorem resolve_set (labels : List Label) (source : List Text) (index : Nat) :
    resolve labels (source.set index []) = (resolve labels source).set index [] := by
  have empty : resolveLine (ranked labels) [] = [] := substitute_nil (ranked labels)
  rw [resolve, resolve, List.map_set, empty]

end Label

namespace Move

/-- A line that is left as it is may be emptied before as well as after. -/
theorem expand_from_set {lines : List Text} {index : Nat} {text : Text}
    (there : lines[index]? = some text) (left : expandLine text = .ok text) (line : Nat) :
    expandFrom line (lines.set index []) = (expandFrom line lines).map fun out =>
      out.set index [] := by
  induction lines generalizing index line with
  | nil => rfl
  | cons first rest ih =>
      cases index with
      | zero =>
          cases there
          have empty : expandLine [] = .ok [] := rfl
          rw [List.set_cons_zero, expandFrom, expandFrom, left, empty]
          cases expandFrom (line + 1) rest <;> rfl
      | succ index =>
          rw [List.set_cons_succ, expandFrom, expandFrom, ih there]
          cases (expandLine first).mapError (Failure.program line) with
          | error failure => rfl
          | ok out =>
              cases expandFrom (line + 1) rest <;> rfl

end Move

namespace Program

/-- With one line emptied. -/
def blanked (index : Nat) (program : Program) : Program :=
  { program with lines := program.lines.set index [] }

variable {source : List Text} {index : Nat} {line : Text}

theorem prepare_set (there : source[index]? = some line)
    (skipped : Statement.isSkipped line = true) :
    prepare (source.set index []) = (prepare source).map (blanked index) := by
  have undeclared := Label.undeclared_of_skipped skipped
  have same : Label.collect (source.set index []) = Label.collect source :=
    Label.collect_from_set there undeclared []
  rw [prepare, prepare, resolve, resolve, same]
  cases Label.collect source with
  | error failure => rfl
  | ok labels =>
      have resolved : (Label.resolve labels source)[index]? =
          some (Label.substitute (Label.ranked labels) line) := by
        rw [Label.resolve, List.getElem?_map, there, Option.map_some, Label.resolveLine, undeclared]
      have left := Statement.expand_tame
        (Statement.tame_substitute (Label.ranked labels) (Statement.tame_of_skipped skipped))
      have expanded := Move.expand_from_set resolved left 0
      change (Move.expandAll (Label.resolve labels (source.set index [])) >>= _) =
        (Move.expandAll (Label.resolve labels source) >>= _).map _
      rw [Label.resolve_set, Move.expandAll, Move.expandAll, expanded]
      cases Move.expandFrom 0 (Label.resolve labels source) <;> rfl

end Program

namespace Machine

variable {source : List Text} {index : Nat} {line : Text} {m : Machine} {r other : Record}

def blanked (index : Nat) (m : Machine) : Machine := { m with program := m.program.blanked index }

theorem build_set (there : source[index]? = some line)
    (skipped : Statement.isSkipped line = true) (setup : Setup) :
    build (source.set index []) setup = (build source setup).map (blanked index) := by
  rw [build, build, Program.prepare_set there skipped]
  cases Stack.ofCapacity setup.capacity with
  | error failure => rfl
  | ok stack =>
      cases Program.prepare source with
      | error failure => rfl
      | ok program => rfl

/-- A line without a statement is passed over, and so is an empty one. -/
theorem fetch_from_set {lines : List Text} {index : Nat} {text : Text}
    (there : lines[index]? = some text) (skipped : Statement.isSkipped text = true)
    (line : Nat) : fetchFrom line (lines.set index []) = fetchFrom line lines := by
  induction lines generalizing index line with
  | nil => rfl
  | cons first rest ih =>
      cases index with
      | zero =>
          cases there
          have passed := (Instruction.decode_eq_none_iff text).mpr skipped
          have empty : Instruction.decode [] = .ok none := rfl
          simp only [List.set_cons_zero, fetchFrom, passed, empty]
      | succ index =>
          simp only [List.set_cons_succ, fetchFrom, ih there]

theorem agrees_blanked {text : Text} (there : m.program.lines[index]? = some text)
    (skipped : Statement.isSkipped text = true) : m.guise.Agrees (m.blanked index).guise where
  length := List.length_set
  fetches := by
    intro pointer
    rw [guise, guise, blanked, Program.blanked, List.drop_set]
    by_cases passed : index < pointer
    · rw [if_pos passed]
    · have ahead : (m.program.lines.drop pointer)[index - pointer]? = some text := by
        rw [List.getElem?_drop, Nat.add_sub_cancel' (Nat.le_of_not_lt passed)]
        exact there
      rw [if_neg passed]
      exact fetch_from_set ahead skipped pointer

/-- Nothing that is given or shown, and nothing on the machine itself, tells which is which. -/
structure Indistinct (r other : Record) : Prop where
  given : other.given = r.given
  left : Resembles r.left other.left
  log : other.left.log = r.left.log

theorem shown_of_seen {first second : Guise} (trace : second.trace = first.trace)
    {moments others : List Moment} (seen : List.Forall₂ (Seen first second) moments others) :
    others.flatMap Moment.shown = moments.flatMap Moment.shown := by
  induction seen with
  | nil => rfl
  | cons one rest ih =>
      obtain ⟨events, here, there⟩ := one.shown
      rw [List.flatMap_cons, List.flatMap_cons, ih, here, there, Guise.announced, Guise.announced,
        trace, announcement_eq one.fetched]

theorem indistinct_blanked {text : Text} (there : m.program.lines[index]? = some text)
    (skipped : Statement.isSkipped text = true) (fuel : Nat) (deeds : List Deed) :
    Option.Rel Indistinct (m.record fuel deeds) ((m.blanked index).record fuel deeds) := by
  have agrees := agrees_blanked there skipped
  have twins := twins_recast m (m.blanked index).guise
  have emptied : m.recast (m.blanked index).guise #[] = m.blanked index := by
    simp only [recast, guise, blanked, Array.empty_append]
  rw [emptied] at twins
  have copied := twins_record agrees twins fuel deeds
  refine rel_of_rel copied ?_
  intro r other recorded recorded_blanked copied
  refine ⟨copied.given, resembles_of_twins agrees copied.left, ?_⟩
  have start : (m.blanked index).log = m.log := rfl
  have trace : (m.blanked index).guise.trace = m.guise.trace := rfl
  apply Array.toList_inj.mp
  rw [log_of_record recorded_blanked, log_of_record recorded, shown_of_seen trace copied.moments,
    start]

/-- What becomes of a line that holds no statement, once it stands in a machine. -/
structure Idles (index : Nat) (line : Text) (m : Machine) (text : Text) : Prop where
  there : m.program.lines[index]? = some text
  skipped : Text.AllBlank line ∨ Label.Apart m.program.labels Statement.commentMark →
    Statement.isSkipped text = true
  inert : Statement.isSkipped text = true → ∀ fuel deeds,
    Option.Rel Indistinct (m.record fuel deeds) ((m.blanked index).record fuel deeds)
  refused : Statement.isSkipped text = false →
    ∃ digit rest, digit.isDigit = true ∧
      Instruction.decode text = .error (.unknownInstruction (digit :: rest))

theorem idles_of_build {setup : Setup} (there : source[index]? = some line)
    (skipped : Statement.isSkipped line = true) (made : build source setup = .ok m) :
    ∃ text, Idles index line m text := by
  have prepared := (fresh_of_build made).program
  obtain ⟨out, found, expanded⟩ := Program.line_of_prepare prepared there
  have tame := Statement.tame_substitute (Label.ranked m.program.labels)
    (Statement.tame_of_skipped skipped)
  rw [Label.resolveLine, Label.undeclared_of_skipped skipped] at expanded
  have same := (Statement.expand_tame tame).symm.trans expanded
  cases same
  refine ⟨_, found, ?_, indistinct_blanked found, Statement.decode_tame tame⟩
  intro untouched
  have known : ∀ label ∈ Label.ranked m.program.labels, label ∈ m.program.labels :=
    fun label => Label.mem_ranked.mp
  apply Label.skipped_substitute _ skipped
  · exact untouched.imp_right fun apart label member => apart label (known label member)
  · intro label member
    have collected := (Program.prepare_ok prepared).1
    exact (Label.ends_solid_of_collect collected (known label member)).not_blank

/-- A blank line or a comment in a source may as well be empty: the source fails in the same
way or gives the same labels, and the machines cannot be told apart. The one exception is a
comment whose mark is rewritten to a label; that line does not decode. -/
theorem comment_is_inert (there : source[index]? = some line)
    (skipped : Statement.isSkipped line = true) :
    Program.prepare (source.set index []) = (Program.prepare source).map (.blanked index) ∧
      ∀ setup, build (source.set index []) setup = (build source setup).map (blanked index) ∧
        ∀ m, build source setup = .ok m → ∃ text, Idles index line m text :=
  ⟨Program.prepare_set there skipped, fun setup =>
    ⟨build_set there skipped setup, fun _ => idles_of_build there skipped⟩⟩

/-- A label whose name occurs in a comment, and the lines once it has been put in there. -/
def notedLines : List Text := [":note".toList, " # note".toList, "push 1".toList]

def noted : Machine :=
  { stray with
    stack := .empty 1
    program := ⟨[[], " # 0".toList, "push 1".toList], [⟨"note".toList, 0⟩]⟩ }

def notedDeeds : List Deed := [.call .step, .call (.run none)]

theorem comment_is_inert_noted :
    notedLines[1]? = some " # note".toList ∧ Statement.isSkipped " # note".toList = true ∧
      build notedLines ⟨true, Double.ofInt 1⟩ = .ok noted ∧
      build (notedLines.set 1 []) ⟨true, Double.ofInt 1⟩ = .ok (noted.blanked 1) ∧
      ∃ r other, noted.record 1 notedDeeds = some r ∧
        (noted.blanked 1).record 1 notedDeeds = some other ∧ Indistinct r other ∧
        other.left.executed = 1 ∧ other.left.log = #[.traced 2 "push 1".toList] := by
  have there : notedLines[1]? = some " # note".toList := rfl
  have skipped : Statement.isSkipped " # note".toList = true := by decide
  have prepared : Program.prepare notedLines = .ok noted.program :=
    Program.prepare_single rfl rfl
  have made : build notedLines ⟨true, Double.ofInt 1⟩ = .ok noted := by
    simp only [build, prepared]
    rfl
  obtain ⟨-, inert⟩ := comment_is_inert there skipped
  obtain ⟨emptied, stands⟩ := inert ⟨true, Double.ofInt 1⟩
  obtain ⟨text, idles⟩ := stands noted made
  have found : noted.program.lines[1]? = some " # 0".toList := rfl
  have still : Statement.isSkipped text = true := by
    rw [← Option.some.inj (found.symm.trans idles.there)]
    decide
  obtain ⟨r, recorded⟩ : ∃ r, noted.record 1 notedDeeds = some r := ⟨_, rfl⟩
  obtain ⟨other, recorded_blanked⟩ : ∃ other, (noted.blanked 1).record 1 notedDeeds = some other :=
    ⟨_, rfl⟩
  have same := idles.inert still 1 notedDeeds
  rw [made] at emptied
  rw [recorded, recorded_blanked] at same
  cases same with
  | some same =>
      refine ⟨there, skipped, made, emptied, r, other, recorded, recorded_blanked, same, ?_, ?_⟩
      · cases recorded_blanked
        rfl
      · cases recorded_blanked
        rfl

/-- A label whose name is the mark of a comment. -/
def markedLines : List Text := [":#".toList, "# note".toList]

def marked : Machine :=
  { stray with
    program := ⟨[[], "0 note".toList], [⟨"#".toList, 0⟩]⟩
    trace := false }

/-- The comment becomes a statement, though an empty line in its place would not. -/
theorem rewritten_mark_stops :
    markedLines[1]? = some "# note".toList ∧ Statement.isSkipped "# note".toList = true ∧
      build markedLines {} = .ok marked ∧
      build (markedLines.set 1 []) {} = .ok (marked.blanked 1) ∧
      (marked.answer 1 (.run none)).map Prod.fst =
        some (.error (.program 1 (.unknownInstruction "0".toList))) ∧
      ((marked.blanked 1).answer 1 (.run none)).map Prod.fst = some (.ok (.ran ⟨0, true⟩)) := by
  have prepared : Program.prepare markedLines = .ok marked.program :=
    Program.prepare_single rfl rfl
  have emptied : Program.prepare (markedLines.set 1 []) = .ok (marked.program.blanked 1) :=
    Program.prepare_single rfl rfl
  refine ⟨rfl, by decide, ?_, ?_, rfl, rfl⟩
  · simp only [build, prepared]
    rfl
  · simp only [build, emptied]
    rfl

end Machine

end StackMachine
