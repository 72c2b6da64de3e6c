import StackMachine.Proofs.Reports

/-!
# Reading the arguments

Operands, listing options, trace options and step limits may come in any order and number, and
each option in any of its spellings. Each of them is read off the front of the arguments, so
what they ask for is the first operand, the options that occur, and the last limit. A limit
that is no positive integer ends the reading at once.
-/

namespace StackMachine.CommandLine

set_option autoImplicit false

/-- The text reads as a number, and that is a positive integer. -/
structure Counts (value : Text) (count : Double) : Prop where
  reads : Numeral.read? value = some count
  positive : ∃ n, count.whole? = some n ∧ 0 < n

/-- Where a step limit has its value: in an argument of its own behind either name of the
option, or in the same argument. -/
inductive Placing where
  | short
  | long
  | joined
  | assigned

namespace Placing

/-- The option behind its first dash. -/
def letters : Placing → Text → Text
  | .short, _ => ['n']
  | .long, _ => "-max-steps".toList
  | .joined, value => 'n' :: value
  | .assigned, value => "-max-steps=".toList ++ value

def behind : Placing → Text → List Text
  | .short, value => [value]
  | .long, value => [value]
  | .joined, _ => []
  | .assigned, _ => []

/-- With nothing joined to it a short option would take the next argument. -/
def Fits (placing : Placing) (value : Text) : Prop := placing = .joined → value ≠ []

end Placing

/-- An option with listing letters between its first dash and the rest of it. -/
def bundled (flags : Nat) (letters : Text) : Text := '-' :: (List.replicate flags 'l' ++ letters)

def limitArguments (flags : Nat) (placing : Placing) (value : Text) : List Text :=
  bundled flags (placing.letters value) :: placing.behind value

def listingLetters (long : Bool) : Text := if long then "-listing".toList else ['l']

/-- What one or two arguments stand for, and how they spell it. -/
inductive Item where
  | operand (name : Text)
  | listing (flags : Nat) (long : Bool)
  | trace (flags : Nat)
  | limit (flags : Nat) (placing : Placing) (value : Text) (count : Double)

namespace Item

def arguments : Item → List Text
  | .operand name => [name]
  | .listing flags long => [bundled flags (listingLetters long)]
  | .trace flags => [bundled flags "-trace".toList]
  | .limit flags placing value _ => limitArguments flags placing value

inductive Legal : Item → Prop
  | operand {name : Text} (plain : name.head? ≠ some '-') : Legal (.operand name)
  | listing (flags : Nat) (long : Bool) : Legal (.listing flags long)
  | trace (flags : Nat) : Legal (.trace flags)
  | limit (flags : Nat) {placing : Placing} {value : Text} {count : Double}
      (fits : placing.Fits value) (counts : Counts value count) :
      Legal (.limit flags placing value count)

def operand? : Item → Option Text
  | .operand name => some name
  | .listing _ _ => none
  | .trace _ => none
  | .limit _ _ _ _ => none

def lists : Item → Bool
  | .operand _ => false
  | .listing _ _ => true
  | .trace flags => 0 < flags
  | .limit flags _ _ _ => 0 < flags

def traces : Item → Bool
  | .operand _ => false
  | .listing _ _ => false
  | .trace _ => true
  | .limit _ _ _ _ => false

def count? : Item → Option Double
  | .operand _ => none
  | .listing _ _ => none
  | .trace _ => none
  | .limit _ _ _ count => some count

end Item

/-- The first operand, or the default where there is none. -/
def programOf (items : List Item) : Text :=
  (items.filterMap Item.operand?).headD "code.txt".toList

def optionsOf (items : List Item) : Launch.Options where
  listing := items.any Item.lists
  trace := items.any Item.traces
  maxSteps := (items.filterMap Item.count?).getLast?

/-- A scan that has read some items more. -/
def Scan.extended (scan : Scan) (items : List Item) : Scan where
  options := {
    listing := scan.options.listing || items.any Item.lists
    trace := scan.options.trace || items.any Item.traces
    maxSteps := (items.filterMap Item.count?).getLast?.or scan.options.maxSteps }
  operands := scan.operands ++ items.filterMap Item.operand?
  unknown := scan.unknown

variable {scan : Scan} {value name letters : Text} {count : Double} {placing : Placing}
  {item : Item} {items : List Item}

theorem extended_nil (scan : Scan) : scan.extended [] = scan := by
  simp [Scan.extended]

theorem extended_single (scan : Scan) (item : Item) : scan.extended [item] =
    ⟨⟨scan.options.listing || item.lists, scan.options.trace || item.traces,
        item.count?.or scan.options.maxSteps⟩,
      scan.operands ++ item.operand?.toList, scan.unknown⟩ := by
  have counted : ([item].filterMap Item.count?).getLast? = item.count? := by
    cases item <;> rfl
  have named : [item].filterMap Item.operand? = item.operand?.toList := by
    cases item <;> rfl
  simp only [Scan.extended, counted, named, List.any_cons, List.any_nil, Bool.or_false]

theorem extended_cons (scan : Scan) (item : Item) (items : List Item) :
    scan.extended (item :: items) = (scan.extended [item]).extended items := by
  have named : (item :: items).filterMap Item.operand? =
      item.operand?.toList ++ items.filterMap Item.operand? := by
    cases item <;> rfl
  have last : ∀ limit : Option Double,
      ((item :: items).filterMap Item.count?).getLast?.or limit =
        (items.filterMap Item.count?).getLast?.or (item.count?.or limit) := by
    intro limit
    cases counted : item.count? with
    | none => simp [counted]
    | some count =>
        rw [List.filterMap_cons_some counted, List.getLast?_cons]
        cases (items.filterMap Item.count?).getLast? <;> rfl
  rw [extended_single]
  simp only [Scan.extended, last, named, List.any_cons, Bool.or_assoc, List.append_assoc]

theorem limit_eq_some_iff : limit? value = some count ↔ Counts value count := by
  rw [limit?, Option.filter_eq_some_iff]
  constructor
  · rintro ⟨reads, positive⟩
    refine ⟨reads, ?_⟩
    cases whole : count.whole? with
    | none =>
        rw [whole] at positive
        cases positive
    | some n =>
        rw [whole] at positive
        exact ⟨n, rfl, of_decide_eq_true positive⟩
  · rintro ⟨reads, n, whole, positive⟩
    refine ⟨reads, ?_⟩
    rw [whole]
    exact decide_eq_true positive

theorem limit_eq_none_iff : limit? value = none ↔ ∀ count, ¬Counts value count := by
  simp only [← limit_eq_some_iff, Option.eq_none_iff_forall_ne_some, ne_eq]

theorem unbundle_flags (whole : unbundle letters = (false, letters)) (nonempty : letters ≠ [])
    (flags : Nat) :
    unbundle (List.replicate flags 'l' ++ letters) = (decide (0 < flags), letters) := by
  induction flags with
  | zero => exact whole
  | succ flags ih =>
      have remains : List.replicate flags 'l' ++ letters ≠ [] := by simp [nonempty]
      obtain ⟨next, rest, split⟩ := List.exists_cons_of_ne_nil remains
      rw [List.replicate_succ, List.cons_append, split, unbundle, ← split, ih]
      simp

/-- The listing letters are taken off first, and the rest is read as an argument of its own. -/
theorem parse_bundled (whole : unbundle letters = (false, letters)) (nonempty : letters ≠ [])
    (scan : Scan) (flags : Nat) (rest : List Text) :
    parseFrom scan (bundled flags letters :: rest) =
      parseFrom { scan with options := { scan.options with
        listing := scan.options.listing || decide (0 < flags) } } (('-' :: letters) :: rest) := by
  have taken : splitFlags (bundled flags letters) = (decide (0 < flags), '-' :: letters) := by
    simp only [splitFlags, bundled, unbundle_flags whole nonempty flags]
  have left : splitFlags ('-' :: letters) = (false, '-' :: letters) := by
    simp only [splitFlags, whole]
  rw [parseFrom, parseFrom, taken, left]
  by_cases listed : 0 < flags
  · simp [listed, Scan.withListing]
  · simp [listed]

/-- With the names of the options letter by letter. -/
theorem token_of_eq (argument : Text) : tokenOf argument =
    if argument = ['-', '-'] then .endOfOptions
    else if argument = ['-', 'V'] ∨ argument = ['-', '-', 'v', 'e', 'r', 's', 'i', 'o', 'n'] then
      .version
    else if argument = ['-', 'l'] ∨ argument = ['-', '-', 'l', 'i', 's', 't', 'i', 'n', 'g'] then
      .listing
    else if argument = ['-', '-', 't', 'r', 'a', 'c', 'e'] then .trace
    else if argument = ['-', 'n'] ∨
        argument = ['-', '-', 'm', 'a', 'x', '-', 's', 't', 'e', 'p', 's'] then .limit none
    else
      match argument with
      | '-' :: 'V' :: _ => .version
      | '-' :: 'n' :: value => .limit (some value)
      | _ =>
          if limitMark.isPrefixOf argument then .limit (some (argument.drop limitMark.length))
          else if looksLikeOption argument then .unknown
          else .operand := rfl

theorem token_of_operand (plain : name.head? ≠ some '-') :
    splitFlags name = (false, name) ∧ tokenOf name = .operand := by
  cases name with
  | nil => exact ⟨rfl, rfl⟩
  | cons c rest =>
      have other : c ≠ '-' := fun same => plain (by rw [same]; rfl)
      have dashed : limitMark = '-' :: "-max-steps=".toList := rfl
      constructor
      · simp [splitFlags, other]
      · simp [token_of_eq, dashed, looksLikeOption, other, other.symm]

theorem token_of_joined (nonempty : value ≠ []) :
    tokenOf ('-' :: 'n' :: value) = .limit (some value) := by
  simp [token_of_eq, nonempty]

theorem token_of_assigned (value : Text) :
    tokenOf (limitMark ++ value) = .limit (some value) := by
  have letters : limitMark = ['-', '-', 'm', 'a', 'x', '-', 's', 't', 'e', 'p', 's', '='] := rfl
  rw [token_of_eq]
  simp [letters]

theorem parse_operand (plain : name.head? ≠ some '-') (known : scan.unknown = [])
    (rest : List Text) :
    parseFrom scan (name :: rest) = parseFrom (scan.extended [.operand name]) rest := by
  obtain ⟨whole, token⟩ := token_of_operand plain
  rw [parseFrom, whole]
  simp only [token]
  simp [Scan.keepOperands, known, extended_single, Item.operand?, Item.lists, Item.traces,
    Item.count?]

theorem parse_listing (scan : Scan) (long : Bool) (rest : List Text) :
    parseFrom scan (('-' :: listingLetters long) :: rest) =
      parseFrom scan.withListing rest := by
  cases long <;> rfl

theorem parse_trace (scan : Scan) (rest : List Text) :
    parseFrom scan (('-' :: "-trace".toList) :: rest) = parseFrom scan.withTrace rest := rfl

theorem parse_attached {argument : Text} (whole : splitFlags argument = (false, argument))
    (token : tokenOf argument = .limit (some value)) (scan : Scan) (rest : List Text) :
    parseFrom scan (argument :: rest) =
      match limit? value with
      | some count => parseFrom (scan.withLimit count) rest
      | none => invalidLimit value := by
  rw [parseFrom, whole]
  simp only [token]
  rfl

/-- Wherever its value stands, a limit is read once and the reading goes on behind it. -/
theorem parse_limit (fits : placing.Fits value) (scan : Scan) (rest : List Text) :
    parseFrom scan (('-' :: placing.letters value) :: (placing.behind value ++ rest)) =
      match limit? value with
      | some count => parseFrom (scan.withLimit count) rest
      | none => invalidLimit value := by
  cases placing with
  | short => rfl
  | long => rfl
  | joined => exact parse_attached rfl (token_of_joined (fits rfl)) scan rest
  | assigned => exact parse_attached rfl (token_of_assigned value) scan rest

theorem letters_whole (fits : placing.Fits value) :
    unbundle (placing.letters value) = (false, placing.letters value) ∧
      placing.letters value ≠ [] := by
  cases placing <;> exact ⟨rfl, List.cons_ne_nil _ _⟩

theorem parse_item (legal : item.Legal) (known : scan.unknown = []) (rest : List Text) :
    parseFrom scan (item.arguments ++ rest) = parseFrom (scan.extended [item]) rest := by
  cases legal with
  | operand plain => exact parse_operand plain known rest
  | listing flags long =>
      have whole : unbundle (listingLetters long) = (false, listingLetters long) := by
        cases long <;> rfl
      have nonempty : listingLetters long ≠ [] := by
        cases long <;> exact List.cons_ne_nil _ _
      rw [Item.arguments, List.singleton_append, parse_bundled whole nonempty, parse_listing]
      simp [Scan.withListing, extended_single, Item.lists, Item.traces, Item.count?, Item.operand?]
  | trace flags =>
      have whole : unbundle "-trace".toList = (false, "-trace".toList) := rfl
      rw [Item.arguments, List.singleton_append,
        parse_bundled whole (List.cons_ne_nil _ _), parse_trace]
      simp [Scan.withTrace, extended_single, Item.lists, Item.traces, Item.count?, Item.operand?]
  | limit flags fits counts =>
      obtain ⟨whole, nonempty⟩ := letters_whole fits
      rw [Item.arguments, limitArguments, List.cons_append,
        parse_bundled whole nonempty, parse_limit fits, limit_eq_some_iff.mpr counts]
      simp [Scan.withLimit, extended_single, Item.lists, Item.traces, Item.count?, Item.operand?]

/-- By induction on the items, from any scan that has met no unknown option. -/
theorem parse_items (legal : ∀ item ∈ items, item.Legal) (known : scan.unknown = [])
    (rest : List Text) :
    parseFrom scan (items.flatMap Item.arguments ++ rest) =
      parseFrom (scan.extended items) rest := by
  induction items generalizing scan with
  | nil => rw [List.flatMap_nil, List.nil_append, extended_nil]
  | cons item items ih =>
      have onward : parseFrom (scan.extended [item]) (items.flatMap Item.arguments ++ rest) =
          parseFrom ((scan.extended [item]).extended items) rest :=
        ih (fun other member => legal other (List.mem_cons_of_mem _ member)) known
      rw [List.flatMap_cons, List.append_assoc, parse_item (legal item List.mem_cons_self) known,
        onward, ← extended_cons]

/-- Arguments made of such items ask for one run. -/
theorem parse_spelled (legal : ∀ item ∈ items, item.Legal) :
    parse (items.flatMap Item.arguments) = .run (programOf items) (optionsOf items) := by
  have read : parseFrom .empty (items.flatMap Item.arguments ++ []) =
      parseFrom (Scan.empty.extended items) [] := parse_items legal rfl []
  have options : (Scan.empty.extended items).options = optionsOf items := by
    simp [Scan.extended, Scan.empty, optionsOf]
  have operands : (Scan.empty.extended items).operands = items.filterMap Item.operand? :=
    List.nil_append _
  have known : (Scan.empty.extended items).unknown = [] := rfl
  rw [List.append_nil] at read
  rw [parse, read, parseFrom, Scan.command, known, options, operands]
  rfl

/-- Behind such items, a limit that is no positive integer is refused at once. -/
theorem parse_uncounted (legal : ∀ item ∈ items, item.Legal) (fits : placing.Fits value)
    (uncounted : ∀ count, ¬Counts value count) (flags : Nat) (rest : List Text) :
    parse (items.flatMap Item.arguments ++ (limitArguments flags placing value ++ rest)) =
      invalidLimit value := by
  obtain ⟨whole, nonempty⟩ := letters_whole fits
  rw [parse, parse_items legal rfl, limitArguments, List.cons_append,
    parse_bundled whole nonempty, parse_limit fits, limit_eq_none_iff.mpr uncounted]

/-- The status of a report and what is written on either channel: its lines, each ended by a line
feed. -/
structure Answers (report : Launch.Report) (status : Option Nat)
    (printed warned : List String) : Prop where
  status : report.status = status
  output : channel printed? report.messages = String.join (printed.map (· ++ "\n"))
  errors : channel warned? report.messages = String.join (warned.map (· ++ "\n"))

/-- The launch that the items ask for. -/
def launchOf (items : List Item) (tree : FileTree) (environment : Launch.Environment)
    (fuel : Nat) : Launch.Report :=
  Launch.runFile tree (programOf items) (optionsOf items) environment fuel

/-- In whatever order and spelling, the arguments come to one launch of the first operand with
the options that occur, and to none at all from a limit on that is no positive integer. -/
theorem arguments_come_to_a_launch (legal : ∀ item ∈ items, item.Legal) (tree : FileTree)
    (environment : Launch.Environment) (fuel : Nat) :
    runIn tree (items.flatMap Item.arguments) environment fuel =
        launchOf items tree environment fuel ∧
      Answers (runIn tree (items.flatMap Item.arguments) environment fuel)
        (launchOf items tree environment fuel).status
        (Message.printedLines (launchOf items tree environment fuel).messages)
        (Message.warnedLines (launchOf items tree environment fuel).messages) ∧
      ∀ flags placing value rest, Placing.Fits placing value →
        (∀ count, ¬Counts value count) →
          parse (items.flatMap Item.arguments ++ (limitArguments flags placing value ++ rest)) =
              invalidLimit value ∧
            Answers (runIn tree
                (items.flatMap Item.arguments ++ (limitArguments flags placing value ++ rest))
                environment fuel) (some 1) []
              ["error: option '-n, --max-steps <count>' argument '" ++ String.ofList value ++
                "' is invalid. Must be a positive integer."] := by
  have same : runIn tree (items.flatMap Item.arguments) environment fuel =
      launchOf items tree environment fuel := by
    rw [runIn, parse_spelled legal]
    rfl
  refine ⟨same, ?_, ?_⟩
  · rw [same, ← Message.printed_lines_eq, ← Message.warned_lines_eq]
    exact ⟨rfl, rfl, rfl⟩
  · intro flags placing value rest fits uncounted
    have refused := parse_uncounted legal fits uncounted flags rest
    refine ⟨refused, ?_⟩
    rw [runIn, refused]
    exact ⟨rfl, rfl, rfl⟩

/-- Two listing letters with a limit joined to them, and a later limit behind an operand. -/
def mixedItems : List Item :=
  [.limit 2 .joined ['3'] (Double.ofInt 3), .operand ['u'], .trace 0,
    .limit 0 .short "0x2".toList (Double.ofInt 2), .operand "extra".toList]

def mixedArguments : List Text :=
  ["-lln3".toList, "u".toList, "--trace".toList, "-n".toList, "0x2".toList, "extra".toList]

theorem arguments_come_to_a_launch_mixed :
    (∀ item ∈ mixedItems, item.Legal) ∧ (∀ count, ¬Counts "-1".toList count) ∧
      runIn (FileTree.empty.insert ['u'] (Utf8.encode "push 5\nprt".toList)) mixedArguments {} 2 =
        Launch.runFile (FileTree.empty.insert ['u'] (Utf8.encode "push 5\nprt".toList)) ['u']
          ⟨true, true, some (Double.ofInt 2)⟩ {} 2 ∧
      parse (mixedArguments ++ ["-n".toList, "-1".toList, "-V".toList]) =
        invalidLimit "-1".toList := by
  have three : Counts ['3'] (Double.ofInt 3) := ⟨by decide, 3, by decide, by decide⟩
  have two : Counts "0x2".toList (Double.ofInt 2) := ⟨by decide, 2, by decide, by decide⟩
  have legal : ∀ item ∈ mixedItems, item.Legal := by
    intro item member
    simp only [mixedItems, List.mem_cons, List.not_mem_nil, or_false] at member
    rcases member with rfl | rfl | rfl | rfl | rfl
    · exact .limit 2 (fun _ => List.cons_ne_nil _ _) three
    · exact .operand (by decide)
    · exact .trace 0
    · exact .limit 0 nofun two
    · exact .operand (by decide)
  have uncounted : ∀ count, ¬Counts "-1".toList count :=
    limit_eq_none_iff.mp (by decide)
  have launch := arguments_come_to_a_launch legal
    (FileTree.empty.insert ['u'] (Utf8.encode "push 5\nprt".toList)) {} 2
  exact ⟨legal, uncounted, launch.1,
    (launch.2.2 0 .short "-1".toList ["-V".toList] nofun uncounted).1⟩

end StackMachine.CommandLine
