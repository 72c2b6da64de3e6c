import StackMachine.Proofs.Preparing
import Mathlib.Data.List.Nodup

/-!
# What is accepted, and what is reported

A source is refused at the first line that declares no name or a name declared before; only
where there is no such line is it refused at the first move whose operands have no shape that
stands for an operation. Moves are judged as they read once the labels have been put in.
-/

namespace StackMachine

set_option autoImplicit false

namespace Label

/-- The line at an index is the mark of a label and a name behind it, between blanks. -/
def Declares (source : List Text) (index : Nat) (name : Text) : Prop :=
  ∃ text, source[index]? = some text ∧ Text.trim text = mark :: name

structure WellDeclared (source : List Text) : Prop where
  named : ∀ index, ¬Declares source index []
  distinct : ∀ name first second, Declares source first name → Declares source second name →
    first = second

/-- Declares no name, or one that an earlier line declares too. -/
def Faulty (source : List Text) (index : Nat) : Prop :=
  ∃ name, Declares source index name ∧
    (name = [] ∨ ∃ first, first < index ∧ Declares source first name)

/-- What is wrong with a declaration. The line that is named with a reused label is the first
one that declares it. -/
inductive Misdeclared (source : List Text) (index : Nat) : Defect → Prop
  | unnamed (declares : Declares source index []) : Misdeclared source index .unnamedLabel
  | reused {name : Text} {first : Nat} (named : name ≠ []) (declares : Declares source index name)
      (declared : Declares source first name) (earlier : first < index)
      (least : ∀ other, Declares source other name → first ≤ other) :
      Misdeclared source index (.reusedLabel name first)

/-- The first line that is at fault, and what is wrong there. -/
structure FirstFault (source : List Text) (index : Nat) (defect : Defect) : Prop where
  within : index < source.length
  misdeclared : Misdeclared source index defect
  least : ∀ earlier, earlier < index → ¬Faulty source earlier

variable {source before after : List Text} {labels : List Label} {text name : Text}
  {index line : Nat} {failure : Failure}

theorem declares_iff :
    Declares source index name ↔ (⟨name, index⟩ : Label) ∈ declarationsFrom 0 source := by
  constructor
  · rintro ⟨text, there, trimmed⟩
    have member : (⟨name, 0 + index⟩ : Label) ∈ declarationsFrom 0 source :=
      mem_declarations_from there (declared_eq_some_iff.mpr trimmed)
    rwa [Nat.zero_add] at member
  · intro member
    obtain ⟨offset, text, there, declares, same⟩ := line_of_mem_declarations member
    rw [Nat.zero_add] at same
    subst same
    exact ⟨text, there, declared_eq_some_iff.mp declares⟩

theorem declares_append (within : index < before.length) :
    Declares (before ++ after) index name ↔ Declares before index name := by
  simp only [Declares, List.getElem?_append_left within]

theorem lt_of_declares (declares : Declares source index name) : index < source.length := by
  obtain ⟨text, there, -⟩ := declares
  exact (List.getElem?_eq_some_iff.mp there).1

theorem not_declares (there : source[index]? = some text) (undeclared : declared? text = none)
    (name : Text) : ¬Declares source index name := by
  rintro ⟨other, here, trimmed⟩
  rw [there] at here
  cases here
  rw [declared_eq_some_iff.mpr trimmed] at undeclared
  cases undeclared

/-- Declarations are listed from the first line to the last. -/
theorem declarations_sorted (source : List Text) (start : Nat) :
    (declarationsFrom start source).Pairwise fun a b => a.line < b.line := by
  induction source generalizing start with
  | nil => exact .nil
  | cons text rest ih =>
      rw [declarationsFrom]
      split
      · refine .cons ?_ (ih (start + 1))
        intro label member
        obtain ⟨offset, other, -, -, line⟩ := line_of_mem_declarations member
        change start < label.line
        omega
      · exact ih (start + 1)

theorem collect_ok_iff :
    (∃ labels, collect source = .ok labels) ↔ WellDeclared source := by
  constructor
  · rintro ⟨labels, collected⟩
    obtain ⟨same, distinct, named⟩ := declarations_of_collect collected
    constructor
    · intro index declares
      rw [declares_iff, ← same] at declares
      exact named (List.mem_map_of_mem declares)
    · intro name first second declares again
      rw [declares_iff, ← same] at declares again
      have one := List.inj_on_of_nodup_map distinct declares again rfl
      exact congrArg Label.line one
  · intro well
    refine ⟨_, collect_distinct ?_ ?_⟩
    · intro member
      obtain ⟨label, there, empty⟩ := List.mem_map.mp member
      apply well.named label.line
      rw [declares_iff, ← empty]
      exact there
    · have sorted := declarations_sorted source 0
      refine List.pairwise_map.mpr (sorted.imp_of_mem ?_)
      intro a b first second earlier same
      have declares : Declares source a.line a.name := declares_iff.mpr first
      have again : Declares source b.line a.name := same ▸ declares_iff.mpr second
      have one := well.distinct a.name a.line b.line declares again
      omega

/-- What goes wrong while declarations are gathered goes wrong at one line, and nothing has
gone wrong at those before it. -/
theorem refused_of_collect_from (refused : collectFrom line labels source = .error failure) :
    ∃ before text after kept, source = before ++ text :: after ∧
      collectFrom line labels before = .ok kept ∧
      declare kept text (line + before.length) = .error failure := by
  induction source generalizing line labels with
  | nil => cases refused
  | cons first rest ih =>
      rw [collectFrom] at refused
      cases declared : declare labels first line with
      | error found =>
          rw [declared] at refused
          cases refused
          exact ⟨[], first, rest, labels, rfl, rfl, declared⟩
      | ok next =>
          rw [declared] at refused
          obtain ⟨before, text, after, kept, split, passed, stops⟩ := ih refused
          refine ⟨first :: before, text, after, kept, by rw [split]; rfl, ?_, ?_⟩
          · rw [collectFrom, declared]
            exact passed
          · have place : line + (first :: before).length = line + 1 + before.length := by
              rw [List.length_cons]
              omega
            rw [place]
            exact stops

theorem refused_of_declare (refused : declare labels text line = .error failure) :
    declared? text = some [] ∧ failure = .program line .unnamedLabel ∨
      ∃ name first, declared? text = some name ∧ name ≠ [] ∧ (⟨name, first⟩ : Label) ∈ labels ∧
        failure = .program line (.reusedLabel name first) := by
  unfold declare at refused
  split at refused
  · cases refused
  · rename_i unnamed
    cases refused
    exact .inl ⟨unnamed, rfl⟩
  · rename_i name named declares
    split at refused
    · rename_i first found
      cases refused
      obtain ⟨label, found, line⟩ := Option.map_eq_some_iff.mp found
      have member := List.mem_of_find?_eq_some found
      have named_so := List.find?_some found
      have same : label.name = name := eq_of_beq named_so
      rw [← same, ← line]
      exact .inr ⟨label.name, label.line, by rw [declares, same], same ▸ named, member, rfl⟩
    · cases refused

theorem not_faulty_of_well_declared (well : WellDeclared before) (within : index < before.length) :
    ¬Faulty (before ++ after) index := by
  rintro ⟨name, declares, unnamed | ⟨first, earlier, declared⟩⟩
  · rw [declares_append within, unnamed] at declares
    exact well.named index declares
  · rw [declares_append within] at declares
    rw [declares_append (by omega)] at declared
    have one := well.distinct name first index declared declares
    omega

theorem not_well_declared_of_misdeclared {defect : Defect}
    (wrong : Misdeclared source index defect) : ¬WellDeclared source := by
  intro well
  cases wrong with
  | unnamed declares => exact well.named index declares
  | reused named declares declared earlier least =>
      exact Nat.ne_of_lt earlier (well.distinct _ _ _ declared declares)

theorem first_fault_of_collect (refused : collect source = .error failure) :
    ∃ (index : Nat) (defect : Defect),
      failure = .program index defect ∧ FirstFault source index defect := by
  obtain ⟨before, text, after, kept, split, passed, stops⟩ := refused_of_collect_from refused
  subst split
  rw [Nat.zero_add] at stops
  have well : WellDeclared before := collect_ok_iff.mp ⟨kept, passed⟩
  obtain ⟨gathered, -, -⟩ := declarations_of_collect passed
  have here : (before ++ text :: after)[before.length]? = some text := by simp
  have within : before.length < (before ++ text :: after).length := by simp
  have least : ∀ earlier, earlier < before.length → ¬Faulty (before ++ text :: after) earlier :=
    fun earlier shorter => not_faulty_of_well_declared well shorter
  rcases refused_of_declare stops with
      ⟨unnamed, same⟩ | ⟨name, first, declares, named, member, same⟩
  · have declares : Declares (before ++ text :: after) before.length [] :=
      ⟨text, here, declared_eq_some_iff.mp unnamed⟩
    exact ⟨before.length, .unnamedLabel, same, within, .unnamed declares, least⟩
  · have declared : Declares before first name := by
      rw [declares_iff, ← gathered]
      exact member
    have earlier := lt_of_declares declared
    refine ⟨before.length, .reusedLabel name first, same, within, ?_, least⟩
    refine .reused named ⟨text, here, declared_eq_some_iff.mp declares⟩
      ((declares_append earlier).mpr declared) earlier ?_
    intro other declares
    by_cases shorter : other < before.length
    · rw [declares_append shorter] at declares
      exact Nat.le_of_eq (well.distinct name first other declared declares)
    · omega

end Label

namespace Move

/-- The operands that the shorthand takes. -/
inductive Shaped : List Text → Prop
  | register {operand : Text} (plain : operand.head? ≠ some '[') : Shaped [operand]
  | stack {inner : Text} (nonempty : inner ≠ []) : Shaped ['[' :: (inner ++ [']'])]
  | registers {source target : Text} (source_plain : source.head? ≠ some '[')
      (target_plain : target.head? ≠ some '[') : Shaped [source, target]

/-- What is wrong with operands that have none of these shapes. -/
inductive Misshapen : List Text → Defect → Prop
  | unclosed {operand : Text} (marked : operand.head? = some '[')
      (unclosed : ∀ inner, inner ≠ [] → operand ≠ '[' :: (inner ++ [']'])) :
      Misshapen [operand] (.malformedStackOperand operand)
  | marked {source target : Text}
      (marked : source.head? = some '[' ∨ target.head? = some '[') :
      Misshapen [source, target] (.stackOperandInPair [source, target])
  | counted {operands : List Text} (not_one : operands.length ≠ 1)
      (not_two : operands.length ≠ 2) : Misshapen operands (.moveArity operands.length)

/-- A line that reads as a move of these operands. -/
def Moves (text : Text) (operands : List Text) : Prop :=
  ∃ mnemonic, Statement.ofLine? text = some ⟨mnemonic, operands⟩ ∧ isMove mnemonic = true

def WellShaped (lines : List Text) : Prop :=
  ∀ text ∈ lines, ∀ operands, Moves text operands → Shaped operands

/-- The first move without a shape, and what is wrong with it. -/
structure FirstMisshapen (lines : List Text) (index : Nat) (defect : Defect) : Prop where
  misshapen : ∃ text operands, lines[index]? = some text ∧ Moves text operands ∧
    Misshapen operands defect
  least : WellShaped (lines.take index)

variable {lines operands : List Text} {operand text inner : Text} {line : Nat} {defect : Defect}
  {failure : Failure}

theorem inner_eq_some_iff :
    inner? operand = some inner ↔ operand = '[' :: (inner ++ [']']) ∧ inner ≠ [] := by
  constructor
  · intro found
    unfold inner? at found
    split at found
    · rename_i rest
      split at found
      · rename_i closed
        cases found
        rw [List.dropLast_append_getLast? _ closed.1]
        exact ⟨rfl, closed.2⟩
      · cases found
    · cases found
  · rintro ⟨rfl, nonempty⟩
    simp [inner?, nonempty]

theorem is_stack_operand_iff : isStackOperand operand = true ↔ operand.head? = some '[' :=
  beq_iff_eq

theorem not_shaped_of_misshapen (wrong : Misshapen operands defect) : ¬Shaped operands := by
  intro shaped
  cases wrong with
  | unclosed marked unclosed =>
      cases shaped with
      | register plain => exact plain marked
      | stack nonempty => exact unclosed _ nonempty rfl
  | marked marked =>
      cases shaped with
      | registers source_plain target_plain => exact marked.elim source_plain target_plain
  | counted not_one not_two =>
      cases shaped with
      | register plain => exact not_one rfl
      | stack nonempty => exact not_one rfl
      | registers source_plain target_plain => exact not_two rfl

/-- Operands either have a shape and are expanded, or they lack one and are refused. -/
theorem expand_cases (operands : List Text) :
    (∃ statement, expand operands = .ok statement ∧ Shaped operands) ∨
      ∃ defect, expand operands = .error defect ∧ Misshapen operands defect := by
  match operands with
  | [] => exact .inr ⟨_, rfl, .counted nofun nofun⟩
  | [operand] =>
      cases marked : isStackOperand operand with
      | false =>
          have plain : operand.head? ≠ some '[' := by
            intro first
            rw [is_stack_operand_iff.mpr first] at marked
            cases marked
          simp only [expand, marked]
          exact .inl ⟨_, rfl, .register plain⟩
      | true =>
          cases found : inner? operand with
          | some inner =>
              have whole := (inner_eq_some_iff.mp found).1
              have nonempty := (inner_eq_some_iff.mp found).2
              simp only [expand, marked, found, if_true]
              exact .inl ⟨_, rfl, whole ▸ .stack nonempty⟩
          | none =>
              have unclosed : ∀ inner, inner ≠ [] → operand ≠ '[' :: (inner ++ [']']) := by
                intro inner nonempty whole
                rw [inner_eq_some_iff.mpr ⟨whole, nonempty⟩] at found
                cases found
              simp only [expand, marked, found, if_true]
              exact .inr ⟨_, rfl, .unclosed (is_stack_operand_iff.mp marked) unclosed⟩
  | [source, target] =>
      cases marked : isStackOperand source || isStackOperand target with
      | false =>
          have plain : ¬(source.head? = some '[' ∨ target.head? = some '[') := by
            rw [← is_stack_operand_iff, ← is_stack_operand_iff, ← Bool.or_eq_true, marked]
            exact Bool.false_ne_true
          simp only [expand, marked]
          exact .inl ⟨_, rfl, .registers (plain ∘ .inl) (plain ∘ .inr)⟩
      | true =>
          have either : source.head? = some '[' ∨ target.head? = some '[' := by
            rwa [← is_stack_operand_iff, ← is_stack_operand_iff, ← Bool.or_eq_true]
          simp only [expand, marked, if_true]
          exact .inr ⟨_, rfl, .marked either⟩
  | first :: second :: third :: rest =>
      have counted : Misshapen (first :: second :: third :: rest) _ :=
        .counted (by simp) (by simp)
      exact .inr ⟨_, rfl, counted⟩

theorem expand_line_moves (moves : Moves text operands) :
    expandLine text = (expand operands).map Statement.toLine := by
  obtain ⟨mnemonic, read, named⟩ := moves
  simp only [expandLine, read, named, if_true]

theorem expand_line_other (other : ∀ operands, ¬Moves text operands) :
    expandLine text = .ok text := by
  unfold expandLine
  cases read : Statement.ofLine? text with
  | none => rfl
  | some statement =>
      have named : ¬isMove statement.mnemonic = true :=
        fun named => other statement.operands ⟨statement.mnemonic, read, named⟩
      simp only [named]
      rfl

theorem expand_line_cases (text : Text) :
    (∃ out, expandLine text = .ok out ∧ ∀ operands, Moves text operands → Shaped operands) ∨
      ∃ operands defect, expandLine text = .error defect ∧ Moves text operands ∧
        Misshapen operands defect := by
  by_cases moves : ∃ operands, Moves text operands
  · obtain ⟨operands, moves⟩ := moves
    rw [expand_line_moves moves]
    rcases expand_cases operands with ⟨statement, expanded, shaped⟩ | ⟨defect, refused, wrong⟩
    · rw [expanded]
      refine .inl ⟨_, rfl, ?_⟩
      intro others again
      obtain ⟨mnemonic, read, -⟩ := moves
      obtain ⟨other, read_again, -⟩ := again
      rw [read] at read_again
      cases read_again
      exact shaped
    · rw [refused]
      exact .inr ⟨operands, defect, rfl, moves, wrong⟩
  · rw [not_exists] at moves
    exact .inl ⟨text, expand_line_other moves, fun operands again => (moves operands again).elim⟩

theorem well_shaped_of_expand_from {out : List Text} (expanded : expandFrom line lines = .ok out) :
    WellShaped lines := by
  intro text member operands moves
  obtain ⟨index, there⟩ := List.getElem?_of_mem member
  obtain ⟨result, -, made⟩ := expanded_of_expand_from expanded there
  rcases expand_line_cases text with ⟨other, -, shaped⟩ | ⟨others, defect, refused, -, -⟩
  · exact shaped operands moves
  · rw [refused] at made
    cases made

/-- By induction on the lines: the first one that is not expanded is the one that is refused. -/
theorem refused_of_expand_from (refused : expandFrom line lines = .error failure) :
    ∃ (index : Nat) (defect : Defect),
      failure = .program (line + index : Nat) defect ∧ FirstMisshapen lines index defect := by
  induction lines generalizing line with
  | nil => cases refused
  | cons first rest ih =>
      rw [expandFrom] at refused
      rcases expand_line_cases first with
        ⟨out, made, shaped⟩ | ⟨operands, defect, wrong, moves, lacks⟩
      · rw [made] at refused
        cases others : expandFrom (line + 1) rest with
        | ok lines =>
            rw [others] at refused
            cases refused
        | error found =>
            rw [others] at refused
            cases refused
            obtain ⟨index, defect, same, fault⟩ := ih others
            have place : line + 1 + index = line + (index + 1) := by omega
            rw [place] at same
            refine ⟨index + 1, defect, same, fault.misshapen, ?_⟩
            intro text member
            rcases List.mem_cons.mp member with here | later
            · rw [here]
              exact shaped
            · exact fault.least text later
      · rw [wrong] at refused
        cases refused
        refine ⟨0, defect, rfl, ⟨first, operands, rfl, moves, lacks⟩, ?_⟩
        exact fun text member => (List.not_mem_nil member).elim

theorem expand_all_ok_iff : (∃ out, expandAll lines = .ok out) ↔ WellShaped lines := by
  constructor
  · rintro ⟨out, expanded⟩
    exact well_shaped_of_expand_from expanded
  · intro shaped
    cases expanded : expandAll lines with
    | ok out => exact ⟨out, rfl⟩
    | error failure =>
        obtain ⟨index, defect, -, fault⟩ := refused_of_expand_from expanded
        obtain ⟨text, operands, there, moves, wrong⟩ := fault.misshapen
        have legal := shaped text (List.mem_of_getElem? there) operands moves
        exact (not_shaped_of_misshapen wrong legal).elim

end Move

namespace Program

variable {source : List Text} {resolved : Program} {failure : Failure}

/-- What resolving makes of a source: the table of its declarations, and each line as it
follows from that table and the line alone. -/
structure Resolves (source : List Text) (resolved : Program) : Prop where
  sorted : resolved.labels.Pairwise fun a b => a.line < b.line
  labels : ∀ name index,
    (⟨name, index⟩ : Label) ∈ resolved.labels ↔ Label.Declares source index name
  length : resolved.lines.length = source.length
  emptied : ∀ index name, Label.Declares source index name → resolved.lines[index]? = some []
  substituted : ∀ index text, source[index]? = some text →
    (∀ name, ¬Label.Declares source index name) →
      resolved.lines[index]? = some (Label.substitute (Label.ranked resolved.labels) text)

theorem resolve_ok_iff :
    (∃ resolved, resolve source = .ok resolved) ↔ Label.WellDeclared source := by
  rw [← Label.collect_ok_iff]
  constructor
  · rintro ⟨resolved, made⟩
    obtain ⟨labels, collected, -⟩ := ok_of_bind made
    exact ⟨labels, collected⟩
  · rintro ⟨labels, collected⟩
    refine ⟨⟨Label.resolve labels source, labels⟩, ?_⟩
    simp only [resolve, collected]
    rfl

theorem resolves_of_resolve (made : resolve source = .ok resolved) : Resolves source resolved := by
  obtain ⟨labels, collected, same⟩ := ok_of_bind made
  cases same
  obtain ⟨gathered, -, -⟩ := Label.declarations_of_collect collected
  constructor
  · rw [gathered]
    exact Label.declarations_sorted source 0
  · intro name index
    rw [gathered]
    exact Label.declares_iff.symm
  · exact List.length_map _
  · rintro index name ⟨text, there, trimmed⟩
    have declares := Label.declared_eq_some_iff.mpr trimmed
    simp only [Label.resolve, List.getElem?_map, there, Option.map_some, Label.resolveLine,
      declares]
  · intro index text there undeclared
    have none : Label.declared? text = none := by
      cases declares : Label.declared? text with
      | none => rfl
      | some name =>
          have trimmed := Label.declared_eq_some_iff.mp declares
          exact (undeclared name ⟨text, there, trimmed⟩).elim
    simp only [Label.resolve, List.getElem?_map, there, Option.map_some, Label.resolveLine, none]

/-- The labels that a source resolves with have distinct names, none of them empty. -/
theorem named_of_resolve (made : resolve source = .ok resolved) :
    (Label.names resolved.labels).Nodup ∧ [] ∉ Label.names resolved.labels := by
  obtain ⟨labels, collected, same⟩ := ok_of_bind made
  cases same
  exact (Label.declarations_of_collect collected).2

theorem prepare_ok_iff :
    (∃ program, prepare source = .ok program) ↔
      ∃ resolved, resolve source = .ok resolved ∧ Move.WellShaped resolved.lines := by
  constructor
  · rintro ⟨program, prepared⟩
    obtain ⟨resolved, made, onward⟩ := ok_of_bind prepared
    obtain ⟨lines, expanded, -⟩ := ok_of_bind onward
    exact ⟨resolved, made, Move.expand_all_ok_iff.mp ⟨lines, expanded⟩⟩
  · rintro ⟨resolved, made, shaped⟩
    obtain ⟨lines, expanded⟩ := Move.expand_all_ok_iff.mpr shaped
    refine ⟨⟨lines, resolved.labels⟩, ?_⟩
    simp only [prepare, made, bind, Except.bind, expanded]
    rfl

theorem fault_of_resolve (refused : resolve source = .error failure) :
    ∃ (index : Nat) (defect : Defect),
      failure = .program index defect ∧ Label.FirstFault source index defect := by
  rcases error_of_bind refused with collected | ⟨labels, -, made⟩
  · exact Label.first_fault_of_collect collected
  · cases made

/-- A source that is refused has a line at fault among its declarations, or else its
declarations are in order and it has a move without a shape. -/
theorem fault_of_prepare (refused : prepare source = .error failure) :
    ∃ (index : Nat) (defect : Defect), failure = .program index defect ∧
      (Label.FirstFault source index defect ∨
        ∃ resolved, resolve source = .ok resolved ∧
          Move.FirstMisshapen resolved.lines index defect) := by
  rcases error_of_bind refused with unresolved | ⟨resolved, made, onward⟩
  · obtain ⟨index, defect, same, fault⟩ := fault_of_resolve unresolved
    exact ⟨index, defect, same, .inl fault⟩
  · rcases error_of_bind onward with unexpanded | ⟨lines, -, done⟩
    · obtain ⟨index, defect, same, fault⟩ := Move.refused_of_expand_from unexpanded
      rw [Nat.zero_add] at same
      exact ⟨index, defect, same, .inr ⟨resolved, made, fault⟩⟩
    · cases done

/-- Which sources are accepted, what is made of their labels, and where and why all others
are refused. Declarations come first: a move is only looked at once all of them are in order. -/
theorem prepare_accepts (source : List Text) :
    ((∃ resolved, resolve source = .ok resolved) ↔ Label.WellDeclared source) ∧
      (∀ resolved, resolve source = .ok resolved → Resolves source resolved) ∧
      (∀ failure, resolve source = .error failure →
        ∃ (index : Nat) (defect : Defect),
          failure = .program index defect ∧ Label.FirstFault source index defect) ∧
      ((∃ program, prepare source = .ok program) ↔
        ∃ resolved, resolve source = .ok resolved ∧ Move.WellShaped resolved.lines) ∧
      ∀ failure, prepare source = .error failure →
        ∃ (index : Nat) (defect : Defect), failure = .program index defect ∧
          (Label.FirstFault source index defect ∨
            ∃ resolved, resolve source = .ok resolved ∧
              Move.FirstMisshapen resolved.lines index defect) :=
  ⟨resolve_ok_iff, fun _ made => resolves_of_resolve made,
    fun _ refused => fault_of_resolve refused, prepare_ok_iff,
    fun _ refused => fault_of_prepare refused⟩

/-- A label on the first line, and a move that has no shape whatever the label stands for. -/
def unclosedLines : List Text := [":a".toList, "mov [a".toList]

/-- The same label again, behind that move. -/
def reusedLines : List Text := unclosedLines ++ [" :a ".toList]

theorem prepare_accepts_unclosed :
    ∃ resolved, resolve unclosedLines = .ok resolved ∧ Resolves unclosedLines resolved ∧
      prepare unclosedLines = .error (.program 1 (.malformedStackOperand "[0".toList)) ∧
      Move.FirstMisshapen resolved.lines 1 (.malformedStackOperand "[0".toList) ∧
      prepare reusedLines = .error (.program 2 (.reusedLabel "a".toList 0)) ∧
      Label.FirstFault reusedLines 2 (.reusedLabel "a".toList 0) := by
  obtain ⟨accepts, resolves, -, -, refuses⟩ := prepare_accepts unclosedLines
  obtain ⟨-, -, -, -, refuses_reused⟩ := prepare_accepts reusedLines
  have collected : Label.collect unclosedLines = .ok [⟨"a".toList, 0⟩] := rfl
  have made : resolve unclosedLines = .ok ⟨[[], "mov [0".toList], [⟨"a".toList, 0⟩]⟩ :=
    resolve_single collected
  have refused : prepare unclosedLines =
      .error (.program 1 (.malformedStackOperand "[0".toList)) := by
    simp only [prepare, made]
    rfl
  have reused : prepare reusedLines = .error (.program 2 (.reusedLabel "a".toList 0)) := rfl
  refine ⟨_, made, resolves _ made, refused, ?_, reused, ?_⟩
  · obtain ⟨index, defect, same, fault | ⟨resolved, again, misshapen⟩⟩ := refuses _ refused
    · have well := accepts.mp ⟨_, made⟩
      exact (Label.not_well_declared_of_misdeclared fault.misdeclared well).elim
    · rw [made] at again
      cases same
      cases again
      exact misshapen
  · obtain ⟨index, defect, same, fault | ⟨resolved, again, -⟩⟩ := refuses_reused _ reused
    · cases same
      exact fault
    · cases again

end Program

end StackMachine
