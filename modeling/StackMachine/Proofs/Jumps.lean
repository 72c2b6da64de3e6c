import Mathlib.Data.List.Nodup
import StackMachine.Proofs.Assembly
import StackMachine.Proofs.Preparing
import StackMachine.Proofs.Progress

/-!
# Jumps to labels

A jump names a label, and the program holds the index of the declaring line in its place.
When the jump is taken, the index goes through the first argument register into the jump
register and from there to the pointer. Line zero is the exception: its index in the jump
register means that there is no jump.
-/

namespace StackMachine

set_option autoImplicit false

open Symbolic (Operand Table Command Written)

theorem Cell.int_of_int {i : Int} (least : Instruction.least ≤ i)
    (greatest : i ≤ Instruction.greatest) : (Cell.ofInt i).int = i := by
  simp only [Instruction.least, Instruction.greatest] at least greatest
  rw [Cell.ofInt, Cell.int, BitVec.toInt_ofInt]
  apply Int.bmod_eq_of_le <;> omega

theorem State.get_loaded_first (opcode : Opcode) (s : State) :
    (s.loaded opcode.scratch).registers.get .arg0 = s.registers.get .arg0 := by
  have second : Register.arg1 ≠ Register.arg0 := by decide
  have third : Register.arg2 ≠ Register.arg0 := by decide
  cases opcode with
  | stackToRegister | jumpZero | jumpNonzero =>
      exact Registers.get_set_other _ _ _ _ second
  | jumpEqual | jumpDifferent => exact Registers.get_set_other _ _ _ _ third
  | _ => rfl

namespace Symbolic

/-- A jump. The conditional ones look at the bottom of the stack, and the last two compare
it with a value. -/
inductive Branch where
  | always
  | zero
  | nonzero
  | equal (value : Operand)
  | different (value : Operand)

namespace Branch

def opcode : Branch → Opcode
  | .always => .jump
  | .zero => .jumpZero
  | .nonzero => .jumpNonzero
  | .equal _ => .jumpEqual
  | .different _ => .jumpDifferent

/-- What stands behind the target of a jump. -/
def compared : Branch → List Operand
  | .equal value => [value]
  | .different value => [value]
  | _ => []

def command (name : Text) (branch : Branch) : Command :=
  .operation branch.opcode (.reference name :: branch.compared)

/-- The jump is taken where this is the bottom of the stack. -/
def Taken (table : Table) (bottom : Cell) : Branch → Prop
  | .always => True
  | .zero => bottom.int = 0
  | .nonzero => bottom.int ≠ 0
  | .equal value => value.assemble table = .ok bottom.int
  | .different value => ∃ i, value.assemble table = .ok i ∧ i ≠ bottom.int

/-- The condition as the machine finds it, with the operands in the argument registers. -/
def holds (s : State) : Branch → Bool
  | .always => true
  | .zero => s.stack.bottom.isZero
  | .nonzero => !s.stack.bottom.isZero
  | .equal _ => s.registers.get .arg1 == s.stack.bottom
  | .different _ => !(s.registers.get .arg1 == s.stack.bottom)

theorem execute_eq_jump (branch : Branch) (s : State) :
    branch.opcode.execute s =
      Opcode.jumpIf (branch.holds s) (s.loaded branch.opcode.scratch) := by
  cases branch with
  | always => rfl
  | zero | nonzero =>
      simp only [opcode, Opcode.execute, Action.bind_run, Opcode.bottom_is_zero_run]
      rfl
  | equal value | different value =>
      simp only [opcode, Opcode.execute, Action.bind_run, Opcode.matches_bottom_run]
      rfl

theorem execute_taken {branch : Branch} {s : State} (holds : branch.holds s = true) :
    ∃ done, branch.opcode.execute s = .ok () done ∧
      done.registers.get .jump = s.registers.get .arg0 := by
  rw [execute_eq_jump, holds, Opcode.jump_if_run, if_pos rfl]
  refine ⟨_, rfl, ?_⟩
  rw [Registers.get_set_same]
  exact State.get_loaded_first _ s

end Branch

theorem bounds_of_checked {text : Text} {value i : Int}
    (fits : Operand.checked text value = .ok i) :
    i = value ∧ Instruction.least ≤ value ∧ value ≤ Instruction.greatest := by
  rw [Operand.checked] at fits
  split at fits
  · rename_i bounds
    cases fits
    exact ⟨rfl, bounds⟩
  · cases fits

theorem declared_of_lookup {table : Table} {name : Text} {line : Nat}
    (found : table.lookup name = some line) : name ∈ table.map Prod.fst := by
  obtain ⟨before, after, parted, -⟩ := List.lookup_eq_some_iff.mp found
  rw [parted, List.map_append, List.map_cons]
  exact List.mem_append_right _ List.mem_cons_self

theorem legal_of_assemble {table : Table} {operand : Operand} {i : Int}
    (assembled : operand.assemble table = .ok i) :
    operand.Legal table ∧ Instruction.least ≤ i ∧ i ≤ Instruction.greatest := by
  cases operand with
  | number literal =>
      obtain ⟨same, bounds⟩ := bounds_of_checked assembled
      rw [same]
      exact ⟨bounds, bounds⟩
  | reference name =>
      rw [Operand.assemble] at assembled
      split at assembled
      · rename_i line found
        obtain ⟨same, bounds⟩ := bounds_of_checked assembled
        rw [same]
        exact ⟨declared_of_lookup found, bounds⟩
      · cases assembled

namespace Branch

/-- A taken jump has operands that assemble, and finds its condition true once they are
staged behind the target. -/
theorem values_of_taken {branch : Branch} {table : Table} {bottom : Cell}
    (taken : branch.Taken table bottom) :
    ∃ values, branch.compared.mapM (Operand.assemble table) = .ok values ∧
      ∀ (s : State) (target : Int), s.stack.bottom = bottom →
        branch.holds { s with registers := Instruction.stage (target :: values) s.registers } =
          true := by
  cases branch with
  | always => exact ⟨[], rfl, fun _ _ _ => rfl⟩
  | zero =>
      have clear : bottom = .zero := Cell.int_injective taken
      refine ⟨[], rfl, ?_⟩
      intro s target same
      rw [holds, same, clear]
      rfl
  | nonzero =>
      refine ⟨[], rfl, ?_⟩
      intro s target same
      have filled : bottom ≠ .zero := fun clear => taken (by rw [clear]; rfl)
      simp only [holds, same, Cell.isZero, Bool.not_eq_true', beq_eq_false_iff_ne]
      exact filled
  | equal value =>
      have assembled : value.assemble table = .ok bottom.int := taken
      refine ⟨[bottom.int], ?_, ?_⟩
      · rw [compared, List.mapM_cons, assembled]
        rfl
      · intro s target same
        have staged : (Instruction.stage [target, bottom.int] s.registers).get .arg1 =
            Cell.ofInt bottom.int := Instruction.get_stage (n := 1) rfl rfl _
        simp only [holds, same, staged, Cell.of_int_int, beq_self_eq_true]
  | different value =>
      obtain ⟨i, assembled, distinct⟩ := taken
      refine ⟨[i], ?_, ?_⟩
      · rw [compared, List.mapM_cons, assembled]
        rfl
      · intro s target same
        obtain ⟨-, least, greatest⟩ := legal_of_assemble assembled
        have staged : (Instruction.stage [target, i] s.registers).get .arg1 = Cell.ofInt i :=
          Instruction.get_stage (n := 1) rfl rfl _
        simp only [holds, same, staged, Bool.not_eq_true', beq_eq_false_iff_ne]
        intro equal
        rw [← equal, Cell.int_of_int least greatest] at distinct
        exact distinct rfl

theorem legal_of_taken {branch : Branch} {table : Table} {bottom : Cell} {name : Text}
    (declared : name ∈ table.map Prod.fst)
    (apart : ∀ other ∈ table.map Prod.fst, ¬other <:+: branch.opcode.mnemonic)
    (taken : branch.Taken table bottom) : (branch.command name).Legal table where
  apart := apart
  few := by
    cases branch <;> simp [command, Command.operands, compared]
  operands := by
    intro operand member
    rcases List.mem_cons.mp member with same | within
    · rw [same]
      exact declared
    · cases branch with
      | always | zero | nonzero => exact absurd within List.not_mem_nil
      | equal value =>
          rw [List.mem_singleton.mp within]
          exact (legal_of_assemble taken).1
      | different value =>
          obtain ⟨i, assembled, -⟩ := taken
          rw [List.mem_singleton.mp within]
          exact (legal_of_assemble assembled).1

end Branch

end Symbolic

/-- The labels of a program as the reference assembler has them. -/
def Program.table (program : Program) : Table :=
  program.labels.map fun label => (label.name, label.line)

namespace Program

variable {source : List Text} {program : Program}

theorem labels_table (program : Program) : Symbolic.labels program.table = program.labels := by
  rw [Symbolic.labels, table, List.map_map]
  exact List.map_id _

theorem names_table (program : Program) :
    program.table.map Prod.fst = Label.names program.labels := by
  rw [table, List.map_map]
  rfl

/-- Labels that are made of letters are names the reference assembler takes. -/
theorem sound_table (prepared : prepare source = .ok program)
    (letters : ∀ label ∈ program.labels, ∀ c ∈ label.name, c.isAlpha = true) :
    Symbolic.Sound program.table where
  identifiers := by
    intro name member
    have named := (Label.declarations_of_collect (prepare_ok prepared).1).2.2
    rw [names_table] at member
    obtain ⟨label, known, same⟩ := List.mem_map.mp member
    have lettered : ∀ c ∈ name, c.isAlpha = true := by
      rw [← same]
      exact letters label known
    have nonempty : name ≠ [] := by
      rintro rfl
      exact named member
    obtain ⟨c, rest, spelled⟩ := List.exists_cons_of_ne_nil nonempty
    constructor
    · refine ⟨c, by rw [spelled]; rfl, ?_⟩
      have first := lettered c (by rw [spelled]; exact List.mem_cons_self)
      rw [Symbolic.isLetter, first, Bool.true_or]
    · intro other within
      rw [Symbolic.isWord, Symbolic.isLetter, lettered other within, Bool.true_or, Bool.true_or]
  distinct := by
    rw [names_table]
    exact (Label.declarations_of_collect (prepare_ok prepared).1).2.1

/-- The table leads from the name that a line declares to that line. -/
theorem lookup_table (prepared : prepare source = .ok program) {line : Nat}
    {declaration name : Text} (there : source[line]? = some declaration)
    (declares : Label.declared? declaration = some name) :
    program.table.lookup name = some line := by
  obtain ⟨same, distinct, -⟩ := Label.declarations_of_collect (prepare_ok prepared).1
  have member : (⟨name, line⟩ : Label) ∈ program.labels := by
    have declared : (⟨name, 0 + line⟩ : Label) ∈ Label.declarationsFrom 0 source :=
      Label.mem_declarations_from there declares
    rwa [Nat.zero_add, ← same] at declared
  have declared : name ∈ program.table.map Prod.fst := by
    rw [names_table]
    exact List.mem_map_of_mem member
  obtain ⟨found, lookup, entry⟩ := Symbolic.lookup_declared declared
  obtain ⟨label, known, pair⟩ := List.mem_map.mp entry
  obtain ⟨name_eq, line_eq⟩ := Prod.mk.inj pair
  have one : label = ⟨name, line⟩ := List.inj_on_of_nodup_map distinct known member name_eq
  rw [lookup, ← line_eq, one]

/-- What the reference assembler makes of a command is what its line decodes to, whatever
else the source holds. -/
theorem command_assembles (prepared : prepare source = .ok program)
    (letters : ∀ label ∈ program.labels, ∀ c ∈ label.name, c.isAlpha = true)
    {index : Nat} {text : Text} {command : Command} (there : source[index]? = some text)
    (written : Written text (.performs command)) (legal : command.Legal program.table) :
    ∃ out, program.lines[index]? = some out ∧
      Instruction.decode out = (command.assemble program.table).map some := by
  obtain ⟨out, here, resolved⟩ := line_of_prepare prepared there
  obtain ⟨expanded, expands, assembles⟩ :=
    Symbolic.assembles_line (sound_table prepared letters) written
      (fun name declares => by cases declares)
      (fun other same => by cases same; exact legal)
  have ranked : Symbolic.ranking program.table = Label.ranked program.labels := by
    rw [Symbolic.ranking, labels_table]
  rw [ranked, resolved] at expands
  have same : out = expanded := Except.ok.inj expands
  rw [← same] at assembles
  exact ⟨out, here, assembles⟩

end Program

namespace Machine

open Symbolic (Branch)

variable {m : Machine}

theorem fetch_here {text : Text} {decoded : Except Defect Instruction}
    (there : m.program.lines[m.pointer]? = some text)
    (decodes : Instruction.decode text = decoded.map some) :
    m.fetch = some ⟨m.pointer, text, decoded⟩ :=
  fetch_from_line there decodes

/-- A jump whose target is staged, and whose condition holds then, moves the pointer there,
or behind itself where the target is zero. -/
theorem step_taken {branch : Branch} {text : Text} {line : Nat} {values : List Int}
    (there : m.program.lines[m.pointer]? = some text)
    (decodes : Instruction.decode text = .ok (some ⟨branch.opcode, (line : Int) :: values⟩))
    (small : (line : Int) ≤ Instruction.greatest)
    (holds : ∀ s : State, s.stack.bottom = m.stack.bottom →
      branch.holds { s with registers := Instruction.stage ((line : Int) :: values) s.registers } =
        true) :
    ∃ continues next, m.step = .ok continues next ∧
      next.pointer = if line = 0 then m.pointer + 1 else line := by
  let instruction : Instruction := ⟨branch.opcode, (line : Int) :: values⟩
  let fetched : Fetched := ⟨m.pointer, text, .ok instruction⟩
  have found : m.fetch = some fetched := fetch_here there decodes
  have same : (m.reached fetched).stack.bottom = m.stack.bottom := by rw [reached_eq]
  obtain ⟨done, executes, jumps⟩ := Branch.execute_taken (holds (m.reached fetched).toState same)
  have target : (done.registers.get .jump).int = line := by
    have staged : (Instruction.stage ((line : Int) :: values) (m.reached fetched).registers).get
        .arg0 = Cell.ofInt line := Instruction.get_stage (n := 0) rfl rfl _
    rw [jumps, staged]
    exact Cell.int_of_int (by rw [Instruction.least]; omega) small
  have onward : 0 ≤ (done.registers.get .jump).int := by omega
  let next := (m.carried fetched done).landed m.pointer
  refine ⟨!next.halted, next, ?_, ?_⟩
  · have executed : instruction.opcode.execute ((m.reached fetched).staged instruction) =
        .ok () done := executes
    rw [step_fetched found rfl, executed]
    exact follow_onward (m := m.carried fetched done) onward
  · change landing (done.registers.get .jump).int m.pointer = _
    rw [landing, target]
    simp only [Int.natCast_eq_zero, Int.toNat_natCast]

/-- A taken jump to a label lands on the line that declares it, unless that is line zero,
and then the program goes on behind the jump. A line whose index is past the greatest
integer of a cell cannot be jumped to: the statement does not decode. -/
theorem jump_lands {source : List Text} {line : Nat} {declaration name text : Text}
    {branch : Branch} (prepared : Program.prepare source = .ok m.program)
    (letters : ∀ label ∈ m.program.labels, ∀ c ∈ label.name, c.isAlpha = true)
    (there : source[line]? = some declaration)
    (declares : Label.declared? declaration = some name)
    (at_pointer : source[m.pointer]? = some text)
    (written : Written text (.performs (branch.command name)))
    (apart : ∀ label ∈ m.program.labels, ¬label.name <:+: branch.opcode.mnemonic)
    (taken : branch.Taken m.program.table m.stack.bottom) :
    ((line : Int) ≤ Instruction.greatest →
      ∃ continues next, m.step = .ok continues next ∧
        next.pointer = if line = 0 then m.pointer + 1 else line) ∧
    (Instruction.greatest < (line : Int) →
      m.step = .error (.program m.pointer (.tooWide (Text.ofNat line))) m) := by
  have found := Program.lookup_table prepared there declares
  have distinct : ∀ other ∈ m.program.table.map Prod.fst, ¬other <:+: branch.opcode.mnemonic := by
    intro other member
    rw [Program.names_table] at member
    obtain ⟨label, known, same⟩ := List.mem_map.mp member
    rw [← same]
    exact apart label known
  have legal := Branch.legal_of_taken (Symbolic.declared_of_lookup found) distinct taken
  obtain ⟨out, here, decodes⟩ := Program.command_assembles prepared letters at_pointer written legal
  obtain ⟨values, assembled, holds⟩ := Branch.values_of_taken taken
  have target : (Operand.reference name).assemble m.program.table =
      Operand.checked (Text.ofNat line) line := by
    simp only [Operand.assemble, found]
  simp only [Command.assemble, Branch.command, Command.operands, Command.opcode, List.mapM_cons,
    target, assembled] at decodes
  constructor
  · intro small
    have least : Instruction.least ≤ (line : Int) := by
      rw [Instruction.least]
      omega
    have checked : Operand.checked (Text.ofNat line) line = .ok (line : Int) :=
      if_pos ⟨least, small⟩
    rw [checked] at decodes
    exact step_taken here decodes small fun s same => holds s line same
  · intro great
    have wide : ¬(Instruction.least ≤ (line : Int) ∧ (line : Int) ≤ Instruction.greatest) := by
      omega
    have checked : Operand.checked (Text.ofNat line) line = .error (.tooWide (Text.ofNat line)) :=
      if_neg wide
    have refused : Instruction.decode out =
        (.error (.tooWide (Text.ofNat line)) : Except Defect Instruction).map some := by
      rw [decodes, checked]
      rfl
    simp only [step, fetch_here here refused]

def forwardSource : List Text := ["je end, 0".toList, "set 9,1".toList, ":end".toList]

def forward : Machine :=
  { stray with
    program := ⟨["je 2, 0".toList, "set 9,1".toList, []], [⟨"end".toList, 2⟩]⟩
    trace := false }

def forwardJump : Branch := .equal (.number ⟨.none, ['0'], List.cons_ne_nil _ _, rfl⟩)

theorem forward_written :
    Written "je end, 0".toList (.performs (forwardJump.command "end".toList)) := by
  have target : Symbolic.Padded "end".toList "end".toList := ⟨[], [], by decide, by decide, rfl⟩
  have value : Symbolic.Padded ['0'] " 0".toList := ⟨[' '], [], by decide, by decide, rfl⟩
  have given : (forwardJump.command "end".toList).arguments ≠ [] := List.cons_ne_nil _ _
  exact @Written.full [] [' '] [] ["end".toList, " 0".toList] _ (by decide) (by decide)
    (by decide) (by decide) given (.cons target (.cons value .nil))

/-- The label stands on the last line, and the condition holds of the empty stack. -/
theorem jump_lands_forward :
    build forwardSource {} = .ok forward ∧
      Program.prepare forwardSource = .ok forward.program ∧
      forwardJump.Taken forward.program.table forward.stack.bottom ∧
      ∃ continues next, forward.step = .ok continues next ∧ next.pointer = 2 := by
  have prepared : Program.prepare forwardSource = .ok forward.program :=
    Program.prepare_single rfl rfl
  have built : build forwardSource {} = .ok forward := by
    simp only [build, prepared]
    rfl
  have bottom : forward.stack.bottom = .zero :=
    (Stack.well_formed_empty Stack.defaultCapacity).clear 0 (Nat.le_refl 0)
  have taken : forwardJump.Taken forward.program.table forward.stack.bottom := by
    rw [bottom]
    rfl
  have there : forwardSource[2]? = some ":end".toList := rfl
  have declares : Label.declared? ":end".toList = some "end".toList := rfl
  have letters : ∀ label ∈ forward.program.labels, ∀ c ∈ label.name, c.isAlpha = true := by
    intro label member
    rw [List.mem_singleton.mp member]
    exact List.all_eq_true.mp rfl
  have apart : ∀ label ∈ forward.program.labels, ¬label.name <:+: forwardJump.opcode.mnemonic := by
    intro label member
    rw [List.mem_singleton.mp member]
    decide
  obtain ⟨lands, -⟩ := jump_lands prepared letters there declares rfl forward_written apart taken
  exact ⟨built, prepared, taken, lands (by decide)⟩

def backSource : List Text := [":first".toList, "set 9,1".toList, "jmp first".toList]

def back : Machine :=
  { stray with
    program := ⟨[[], "set 9,1".toList, "jmp 0".toList], [⟨"first".toList, 0⟩]⟩
    trace := false }

/-- A jump to the first line does not come back to it, though every operation has a
mnemonic that the label stands apart from. -/
theorem jump_to_first_line_goes_on :
    ∃ (m : Machine) (continues : Bool) (next : Machine),
      m.Driven ∧ Program.prepare backSource = .ok m.program ∧
      m.program.labels = [⟨"first".toList, 0⟩] ∧ (∀ c ∈ "first".toList, c.isAlpha = true) ∧
      (∀ opcode : Opcode, ¬"first".toList <:+: opcode.mnemonic) ∧
      backSource[0]? = some ":first".toList ∧
      Label.declared? ":first".toList = some "first".toList ∧
      backSource[m.pointer]? = some "jmp first".toList ∧
      m.step = .ok continues next ∧ next.pointer = 3 := by
  have prepared : Program.prepare backSource = .ok back.program :=
    Program.prepare_single rfl rfl
  have built : build backSource {} = .ok back := by
    simp only [build, prepared]
    rfl
  have second : back.answer 0 .step = some (.ok (.stepped true), after back.step) := rfl
  have letters : ∀ c ∈ "first".toList, c.isAlpha = true := List.all_eq_true.mp rfl
  refine ⟨after back.step, _, _, .called (.built built) second, prepared, rfl, letters, ?_, rfl,
    rfl, rfl, rfl, rfl⟩
  intro opcode inside
  have within : 'f' ∈ opcode.mnemonic := inside.subset List.mem_cons_self
  revert within
  cases opcode <;> decide

end Machine

end StackMachine
