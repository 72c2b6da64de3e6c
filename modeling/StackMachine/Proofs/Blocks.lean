import StackMachine.Proofs.Framing
import StackMachine.Proofs.Grammar
import StackMachine.Proofs.Jumps
import StackMachine.Proofs.Pieces
import StackMachine.Proofs.Settling
import StackMachine.Proofs.Tracing
import StackMachine.Proofs.Words

/-!
# Blocks

A block of a program leads from one line to another in a fixed number of instructions, and shows
nothing on the way. What it makes of the registers and of the live cells is said on sheets, where
each instruction is a row of the table. Blocks are put end to end, and a block that leads past
the last line is a whole run.
-/

namespace StackMachine

set_option autoImplicit false

namespace Instruction

variable {text : Text} {opcode : Opcode} {pieces : List Text} {values : List Int}

/-- An argument register holds the operand of its place, and every other one what it held. -/
theorem get_stage_eq {operands : List Int} (few : operands.length ≤ 4) (registers : Registers)
    (r : Register) :
    (stage operands registers).get r =
      (operands[r.val]?.map Cell.ofInt).getD (registers.get r) := by
  cases given : operands[r.val]? with
  | none =>
      have behind : operands.length ≤ r.val := List.getElem?_eq_none_iff.mp given
      rw [get_stage_behind behind]
      rfl
  | some operand =>
      have argument : r.val < 4 := by
        have within := (List.getElem?_eq_some_iff.mp given).1
        omega
      have place : ∀ r : Register, r.val < 4 → Register.arguments[r.val]? = some r := by decide
      rw [get_stage (place r argument) given]
      rfl

theorem int_of_fits {value : Int} (fits : Fits value) : (Cell.ofInt value).int = value := by
  obtain ⟨low, high⟩ := fits_iff.mp fits
  exact Cell.int_of_int low high

/-- A line that preparing leaves alone, and that holds an instruction. -/
structure Written (text : Text) (instruction : Instruction) : Prop where
  settled : Program.Settled text
  decodes : decode text = .ok (some instruction)

theorem written_of_line (read : Statement.ofLine? text = some ⟨opcode.mnemonic, pieces⟩)
    (few : pieces.length ≤ 4) (given : List.Forall₂ Given pieces values) :
    Written text ⟨opcode, values⟩ where
  settled := by
    constructor
    · apply Move.undeclared_of_line read
      intro first
      have word := Symbolic.word_of_opcode opcode _ (List.mem_of_mem_head? first)
      exact absurd word (by decide)
    · exact Move.not_moves_of_line read (Symbolic.opcode_is_no_move opcode)
  decodes := by
    rw [decode_of_line read, of_statement_ok_iff.mpr (.spells few given)]
    rfl

theorem written_bare (opcode : Opcode) : Written opcode.mnemonic ⟨opcode, []⟩ := by
  have named := Symbolic.mnemonic_of_opcode opcode
  have read := Statement.of_line_bare Text.all_blank_nil named Text.all_blank_nil
  rw [List.nil_append, List.append_nil] at read
  exact written_of_line read (Nat.zero_le 4) .nil

theorem operand_of_given {value : Int} (given : Given text value) : Statement.Operand text := by
  obtain ⟨⟨literal, rfl, -⟩, -⟩ := given
  exact (Symbolic.clean_of_literal literal).operand

/-- Operands may stand next to each other, with nothing but the comma between. -/
theorem written_joined (opcode : Opcode) (some : pieces ≠ []) (few : pieces.length ≤ 4)
    (given : List.Forall₂ Given pieces values) :
    Written (opcode.mnemonic ++ ' ' :: List.intercalate [','] pieces) ⟨opcode, values⟩ := by
  have legal : ∀ operand ∈ pieces, Statement.Operand operand := by
    intro operand member
    obtain ⟨n, within, rfl⟩ := List.getElem_of_mem member
    exact operand_of_given (given.get within (given.length_eq ▸ within))
  have readable : Statement.Readable ⟨opcode.mnemonic, pieces⟩ :=
    Statement.readable_of_operands (Symbolic.mnemonic_of_opcode opcode) legal
  have comma : Text.dropBlanks [','] = [','] := rfl
  have read := Statement.of_line_separated comma readable some
  exact written_of_line read few given

end Instruction

namespace Sheet

/-- The sheet that an instruction finds once its operands are staged. -/
def staged (operands : List Int) (sheet : Sheet) : Sheet :=
  { sheet with registers := fun r => (operands[r.val]?.map Cell.ofInt).getD (sheet.registers r) }

/-- The sheet that is left once the pointer has moved. -/
def landed (sheet : Sheet) : Sheet :=
  { sheet with registers := Function.update sheet.registers .jump .zero }

/-- The sheet of a new machine. -/
def blank (capacity : Nat) : Sheet := ⟨fun _ => .zero, capacity, [], []⟩

/-- A row goes through, and shows nothing more than has been shown before. -/
def Quietly (row : List Effect) (before after : Sheet) : Prop :=
  ∀ events, performAll row { before with events } = .ok () { after with events }

section Rows

variable {sheet : Sheet} {r : Register} {rest : List Cell} {c upper lower : Cell}

theorem quietly_push (room : sheet.cells.length < sheet.capacity) :
    Quietly Opcode.push.row sheet
      { sheet with cells := sheet.cells ++ [sheet.registers .arg0] } := by
  intro events
  have accepted := @push_accepted { sheet with events } room (sheet.registers .arg0)
  change performAll [.push (.register .arg0)] _ = _
  rw [perform_all_single, perform_push, fetch, read_entry]
  exact accepted

theorem quietly_discard (live : sheet.cells = rest ++ [c]) :
    Quietly Opcode.pop.row sheet { sheet with cells := rest } := by
  intro events
  change performAll [.discard] _ = _
  rw [perform_all_single, perform_discard, live, missed_append, List.dropLast_concat,
    List.append_nil]

theorem quietly_combine (f : Cell → Cell → Cell) (live : sheet.cells = rest ++ [lower] ++ [upper])
    (room : rest.length < sheet.capacity) :
    Quietly (Opcode.combineRow f) sheet
      { sheet with
        registers := Function.update (Function.update sheet.registers .arg0 upper) .arg1 lower
        cells := rest ++ [f upper lower] } := by
  intro events
  have left : sheet.cells.dropLast = rest ++ [lower] := by rw [live, List.dropLast_concat]
  have combined := @perform_combine f { sheet with events }
    (by simp only [left, List.dropLast_concat, room])
  simp only [live, List.dropLast_concat, List.getLastD_concat, missed_append,
    List.append_nil] at combined
  rw [← live] at combined
  exact combined

theorem quietly_set (addressed : (sheet.registers .arg0).int = r.val) :
    Quietly Opcode.set.row sheet
      { sheet with registers := Function.update sheet.registers r (sheet.registers .arg1) } := by
  intro events
  have found := @target_entry { sheet with events } .arg0 r addressed
  change performAll [.store (.addressed .arg0) (.register .arg1)] _ = _
  rw [perform_all_single, perform_store, fetch, read_entry]
  simp only [put, bind_entry, found, write_entry]

theorem quietly_update (f : Cell → Cell → Cell)
    (addressed : (sheet.registers .arg0).int = r.val) :
    Quietly (Opcode.updateRow f) sheet
      { sheet with
        registers := Function.update sheet.registers r
          (f (sheet.registers r) (sheet.registers .arg1)) } := by
  intro events
  have found := @target_entry { sheet with events } .arg0 r addressed
  rw [Opcode.updateRow, perform_all_single, perform_store]
  simp only [fetch, put, bind_entry, found, read_entry, pure_entry, write_entry]

theorem quietly_to_stack (addressed : (sheet.registers .arg0).int = r.val)
    (room : sheet.cells.length < sheet.capacity) :
    Quietly Opcode.registerToStack.row sheet
      { sheet with cells := sheet.cells ++ [sheet.registers r] } := by
  intro events
  have found := @target_entry { sheet with events } .arg0 r addressed
  have accepted := @push_accepted { sheet with events } room (sheet.registers r)
  change performAll [.push (.addressed .arg0)] _ = _
  rw [perform_all_single, perform_push]
  simp only [fetch, bind_entry, found, read_entry]
  exact accepted

/-- The jump looks at the bottom cell, which it leaves in a register. -/
theorem quietly_jump_nonzero :
    Quietly Opcode.jumpNonzero.row sheet
      { sheet with
        registers :=
          if (sheet.cells.headD .zero).int = 0 then
            Function.update sheet.registers .arg1 (sheet.cells.headD .zero)
          else
            Function.update (Function.update sheet.registers .arg1 (sheet.cells.headD .zero)) .jump
              (sheet.registers .arg0) } := by
  intro events
  have apart : Register.arg0 ≠ Register.arg1 := by decide
  change performAll [.store (.register .arg1) .bottom, .jumpIf (.not (.zero .arg1))] _ = _
  rw [perform_all_cons, perform_store, fetch, bottom_entry]
  simp only [put, write_entry, perform_all_single, perform_jump, Test.holds, Function.update_self,
    Function.update_of_ne apart]
  by_cases zero : (sheet.cells.headD .zero).int = 0
  · simp only [zero, decide_true, Bool.not_true, Bool.false_eq_true, if_false, if_true]
  · simp only [zero, decide_false, Bool.not_false, if_true, if_false]

end Rows

end Sheet

namespace Program

/-- From a line on, the first statement is on a line that holds the instruction. -/
def Fetches (program : Program) (line here : Nat) (instruction : Instruction) : Prop :=
  ∃ text, Machine.fetchFrom line (program.lines.drop line) = some ⟨here, text, .ok instruction⟩

variable {program : Program} {line here : Nat} {text : Text} {instruction : Instruction}

theorem fetches_here (there : program.lines[line]? = some text)
    (decodes : Instruction.decode text = .ok (some instruction)) :
    program.Fetches line line instruction :=
  ⟨text, Machine.fetch_from_line there decodes⟩

/-- A line without a statement is passed over. -/
theorem fetches_behind (there : program.lines[line]? = some text)
    (skipped : Instruction.decode text = .ok none)
    (fetches : program.Fetches (line + 1) here instruction) :
    program.Fetches line here instruction := by
  obtain ⟨other, found⟩ := fetches
  refine ⟨other, ?_⟩
  rw [Machine.lines_from there, Machine.fetchFrom, skipped]
  exact found

theorem Fetches.few (fetches : program.Fetches line here instruction) :
    instruction.operands.length ≤ 4 := by
  obtain ⟨text, found⟩ := fetches
  obtain ⟨skipped, rest, scanned⟩ := Machine.scanned_of_fetch_from found
  obtain ⟨statement, -, spelled⟩ := Instruction.decode_ok_iff.mp scanned.decoded
  cases spelled with
  | spells few given => exact given.length_eq ▸ few

end Program

namespace Machine

variable {program : Program} {line here : Nat} {before after : Sheet} {m : Machine}
  {instruction : Instruction}

/-- A machine has come to a line of a program, with the registers and the cells of a sheet. Its
log is empty but for the traces that it has been asked for. -/
structure Standing (program : Program) (line : Nat) (sheet : Sheet) (m : Machine) : Prop where
  loaded : m.program = program
  pointer : m.pointer = line
  formed : m.stack.WellFormed
  registers : m.registers.get = sheet.registers
  capacity : m.stack.capacity = sheet.capacity
  cells : m.stack.toList = sheet.cells
  quiet : ∀ event ∈ m.log.toList, m.trace = true ∧ event.isTrace = true

theorem Standing.untraced (standing : Standing program line before m) (plain : m.trace = false) :
    m.log = #[] := by
  apply Array.eq_empty_iff_forall_not_mem.mpr
  intro event member
  have traced := (standing.quiet event (Array.mem_toList_iff.mpr member)).1
  rw [plain] at traced
  cases traced

theorem Standing.reached (standing : Standing program line before m) (fetched : Fetched) :
    Standing program fetched.line before (m.reached fetched) := by
  -- All that is new is the pointer, and a trace where one is wanted.
  have log := m.log_reached fetched
  have rest := m.reached_eq fetched
  generalize m.reached fetched = reached at log rest
  subst rest
  refine ⟨standing.loaded, rfl, standing.formed, standing.registers, standing.capacity,
    standing.cells, ?_⟩
  rcases log with same | ⟨traced, text, pushed⟩
  · rw [same]
    exact standing.quiet
  · intro event member
    rw [pushed, Array.toList_push, List.mem_append, List.mem_singleton] at member
    rcases member with early | rfl
    · exact standing.quiet event early
    · exact ⟨traced, rfl⟩

theorem Standing.staged (standing : Standing program line before m)
    (few : instruction.operands.length ≤ 4) :
    Sheet.view (m.staged instruction) =
      { before.staged instruction.operands with events := m.log.toList } := by
  have registers : (Instruction.stage instruction.operands m.registers).get =
      (before.staged instruction.operands).registers := by
    funext r
    rw [Instruction.get_stage_eq few, standing.registers]
    rfl
  simp only [Sheet.view, Machine.staged, registers, standing.capacity, standing.cells]
  rfl

/-- What a step makes of a machine whose instruction shows nothing. -/
theorem Standing.step (standing : Standing program line before m)
    (fetches : program.Fetches line here instruction)
    (quietly : Sheet.Quietly instruction.opcode.row (before.staged instruction.operands) after)
    (onward : 0 ≤ (after.registers .jump).int) :
    ∃ next, m.step = .ok (!next.halted) next ∧ next.executed = m.executed + 1 ∧
      next.trace = m.trace ∧
      Standing program (landing (after.registers .jump).int here) after.landed next := by
  have few := fetches.few
  obtain ⟨text, found⟩ := fetches
  let fetched : Fetched := ⟨here, text, .ok instruction⟩
  rw [← standing.loaded, ← standing.pointer] at found
  have reached := standing.reached fetched
  have performed := quietly (m.reached fetched).log.toList
  rw [← reached.staged few] at performed
  have formed_staged : ((m.reached fetched).staged instruction).stack.WellFormed := reached.formed
  obtain ⟨done, executed, formed, left⟩ := Sheet.executed_of_performed formed_staged performed
  have log : done.log.toList = (m.reached fetched).log.toList := congrArg Sheet.events left
  have registers : done.registers.get = after.registers := congrArg Sheet.registers left
  have count : (m.reached fetched).executed = m.executed := by rw [reached_eq]
  have trace : (m.reached fetched).trace = m.trace := by rw [reached_eq]
  have landed : (done.registers.set .jump .zero).get = after.landed.registers := by
    funext r
    rw [Registers.get_set, registers]
    exact (Function.update_apply ..).symm
  have quiet : ∀ event ∈ done.log.toList,
      (m.reached fetched).trace = true ∧ event.isTrace = true := by
    rw [log]
    exact reached.quiet
  rw [← registers] at onward ⊢
  refine ⟨(m.carried fetched done).landed here, ?_, congrArg (· + 1) count, trace, ?_⟩
  · rw [step_fetched found rfl, executed]
    exact follow_onward (m := m.carried fetched done) onward
  · exact ⟨reached.loaded, rfl, formed, landed, congrArg Sheet.capacity left,
      congrArg Sheet.cells left, quiet⟩

/-- A block takes every machine that has come to its first line to the line behind it. -/
def Block (program : Program) (count line : Nat) (before : Sheet) (next : Nat) (after : Sheet) :
    Prop :=
  ∀ m, Standing program line before m →
    ∃ final, advance count m = .ok () final ∧ final.executed = m.executed + count ∧
      final.trace = m.trace ∧ Standing program next after final

theorem Block.trans {first second middle next : Nat} {between : Sheet}
    (early : Block program first line before middle between)
    (late : Block program second middle between next after) :
    Block program (first + second) line before next after := by
  intro m standing
  obtain ⟨halfway, advanced, counted, traced, come⟩ := early m standing
  obtain ⟨final, onward, counted_on, traced_on, arrived⟩ := late halfway come
  refine ⟨final, ?_, by omega, traced_on.trans traced, arrived⟩
  rw [advance_add, advanced]
  exact onward

theorem Standing.going (standing : Standing program line before m)
    (fetches : program.Fetches line here instruction) : m.halted = false := by
  obtain ⟨text, found⟩ := fetches
  rw [← standing.loaded, ← standing.pointer] at found
  by_contra halts
  have nothing := fetch_halted (Bool.eq_true_of_not_eq_false halts)
  rw [fetch, found] at nothing
  cases nothing

theorem block_instruction (fetches : program.Fetches line here instruction)
    (quietly : Sheet.Quietly instruction.opcode.row (before.staged instruction.operands) after)
    (onward : 0 ≤ (after.registers .jump).int) :
    Block program 1 line before (landing (after.registers .jump).int here) after.landed := by
  intro m standing
  obtain ⟨next, taken, counted, traced, come⟩ := standing.step fetches quietly onward
  refine ⟨next, ?_, counted, traced, come⟩
  rw [advance_going (standing.going fetches), taken]
  rfl

/-- An instruction that leaves the jump register clear leads to the line behind it. -/
theorem block_plain (fetches : program.Fetches line here instruction)
    (quietly : Sheet.Quietly instruction.opcode.row (before.staged instruction.operands) after)
    (clear : after.registers .jump = .zero) :
    Block program 1 line before (here + 1) after := by
  have stays : (after.registers .jump).int = 0 := by
    rw [clear]
    rfl
  have block := block_instruction fetches quietly (Int.le_of_eq stays.symm)
  have same : after.landed = after := by
    rw [Sheet.landed, ← clear, Function.update_eq_self]
  rwa [same, stays] at block

/-- An instruction that jumps leads to its target, and leaves the jump register clear. -/
theorem block_leap {target : Nat} (fetches : program.Fetches line here instruction)
    (quietly : Sheet.Quietly instruction.opcode.row (before.staged instruction.operands) after)
    (jumps : (after.registers .jump).int = target) (apart : target ≠ 0) :
    Block program 1 line before target after.landed := by
  have onward : 0 ≤ (after.registers .jump).int := by omega
  have block := block_instruction fetches quietly onward
  have lands : landing (after.registers .jump).int here = target := by
    rw [landing, jumps, if_neg (by omega), Int.toNat_natCast]
  rwa [lands] at block

/-- A block that leads past the last line is a run, for as many instructions as it takes. -/
theorem Block.run {count next : Nat} (block : Block program count line before next after)
    (past : program.lines.length ≤ next) (standing : Standing program line before m) :
    ∃ final, Standing program next after final ∧ final.trace = m.trace ∧
      ∀ fuel, count ≤ fuel → m.run none fuel = .ended (.ok ⟨count, true⟩ final) := by
  obtain ⟨final, advanced, counted, traced, come⟩ := block m standing
  have halts : final.halted = true := by
    rw [← come.loaded, ← come.pointer] at past
    exact decide_eq_true past
  refine ⟨final, come, traced, ?_⟩
  intro fuel enough
  have steps : final.executed - m.executed = count := by omega
  have all : advance fuel m = .ok () final := by
    rw [← Nat.add_sub_cancel' enough, advance_add, advanced]
    exact advance_halted halts (fuel - count)
  apply (run_none_iff fuel).mpr
  constructor
  · simp only [runFor, all, steps, halts]
  · rfl

theorem standing_of_build {source : List Text} {setup : Setup} {size : Nat}
    (prepared : Program.prepare source = .ok program)
    (whole : setup.capacity.whole? = some (size : Int)) (room : 0 < size)
    (fits : size ≤ 4294967295) :
    ∃ m, build source setup = .ok m ∧ m.trace = setup.trace ∧
      Standing program 0 (.blank size) m := by
  have granted : Stack.ofCapacity setup.capacity = .ok (.empty size) :=
    Stack.of_capacity_ok_iff.mpr ⟨size, whole, room, fits, rfl⟩
  let fresh : Machine :=
    { registers := .zero, stack := .empty size, log := #[], program, trace := setup.trace,
      pointer := 0, executed := 0 }
  have built : build source setup = .ok fresh := by
    simp only [build, granted, prepared, bind, Except.bind, pure, Except.pure, fresh]
  have registers : Registers.zero.get = (Sheet.blank size).registers := by
    funext r
    simp [Registers.get, Registers.zero, Sheet.blank]
  exact ⟨fresh, built, rfl, rfl, rfl, Stack.well_formed_empty size, registers,
    Stack.Reached.empty.capacity_eq, Stack.to_list_empty size,
    fun _ member => absurd member List.not_mem_nil⟩

end Machine

end StackMachine
