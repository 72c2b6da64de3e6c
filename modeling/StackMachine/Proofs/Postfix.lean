import StackMachine.Proofs.Blocks

/-!
# Expressions in postfix

The postfix listing of an expression is a program that leaves its value on the stack. Each part
of it is a block that puts one cell on whatever stack it finds, so the listing of a whole is made
of those of its parts. Registers are overwritten on the way, but the jump register stays clear.
-/

namespace StackMachine

set_option autoImplicit false

/-- Expressions over integers of 32 bits. A literal comes with the text that gives it. -/
inductive Expression where
  | literal (text : Text) (value : Int) (given : Instruction.Given text value)
  | node (operation : Arithmetic) (left right : Expression)

namespace Expression

def listing : Expression → List Text
  | .literal text _ _ => ["push ".toList ++ text]
  | .node operation left right => left.listing ++ right.listing ++ [operation.opcode.mnemonic]

/-- The operand that is evaluated last comes first in the operation, and what comes out is
reduced to an integer of 32 bits. -/
def value : Expression → Int
  | .literal _ value _ => value
  | .node operation left right => (operation.value right.value left.value).bmod (2 ^ 32)

/-- How many values are pending at once: that of the left operand waits while the right one is
evaluated. -/
def pending : Expression → Nat
  | .literal _ _ _ => 1
  | .node _ left right => max left.pending (1 + right.pending)

theorem pending_pos (expression : Expression) : 0 < expression.pending := by
  cases expression with
  | literal text value given => exact Nat.one_pos
  | node operation left right =>
      rw [pending]
      omega

theorem written_push {text : Text} {value : Int} (given : Instruction.Given text value) :
    Instruction.Written ("push ".toList ++ text) ⟨.push, [value]⟩ := by
  have few : [text].length ≤ 4 := by
    rw [List.length_singleton]
    decide
  have written :=
    Instruction.written_joined .push (List.cons_ne_nil _ _) few (.cons given .nil)
  rw [List.intercalate_singleton] at written
  exact written

theorem written_listing (expression : Expression) :
    ∀ line ∈ expression.listing, ∃ instruction, Instruction.Written line instruction := by
  induction expression with
  | literal text value given =>
      intro line member
      rw [List.mem_singleton.mp member]
      exact ⟨_, written_push given⟩
  | node operation left right left_written right_written =>
      intro line member
      simp only [listing, List.mem_append, List.mem_singleton] at member
      rcases member with (early | late) | last
      · exact left_written line early
      · exact right_written line late
      · rw [last]
        exact ⟨_, Instruction.written_bare operation.opcode⟩

theorem prepare_listing (expression : Expression) :
    Program.prepare expression.listing = .ok ⟨expression.listing, []⟩ := by
  apply Program.prepare_settled
  intro line member
  obtain ⟨instruction, written⟩ := expression.written_listing line member
  exact written.settled

end Expression

namespace Arithmetic

theorem word_of_int (operation : Arithmetic) (i j : Int) :
    operation.word (.ofInt i) (.ofInt j) = .ofInt ((operation.value i j).bmod (2 ^ 32)) := by
  have reduced : (operation.value i j).bmod (2 ^ 32) ≡ operation.value i j [ZMOD 2 ^ 32] :=
    Int.bmod_emod
  rw [Cell.of_int_eq_of_modeq reduced]
  cases operation with
  | add => exact Cell.add_of_int i j
  | sub => exact Cell.sub_of_int i j
  | mul => exact Cell.mul_of_int i j

end Arithmetic

/-- The lines of a listing stand in a program from a given line on. -/
def Program.Holds (program : Program) (line : Nat) (listing : List Text) : Prop :=
  ∀ n text, listing[n]? = some text → program.lines[line + n]? = some text

namespace Program.Holds

variable {program : Program} {line : Nat} {first second : List Text} {text : Text}

theorem left (holds : program.Holds line (first ++ second)) : program.Holds line first := by
  intro n text there
  have within := (List.getElem?_eq_some_iff.mp there).1
  apply holds
  rw [List.getElem?_append_left within, there]

theorem right (holds : program.Holds line (first ++ second)) :
    program.Holds (line + first.length) second := by
  intro n text there
  rw [Nat.add_assoc]
  apply holds
  rw [List.getElem?_append_right (Nat.le_add_right _ _), Nat.add_sub_cancel_left, there]

theorem here (holds : program.Holds line [text]) : program.lines[line]? = some text :=
  holds 0 text rfl

end Program.Holds

namespace Expression

open Machine (Block)

variable {program : Program} {line capacity : Nat} {registers : Register → Cell}
  {below : List Cell}

/-- The last line of a node, with the values of both parts on the stack. -/
theorem block_operation (operation : Arithmetic) {i j : Int}
    (fetches : program.Fetches line line ⟨operation.opcode, []⟩) (room : below.length < capacity)
    (clear : registers .jump = .zero) :
    ∃ left : Register → Cell, left .jump = .zero ∧
      Block program 1 line ⟨registers, capacity, below ++ [.ofInt j] ++ [.ofInt i], []⟩ (line + 1)
        ⟨left, capacity, below ++ [.ofInt ((operation.value i j).bmod (2 ^ 32))], []⟩ := by
  let found : Sheet := ⟨registers, capacity, below ++ [.ofInt j] ++ [.ofInt i], []⟩
  have quietly := @Sheet.quietly_combine found _ _ _ operation.word rfl room
  rw [← operation.row_eq, operation.word_of_int] at quietly
  have first : Register.jump ≠ .arg0 := by decide
  have second : Register.jump ≠ .arg1 := by decide
  have clear_after : Function.update (Function.update registers .arg0 (.ofInt i)) .arg1 (.ofInt j)
      .jump = .zero := by
    rw [Function.update_of_ne second, Function.update_of_ne first, clear]
  exact ⟨_, clear_after, Machine.block_plain fetches quietly clear_after⟩

/-- By induction on the expression: a part of it may stand anywhere in a program, and may find
any cells below its own. -/
theorem block_listing (expression : Expression)
    (holds : program.Holds line expression.listing)
    (room : below.length + expression.pending ≤ capacity) (clear : registers .jump = .zero) :
    ∃ left : Register → Cell, left .jump = .zero ∧
      Block program expression.listing.length line ⟨registers, capacity, below, []⟩
        (line + expression.listing.length)
        ⟨left, capacity, below ++ [.ofInt expression.value], []⟩ := by
  induction expression generalizing line registers below with
  | literal text value given =>
      have fetches := Program.fetches_here holds.here (written_push given).decodes
      let found : Sheet := Sheet.staged [value] ⟨registers, capacity, below, []⟩
      have quietly := @Sheet.quietly_push found room
      exact ⟨found.registers, clear, Machine.block_plain fetches quietly clear⟩
  | node operation left right left_block right_block =>
      have last := (Instruction.written_bare operation.opcode).decodes
      have fetches := Program.fetches_here holds.right.here last
      rw [List.length_append, ← Nat.add_assoc] at fetches
      rw [pending] at room
      have room_left : below.length + left.pending ≤ capacity := by omega
      -- The value on the left is one more cell below for the part on the right.
      have room_right : (below ++ [Cell.ofInt left.value]).length + right.pending ≤ capacity := by
        rw [List.length_append, List.length_singleton]
        omega
      have room_last : below.length < capacity := by
        have some := left.pending_pos
        omega
      obtain ⟨halfway, clear_halfway, early⟩ := left_block holds.left.left room_left clear
      obtain ⟨behind, clear_behind, late⟩ := right_block holds.left.right room_right clear_halfway
      obtain ⟨after, clear_after, combined⟩ :=
        block_operation operation fetches room_last clear_behind
      refine ⟨after, clear_after, ?_⟩
      rw [listing, List.length_append, List.length_append, List.length_singleton,
        ← Nat.add_assoc, ← Nat.add_assoc]
      exact (early.trans late).trans combined

theorem fits_value (expression : Expression) : Instruction.Fits expression.value := by
  cases expression with
  | literal text value given => exact given.2
  | node operation left right =>
      have least : -2 ^ 31 ≤ (Expression.node operation left right).value :=
        Int.le_bmod (Nat.two_pow_pos 32)
      have greatest : (Expression.node operation left right).value < 2 ^ 31 :=
        Int.bmod_lt (Nat.two_pow_pos 32)
      exact ⟨least, by omega⟩

/-- The listing of an expression leaves its value as the one live cell, in as many steps as it
has lines, wherever there is room for the values that are pending at once, up to the longest row
that a stack can have. Nothing is shown but the traces that have been asked for. -/
theorem postfix_evaluates (expression : Expression) (setup : Machine.Setup) (size : Nat)
    (whole : setup.capacity.whole? = some (size : Int)) (room : expression.pending ≤ size)
    (fits : size ≤ 4294967295) :
    ∃ m final, Machine.build expression.listing setup = .ok m ∧
      (∀ fuel, expression.listing.length ≤ fuel →
        m.run none fuel = .ended (.ok ⟨expression.listing.length, true⟩ final)) ∧
      final.stack.toList.map Cell.int = [expression.value] ∧
      (∀ event ∈ final.log.toList, event.isTrace = true) ∧
      (setup.trace = false → final.log = #[]) := by
  have some := expression.pending_pos
  obtain ⟨m, built, traced, fresh⟩ :=
    Machine.standing_of_build expression.prepare_listing whole (by omega) fits
  have holds : Program.Holds ⟨expression.listing, []⟩ 0 expression.listing := by
    intro n text there
    rwa [Nat.zero_add]
  have room_empty : ([] : List Cell).length + expression.pending ≤ size := by
    rwa [List.length_nil, Nat.zero_add]
  have clear : (Sheet.blank size).registers .jump = .zero := rfl
  obtain ⟨registers, -, block⟩ := expression.block_listing holds room_empty clear
  have past : expression.listing.length ≤ 0 + expression.listing.length := by omega
  obtain ⟨final, left, trace, runs⟩ := block.run past fresh
  have cells : final.stack.toList = [.ofInt expression.value] := left.cells
  refine ⟨m, final, built, runs, ?_, fun event member => (left.quiet event member).2, ?_⟩
  · rw [cells, List.map_singleton, Instruction.int_of_fits expression.fits_value]
  · intro untraced
    exact left.untraced ((trace.trans traced).trans untraced)

/-- The least integer times a difference that is taken from the right. -/
def overrun : Expression :=
  .node .mul (.literal "-2147483648".toList (-2147483648) (Instruction.operand_ok_iff.mp rfl))
    (.node .sub (.literal "8".toList 8 (Instruction.operand_ok_iff.mp rfl))
      (.literal "+1".toList 1 (Instruction.operand_ok_iff.mp rfl)))

/-- There is just room for the three values that are pending, and the product does not fit. -/
theorem postfix_evaluates_overrun :
    overrun.listing = ["push -2147483648".toList, "push 8".toList, "push +1".toList, "sub".toList,
        "mul".toList] ∧
      (Double.ofInt 3).whole? = some 3 ∧ overrun.pending ≤ 3 ∧ 3 ≤ 4294967295 ∧
      ∃ m final, Machine.build overrun.listing ⟨false, Double.ofInt 3⟩ = .ok m ∧
        m.run none 5 = .ended (.ok ⟨5, true⟩ final) ∧
        final.stack.toList.map Cell.int = [-2147483648] ∧ final.log = #[] := by
  have whole : (Double.ofInt 3).whole? = some ((3 : Nat) : Int) := rfl
  have room : overrun.pending ≤ 3 := by decide
  obtain ⟨m, final, built, runs, value, -, silent⟩ :=
    postfix_evaluates overrun ⟨false, Double.ofInt 3⟩ 3 whole room (by decide)
  exact ⟨rfl, whole, room, by decide, m, final, built, runs 5 (Nat.le_refl 5), value, silent rfl⟩

end Expression

end StackMachine
