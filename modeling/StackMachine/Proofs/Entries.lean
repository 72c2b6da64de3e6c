import StackMachine.Proofs.Refinement
import Mathlib.Logic.Function.Basic

/-!
# What entries do to a sheet

Rows can be gone through on a sheet, where a stack is a list and the registers are a map. These
equations run one entry on a given sheet; what they lead to is what the operation leads to on
every state with that sheet.
-/

namespace StackMachine

set_option autoImplicit false

namespace Sheet

variable {sheet after : Sheet}

theorem pure_entry {α : Type} (a : α) (sheet : Sheet) : (pure a : Entry α) sheet = .ok a sheet :=
  rfl

theorem get_entry (sheet : Sheet) : (get : Entry Sheet) sheet = .ok sheet sheet := rfl

theorem read_entry (r : Register) (sheet : Sheet) :
    read r sheet = .ok (sheet.registers r) sheet := rfl

theorem bottom_entry (sheet : Sheet) : bottom sheet = .ok (sheet.cells.headD .zero) sheet := rfl

theorem write_entry (r : Register) (c : Cell) (sheet : Sheet) :
    write r c sheet = .ok () { sheet with registers := Function.update sheet.registers r c } := by
  have same : Function.update sheet.registers r c =
      fun other => if other = r then c else sheet.registers other := by
    funext other
    exact Function.update_apply ..
  rw [same]
  rfl

theorem target_entry {r found : Register} (addressed : (sheet.registers r).int = found.val) :
    target r sheet = .ok found sheet := by
  have within : 0 ≤ (found.val : Int) ∧ (found.val : Int) < 16 := by omega
  rw [target, bind_entry, read_entry]
  simp only [addressed, dif_pos within, Int.toNat_natCast]
  rfl

/-- The fault of a pop that finds no cell. -/
def missed (cells : List Cell) : List Event := if cells = [] then [.fault .underflow] else []

theorem missed_append (cells : List Cell) (c : Cell) : missed (cells ++ [c]) = [] :=
  if_neg (by simp)

theorem pop_entry (sheet : Sheet) :
    pop sheet = .ok (sheet.cells.getLastD .zero)
      { sheet with
        cells := sheet.cells.dropLast
        events := sheet.events ++ missed sheet.cells } := by
  rcases List.eq_nil_or_concat sheet.cells with empty | ⟨rest, c, live⟩
  · rw [pop_empty empty, empty]
    rfl
  · rw [List.concat_eq_append] at live
    rw [pop_live live, live, missed_append, List.append_nil, List.getLastD_concat,
      List.dropLast_concat]

theorem perform_all_cons (effect : Effect) (rest : List Effect) (sheet : Sheet) :
    performAll (effect :: rest) sheet =
      match perform effect sheet with
      | .ok _ after => performAll rest after
      | .error address stopped => .error address stopped := by
  rw [performAll, bind_entry]
  cases perform effect sheet <;> rfl

theorem perform_all_single (effect : Effect) : performAll [effect] = perform effect := by
  funext sheet
  rw [perform_all_cons]
  cases perform effect sheet <;> rfl

theorem perform_store (place : Place) (source : Source) (sheet : Sheet) :
    perform (.store place source) sheet =
      match fetch source sheet with
      | .ok c after => put c place after
      | .error address stopped => .error address stopped := by
  rw [perform, bind_entry]
  cases fetch source sheet <;> rfl

theorem perform_push (source : Source) (sheet : Sheet) :
    perform (.push source) sheet =
      match fetch source sheet with
      | .ok c after => push c after
      | .error address stopped => .error address stopped := by
  rw [perform, bind_entry]
  cases fetch source sheet <;> rfl

theorem perform_discard (sheet : Sheet) :
    perform .discard sheet =
      .ok () { sheet with
        cells := sheet.cells.dropLast
        events := sheet.events ++ missed sheet.cells } := by
  rw [perform, bind_entry, pop_entry]
  rfl

theorem perform_jump (test : Test) (sheet : Sheet) :
    perform (.jumpIf test) sheet =
      .ok () (if test.holds sheet.registers then
        { sheet with registers := Function.update sheet.registers .jump (sheet.registers .arg0) }
        else sheet) := by
  rw [perform, bind_entry, get_entry]
  by_cases holds : test.holds sheet.registers = true
  · simp only [holds, if_true, bind_entry, read_entry, write_entry]
  · rw [if_neg holds]
    simp only [holds]
    rfl

/-- What a row leads to on the sheet of a state is what its operation leads to on the state. -/
theorem executed_of_performed {opcode : Opcode} {s : State} (formed : s.stack.WellFormed)
    (performed : performAll opcode.row (view s) = .ok () after) :
    ∃ done, opcode.execute s = .ok () done ∧ done.stack.WellFormed ∧ view done = after := by
  have agrees := (Refines.effects opcode.row).agrees s formed
  have settles := (Refines.effects opcode.row).settles s formed
  rw [performed] at agrees
  rw [Opcode.execute_eq_row]
  cases result : Effect.actAll opcode.row s with
  | error address stopped =>
      rw [result] at agrees
      cases agrees
  | ok value done =>
      rw [result] at agrees settles
      cases agrees
      exact ⟨done, rfl, settles, rfl⟩

end Sheet

end StackMachine
