import StackMachine.Proofs.Atomicity
import StackMachine.Proofs.Keeping
import StackMachine.Proofs.Preparing
import StackMachine.Proofs.Refinement

/-!
# What becomes of the stack

An action gets at the stack through pushes and pops alone, also where it fails. So the
stack of a machine is one that pushes and pops have made of an empty one, whatever its
program does to the registers.
-/

namespace StackMachine

set_option autoImplicit false

/-- Does no more to the stack than to push and to pop. -/
def Orderly {α : Type} (action : Action α) : Prop :=
  ∀ {capacity : Nat} (s : State), Stack.Reached capacity s.stack →
    Stack.Reached capacity (Action.left (action s)).stack

namespace Orderly

/-- How one stack comes out of another by pushes and pops. -/
theorem lasting : Lasting fun s t : State =>
    ∀ capacity, Stack.Reached capacity s.stack → Stack.Reached capacity t.stack where
  refl := fun _ _ reached => reached
  trans := fun early late capacity reached => late capacity (early capacity reached)
  write := fun _ _ _ _ reached => reached
  print := fun _ _ _ reached => reached
  push := by
    intro s c capacity reached
    rw [Action.push_run]
    exact .push reached c
  pop := by
    intro s capacity reached
    rw [Action.pop_run]
    exact .pop reached

theorem write_at (address : Address) (c : Cell) : Orderly (Action.writeAt address c) :=
  fun s reached => lasting.write_at address c s _ reached

theorem push (c : Cell) : Orderly (Action.push c) :=
  fun s reached => lasting.push s c _ reached

theorem pop : Orderly Action.pop :=
  fun s reached => lasting.pop s _ reached

theorem execute (opcode : Opcode) : Orderly opcode.execute :=
  fun s reached => lasting.execute opcode s _ reached

end Orderly

namespace Machine

variable {m : Machine}

theorem after_act {α : Type} (m : Machine) (line : Option Int) (action : Action α) :
    after (m.act line action) = { m with toState := Action.left (action m.toState) } := by
  rw [act]
  cases action m.toState <;> rfl

/-- What all that is done to a machine leaves of it: the program is there for good, and the
stack goes on from where it was. -/
structure Remains (m next : Machine) : Prop where
  program : next.program = m.program
  stack : ∀ {capacity : Nat}, Stack.Reached capacity m.stack → Stack.Reached capacity next.stack

namespace Remains

theorem refl (m : Machine) : Remains m m := ⟨rfl, fun reached => reached⟩

theorem trans {first second third : Machine} (early : Remains first second)
    (late : Remains second third) : Remains first third :=
  ⟨late.program.trans early.program, fun reached => late.stack (early.stack reached)⟩

end Remains

theorem remains_act {α : Type} {action : Action α} (orderly : Orderly action) (m : Machine)
    (line : Option Int) : Remains m (after (m.act line action)) := by
  rw [after_act]
  exact ⟨rfl, fun reached => orderly m.toState reached⟩

theorem remains_follow (m : Machine) (line : Nat) : Remains m (after (m.follow line)) := by
  rw [follow]
  by_cases stays : (m.registers.get .jump).int = 0
  · rw [if_pos stays]
    exact ⟨rfl, fun reached => reached⟩
  · rw [if_neg stays]
    by_cases before : (m.registers.get .jump).int < 0
    · rw [if_pos before]
      exact ⟨rfl, fun reached => reached⟩
    · rw [if_neg before]
      exact ⟨rfl, fun reached => reached⟩

theorem remains_perform (m : Machine) (line : Nat) (instruction : Instruction) :
    Remains m (after (m.perform line instruction)) := by
  have orderly : Orderly instruction.opcode.execute := Orderly.execute instruction.opcode
  rw [perform_run]
  cases result : instruction.opcode.execute (m.staged instruction) with
  | ok value done =>
      let carried : Machine := { m with toState := done, executed := m.executed + 1 }
      have kept : Remains m carried := by
        refine ⟨rfl, fun reached => ?_⟩
        have left := orderly (m.staged instruction) reached
        rwa [result] at left
      exact kept.trans (remains_follow carried line)
  | error address stopped =>
      refine ⟨rfl, fun reached => ?_⟩
      have left := orderly (m.staged instruction) reached
      rwa [result] at left

theorem remains_step (m : Machine) : Remains m (after m.step) := by
  rw [step]
  cases m.fetch with
  | none => exact ⟨rfl, fun reached => reached⟩
  | some fetched =>
      cases decoded : fetched.decoded with
      | error defect =>
          simp only [decoded]
          exact ⟨rfl, fun reached => reached⟩
      | ok instruction =>
          simp only [decoded]
          have noted : Remains m (m.reached fetched) := by
            rw [reached_eq]
            exact ⟨rfl, fun reached => reached⟩
          exact noted.trans (remains_perform (m.reached fetched) fetched.line instruction)

/-- What a machine starts with. -/
structure Fresh (source : List Text) (setup : Setup) (m : Machine) : Prop where
  program : Program.prepare source = .ok m.program
  trace : m.trace = setup.trace
  registers : m.registers = .zero
  stack : m.stack = .empty m.stack.capacity
  log : m.log = #[]
  executed : m.executed = 0

theorem fresh_of_build {source : List Text} {setup : Setup} (made : build source setup = .ok m) :
    Fresh source setup m := by
  obtain ⟨stack, granted, onward⟩ := ok_of_bind made
  obtain ⟨program, prepared, same⟩ := ok_of_bind onward
  cases same
  refine ⟨prepared, rfl, rfl, ?_, rfl, rfl⟩
  obtain ⟨capacity, -, -, -, rfl⟩ := Stack.of_capacity_ok_iff.mp granted
  simp only [Stack.empty, Stack.capacity, Array.size_replicate]

theorem build_reached {source : List Text} {setup : Setup} (made : build source setup = .ok m) :
    Stack.Reached m.stack.capacity m.stack := by
  have reached : Stack.Reached m.stack.capacity (.empty m.stack.capacity) := .empty
  rwa [← (fresh_of_build made).stack] at reached

end Machine

end StackMachine
