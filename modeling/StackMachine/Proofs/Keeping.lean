import StackMachine.Proofs.Table

/-!
# What every action keeps

An action is put together from reading and writing registers, printing, pushing and popping.
What holds between the states before and after each of these, and goes on holding from one
to the next, holds between the states before and after every operation, also where the
operation fails half way.
-/

namespace StackMachine

set_option autoImplicit false

def Action.left {α : Type} : EStateM.Result Address State α → State
  | .ok _ done => done
  | .error _ stopped => stopped

/-- Holds over everything that an action is put together from. -/
structure Lasting (R : State → State → Prop) : Prop where
  refl : ∀ s, R s s
  trans : ∀ {first second third}, R first second → R second third → R first third
  write : ∀ s r c, R s { s with registers := s.registers.set r c }
  print : ∀ s text, R s { s with log := s.log.push (.printed text) }
  push : ∀ s c, R s (Action.left (Action.push c s))
  pop : ∀ s, R s (Action.left (Action.pop s))

def Keeps {α : Type} (R : State → State → Prop) (action : Action α) : Prop :=
  ∀ s, R s (Action.left (action s))

namespace Lasting

variable {α β : Type} {R : State → State → Prop}

theorem idle (lasting : Lasting R) {action : Action α}
    (same : ∀ s, Action.left (action s) = s) : Keeps R action := by
  intro s
  rw [same]
  exact lasting.refl s

theorem bind (lasting : Lasting R) {action : Action α} {next : α → Action β}
    (first : Keeps R action) (second : ∀ a, Keeps R (next a)) : Keeps R (action >>= next) := by
  intro s
  have early := first s
  rw [Action.bind_run]
  cases result : action s with
  | ok a after =>
      rw [result] at early
      exact lasting.trans early (second a after)
  | error address stopped =>
      rw [result] at early
      exact early

theorem locate (lasting : Lasting R) (address : Address) : Keeps R (Action.locate address) := by
  apply lasting.idle
  intro s
  cases names : address.register? with
  | none => rw [Action.locate_of_no_register names]; rfl
  | some r => rw [Action.locate_of_register names]; rfl

theorem target (lasting : Lasting R) (r : Register) : Keeps R (Action.target r) := by
  apply lasting.bind (lasting.idle fun _ => rfl)
  intro c
  exact lasting.locate _

theorem write_at (lasting : Lasting R) (address : Address) (c : Cell) :
    Keeps R (Action.writeAt address c) := by
  apply lasting.bind (lasting.locate address)
  intro r s
  exact lasting.write s r c

theorem fetch (lasting : Lasting R) (source : Source) : Keeps R source.fetch := by
  induction source with
  | register r => exact lasting.idle fun _ => rfl
  | addressed r =>
      apply lasting.bind (lasting.target r)
      intro found
      exact lasting.idle fun _ => rfl
  | bottom => exact lasting.idle fun _ => rfl
  | popped => exact lasting.pop
  | combined f left right left_keeps right_keeps =>
      apply lasting.bind left_keeps
      intro first
      apply lasting.bind right_keeps
      intro second
      exact lasting.idle fun _ => rfl

theorem put (lasting : Lasting R) (place : Place) (c : Cell) : Keeps R (place.put c) := by
  cases place with
  | register r =>
      intro s
      exact lasting.write s r c
  | addressed r =>
      apply lasting.bind (lasting.target r)
      intro found s
      exact lasting.write s found c

theorem print_each (lasting : Lasting R) (lines : List String) (s : State) :
    R s { s with log := s.log ++ (lines.map Event.printed).toArray } := by
  induction lines generalizing s with
  | nil =>
      rw [List.map_nil, Array.append_empty]
      exact lasting.refl s
  | cons line rest ih =>
      have onward := lasting.trans (lasting.print s line) (ih _)
      have same : s.log.push (.printed line) ++ (rest.map Event.printed).toArray =
          s.log ++ ((line :: rest).map Event.printed).toArray := by simp
      rwa [same] at onward

theorem effect (lasting : Lasting R) (effect : Effect) : Keeps R effect.act := by
  cases effect with
  | store place source =>
      apply lasting.bind (lasting.fetch source)
      intro c
      exact lasting.put place c
  | push source =>
      apply lasting.bind (lasting.fetch source)
      intro c
      apply lasting.bind (fun s => lasting.push s c)
      intro _
      exact lasting.idle fun _ => rfl
  | discard =>
      apply lasting.bind lasting.pop
      intro _
      exact lasting.idle fun _ => rfl
  | jumpIf test =>
      intro s
      rw [Effect.act_jump]
      by_cases holds : test.holds s.registers.get = true
      · rw [if_pos holds]
        exact lasting.write s .jump _
      · rw [if_neg holds]
        exact lasting.refl s
  | print =>
      intro s
      exact lasting.print s s.stack.bottom.text
  | dump =>
      intro s
      rw [Effect.act_dump]
      exact lasting.print_each _ s

theorem execute (lasting : Lasting R) (opcode : Opcode) : Keeps R opcode.execute := by
  rw [Opcode.execute_eq_row]
  induction opcode.row with
  | nil => exact lasting.idle fun _ => rfl
  | cons first rest ih =>
      apply lasting.bind (lasting.effect first)
      intro _
      exact ih

end Lasting

end StackMachine
