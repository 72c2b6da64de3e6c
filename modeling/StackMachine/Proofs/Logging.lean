import StackMachine.Proofs.Table

/-!
# The log is only written

No action looks at the log. An action behind other events does what it does alone,
and its own events come after them; so what is logged never decides what happens.
-/

namespace StackMachine

set_option autoImplicit false

def State.behind (earlier : Array Event) (s : State) : State :=
  { s with log := earlier ++ s.log }

def Action.resultBehind {α : Type} (earlier : Array Event) :
    EStateM.Result Address State α → EStateM.Result Address State α
  | .ok a after => .ok a (after.behind earlier)
  | .error address stopped => .error address (stopped.behind earlier)

def Oblivious {α : Type} (action : Action α) : Prop :=
  ∀ (earlier : Array Event) (s : State),
    action (s.behind earlier) = Action.resultBehind earlier (action s)

namespace Oblivious

theorem pure {α : Type} (a : α) : Oblivious (Pure.pure a) := fun _ _ => rfl

theorem bind {α β : Type} {action : Action α} {next : α → Action β}
    (first : Oblivious action) (second : ∀ a, Oblivious (next a)) :
    Oblivious (action >>= next) := by
  intro earlier s
  rw [Action.bind_run, Action.bind_run, first earlier s]
  cases action s with
  | ok a after => exact second a earlier after
  | error address stopped => rfl

/-- An action may look at a state if what it does then leaves out the log. -/
theorem look {α : Type} {next : State → Action α}
    (blind : ∀ (earlier : Array Event) (s : State), next (s.behind earlier) = next s)
    (second : ∀ s, Oblivious (next s)) : Oblivious (get >>= next) := by
  intro earlier s
  rw [Action.bind_run, Action.bind_run, Action.get_run, Action.get_run]
  simp only [blind earlier s]
  exact second s earlier s

theorem read (r : Register) : Oblivious (Action.read r) := fun _ _ => rfl

theorem write (r : Register) (c : Cell) : Oblivious (Action.write r c) := fun _ _ => rfl

theorem bottom : Oblivious Action.bottom := fun _ _ => rfl

theorem emit (event : Event) : Oblivious (Action.emit event) := by
  intro earlier s
  rw [Action.emit_run, Action.emit_run]
  simp only [Action.resultBehind, State.behind, Array.append_push]

theorem target (r : Register) : Oblivious (Action.target r) := by
  intro earlier s
  rw [Action.target_run, Action.target_run]
  simp only [State.behind]
  cases Register.ofInt? (s.registers.get r).int <;> rfl

theorem pop : Oblivious Action.pop := by
  intro earlier s
  rw [Action.pop_run, Action.pop_run]
  simp only [Action.resultBehind, State.behind, Array.append_assoc]

theorem push (c : Cell) : Oblivious (Action.push c) := by
  intro earlier s
  rw [Action.push_run, Action.push_run]
  simp only [Action.resultBehind, State.behind, Array.append_assoc]

theorem dump : Oblivious Effect.dump.act := by
  intro earlier s
  rw [Effect.act_dump, Effect.act_dump]
  simp only [Action.resultBehind, State.behind, Opcode.dumpLines, Array.append_assoc]

theorem fetch (source : Source) : Oblivious source.fetch := by
  induction source with
  | register r => exact read r
  | addressed r =>
      apply bind (target r)
      intro found
      exact read found
  | bottom => exact bottom
  | popped => exact pop
  | combined f left right left_oblivious right_oblivious =>
      apply bind left_oblivious
      intro first
      apply bind right_oblivious
      intro second
      exact pure (f first second)

theorem put (place : Place) (c : Cell) : Oblivious (place.put c) := by
  cases place with
  | register r => exact write r c
  | addressed r =>
      apply bind (target r)
      intro found
      exact write found c

theorem effect (effect : Effect) : Oblivious effect.act := by
  cases effect with
  | store place source =>
      apply bind (fetch source)
      intro c
      exact put place c
  | push source =>
      apply bind (fetch source)
      intro c
      apply bind (push c)
      intro _
      exact pure ()
  | discard =>
      apply bind pop
      intro _
      exact pure ()
  | jumpIf test =>
      apply look
      · intro earlier s
        rfl
      · intro s
        by_cases holds : test.holds s.registers.get = true
        · rw [if_pos holds]
          apply bind (read .arg0)
          intro c
          exact write .jump c
        · rw [if_neg holds]
          exact pure ()
  | print =>
      apply bind bottom
      intro c
      exact emit (.printed c.text)
  | dump => exact dump

theorem execute (opcode : Opcode) : Oblivious opcode.execute := by
  rw [Opcode.execute_eq_row]
  induction opcode.row with
  | nil => exact pure ()
  | cons first rest ih =>
      apply bind (effect first)
      intro _
      exact ih

end Oblivious

/-- Two outcomes that differ in the log only. -/
def Action.SameButLog {α : Type} :
    EStateM.Result Address State α → EStateM.Result Address State α → Prop
  | .ok a left, .ok b right =>
      a = b ∧ left.registers = right.registers ∧ left.stack = right.stack
  | .error a left, .error b right =>
      a = b ∧ left.registers = right.registers ∧ left.stack = right.stack
  | _, _ => False

theorem Oblivious.same_but_log {α : Type} {action : Action α} (oblivious : Oblivious action)
    {s t : State} (registers : s.registers = t.registers) (stack : s.stack = t.stack) :
    Action.SameButLog (action s) (action t) := by
  let bare : State := ⟨s.registers, s.stack, #[]⟩
  have first : s = bare.behind s.log := by simp [bare, State.behind]
  have second : t = bare.behind t.log := by simp [bare, State.behind, registers, stack]
  rw [first, second, oblivious, oblivious]
  cases action bare <;> exact ⟨rfl, rfl, rfl⟩

end StackMachine
