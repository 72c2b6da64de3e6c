import StackMachine.Proofs.Guises

/-!
# Changes that no step notices

Where a machine can be changed before a step just as well as after it, it can be changed
before any call and any number of calls: what is given is the same, and the machine that is
left is the changed one.
-/

namespace StackMachine

set_option autoImplicit false

namespace Machine

/-- Holds on of machines of one kind, which steps do not leave. -/
structure Unnoticed (P : Machine → Prop) (change : Machine → Machine) : Prop where
  keeps : ∀ m, P m → P (after m.step)
  step : ∀ m, P m → (change m).step = onLeft change m.step
  halted : ∀ m, P m → (change m).halted = m.halted
  executed : ∀ m, (change m).executed = m.executed

def Progress.onLeft (change : Machine → Machine) : Progress → Progress
  | .ended outcome => .ended (Machine.onLeft change outcome)
  | .running m => .running (change m)

def changed {α : Type} (change : Machine → Machine) (given : α × Machine) : α × Machine :=
  (given.1, change given.2)

theorem reply_changed {α : Type} (change : Machine → Machine) (returned : α → Reply)
    (outcome : Outcome α) :
    reply returned (onLeft change outcome) = changed change (reply returned outcome) := by
  cases outcome <;> rfl

namespace Unnoticed

variable {P : Machine → Prop} {change : Machine → Machine} {m : Machine}

/-- By induction on the count: the change goes along with each of its steps. -/
theorem advance (unnoticed : Unnoticed P change) (count : Nat) (kind : P m) :
    Machine.advance count (change m) = onLeft change (Machine.advance count m) := by
  induction count generalizing m with
  | zero => rfl
  | succ count ih =>
      have kept := unnoticed.keeps m kind
      rw [Machine.advance, Machine.advance, unnoticed.halted m kind, unnoticed.step m kind]
      by_cases halts : m.halted = true
      · rw [if_pos halts, if_pos halts]
        rfl
      · rw [if_neg halts, if_neg halts]
        cases taken : m.step with
        | error failure stopped => rfl
        | ok continues next =>
            rw [taken] at kept
            exact ih kept

theorem run_for (unnoticed : Unnoticed P change) (budget : Nat) (kind : P m) :
    runFor budget (change m) = onLeft change (runFor budget m) := by
  have kept := advance_keeps unnoticed.keeps budget kind
  rw [runFor, runFor, unnoticed.advance budget kind]
  cases advanced : Machine.advance budget m with
  | error failure stopped => rfl
  | ok value final =>
      rw [advanced] at kept
      have halted : (change final).halted = final.halted := unnoticed.halted final kept
      simp only [onLeft, halted, unnoticed.executed]

theorem run (unnoticed : Unnoticed P change) (limit : Option Double) (fuel : Nat) (kind : P m) :
    (change m).run limit fuel = (m.run limit fuel).onLeft change := by
  unfold Machine.run
  cases budget? limit with
  | some count => simp only [unnoticed.run_for count kind, Progress.onLeft]
  | none =>
      simp only [unnoticed.run_for fuel kind]
      cases runFor fuel m with
      | error failure stopped => rfl
      | ok summary final => cases halts : summary.halted <;> simp only [onLeft, halts] <;> rfl

theorem answer (unnoticed : Unnoticed P change) (fuel : Nat) (call : Call) (kind : P m) :
    (change m).answer fuel call = (m.answer fuel call).map (changed change) := by
  cases call with
  | step =>
      simp only [Machine.answer, unnoticed.step m kind, reply_changed]
      rfl
  | run limit =>
      simp only [Machine.answer, unnoticed.run limit fuel kind]
      cases m.run limit fuel with
      | running final => rfl
      | ended outcome => exact congrArg some (reply_changed change .ran outcome)

theorem answers (unnoticed : Unnoticed P change) (fuel : Nat) (calls : List Call) (kind : P m) :
    Machine.answers fuel (change m) calls =
      (Machine.answers fuel m calls).map (changed change) := by
  induction calls generalizing m with
  | nil => rfl
  | cons call rest ih =>
      rw [Machine.answers, Machine.answers, unnoticed.answer fuel call kind]
      cases answered : m.answer fuel call with
      | none => rfl
      | some given =>
          have kept := answer_keeps unnoticed.keeps answered kind
          have later := ih kept
          change (Machine.answers fuel (change given.2) rest).bind _ =
            ((Machine.answers fuel given.2 rest).bind _).map _
          rw [later]
          cases Machine.answers fuel given.2 rest <;> rfl

end Unnoticed

end Machine

end StackMachine
