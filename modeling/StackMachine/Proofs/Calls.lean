import StackMachine.Run
import StackMachine.Proofs.Effects

/-!
# Calls on a machine

A host drives a machine by single steps and by runs, and goes on calling whatever the
machine answers, also after a failure. A run without a limit that never ends gives no
answer. Since a run is made of steps, what every step keeps holds of every machine that
can be reached.
-/

namespace StackMachine

set_option autoImplicit false

namespace Machine

inductive Call where
  | step
  | run (limit : Option Double)

inductive Reply where
  | stepped (continues : Bool)
  | ran (summary : Summary)

/-- What is returned or thrown, and the machine that is left. -/
def reply {α : Type} (returned : α → Reply) : Outcome α → Except Failure Reply × Machine
  | .ok a next => (.ok (returned a), next)
  | .error failure stopped => (.error failure, stopped)

/-- The answer to a call, where there is one before the fuel is spent. -/
def answer (fuel : Nat) (m : Machine) : Call → Option (Except Failure Reply × Machine)
  | .step => some (reply .stepped m.step)
  | .run limit =>
      match m.run limit fuel with
      | .ended outcome => some (reply .ran outcome)
      | .running _ => none

def answers (fuel : Nat) : Machine → List Call → Option (List (Except Failure Reply) × Machine)
  | m, [] => some ([], m)
  | m, call :: rest => do
      let (first, next) ← m.answer fuel call
      let (others, last) ← answers fuel next rest
      return (first :: others, last)

/-- The machines that calls make out of a new one. -/
inductive Driven : Machine → Prop
  | built {source : List Text} {setup : Setup} {m : Machine}
      (made : build source setup = .ok m) : Driven m
  | called {m next : Machine} {fuel : Nat} {call : Call} {given : Except Failure Reply}
      (before : Driven m) (answered : m.answer fuel call = some (given, next)) : Driven next

section Reached

variable {α : Type} {P : Machine → Prop}

def after : Outcome α → Machine
  | .ok _ next => next
  | .error _ stopped => stopped

theorem reply_after (returned : α → Reply) (outcome : Outcome α) :
    (reply returned outcome).2 = after outcome := by
  cases outcome <;> rfl

theorem advance_keeps (keeps : ∀ m, P m → P (after m.step)) (count : Nat) {m : Machine}
    (holds : P m) : P (after (advance count m)) := by
  induction count generalizing m with
  | zero => exact holds
  | succ count ih =>
      rw [advance]
      by_cases halted : m.halted = true
      · rw [if_pos halted]
        exact holds
      · rw [if_neg halted]
        have stepped := keeps m holds
        cases taken : m.step with
        | ok continues next =>
            rw [taken] at stepped
            exact ih stepped
        | error failure stopped =>
            rw [taken] at stepped
            exact stepped

theorem run_for_after (budget : Nat) (m : Machine) :
    after (runFor budget m) = after (advance budget m) := by
  rw [runFor]
  cases advance budget m <;> rfl

/-- A run that is over has made the steps that its limit allows or, without one, its fuel. -/
theorem outcome_of_run {m : Machine} {limit : Option Double} {fuel : Nat}
    {outcome : Outcome Summary} (ended : m.run limit fuel = .ended outcome) :
    outcome = runFor ((budget? limit).getD fuel) m := by
  rw [run] at ended
  cases budget : budget? limit with
  | some count =>
      simp only [budget, Progress.ended.injEq] at ended
      exact ended.symm
  | none =>
      simp only [budget] at ended
      rw [Option.getD_none]
      cases ran : runFor fuel m with
      | ok summary final =>
          simp only [ran] at ended
          split at ended <;> cases ended
          rfl
      | error failure stopped =>
          simp only [ran] at ended
          cases ended
          rfl

theorem run_ended {m : Machine} {limit : Option Double} {fuel : Nat}
    {outcome : Outcome Summary} (ended : m.run limit fuel = .ended outcome) :
    ∃ count, outcome = runFor count m :=
  ⟨_, outcome_of_run ended⟩

theorem answer_keeps (keeps : ∀ m, P m → P (after m.step)) {m next : Machine} {fuel : Nat}
    {call : Call} {given : Except Failure Reply} (answered : m.answer fuel call = some (given, next))
    (holds : P m) : P next := by
  cases call with
  | step =>
      have left : after m.step = next := by
        rw [← reply_after .stepped, Option.some.inj answered]
      rw [← left]
      exact keeps m holds
  | run limit =>
      rw [answer] at answered
      cases progress : m.run limit fuel with
      | running machine =>
          simp only [progress, reduceCtorEq] at answered
      | ended outcome =>
          simp only [progress, Option.some.injEq] at answered
          obtain ⟨count, steps⟩ := run_ended progress
          have left : after (advance count m) = next := by
            rw [← run_for_after, ← steps, ← reply_after .ran, answered]
          rw [← left]
          exact advance_keeps keeps count holds

/-- What a new machine has and every step keeps is true of all driven machines. -/
theorem Driven.keeps (start : ∀ source setup m, build source setup = .ok m → P m)
    (keeps : ∀ m, P m → P (after m.step)) {m : Machine} (driven : m.Driven) : P m := by
  induction driven with
  | built made => exact start _ _ _ made
  | called before answered ih => exact answer_keeps keeps answered ih

/-- A call that throws has got to a machine on which a step throws. -/
theorem step_of_advance (keeps : ∀ m, P m → P (after m.step)) {count : Nat}
    {m stopped : Machine} {failure : Failure} (holds : P m)
    (failed : advance count m = .error failure stopped) :
    ∃ before, P before ∧ before.step = .error failure stopped := by
  induction count generalizing m with
  | zero => cases failed
  | succ count ih =>
      rw [advance] at failed
      by_cases halts : m.halted = true
      · rw [if_pos halts] at failed
        cases failed
      · rw [if_neg halts] at failed
        have kept := keeps m holds
        cases taken : m.step with
        | error first final =>
            rw [taken] at failed
            cases failed
            exact ⟨m, holds, taken⟩
        | ok continues next =>
            rw [taken] at failed kept
            exact ih kept failed

theorem thrown_by_step (keeps : ∀ m, P m → P (after m.step)) {m stopped : Machine} {call : Call}
    {fuel : Nat} {failure : Failure} (holds : P m)
    (thrown : m.answer fuel call = some (.error failure, stopped)) :
    ∃ before, P before ∧ before.step = .error failure stopped := by
  cases call with
  | step =>
      refine ⟨m, holds, ?_⟩
      rw [answer] at thrown
      cases taken : m.step with
      | ok continues next =>
          rw [taken] at thrown
          cases thrown
      | error first final =>
          rw [taken] at thrown
          cases thrown
          rfl
  | run limit =>
      rw [answer] at thrown
      cases progress : m.run limit fuel with
      | running machine =>
          rw [progress] at thrown
          cases thrown
      | ended outcome =>
          obtain ⟨count, same⟩ := run_ended progress
          rw [progress, same, runFor] at thrown
          apply step_of_advance keeps holds
          cases advanced : advance count m with
          | ok value final =>
              rw [advanced] at thrown
              cases thrown
          | error first final =>
              rw [advanced] at thrown
              cases thrown
              rfl

end Reached

def staged (m : Machine) (instruction : Instruction) : State :=
  { m.toState with registers := Instruction.stage instruction.operands m.registers }

theorem perform_run (m : Machine) (line : Nat) (instruction : Instruction) :
    m.perform line instruction =
      match instruction.opcode.execute (m.staged instruction) with
      | .ok _ done => follow { m with toState := done, executed := m.executed + 1 } line
      | .error address stopped =>
          .error (.address (some (line : Int)) address) { m with toState := stopped } := by
  simp only [perform, act, staged]
  cases instruction.opcode.execute _ <;> rfl

theorem follow_clears (m : Machine) (line : Nat) :
    (after (m.follow line)).registers.get .jump = .zero := by
  rw [follow]
  by_cases stays : (m.registers.get .jump).int = 0
  · rw [if_pos stays]
    exact Cell.int_injective stays
  · rw [if_neg stays]
    by_cases before : (m.registers.get .jump).int < 0
    · rw [if_pos before]
      exact Registers.get_set_same _ _ _
    · rw [if_neg before]
      exact Registers.get_set_same _ _ _

theorem clear_staged {m : Machine} (clear : m.registers.get .jump = .zero)
    (instruction : Instruction) : (m.staged instruction).registers.get .jump = .zero := by
  have above : 4 ≤ Register.jump.val := by decide
  exact (Instruction.get_stage_other _ _ above).trans clear

theorem perform_clears {m : Machine} (clear : m.registers.get .jump = .zero) (line : Nat)
    (instruction : Instruction) :
    (after (m.perform line instruction)).registers.get .jump = .zero := by
  have steady := Opcode.execute_steady instruction.opcode (clear_staged clear instruction)
  rw [perform_run]
  cases result : instruction.opcode.execute (m.staged instruction) with
  | ok value done => exact follow_clears _ line
  | error address stopped =>
      rw [result] at steady
      have left : stopped = (m.staged instruction).loaded instruction.opcode.scratch := steady
      rw [left]
      exact Opcode.clear_loaded (clear_staged clear instruction)

theorem step_clears (m : Machine) (clear : m.registers.get .jump = .zero) :
    (after m.step).registers.get .jump = .zero := by
  rw [step]
  cases m.fetch with
  | none => exact clear
  | some fetched =>
      cases decoded : fetched.decoded with
      | error defect =>
          simp only [decoded]
          exact clear
      | ok instruction =>
          simp only [decoded]
          apply perform_clears
          rw [noteTrace]
          split <;> exact clear

theorem build_clears (source : List Text) (setup : Setup) (m : Machine)
    (made : build source setup = .ok m) : m.registers.get .jump = .zero := by
  simp only [build, bind, Except.bind] at made
  split at made
  · cases made
  · split at made
    · cases made
    · cases made
      rfl

/-- Between two calls the jump register is clear. -/
theorem Driven.clear {m : Machine} (driven : m.Driven) : m.registers.get .jump = .zero :=
  driven.keeps build_clears step_clears

end Machine

end StackMachine
