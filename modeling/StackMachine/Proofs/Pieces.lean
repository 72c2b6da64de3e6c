import StackMachine.Proofs.Budgets
import StackMachine.Proofs.Progress

/-!
# Runs in pieces

A run can be cut into two wherever its limit can, and into single steps: a host that
calls `step` until it has had enough instructions, or until there are none left, gets
what one run gives it. Nothing here depends on how the machine has come about.
-/

namespace StackMachine

set_option autoImplicit false

namespace Machine

variable {m next final : Machine} {continues : Bool} {failure : Failure}
  {outcome : Outcome Summary} {bound : Option Nat} {count : Nat}

/-- Counts the instructions of earlier calls in. -/
def countedFrom (earlier : Nat) : Outcome Summary → Outcome Summary
  | .ok summary final => .ok ⟨earlier + summary.steps, summary.halted⟩ final
  | .error failure stopped => .error failure stopped

/-- A run, and another one from where it has returned, with the steps of both. -/
def runTwice (first second : Option Double) (fuel : Nat) (m : Machine) : Progress :=
  match m.run first fuel with
  | .ended (.ok summary middle) =>
      match middle.run second fuel with
      | .ended outcome => .ended (countedFrom summary.steps outcome)
      | .running machine => .running machine
  | other => other

theorem counted_from_add (first second : Nat) (outcome : Outcome Summary) :
    countedFrom first (countedFrom second outcome) = countedFrom (first + second) outcome := by
  cases outcome with
  | error failure stopped => rfl
  | ok summary final => simp only [countedFrom, Nat.add_assoc]

theorem counted_from_zero (outcome : Outcome Summary) : countedFrom 0 outcome = outcome := by
  cases outcome with
  | error failure stopped => rfl
  | ok summary final => simp only [countedFrom, Nat.zero_add]

theorem run_for_add (first second : Nat) (m : Machine) :
    runFor (first + second) m =
      match runFor first m with
      | .ok summary middle => countedFrom summary.steps (runFor second middle)
      | .error failure stopped => .error failure stopped := by
  simp only [runFor, advance_add]
  cases early : advance first m with
  | error failure stopped => rfl
  | ok value middle =>
      cases late : advance second middle with
      | error failure stopped => simp only [late, countedFrom]
      | ok value final =>
          have before := executed_le_of_advance early
          have after := executed_le_of_advance late
          have steps : final.executed - m.executed =
              middle.executed - m.executed + (final.executed - middle.executed) := by omega
          simp only [late, countedFrom, steps]

/-- The first step of a run, with what it has executed. -/
theorem run_for_step (going : m.halted = false) (taken : m.step = .ok continues next)
    (budget : Nat) :
    runFor (budget + 1) m = countedFrom (next.executed - m.executed) (runFor budget next) := by
  have once : advance 1 m = .ok () next := by
    rw [advance_going going, taken]
    rfl
  have first : runFor 1 m = .ok ⟨next.executed - m.executed, next.halted⟩ next := by
    simp only [runFor, once]
  rw [Nat.add_comm, run_for_add, first]

theorem run_for_error {stopped : Machine} (thrown : m.step = .error failure stopped)
    (budget : Nat) : runFor (budget + 1) m = .error failure stopped := by
  rw [runFor, advance_thrown thrown]

theorem going_of_continues (taken : m.step = .ok true next) :
    m.halted = false ∧ next.executed = m.executed + 1 := by
  have stepped := stepped_of_step taken
  have on : next.halted = false := by simpa using stepped.2
  constructor
  · by_contra halts
    rw [step_halted (by simpa using halts)] at taken
    cases taken
  · rcases executed_of_stepped stepped.1 with ⟨nothing, last⟩ | one
    · rw [last, halted_finish] at on
      contradiction
    · exact one

theorem halted_of_no_more (taken : m.step = .ok false next) : next.halted = true := by
  simpa using (stepped_of_step taken).2

/-- As many instructions as are wanted have been executed. -/
def Enough (bound : Option Nat) (count : Nat) : Prop := ∃ limit, bound = some limit ∧ limit ≤ count

/-- What comes of calling `step` over and over, until the calls have executed as many
instructions as are wanted, or one of them returns `false`, or one throws. The count is
that of the instructions executed so far. -/
inductive Stepwise (bound : Option Nat) : Nat → Machine → Outcome Summary → Prop
  | enough {count : Nat} {m : Machine} (enough : Enough bound count) :
      Stepwise bound count m (.ok ⟨count, m.halted⟩ m)
  | thrown {count : Nat} {m stopped : Machine} {failure : Failure}
      (wanted : ¬Enough bound count) (call : m.step = .error failure stopped) :
      Stepwise bound count m (.error failure stopped)
  | last {count : Nat} {m next : Machine} (wanted : ¬Enough bound count)
      (call : m.step = .ok false next) :
      Stepwise bound count m (.ok ⟨count + (next.executed - m.executed), next.halted⟩ next)
  | more {count : Nat} {m next : Machine} {outcome : Outcome Summary}
      (wanted : ¬Enough bound count) (call : m.step = .ok true next)
      (rest : Stepwise bound (count + (next.executed - m.executed)) next outcome) :
      Stepwise bound count m outcome

theorem enough_iff (limit count : Nat) : Enough (some limit) count ↔ limit ≤ count := by
  constructor
  · rintro ⟨other, same, reached⟩
    cases same
    exact reached
  · intro reached
    exact ⟨limit, rfl, reached⟩

theorem stepwise_run_for {limit budget : Nat} (left : limit - count = budget) :
    Stepwise (some limit) count m (countedFrom count (runFor budget m)) := by
  induction budget generalizing count m with
  | zero =>
      have none : runFor 0 m = .ok ⟨0, m.halted⟩ m := by simp only [runFor, advance, Nat.sub_self]
      rw [none]
      exact .enough ((enough_iff limit count).mpr (by omega))
  | succ budget ih =>
      have wanted : ¬Enough (some limit) count := by
        rw [enough_iff]
        omega
      cases going : m.halted with
      | true =>
          have last := Stepwise.last wanted (step_halted going)
          rw [Nat.sub_self, going] at last
          rw [run_for_halted going]
          exact last
      | false =>
          cases taken : m.step with
          | error failure stopped =>
              rw [run_for_error taken]
              exact .thrown wanted taken
          | ok continues next =>
              rw [run_for_step going taken, counted_from_add]
              cases continues with
              | false =>
                  have halts := halted_of_no_more taken
                  have last := Stepwise.last wanted taken
                  rw [halts] at last
                  rw [run_for_halted halts]
                  exact last
              | true =>
                  have one := (going_of_continues taken).2
                  exact .more wanted taken (ih (by omega))

theorem run_for_of_stepwise {limit : Nat} (stepwise : Stepwise (some limit) count m outcome) :
    outcome = countedFrom count (runFor (limit - count) m) := by
  induction stepwise with
  | @enough count m enough =>
      have none : limit - count = 0 := by
        rw [enough_iff] at enough
        omega
      rw [none]
      simp only [runFor, advance, Nat.sub_self, countedFrom, Nat.add_zero]
  | @thrown count m stopped failure wanted call =>
      rw [enough_iff] at wanted
      obtain ⟨budget, left⟩ : ∃ budget, limit - count = budget + 1 :=
        ⟨limit - count - 1, by omega⟩
      rw [left, run_for_error call]
      rfl
  | @last count m next wanted call =>
      rw [enough_iff] at wanted
      obtain ⟨budget, left⟩ : ∃ budget, limit - count = budget + 1 :=
        ⟨limit - count - 1, by omega⟩
      have halts := halted_of_no_more call
      cases going : m.halted with
      | true =>
          rw [step_halted going] at call
          cases call
          rw [run_for_halted going, going, Nat.sub_self]
          rfl
      | false =>
          rw [left, run_for_step going call, run_for_halted halts, halts]
          rfl
  | @more count m next outcome wanted call rest ih =>
      rw [enough_iff] at wanted
      obtain ⟨going, one⟩ := going_of_continues call
      have left : limit - count = limit - (count + (next.executed - m.executed)) + 1 := by omega
      rw [left, run_for_step going call, counted_from_add]
      exact ih

/-- An outcome that no further step would change: a failure, or a halt. -/
def Conclusive : Outcome Summary → Prop
  | .ok summary _ => summary.halted = true
  | .error _ _ => True

theorem run_unbounded {limit : Option Double} (unbounded : budget? limit = none) (m : Machine)
    (fuel : Nat) : m.run limit fuel = m.run none fuel := by
  simp only [run, unbounded]
  rfl

theorem run_none_iff (fuel : Nat) :
    m.run none fuel = .ended outcome ↔ outcome = runFor fuel m ∧ Conclusive outcome := by
  simp only [run, budget?]
  cases ran : runFor fuel m with
  | error failure stopped =>
      constructor
      · intro ended
        cases ended
        exact ⟨rfl, trivial⟩
      · rintro ⟨same, -⟩
        rw [same]
  | ok summary final =>
      by_cases halts : summary.halted = true
      · simp only [if_pos halts]
        constructor
        · intro ended
          cases ended
          exact ⟨rfl, halts⟩
        · rintro ⟨same, -⟩
          rw [same]
      · simp only [if_neg halts]
        constructor
        · intro ended
          cases ended
        · rintro ⟨same, conclusive⟩
          rw [same] at conclusive
          exact absurd conclusive halts

theorem not_enough_none (count : Nat) : ¬Enough none count := by
  rintro ⟨limit, same, -⟩
  cases same

/-- Calls that end by themselves end in the same way without a bound. -/
theorem stepwise_unbounded (stepwise : Stepwise bound count m outcome)
    (conclusive : Conclusive outcome) : Stepwise none count m outcome := by
  induction stepwise with
  | @enough count m enough =>
      have halts : m.halted = true := conclusive
      have last := Stepwise.last (not_enough_none count) (step_halted halts)
      rw [Nat.sub_self] at last
      exact last
  | thrown wanted call => exact .thrown (not_enough_none _) call
  | last wanted call => exact .last (not_enough_none _) call
  | more wanted call rest ih => exact .more (not_enough_none _) call (ih conclusive)

/-- Calls without a bound end by themselves, and no bound that is large enough shows. -/
theorem stepwise_bounded (stepwise : Stepwise none count m outcome) :
    Conclusive outcome ∧ ∃ least, ∀ limit, least ≤ limit → Stepwise (some limit) count m outcome := by
  induction stepwise with
  | enough enough => exact absurd enough (not_enough_none _)
  | @thrown count m stopped failure wanted call =>
      refine ⟨trivial, count + 1, fun limit large => .thrown ?_ call⟩
      rw [enough_iff]
      omega
  | @last count m next wanted call =>
      refine ⟨halted_of_no_more call, count + 1, fun limit large => .last ?_ call⟩
      rw [enough_iff]
      omega
  | @more count m next outcome wanted call rest ih =>
      obtain ⟨conclusive, least, within⟩ := ih
      refine ⟨conclusive, max least (count + 1), fun limit large => ?_⟩
      refine .more ?_ call (within limit (by omega))
      rw [enough_iff]
      omega

theorem run_twice_eq {first second both : Double} {early late : Nat}
    (whole_first : first.whole? = some (early : Int))
    (whole_second : second.whole? = some (late : Int))
    (whole_both : both.whole? = some ((early + late : Nat) : Int)) (fuel more : Nat) :
    m.runTwice (some first) (some second) fuel = m.run (some both) more := by
  simp only [runTwice, run, budget_of_whole whole_first, budget_of_whole whole_second,
    budget_of_whole whole_both, run_for_add]
  cases runFor early m <;> rfl

theorem run_bounded_iff_stepwise {limit : Option Double} {wanted : Nat}
    (bounded : budget? limit = some wanted) (fuel : Nat) :
    m.run limit fuel = .ended outcome ↔ Stepwise (some wanted) 0 m outcome := by
  simp only [run, bounded, Progress.ended.injEq]
  constructor
  · intro same
    have stepwise := stepwise_run_for (m := m) (Nat.sub_zero wanted)
    rw [counted_from_zero, same] at stepwise
    exact stepwise
  · intro stepwise
    rw [run_for_of_stepwise stepwise, Nat.sub_zero, counted_from_zero]

theorem run_none_iff_stepwise :
    (∃ fuel, m.run none fuel = .ended outcome) ↔ Stepwise none 0 m outcome := by
  constructor
  · rintro ⟨fuel, ended⟩
    obtain ⟨same, conclusive⟩ := (run_none_iff fuel).mp ended
    have stepwise := stepwise_run_for (m := m) (Nat.sub_zero fuel)
    rw [counted_from_zero, ← same] at stepwise
    exact stepwise_unbounded stepwise conclusive
  · intro stepwise
    obtain ⟨conclusive, least, within⟩ := stepwise_bounded stepwise
    have same := run_for_of_stepwise (within least (Nat.le_refl least))
    rw [Nat.sub_zero, counted_from_zero] at same
    exact ⟨least, (run_none_iff least).mpr ⟨same, conclusive⟩⟩

/-- A run of any machine can be made in two runs that share its limit, and in single
steps; a failure in either of the two, or in one of the steps, is that of the whole run.
A run without a limit ends exactly where single steps end by themselves. -/
theorem run_splits {first second both : Double} {early late : Nat}
    (whole_first : first.whole? = some (early : Int))
    (whole_second : second.whole? = some (late : Int))
    (whole_both : both.whole? = some ((early + late : Nat) : Int)) (m : Machine) :
    (∀ fuel more, m.runTwice (some first) (some second) fuel = m.run (some both) more) ∧
      (∀ fuel outcome, m.run (some first) fuel = .ended outcome ↔
        Stepwise (some early) 0 m outcome) ∧
      ∀ outcome, (∃ fuel, m.run none fuel = .ended outcome) ↔ Stepwise none 0 m outcome := by
  refine ⟨?_, ?_, ?_⟩
  · exact run_twice_eq whole_first whole_second whole_both
  · intro fuel outcome
    exact run_bounded_iff_stepwise (budget_of_whole whole_first) fuel
  · intro outcome
    exact run_none_iff_stepwise

/-- Executes one instruction and then fails at a jump, behind a line that is passed over. -/
def leaping : Machine :=
  { stray with program := ⟨["push 1".toList, [], "jmp -1".toList], []⟩, stack := .empty 1 }

theorem run_splits_leaping :
    (Double.ofInt 1).whole? = some ((1 : Nat) : Int) ∧
      (Double.ofInt 2).whole? = some ((1 + 1 : Nat) : Int) ∧
      (∃ middle, leaping.run (some (Double.ofInt 1)) 0 = .ended (.ok ⟨1, false⟩ middle)) ∧
      (∃ stopped, leaping.runTwice (some (Double.ofInt 1)) (some (Double.ofInt 1)) 0 =
        .ended (.error (.program 2 (.negativeJump (-1))) stopped)) ∧
      leaping.runTwice (some (Double.ofInt 1)) (some (Double.ofInt 1)) 0 =
        leaping.run (some (Double.ofInt 2)) 0 ∧
      ∃ middle, Stepwise (some 1) 0 leaping (.ok ⟨1, false⟩ middle) := by
  have one : (Double.ofInt 1).whole? = some ((1 : Nat) : Int) := rfl
  have two : (Double.ofInt 2).whole? = some ((1 + 1 : Nat) : Int) := rfl
  have returns : ∃ middle,
      leaping.run (some (Double.ofInt 1)) 0 = .ended (.ok ⟨1, false⟩ middle) := by
    refine ⟨after (runFor 1 leaping), ?_⟩
    simp only [run, budget_of_whole one]
    rfl
  have leaps : ∃ stopped, leaping.run (some (Double.ofInt 2)) 0 =
      .ended (.error (.program 2 (.negativeJump (-1))) stopped) := by
    refine ⟨after (runFor (1 + 1) leaping), ?_⟩
    simp only [run, budget_of_whole two]
    rfl
  obtain ⟨twice, single, -⟩ := run_splits one one two leaping
  refine ⟨one, two, returns, ?_, twice 0 0, ?_⟩
  · obtain ⟨stopped, ran⟩ := leaps
    exact ⟨stopped, (twice 0 0).trans ran⟩
  · obtain ⟨middle, ran⟩ := returns
    exact ⟨middle, (single 0 _).mp ran⟩

end Machine

end StackMachine
