import StackMachine.Proofs.Atomicity

/-!
# Steps and counts of steps

A step that returns has either found no statement any more, and then the machine has
halted, or it has executed one instruction and moved the pointer. A count of steps can
be gone through in parts, and where a machine has halted no count makes a difference.
-/

namespace StackMachine

set_option autoImplicit false

namespace Machine

variable {m next final : Machine} {continues : Bool} {failure : Failure}

/-- Where the pointer goes once an instruction is done, unless it jumps before the start. -/
def landing (target : Int) (line : Nat) : Nat := if target = 0 then line + 1 else target.toNat

def landed (m : Machine) (line : Nat) : Machine :=
  { m with
    registers := m.registers.set .jump .zero
    pointer := landing (m.registers.get .jump).int line }

theorem follow_onward {line : Nat} (onward : 0 ≤ (m.registers.get .jump).int) :
    m.follow line = .ok (!(m.landed line).halted) (m.landed line) := by
  by_cases stays : (m.registers.get .jump).int = 0
  · have clear : m.registers.get .jump = .zero := Cell.int_injective stays
    have same : m.landed line = { m with pointer := line + 1 } := by
      rw [landed, landing, if_pos stays, ← clear, Registers.set_get]
    rw [same]
    simp only [follow, stays, if_true]
  · have forward : ¬(m.registers.get .jump).int < 0 := by omega
    have same : m.landed line =
        { m with
          registers := m.registers.set .jump .zero
          pointer := (m.registers.get .jump).int.toNat } := by
      rw [landed, landing, if_neg stays]
    rw [same]
    simp only [follow, stays, forward, if_false]

/-- The machine once the operation on a fetched line is done, but before the pointer moves. -/
def carried (m : Machine) (fetched : Fetched) (done : State) : Machine :=
  { m.reached fetched with toState := done, executed := (m.reached fetched).executed + 1 }

theorem step_fetched {fetched : Fetched} {instruction : Instruction}
    (found : m.fetch = some fetched) (right : fetched.decoded = .ok instruction) :
    m.step =
      match instruction.opcode.execute ((m.reached fetched).staged instruction) with
      | .ok _ done => (m.carried fetched done).follow fetched.line
      | .error address stopped =>
          .error (.address (some (fetched.line : Int)) address)
            { m.reached fetched with toState := stopped } := by
  have taken : m.step = (m.reached fetched).perform fetched.line instruction := by
    simp only [step, found, right]
    rfl
  rw [taken, perform_run]
  rfl

/-- What a step that returns has done. -/
inductive Stepped (m : Machine) : Machine → Prop
  | finished (nothing : m.fetch = none) : Stepped m m.finish
  | performed {fetched : Fetched} {instruction : Instruction} {done : State}
      (found : m.fetch = some fetched) (right : fetched.decoded = .ok instruction)
      (executed : instruction.opcode.execute ((m.reached fetched).staged instruction) =
        .ok () done)
      (onward : 0 ≤ (done.registers.get .jump).int) :
      Stepped m ((m.carried fetched done).landed fetched.line)

theorem halted_finish (m : Machine) : m.finish.halted = true :=
  decide_eq_true (Nat.le_max_right m.pointer m.program.lines.length)

theorem stepped_of_step (taken : m.step = .ok continues next) :
    Stepped m next ∧ continues = !next.halted := by
  cases found : m.fetch with
  | none =>
      simp only [step, found] at taken
      cases taken
      exact ⟨.finished found, by rw [halted_finish]; rfl⟩
  | some fetched =>
      cases right : fetched.decoded with
      | error defect =>
          simp only [step, found, right] at taken
          cases taken
      | ok instruction =>
          rw [step_fetched found right] at taken
          cases executed : instruction.opcode.execute ((m.reached fetched).staged instruction) with
          | error address state =>
              simp only [executed] at taken
              cases taken
          | ok value done =>
              simp only [executed] at taken
              by_cases onward : 0 ≤ (done.registers.get .jump).int
              · rw [follow_onward (m := m.carried fetched done) onward] at taken
                cases taken
                exact ⟨.performed found right executed onward, rfl⟩
              · have before : (done.registers.get .jump).int < 0 := by omega
                rw [follow_leap (m := m.carried fetched done) before] at taken
                cases taken

theorem fetch_halted (halts : m.halted = true) : m.fetch = none := by
  have past : m.program.lines.length ≤ m.pointer := of_decide_eq_true halts
  rw [fetch, List.drop_eq_nil_of_le past]
  rfl

theorem finish_of_halted (halts : m.halted = true) : m.finish = m := by
  have past : m.program.lines.length ≤ m.pointer := of_decide_eq_true halts
  rw [finish, Nat.max_eq_left past]

theorem step_halted (halts : m.halted = true) : m.step = .ok false m := by
  simp only [step, fetch_halted halts, finish_of_halted halts]

/-- A step that executes no instruction only passes over the lines that are left. -/
theorem executed_of_stepped (stepped : Stepped m next) :
    m.fetch = none ∧ next = m.finish ∨ next.executed = m.executed + 1 := by
  cases stepped with
  | finished nothing => exact .inl ⟨nothing, rfl⟩
  | @performed fetched instruction done found right executed onward =>
      right
      change (m.reached fetched).executed + 1 = m.executed + 1
      rw [reached_eq]

theorem executed_le_of_stepped (stepped : Stepped m next) : m.executed ≤ next.executed := by
  rcases executed_of_stepped stepped with ⟨nothing, last⟩ | one
  · exact Nat.le_of_eq (by rw [last, finish])
  · omega

theorem advance_halted (halts : m.halted = true) (count : Nat) : advance count m = .ok () m := by
  cases count with
  | zero => rfl
  | succ count => rw [advance, if_pos halts]

theorem advance_going (going : m.halted = false) (count : Nat) :
    advance (count + 1) m =
      match m.step with
      | .ok _ next => advance count next
      | .error failure stopped => .error failure stopped := by
  cases taken : m.step with
  | ok continues next => simp only [advance, going, taken, Bool.false_eq_true, if_false]
  | error failure stopped => simp only [advance, going, taken, Bool.false_eq_true, if_false]

/-- A step that throws is the end of every count that still has it to make. -/
theorem advance_thrown {stopped : Machine} (thrown : m.step = .error failure stopped)
    (count : Nat) : advance (count + 1) m = .error failure stopped := by
  cases going : m.halted with
  | true =>
      rw [step_halted going] at thrown
      cases thrown
  | false => rw [advance_going going, thrown]

theorem run_for_halted (halts : m.halted = true) (budget : Nat) :
    runFor budget m = .ok ⟨0, true⟩ m := by
  simp only [runFor, advance_halted halts, Nat.sub_self, halts]

theorem executed_le_of_advance {count : Nat} (advanced : advance count m = .ok () final) :
    m.executed ≤ final.executed := by
  induction count generalizing m with
  | zero =>
      cases advanced
      exact Nat.le_refl _
  | succ count ih =>
      cases going : m.halted with
      | true =>
          rw [advance_halted going] at advanced
          cases advanced
          exact Nat.le_refl _
      | false =>
          rw [advance_going going] at advanced
          cases taken : m.step with
          | error failure stopped =>
              rw [taken] at advanced
              cases advanced
          | ok continues next =>
              rw [taken] at advanced
              have first := executed_le_of_stepped (stepped_of_step taken).1
              exact Nat.le_trans first (ih advanced)

/-- A count may be interrupted anywhere: what is left of it is gone through from there. -/
theorem advance_add (first second : Nat) (m : Machine) :
    advance (first + second) m =
      match advance first m with
      | .ok _ middle => advance second middle
      | .error failure stopped => .error failure stopped := by
  induction first generalizing m with
  | zero => rw [Nat.zero_add, advance]
  | succ first ih =>
      cases going : m.halted with
      | true => simp only [advance_halted going]
      | false =>
          rw [Nat.add_right_comm, advance_going going, advance_going going]
          cases m.step with
          | error failure stopped => rfl
          | ok continues next => exact ih next

end Machine

end StackMachine
