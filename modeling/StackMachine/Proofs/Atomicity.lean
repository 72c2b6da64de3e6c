import StackMachine.Proofs.Calls
import StackMachine.Proofs.Fetching
import StackMachine.Proofs.Preparing

/-!
# Failed steps

A step fails where its line does not decode, where its instruction looks up a wrong
address, or where it jumps before the start of the program. In the last case the
instruction has been carried out, but the jump register was all it changed, and that
is clear again. So a failed step leaves the arguments it staged and the cell it loaded,
and nothing else.
-/

namespace StackMachine

set_option autoImplicit false

/-- A jump before the start of the program. -/
def Failure.isLeap : Failure → Bool
  | .program _ defect => defect.isLeap
  | _ => false

/-- The number of instructions that a failed step counts. -/
def Failure.charge (failure : Failure) : Nat := if failure.isLeap then 1 else 0

namespace Machine

variable {m stopped : Machine} {failure : Failure}

/-- The state that an instruction leaves where it fails. -/
def held (m : Machine) (instruction : Instruction) : State :=
  (m.staged instruction).loaded instruction.opcode.scratch

theorem get_held_other (m : Machine) (instruction : Instruction) {r : Register}
    (above : 4 ≤ r.val) : (m.held instruction).registers.get r = m.registers.get r := by
  rw [held, Opcode.get_loaded_other _ _ above]
  exact Instruction.get_stage_other _ _ above

theorem follow_leap {line : Nat} (before : (m.registers.get .jump).int < 0) :
    m.follow line =
      .error (.program line (.negativeJump (m.registers.get .jump).int))
        { m with registers := m.registers.set .jump .zero } := by
  have taken : (m.registers.get .jump).int ≠ 0 := by omega
  simp only [follow, taken, before, if_true, if_false]

theorem leap_of_follow {line : Nat} (failed : m.follow line = .error failure stopped) :
    (m.registers.get .jump).int < 0 := by
  by_contra onward
  rw [follow] at failed
  by_cases stays : (m.registers.get .jump).int = 0
  · rw [if_pos stays] at failed
    cases failed
  · rw [if_neg stays, if_neg onward] at failed
    cases failed

/-- How an instruction can fail, and what the machine is like then. -/
inductive Refused (m : Machine) (line : Nat) (instruction : Instruction) :
    Failure → Machine → Prop
  | address {address : Address} {state : State}
      (executed : instruction.opcode.execute (m.staged instruction) = .error address state)
      (left : state = m.held instruction) :
      Refused m line instruction (.address (some (line : Int)) address)
        { m with toState := m.held instruction }
  | leap {done : State}
      (executed : instruction.opcode.execute (m.staged instruction) = .ok () done)
      (before : (done.registers.get .jump).int < 0)
      (left : { done with registers := done.registers.set .jump .zero } = m.held instruction) :
      Refused m line instruction
        (.program line (.negativeJump (done.registers.get .jump).int))
        { m with toState := m.held instruction, executed := m.executed + 1 }

theorem stopped_of_refused {line : Nat} {instruction : Instruction}
    (refused : Refused m line instruction failure stopped) :
    stopped =
      { m with toState := m.held instruction, executed := m.executed + failure.charge } := by
  cases refused <;> rfl

theorem line_of_refused {line : Nat} {instruction : Instruction}
    (refused : Refused m line instruction failure stopped) :
    failure.line? = some (line : Int) := by
  cases refused <;> rfl

theorem refused_of_perform (clear : m.registers.get .jump = .zero) {line : Nat}
    {instruction : Instruction}
    (failed : m.perform line instruction = .error failure stopped) :
    Refused m line instruction failure stopped := by
  have steady := Opcode.execute_steady instruction.opcode (clear_staged clear instruction)
  rw [perform_run] at failed
  cases result : instruction.opcode.execute (m.staged instruction) with
  | error address state =>
      rw [result] at failed steady
      have left : state = m.held instruction := steady
      rw [left] at failed
      cases failed
      exact .address result left
  | ok value done =>
      rw [result] at failed steady
      simp only at failed
      have before := leap_of_follow failed
      rw [follow_leap before] at failed
      have jumps : done.registers.get .jump ≠ .zero := by
        intro stays
        rw [stays] at before
        exact absurd before (by decide)
      -- The operation has been carried out, but all it did was to write the jump register.
      have left : { done with registers := done.registers.set .jump .zero } = m.held instruction :=
        steady jumps
      have same : { m with
          registers := done.registers.set .jump .zero, stack := done.stack, log := done.log,
          executed := m.executed + 1 } =
          { m with toState := m.held instruction, executed := m.executed + 1 } := by
        rw [← left]
      cases failed
      rw [same]
      exact .leap result before left

def reached (m : Machine) (fetched : Fetched) : Machine :=
  ({ m with pointer := fetched.line } : Machine).noteTrace fetched.line fetched.text

theorem reached_eq (m : Machine) (fetched : Fetched) :
    m.reached fetched =
      { m with
        pointer := fetched.line
        log := if m.trace then m.log.push (.traced fetched.line fetched.text) else m.log } := by
  rw [reached, noteTrace]
  by_cases traced : m.trace = true
  · rw [if_pos traced, if_pos traced]
  · rw [if_neg traced, if_neg traced]

/-- How a step can fail, and what the machine is like then. -/
inductive Failed (m : Machine) : Failure → Machine → Prop
  | defect {fetched : Fetched} {defect : Defect} (found : m.fetch = some fetched)
      (wrong : fetched.decoded = .error defect) :
      Failed m (.program fetched.line defect) { m with pointer := fetched.line }
  | refused {fetched : Fetched} {instruction : Instruction} {failure : Failure}
      {stopped : Machine} (found : m.fetch = some fetched)
      (right : fetched.decoded = .ok instruction)
      (refused : Refused (m.reached fetched) fetched.line instruction failure stopped) :
      Failed m failure stopped

theorem failed_of_step (clear : m.registers.get .jump = .zero)
    (failed : m.step = .error failure stopped) : Failed m failure stopped := by
  rw [step] at failed
  cases found : m.fetch with
  | none =>
      rw [found] at failed
      cases failed
  | some fetched =>
      cases decoded : fetched.decoded with
      | error defect =>
          simp only [found, decoded] at failed
          cases failed
          exact .defect found decoded
      | ok instruction =>
          simp only [found, decoded] at failed
          have still_clear : (m.reached fetched).registers.get .jump = .zero := by
            rw [reached_eq]
            exact clear
          exact .refused found decoded (refused_of_perform still_clear failed)

/-- What a failed step leaves: all of the machine but the argument registers, and one
more instruction on the count where it was a jump that failed. -/
structure Atomic (m : Machine) (failure : Failure) (stopped : Machine) : Prop where
  stack : stopped.stack = m.stack
  registers : ∀ r : Register, 4 ≤ r.val → stopped.registers.get r = m.registers.get r
  log : stopped.log = m.log ∨
    m.trace = true ∧ ∃ text, stopped.log = m.log.push (.traced stopped.pointer text)
  pointer : FirstStatement m.program.lines m.pointer stopped.pointer
  line : failure.line? = some (stopped.pointer : Int)
  executed : stopped.executed = m.executed + failure.charge
  program : stopped.program = m.program
  trace : stopped.trace = m.trace

theorem log_reached (m : Machine) (fetched : Fetched) :
    (m.reached fetched).log = m.log ∨
      m.trace = true ∧
        ∃ text, (m.reached fetched).log = m.log.push (.traced fetched.line text) := by
  rw [reached_eq]
  by_cases traced : m.trace = true
  · right
    refine ⟨traced, fetched.text, ?_⟩
    simp only [traced, if_true]
  · left
    simp only [traced]
    rfl

theorem atomic_of_failed (failed : Failed m failure stopped) : Atomic m failure stopped := by
  cases failed with
  | @defect fetched defect found wrong =>
      obtain ⟨skipped, rest, scanned⟩ := scanned_of_fetch_from found
      have decoded : Instruction.decode fetched.text = .error defect := by
        rw [scanned.decoded, wrong]
        rfl
      have no_leap : (Failure.program fetched.line defect).charge = 0 := by
        rw [Failure.charge, Failure.isLeap, Instruction.no_leap_of_decode decoded]
        rfl
      constructor
      · rfl
      · intro r above
        rfl
      · exact .inl rfl
      · exact first_statement_of_fetch found
      · rfl
      · rw [no_leap]
        rfl
      · rfl
      · rfl
  | @refused fetched instruction failure stopped found right refused =>
      have left := stopped_of_refused refused
      rw [reached_eq] at left
      have stack : stopped.stack = m.stack := by
        rw [left]
        exact State.stack_loaded _ _
      have log : stopped.log = (m.reached fetched).log := by
        rw [left, reached_eq]
        exact State.log_loaded _ _
      have place : stopped.pointer = fetched.line := by rw [left]
      constructor
      · exact stack
      · intro r above
        rw [left]
        exact get_held_other _ instruction above
      · rw [log, place]
        exact log_reached m fetched
      · rw [place]
        exact first_statement_of_fetch found
      · rw [place]
        exact line_of_refused refused
      · rw [left]
      · rw [left]
      · rw [left]

/-- A step that fails leaves nothing but staged arguments behind, whatever calls have
driven the machine before. -/
theorem failed_step_is_atomic (driven : m.Driven) (failed : m.step = .error failure stopped) :
    Atomic m failure stopped :=
  atomic_of_failed (failed_of_step driven.clear failed)

def strayLines : List Text := ["# no way back".toList, "jmp -1".toList]

def stray : Machine where
  registers := .zero
  stack := .empty Stack.defaultCapacity
  log := #[]
  program := ⟨strayLines, []⟩
  trace := true
  pointer := 0
  executed := 0

theorem build_stray : build strayLines { trace := true } = .ok stray := by
  have prepared : Program.prepare strayLines = .ok ⟨strayLines, []⟩ :=
    Program.prepare_undeclared (by decide) rfl
  simp only [build, prepared]
  rfl

theorem failed_step_is_atomic_stray :
    ∃ stopped, stray.Driven ∧ stray.step = .error (.program 1 (.negativeJump (-1))) stopped ∧
      Atomic stray (.program 1 (.negativeJump (-1))) stopped := by
  have driven : stray.Driven := .built build_stray
  exact ⟨_, driven, rfl, failed_step_is_atomic driven rfl⟩

end Machine

end StackMachine
