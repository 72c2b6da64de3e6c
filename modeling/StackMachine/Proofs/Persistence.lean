import StackMachine.Proofs.Logging
import StackMachine.Proofs.Progress

/-!
# Failures are final

A machine that has failed stands before the line it failed on, with the arguments that
the instruction has staged. Staged once more they are the same, and the instruction
finds what it found before; so every further attempt fails in the same way and leaves
the machine where it is. Only the traces of the attempts are added, and a count of them
where it is a jump that fails.
-/

namespace StackMachine

set_option autoImplicit false

/-- Above zero, perhaps infinite. -/
def Double.isPositive (x : Double) : Bool :=
  !x.isNaN && !x.negative && x.magnitude != 0

theorem BinaryFormat.significand_pos (format : BinaryFormat) {magnitude : Nat} (positive : 0 < magnitude) :
    0 < format.significand magnitude := by
  have hidden : 0 < format.hidden := Nat.pow_pos Nat.two_pos
  rw [significand]
  split <;> omega

theorem BinaryFormat.value_pos (format : BinaryFormat) {magnitude : Nat} (positive : 0 < magnitude) :
    0 < (format.value magnitude).ceiling := by
  have numerator := significand_pos format positive
  have up : 0 < Nat.pow 2 (format.exponent magnitude).toNat := Nat.pow_pos Nat.two_pos
  have down : 0 < Nat.pow 2 (-format.exponent magnitude).toNat := Nat.pow_pos Nat.two_pos
  have above := Nat.mul_pos numerator up
  simp only [value, Ratio.ofNat, Ratio.scale, Ratio.ceiling, Nat.one_mul]
  apply Nat.div_pos _ down
  omega

theorem budget_ne_zero {limit : Double} (positive : limit.isPositive = true) :
    budget? (some limit) ≠ some 0 := by
  simp only [Double.isPositive, Bool.and_eq_true, Bool.not_eq_true', bne_iff_ne] at positive
  obtain ⟨⟨number, above⟩, nonzero⟩ := positive
  have ceiling := BinaryFormat.double.value_pos (Nat.pos_of_ne_zero nonzero)
  simp only [budget?, number, above, Bool.or_self]
  cases limit.isFinite with
  | false => simp
  | true =>
      have whole : limit.size.ceiling ≠ 0 := Nat.pos_iff_ne_zero.mp ceiling
      simpa using whole

def Instruction.prepared (instruction : Instruction) (bottom : Cell) (registers : Registers) :
    Registers :=
  match instruction.opcode.scratch with
  | none => stage instruction.operands registers
  | some r => (stage instruction.operands registers).set r bottom

theorem Instruction.overwrites_prepared (instruction : Instruction) (bottom : Cell) :
    Registers.Overwrites (instruction.prepared bottom) := by
  have staged := overwrites_stage instruction.operands
  unfold prepared
  cases instruction.opcode.scratch with
  | none => exact staged
  | some r => exact staged.comp (.set r bottom)

namespace Machine

variable {m stopped again : Machine} {failure : Failure}

theorem registers_held (m : Machine) (instruction : Instruction) :
    (m.held instruction).registers = instruction.prepared m.stack.bottom m.registers := by
  unfold held State.loaded Instruction.prepared
  cases instruction.opcode.scratch <;> rfl

/-- What has been staged and loaded is staged and loaded again to the same effect. -/
theorem registers_held_again {instruction : Instruction}
    (registers : again.registers = (m.held instruction).registers)
    (stack : again.stack = m.stack) :
    (again.held instruction).registers = again.registers := by
  rw [registers_held, registers, registers_held, stack]
  exact (instruction.overwrites_prepared m.stack.bottom).again m.registers

theorem execute_again {instruction : Instruction}
    (registers : again.registers = (m.held instruction).registers)
    (stack : again.stack = m.stack) :
    Action.SameButLog (instruction.opcode.execute (again.staged instruction))
      (instruction.opcode.execute (m.staged instruction)) := by
  -- Both are taken past the load, where the registers are those of the failed attempt.
  rw [← Opcode.execute_loaded, ← Opcode.execute_loaded instruction.opcode (m.staged instruction)]
  apply (Oblivious.execute instruction.opcode).same_but_log
  · exact (registers_held_again registers stack).trans registers
  · rw [State.stack_loaded, State.stack_loaded]
    exact stack

theorem perform_again {line : Nat} {instruction : Instruction}
    (refused : Refused m line instruction failure stopped)
    (registers : again.registers = (m.held instruction).registers)
    (stack : again.stack = m.stack) :
    ∃ final, again.perform line instruction = .error failure final := by
  have same := execute_again registers stack
  rw [perform_run]
  cases refused with
  | address executed left =>
      rw [executed] at same
      cases result : instruction.opcode.execute (again.staged instruction) with
      | ok value done =>
          rw [result] at same
          exact same.elim
      | error address state =>
          rw [result] at same
          rw [same.1]
          exact ⟨_, rfl⟩
  | leap executed before left =>
      rw [executed] at same
      cases result : instruction.opcode.execute (again.staged instruction) with
      | error address state =>
          rw [result] at same
          exact same.elim
      | ok value done =>
          rw [result] at same
          rw [← same.2.1] at before ⊢
          exact ⟨_, follow_leap before⟩

/-- What some failed attempts leave: only traces and the count tell how many. -/
structure Stalled (failure : Failure) (attempts : Nat) (stopped later : Machine) : Prop where
  program : later.program = stopped.program
  pointer : later.pointer = stopped.pointer
  registers : later.registers = stopped.registers
  stack : later.stack = stopped.stack
  executed : later.executed = stopped.executed + attempts * failure.charge
  log : ∃ traces : List (Nat × Text), later.log.toList =
    stopped.log.toList ++ traces.map fun trace => Event.traced trace.1 trace.2

namespace Stalled

theorem none (failure : Failure) (stopped : Machine) : Stalled failure 0 stopped stopped where
  program := rfl
  pointer := rfl
  registers := rfl
  stack := rfl
  executed := by rw [Nat.zero_mul, Nat.add_zero]
  log := ⟨[], by rw [List.map_nil, List.append_nil]⟩

theorem trans {first second : Nat} {later last : Machine}
    (early : Stalled failure first stopped later) (late : Stalled failure second later last) :
    Stalled failure (first + second) stopped last where
  program := late.program.trans early.program
  pointer := late.pointer.trans early.pointer
  registers := late.registers.trans early.registers
  stack := late.stack.trans early.stack
  executed := by rw [late.executed, early.executed, Nat.add_mul, Nat.add_assoc]
  log := by
    obtain ⟨before, logged⟩ := early.log
    obtain ⟨after, logged_after⟩ := late.log
    refine ⟨before ++ after, ?_⟩
    rw [logged_after, logged, List.map_append, List.append_assoc]

end Stalled

theorem stalled_of_refused {line : Nat} {instruction : Instruction}
    (refused : Refused again line instruction failure stopped)
    (same : (again.held instruction).registers = again.registers) :
    Stalled failure 1 again stopped := by
  have left := stopped_of_refused refused
  have stack : (again.held instruction).stack = again.stack := State.stack_loaded _ _
  have log : (again.held instruction).log = again.log := State.log_loaded _ _
  constructor
  · rw [left]
  · rw [left]
  · rw [left]
    exact same
  · rw [left]
    exact stack
  · rw [left, Nat.one_mul]
  · refine ⟨[], ?_⟩
    rw [left, List.map_nil, List.append_nil]
    exact congrArg Array.toList log

/-- To reach a line that the pointer is at already adds no more than a trace. -/
theorem stalled_reached {fetched : Fetched} (pointer : again.pointer = fetched.line)
    (failure : Failure) : Stalled failure 0 again (again.reached fetched) := by
  have log := log_reached again fetched
  constructor
  · rw [reached_eq]
  · rw [reached_eq]
    exact pointer.symm
  · rw [reached_eq]
  · rw [reached_eq]
  · rw [reached_eq, Nat.zero_mul, Nat.add_zero]
  · rcases log with same | ⟨traced, text, pushed⟩
    · exact ⟨[], by rw [same, List.map_nil, List.append_nil]⟩
    · exact ⟨[(fetched.line, text)], by rw [pushed, Array.toList_push]; rfl⟩

/-- One more attempt after a failed step, with any number of attempts between them. -/
theorem step_again (failed : Failed m failure stopped)
    (clear : stopped.registers.get .jump = .zero) {attempts : Nat}
    (stalled : Stalled failure attempts stopped again) :
    ∃ final, again.step = .error failure final ∧ Stalled failure 1 again final := by
  cases failed with
  | @defect fetched defect found wrong =>
      -- A line that does not decode is no jump, so the attempts at it are not counted.
      have counted := (atomic_of_failed (.defect found wrong)).executed
      have free : (Failure.program fetched.line defect).charge = 0 := by
        simp only at counted
        omega
      have refetched := fetch_again found stalled.program stalled.pointer
      have unmoved : { again with pointer := fetched.line } = again := by
        have place : again.pointer = fetched.line := stalled.pointer
        rw [← place]
      have still := Stalled.none (Failure.program fetched.line defect) again
      refine ⟨again, ?_, { still with executed := ?_ }⟩
      · simp only [step, refetched, wrong, unmoved]
      · rw [free, Nat.mul_zero, Nat.add_zero]
  | @refused fetched instruction failure stopped found right refused =>
      have left := stopped_of_refused refused
      have place : stopped.pointer = fetched.line := by rw [left, reached_eq]
      have program : stopped.program = m.program := by rw [left, reached_eq]
      have pointer : again.pointer = fetched.line := stalled.pointer.trans place
      have refetched := fetch_again found (stalled.program.trans program) pointer
      have reached := stalled_reached pointer failure
      have registers : (again.reached fetched).registers =
          ((m.reached fetched).held instruction).registers := by
        rw [reached.registers, stalled.registers, left]
      have stack : (again.reached fetched).stack = (m.reached fetched).stack := by
        rw [reached.stack, stalled.stack, left]
        exact State.stack_loaded _ _
      have still_clear : (again.reached fetched).registers.get .jump = .zero := by
        rw [reached.registers, stalled.registers, clear]
      obtain ⟨final, failed_again⟩ := perform_again refused registers stack
      have refused_again := refused_of_perform still_clear failed_again
      have same := registers_held_again registers stack
      refine ⟨final, ?_, reached.trans (stalled_of_refused refused_again same)⟩
      simp only [step, refetched, right]
      exact failed_again

/-- Calls that try to go on: steps, and runs whose limit is not used up from the start. -/
def Call.Attempts : Call → Prop
  | .step => True
  | .run none => True
  | .run (some limit) => limit.isPositive = true

theorem answer_again {call : Call} (attempts : call.Attempts) {fuel : Nat} (fuelled : 0 < fuel)
    {final : Machine} (failed : again.step = .error failure final) :
    again.answer fuel call = some (.error failure, final) := by
  have advanced : ∀ count, count ≠ 0 → runFor count again = .error failure final := by
    intro count some
    obtain ⟨rest, same⟩ := Nat.exists_eq_succ_of_ne_zero some
    rw [runFor, same, advance_thrown failed]
  cases call with
  | step =>
      rw [answer, failed]
      rfl
  | run limit =>
      have unlimited := advanced fuel (Nat.pos_iff_ne_zero.mp fuelled)
      cases budget : budget? limit with
      | none =>
          simp only [answer, run, budget, unlimited]
          rfl
      | some count =>
          have nonzero : count ≠ 0 := by
            intro zero
            rw [zero] at budget
            cases limit with
            | none => cases budget
            | some limit => exact budget_ne_zero attempts budget
          simp only [answer, run, budget, advanced count nonzero]
          rfl

theorem step_of_answer {call : Call} {fuel : Nat} (clear : m.registers.get .jump = .zero)
    (thrown : m.answer fuel call = some (.error failure, stopped)) :
    ∃ before : Machine,
      before.registers.get .jump = .zero ∧ before.step = .error failure stopped :=
  thrown_by_step step_clears clear thrown

theorem answers_again (failed : Failed m failure stopped)
    (clear : stopped.registers.get .jump = .zero) {fuel : Nat} (fuelled : 0 < fuel)
    {calls : List Call} (attempts : ∀ call ∈ calls, call.Attempts) {earlier : Nat}
    (stalled : Stalled failure earlier stopped again) :
    ∃ last, answers fuel again calls = some (calls.map fun _ => .error failure, last) ∧
      Stalled failure calls.length again last := by
  induction calls generalizing again earlier with
  | nil => exact ⟨again, rfl, .none failure again⟩
  | cons call rest ih =>
      obtain ⟨next, failed_again, once⟩ := step_again failed clear stalled
      have first := answer_again (attempts call List.mem_cons_self) fuelled failed_again
      obtain ⟨last, others, more⟩ := ih
        (fun other member => attempts other (List.mem_cons_of_mem call member))
        (stalled.trans once)
      refine ⟨last, ?_, ?_⟩
      · rw [answers, first]
        simp only [bind, Option.bind, others]
        rfl
      · rw [List.length_cons, Nat.add_comm]
        exact once.trans more

/-- Once a call has thrown a failure, all further attempts throw the same one. They leave
the machine where it is, and count only where it is a jump that fails. -/
theorem failure_is_final (driven : m.Driven) {call : Call} {fuel : Nat}
    (thrown : m.answer fuel call = some (.error failure, stopped)) {calls : List Call}
    (attempts : ∀ call ∈ calls, call.Attempts) {more : Nat} (fuelled : 0 < more) :
    ∃ last, answers more stopped calls = some (calls.map fun _ => .error failure, last) ∧
      Stalled failure calls.length stopped last := by
  obtain ⟨before, clear, failed⟩ := step_of_answer driven.clear thrown
  have still_clear := step_clears before clear
  rw [failed] at still_clear
  exact answers_again (failed_of_step clear failed) still_clear fuelled attempts
    (.none failure stopped)

def retries : List Call := [.step, .run none, .run (some (Double.ofInt 5))]

theorem failure_is_final_stray :
    ∃ stopped last, stray.Driven ∧
      stray.answer 2 (.run none) = some (.error (.program 1 (.negativeJump (-1))), stopped) ∧
      (∀ call ∈ retries, call.Attempts) ∧
      answers 1 stopped retries =
        some (retries.map fun _ => .error (.program 1 (.negativeJump (-1))), last) ∧
      Stalled (.program 1 (.negativeJump (-1))) 3 stopped last := by
  have driven : stray.Driven := .built build_stray
  have attempts : ∀ call ∈ retries, call.Attempts := by
    intro call member
    simp only [retries, List.mem_cons, List.not_mem_nil, or_false] at member
    rcases member with same | same | same <;> rw [same]
    · exact trivial
    · exact trivial
    · exact rfl
  have thrown : stray.answer 2 (.run none) =
      some (.error (.program 1 (.negativeJump (-1))), after stray.step) := rfl
  obtain ⟨last, answered, stalled⟩ := failure_is_final driven thrown attempts Nat.one_pos
  exact ⟨_, last, driven, thrown, attempts, answered, stalled⟩

end Machine

end StackMachine
