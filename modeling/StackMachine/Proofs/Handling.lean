import StackMachine.Proofs.Progress
import StackMachine.Proofs.Stacking

/-!
# Handling a machine

A host calls a machine, and between its calls it may write the registers, push to the
stack and pop from it, in any order and whatever it was answered. What can be relied on
then is collected in `Sound`. The jump register alone is at the mercy of the host: what is
written there from outside stays until an instruction has been executed.
-/

namespace StackMachine

set_option autoImplicit false

namespace Machine

inductive Deed where
  | call (call : Call)
  | set (address : Address) (c : Cell)
  | push (c : Cell)
  | pop

def Deed.LeavesRegisters : Deed → Prop
  | .set _ _ => False
  | _ => True

/-- The machine that a deed leaves, also where it fails. A run that is not over when the
fuel is spent leaves none. -/
def handle (fuel : Nat) (m : Machine) : Deed → Option Machine
  | .call call => (m.answer fuel call).map Prod.snd
  | .set address c => some (after (m.act none (Action.writeAt address c)))
  | .push c => some (after (m.act none (Action.push c)))
  | .pop => some (after (m.act none Action.pop))

/-- The machines that deeds in a row make out of a first one. -/
inductive Handled (start : Machine) : List Deed → Machine → Prop
  | untouched : Handled start [] start
  | onward {deeds : List Deed} {m next : Machine} {fuel : Nat} {deed : Deed}
      (before : Handled start deeds m) (left : m.handle fuel deed = some next) :
      Handled start (deeds ++ [deed]) next

variable {start m next stopped final : Machine} {deeds : List Deed} {deed : Deed} {fuel : Nat}

/-- What steps keep and what actions from outside keep is kept by every deed. -/
theorem handle_keeps {P : Machine → Prop} (steps : ∀ m, P m → P (after m.step))
    (sets : ∀ address c, deed = .set address c → P (after (m.act none (Action.writeAt address c))))
    (pushes : ∀ c, P (after (m.act none (Action.push c))))
    (pops : P (after (m.act none Action.pop)))
    (left : m.handle fuel deed = some next) (holds : P m) : P next := by
  cases deed with
  | call call =>
      obtain ⟨answered, given, same⟩ := Option.map_eq_some_iff.mp left
      rw [← same]
      exact answer_keeps steps given holds
  | set address c =>
      cases left
      exact sets address c rfl
  | push c =>
      cases left
      exact pushes c
  | pop =>
      cases left
      exact pops

theorem handle_remains (left : m.handle fuel deed = some next) : Remains m next := by
  refine handle_keeps (P := Remains m) ?_ ?_ ?_ ?_ left (.refl m)
  · intro middle remains
    exact remains.trans (remains_step middle)
  · intro address c _
    exact remains_act (Orderly.write_at address c) m none
  · intro c
    exact remains_act (Orderly.push c) m none
  · exact remains_act Orderly.pop m none

theorem handle_clear (leaves : deed.LeavesRegisters) (left : m.handle fuel deed = some next)
    (clear : m.registers.get .jump = .zero) : next.registers.get .jump = .zero := by
  refine handle_keeps (P := fun m => m.registers.get .jump = .zero) step_clears ?_ ?_ ?_ left clear
  · intro address c same
    rw [same] at leaves
    exact leaves.elim
  · intro c
    rw [after_act, Action.push_run]
    exact clear
  · rw [after_act, Action.pop_run]
    exact clear

/-- A machine that has halted stays where it is. -/
structure Rests (m next : Machine) : Prop where
  program : next.program = m.program
  pointer : next.pointer = m.pointer
  executed : next.executed = m.executed

namespace Rests

theorem refl (m : Machine) : Rests m m := ⟨rfl, rfl, rfl⟩

theorem trans {first second third : Machine} (early : Rests first second)
    (late : Rests second third) : Rests first third :=
  ⟨late.program.trans early.program, late.pointer.trans early.pointer,
    late.executed.trans early.executed⟩

theorem halted (rests : Rests m next) (halts : m.halted = true) : next.halted = true := by
  rw [Machine.halted, rests.program, rests.pointer]
  exact halts

theorem act {α : Type} (m : Machine) (line : Option Int) (action : Action α) :
    Rests m (after (m.act line action)) := by
  rw [after_act]
  exact ⟨rfl, rfl, rfl⟩

end Rests

theorem handle_rests (halts : m.halted = true) (left : m.handle fuel deed = some next) :
    Rests m next := by
  refine handle_keeps (P := Rests m) ?_ ?_ ?_ ?_ left (.refl m)
  · intro middle rests
    rw [step_halted (rests.halted halts)]
    exact rests
  · intro address c _
    exact .act m none _
  · intro c
    exact .act m none _
  · exact .act m none _

namespace Handled

theorem remains (handled : Handled start deeds m) : Remains start m := by
  induction handled with
  | untouched => exact .refl start
  | onward before left ih => exact ih.trans (handle_remains left)

theorem clear (handled : Handled start deeds m) (leave : ∀ deed ∈ deeds, deed.LeavesRegisters)
    (clear : start.registers.get .jump = .zero) : m.registers.get .jump = .zero := by
  induction handled with
  | untouched => exact clear
  | @onward deeds m next fuel deed before left ih =>
      have earlier : ∀ other ∈ deeds, other.LeavesRegisters :=
        fun other member => leave other (List.mem_append_left _ member)
      have last : deed.LeavesRegisters := leave deed (List.mem_append_right _ List.mem_cons_self)
      exact handle_clear last left (ih earlier)

theorem rests (handled : Handled start deeds m) (halts : start.halted = true) :
    Rests start m := by
  induction handled with
  | untouched => exact .refl start
  | onward before left ih => exact ih.trans (handle_rests (ih.halted halts) left)

end Handled

theorem run_halted (halts : m.halted = true) (limit : Option Double) (fuel : Nat) :
    m.run limit fuel = .ended (.ok ⟨0, true⟩ m) := by
  cases budget : budget? limit with
  | some count => simp only [run, budget, run_for_halted halts]
  | none => simp only [run, budget, run_for_halted halts, if_true]

/-- What a step has done that has executed an instruction. The pointer is the integer in
the jump register, or the next line if that is zero, and the register is clear again. -/
structure Moved (m next : Machine) : Prop where
  clear : next.registers.get .jump = .zero
  pointer : ∃ (fetched : Fetched) (instruction : Instruction) (done : State),
    m.fetch = some fetched ∧ fetched.decoded = .ok instruction ∧
      instruction.opcode.execute ((m.reached fetched).staged instruction) = .ok () done ∧
      (next.pointer : Int) =
        if (done.registers.get .jump).int = 0 then (fetched.line : Int) + 1
        else (done.registers.get .jump).int

theorem moved_of_step {continues : Bool} (taken : m.step = .ok continues next)
    (counted : next.executed ≠ m.executed) : Moved m next := by
  cases (stepped_of_step taken).1 with
  | finished nothing => exact absurd rfl counted
  | @performed fetched instruction done found right executed onward =>
      refine ⟨Registers.get_set_same _ _ _, fetched, instruction, done, found, right, executed, ?_⟩
      change ((landing (done.registers.get .jump).int fetched.line : Nat) : Int) = _
      rw [landing]
      by_cases stays : (done.registers.get .jump).int = 0
      · rw [if_pos stays, if_pos stays, Int.natCast_succ]
      · rw [if_neg stays, if_neg stays, Int.toNat_of_nonneg onward]

/-- A count that has executed an instruction ends on a clear jump register: what comes after
the last instruction only passes over lines. -/
theorem clear_of_advance {count : Nat} (advanced : advance count m = .ok () final)
    (counted : final.executed ≠ m.executed) : final.registers.get .jump = .zero := by
  induction count generalizing m with
  | zero =>
      cases advanced
      exact absurd rfl counted
  | succ count ih =>
      cases going : m.halted with
      | true =>
          rw [advance_halted going] at advanced
          cases advanced
          exact absurd rfl counted
      | false =>
          rw [advance_going going] at advanced
          cases taken : m.step with
          | error failure stopped =>
              rw [taken] at advanced
              cases advanced
          | ok continues next =>
              rw [taken] at advanced
              by_cases idle : next.executed = m.executed
              · rw [← idle] at counted
                exact ih advanced counted
              · have clear := (moved_of_step taken idle).clear
                have kept := advance_keeps step_clears count clear
                have last : advance count next = .ok () final := advanced
                rwa [last] at kept

theorem clear_of_run {limit : Option Double} {summary : Summary}
    (ran : m.run limit fuel = .ended (.ok summary final)) (counted : summary.steps ≠ 0) :
    final.registers.get .jump = .zero := by
  obtain ⟨count, same⟩ := run_ended ran
  rw [runFor] at same
  cases advanced : advance count m with
  | error failure stopped =>
      rw [advanced] at same
      cases same
  | ok value last =>
      rw [advanced] at same
      cases same
      apply clear_of_advance advanced
      intro idle
      apply counted
      simp only [idle, Nat.sub_self]

theorem clear_of_leap {line target : Int}
    (failed : m.step = .error (.program line (.negativeJump target)) stopped) :
    stopped.registers.get .jump = .zero := by
  cases found : m.fetch with
  | none =>
      simp only [step, found] at failed
      cases failed
  | some fetched =>
      cases right : fetched.decoded with
      | error defect =>
          simp only [step, found, right] at failed
          cases failed
          -- A line that does not decode is refused for another reason than a jump.
          obtain ⟨skipped, rest, scanned⟩ := scanned_of_fetch_from found
          have refused := scanned.decoded
          rw [right] at refused
          cases Instruction.no_leap_of_decode refused
      | ok instruction =>
          rw [step_fetched found right] at failed
          cases executed : instruction.opcode.execute ((m.reached fetched).staged instruction) with
          | error address state =>
              simp only [executed] at failed
              cases failed
          | ok value done =>
              simp only [executed] at failed
              have clear := follow_clears (m.carried fetched done) fetched.line
              rwa [failed] at clear

/-- What can be relied on of a machine that has come out of another one. -/
structure Sound (start m : Machine) : Prop where
  program : m.program = start.program
  line : m.halted = false → ∃ text, m.program.lines[m.pointer]? = some text
  cells : m.registers.toList.length = 16
  capacity : m.stack.capacity = start.stack.capacity
  stack : m.stack.WellFormed
  moved : ∀ continues next, m.step = .ok continues next → next.executed ≠ m.executed →
    Moved m next
  ran : ∀ limit fuel summary next, m.run limit fuel = .ended (.ok summary next) →
    summary.steps ≠ 0 → next.registers.get .jump = .zero
  leapt : ∀ fuel call line target next,
    m.answer fuel call = some (.error (.program line (.negativeJump target)), next) →
      next.registers.get .jump = .zero
  halted : m.halted = true → ∀ deeds later, Handled m deeds later →
    Rests m later ∧ later.step = .ok false later ∧
      ∀ limit fuel, later.run limit fuel = .ended (.ok ⟨0, true⟩ later)

/-- However a new machine has been handled, it is sound; and as long as its registers have
not been written from outside, the jump register is clear. -/
theorem handled_sound {source : List Text} {setup : Setup}
    (made : build source setup = .ok start) (handled : Handled start deeds m) :
    Sound start m ∧
      ((∀ deed ∈ deeds, deed.LeavesRegisters) → m.registers.get .jump = .zero) := by
  have reached := handled.remains.stack (build_reached made)
  refine ⟨?_, fun leave => handled.clear leave (build_clears source setup start made)⟩
  constructor
  · exact handled.remains.program
  · intro going
    have within : m.pointer < m.program.lines.length := by
      have inside : ¬m.program.lines.length ≤ m.pointer := of_decide_eq_false going
      omega
    exact ⟨_, List.getElem?_eq_getElem within⟩
  · exact Vector.length_toList
  · exact reached.capacity_eq
  · exact reached.well_formed
  · intro continues next taken counted
    exact moved_of_step taken counted
  · intro limit fuel summary next ran counted
    exact clear_of_run ran counted
  · intro fuel call line target next thrown
    have always : ∀ m : Machine, True → True := fun _ _ => trivial
    obtain ⟨before, -, failed⟩ := thrown_by_step (P := fun _ => True) always trivial thrown
    exact clear_of_leap failed
  · intro halts deeds later handled
    have rests := handled.rests halts
    have still := rests.halted halts
    exact ⟨rests, step_halted still, run_halted still⟩

/-- A push from outside, a step whose jump goes back too far, and a pop. -/
def strayDeeds : List Deed := [.push ⟨5⟩, .call .step, .pop]

theorem handled_sound_stray :
    ∃ m, build strayLines { trace := true } = .ok stray ∧ Handled stray strayDeeds m ∧
      (∀ deed ∈ strayDeeds, deed.LeavesRegisters) ∧ Sound stray m ∧
      m.registers.get .jump = .zero := by
  obtain ⟨pushed, first⟩ : ∃ m, stray.handle 0 (.push ⟨5⟩) = some m := ⟨_, rfl⟩
  obtain ⟨stopped, second⟩ : ∃ m, pushed.handle 0 (.call .step) = some m := ⟨_, rfl⟩
  obtain ⟨popped, third⟩ : ∃ m, stopped.handle 0 .pop = some m := ⟨_, rfl⟩
  have handled : Handled stray strayDeeds popped :=
    .onward (.onward (.onward .untouched first) second) third
  have leave : ∀ deed ∈ strayDeeds, deed.LeavesRegisters := by
    intro deed member
    simp only [strayDeeds, List.mem_cons, List.not_mem_nil, or_false] at member
    rcases member with same | same | same <;> rw [same] <;> trivial
  obtain ⟨sound, clear⟩ := handled_sound build_stray handled
  exact ⟨_, build_stray, handled, leave, sound, clear leave⟩

end Machine

end StackMachine
