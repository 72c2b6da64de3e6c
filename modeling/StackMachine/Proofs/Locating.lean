import StackMachine.Proofs.Acceptance
import StackMachine.Proofs.Tracing

/-!
# Where failures arise

Whatever stops a program from being prepared or a machine from going on names the line on
which it arose, and the machine stands before that line. An operation knows nothing of lines;
all that can stop it is an address, and the only addresses it looks up are integers that it
has read from a cell.
-/

namespace StackMachine

set_option autoImplicit false

/-- An integer that fits in a cell and names no register. -/
def Address.Stray (address : Address) : Prop :=
  ∃ i : Int, address = .int i ∧ Instruction.least ≤ i ∧ i ≤ Instruction.greatest ∧ (i < 0 ∨ 15 < i)

theorem Address.stray_of_cell {c : Cell} (unnamed : Register.ofInt? c.int = none) :
    Address.Stray (.int c.int) := by
  have low : Instruction.least ≤ c.int := BitVec.le_toInt c.bits
  have high : c.int < Instruction.greatest + 1 := BitVec.toInt_lt
  have outside : ¬(0 ≤ c.int ∧ c.int.toNat < 16) := by
    unfold Register.ofInt? at unnamed
    split at unnamed
    · cases unnamed
    · assumption
  exact ⟨c.int, rfl, low, by omega, by omega⟩

/-- Stops, if it stops, at a stray address. -/
def StopsAstray {α : Type} (action : Action α) : Prop :=
  ∀ s address stopped, action s = .error address stopped → address.Stray

namespace StopsAstray

variable {α β : Type}

theorem never {action : Action α} (goes : ∀ s, ∃ a done, action s = .ok a done) :
    StopsAstray action := by
  intro s address stopped failed
  obtain ⟨a, done, ok⟩ := goes s
  rw [ok] at failed
  cases failed

theorem bind {action : Action α} {next : α → Action β} (first : StopsAstray action)
    (second : ∀ a, StopsAstray (next a)) : StopsAstray (action >>= next) := by
  intro s address stopped failed
  rw [Action.bind_run] at failed
  cases result : action s with
  | ok a after =>
      rw [result] at failed
      exact second a after address stopped failed
  | error found early =>
      rw [result] at failed
      cases failed
      exact first s address stopped result

theorem target (r : Register) : StopsAstray (Action.target r) := by
  intro s address stopped failed
  rw [Action.target_run] at failed
  split at failed
  · cases failed
  · rename_i unnamed
    cases failed
    exact Address.stray_of_cell unnamed

theorem fetch (source : Source) : StopsAstray source.fetch := by
  induction source with
  | register r => exact never fun _ => ⟨_, _, rfl⟩
  | addressed r =>
      apply bind (target r)
      intro found
      exact never fun _ => ⟨_, _, rfl⟩
  | bottom => exact never fun _ => ⟨_, _, rfl⟩
  | popped => exact never fun s => ⟨_, _, Action.pop_run s⟩
  | combined f left right left_ih right_ih =>
      apply bind left_ih
      intro first
      apply bind right_ih
      intro second
      exact never fun _ => ⟨_, _, rfl⟩

theorem put (place : Place) (c : Cell) : StopsAstray (place.put c) := by
  cases place with
  | register r => exact never fun _ => ⟨_, _, rfl⟩
  | addressed r =>
      apply bind (target r)
      intro found
      exact never fun _ => ⟨_, _, rfl⟩

theorem effect (effect : Effect) : StopsAstray effect.act := by
  cases effect with
  | store place source =>
      apply bind (fetch source)
      intro c
      exact put place c
  | push source =>
      apply bind (fetch source)
      intro c
      apply bind (never fun s => ⟨_, _, Action.push_run c s⟩)
      intro _
      exact never fun _ => ⟨_, _, rfl⟩
  | discard =>
      apply bind (never fun s => ⟨_, _, Action.pop_run s⟩)
      intro _
      exact never fun _ => ⟨_, _, rfl⟩
  | jumpIf test =>
      apply never
      intro s
      rw [Effect.act_jump]
      split
      · exact ⟨_, _, rfl⟩
      · exact ⟨_, _, rfl⟩
  | print => exact never fun _ => ⟨_, _, rfl⟩
  | dump => exact never fun s => ⟨_, _, Effect.act_dump s⟩

theorem execute (opcode : Opcode) : StopsAstray opcode.execute := by
  rw [Opcode.execute_eq_row]
  induction opcode.row with
  | nil => exact never fun _ => ⟨_, _, rfl⟩
  | cons first rest ih =>
      apply bind (effect first)
      intro _
      exact ih

end StopsAstray

namespace Machine

variable {m stopped : Machine} {failure : Failure}

/-- A failure of one of two kinds, on the line that the machine is left before. -/
structure Located (failure : Failure) (stopped : Machine) : Prop where
  line : failure.line? = some (stopped.pointer : Int)
  within : stopped.pointer < stopped.program.lines.length
  message : ∃ cause, failure.message = "Line " ++ Text.decimal stopped.pointer ++ ": " ++ cause
  kind : (∃ defect, failure = .program stopped.pointer defect) ∨
    ∃ address, failure = .address (some (stopped.pointer : Int)) address ∧ address.Stray

theorem located_step (failed : m.step = .error failure stopped) : Located failure stopped := by
  have taken := taken_step m
  rw [failed] at taken
  have within : ∀ {fetched : Fetched}, m.fetch = some fetched →
      fetched.line < m.program.lines.length :=
    fun found => (List.getElem?_eq_some_iff.mp (text_of_fetch found)).1
  generalize outcome : EStateM.Result.error failure stopped = left at taken
  cases taken with
  | finished nothing => cases outcome
  | undecoded found wrong =>
      cases outcome
      exact ⟨rfl, within found, ⟨_, rfl⟩, .inl ⟨_, rfl⟩⟩
  | @strayed fetched instruction address state found right executed =>
      cases outcome
      have stray := StopsAstray.execute instruction.opcode _ address state executed
      rw [reached_eq]
      exact ⟨rfl, within found, ⟨_, rfl⟩, .inr ⟨address, rfl, stray⟩⟩
  | @followed fetched instruction done found right executed =>
      have before := leap_of_follow outcome.symm
      rw [follow_leap before, carried, reached_eq] at outcome
      cases outcome
      exact ⟨rfl, within found, ⟨_, rfl⟩, .inl ⟨_, rfl⟩⟩

theorem located_answer {call : Call} {fuel : Nat}
    (thrown : m.answer fuel call = some (.error failure, stopped)) : Located failure stopped := by
  have always : ∀ m : Machine, True → True := fun _ _ => trivial
  obtain ⟨before, -, failed⟩ := thrown_by_step (P := fun _ => True) always trivial thrown
  exact located_step failed

/-- Whatever goes wrong, while a source is prepared or on a machine that has been built from it
and handled in whatever way, goes wrong on one of the lines of the source. -/
theorem failures_are_located (source : List Text) :
    (∀ failure, Program.prepare source = .error failure →
      ∃ (line : Int) (defect : Defect), failure = .program line defect ∧ 0 ≤ line ∧
        line < source.length) ∧
      ∀ setup start deeds m, build source setup = .ok start → Handled start deeds m →
        ∀ fuel call failure stopped, m.answer fuel call = some (.error failure, stopped) →
          Located failure stopped ∧ stopped.program = start.program ∧
            stopped.program.lines.length = source.length := by
  constructor
  · intro failure refused
    obtain ⟨index, defect, same, fault⟩ := Program.fault_of_prepare refused
    refine ⟨index, defect, same, Int.natCast_nonneg index, Int.ofNat_lt.mpr ?_⟩
    rcases fault with declaration | ⟨resolved, made, move⟩
    · exact declaration.within
    · obtain ⟨text, operands, there, -⟩ := move.misshapen
      rw [← (Program.resolves_of_resolve made).length]
      exact (List.getElem?_eq_some_iff.mp there).1
  · intro setup start deeds m made handled fuel call failure stopped thrown
    have left : m.handle fuel (.call call) = some stopped := by
      rw [handle, thrown]
      rfl
    have program := (handled.onward left).remains.program
    have length := Program.length_of_prepare (fresh_of_build made).program
    exact ⟨located_answer thrown, program, by rw [program, length]⟩

theorem failures_are_located_lost :
    (∃ (line : Int) (defect : Defect),
        Program.prepare [":".toList] = .error (.program line defect) ∧ 0 ≤ line ∧
          line < ([":".toList] : List Text).length) ∧
      ∃ m stopped, build lostLines ⟨false, Double.ofInt 1⟩ = .ok lost ∧
        Handled lost [.push ⟨5⟩, .set (.int 7) ⟨2⟩] m ∧
        m.answer 3 (.run none) = some (.error (.address (some 2) (.int 77)), stopped) ∧
        Located (.address (some 2) (.int 77)) stopped := by
  constructor
  · have refused : Program.prepare [":".toList] = .error (.program 0 .unnamedLabel) := rfl
    obtain ⟨line, defect, same, low, high⟩ := (failures_are_located _).1 _ refused
    exact ⟨line, defect, refused.trans (congrArg _ same), low, high⟩
  · obtain ⟨pushed, first⟩ : ∃ m, lost.handle 0 (.push ⟨5⟩) = some m := ⟨_, rfl⟩
    obtain ⟨set, second⟩ : ∃ m, pushed.handle 0 (.set (.int 7) ⟨2⟩) = some m := ⟨_, rfl⟩
    have handled : Handled lost [.push ⟨5⟩, .set (.int 7) ⟨2⟩] set :=
      .onward (.onward .untouched first) second
    obtain ⟨stopped, thrown⟩ : ∃ stopped,
        set.answer 3 (.run none) = some (.error (.address (some 2) (.int 77)), stopped) := by
      cases first
      cases second
      exact ⟨_, rfl⟩
    obtain ⟨located, -⟩ :=
      (failures_are_located lostLines).2 _ lost _ set build_lost handled 3 _ _ stopped thrown
    exact ⟨set, stopped, build_lost, handled, thrown, located⟩

end Machine

end StackMachine
