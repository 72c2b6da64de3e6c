import StackMachine.Proofs.Logging
import StackMachine.Proofs.Records
import Mathlib.Data.List.Forall2

/-!
# One machine in two guises

Lines that hold no statement and the switch for traces are a guise that a machine wears: in
another guise it does the same to its registers and its stack, gives the same answers and
fails in the same places. The log is only written, so all that differs is which moments are
announced by a trace.
-/

namespace StackMachine

set_option autoImplicit false

namespace Oblivious

theorem locate (address : Address) : Oblivious (Action.locate address) := by
  intro earlier s
  cases names : address.register? with
  | none => rw [Action.locate_of_no_register names, Action.locate_of_no_register names]; rfl
  | some r => rw [Action.locate_of_register names, Action.locate_of_register names]; rfl

theorem write_at (address : Address) (c : Cell) : Oblivious (Action.writeAt address c) := by
  apply bind (locate address)
  intro r
  exact write r c

end Oblivious

/-- Two results that are related, or are both missing, are related in every other way in which
results that are there have to be. -/
theorem rel_of_rel {α β : Type} {R S : α → β → Prop} {first : Option α} {second : Option β}
    (related : Option.Rel R first second)
    (each : ∀ a b, first = some a → second = some b → R a b → S a b) :
    Option.Rel S first second := by
  cases related with
  | none => exact .none
  | some related => exact .some (each _ _ rfl rfl related)

namespace Machine

structure Guise where
  program : Program
  trace : Bool

def guise (m : Machine) : Guise := ⟨m.program, m.trace⟩

/-- The machine in a guise, behind events that are not its own. -/
def recast (guise : Guise) (earlier : Array Event) (m : Machine) : Machine :=
  { m with program := guise.program, trace := guise.trace, log := earlier ++ m.log }

def onLeft {α : Type} (change : Machine → Machine) : Outcome α → Outcome α
  | .ok a next => .ok a (change next)
  | .error failure stopped => .error failure (change stopped)

theorem after_on_left {α : Type} (change : Machine → Machine) (outcome : Outcome α) :
    after (onLeft change outcome) = change (after outcome) := by
  cases outcome <;> rfl

theorem thrown_on_left {α : Type} (change : Machine → Machine) (outcome : Outcome α) :
    thrown (onLeft change outcome) = thrown outcome := by
  cases outcome <;> rfl

variable {m other next : Machine} {guise : Guise}

theorem act_recast {α : Type} {action : Action α} (oblivious : Oblivious action)
    (guise : Guise) (earlier : Array Event) (m : Machine) (line : Option Int) :
    (m.recast guise earlier).act line action =
      onLeft (recast guise earlier) (m.act line action) := by
  have same := oblivious earlier m.toState
  have start : (m.recast guise earlier).toState = m.toState.behind earlier := rfl
  rw [act, act, start, same]
  cases action m.toState <;> rfl

theorem follow_recast (length : guise.program.lines.length = m.program.lines.length)
    (earlier : Array Event) (line : Nat) :
    (m.recast guise earlier).follow line = onLeft (recast guise earlier) (m.follow line) := by
  simp only [follow, recast, halted, length]
  split
  · rfl
  · split <;> rfl

theorem perform_recast (length : guise.program.lines.length = m.program.lines.length)
    (earlier : Array Event) (line : Nat) (instruction : Instruction) :
    (m.recast guise earlier).perform line instruction =
      onLeft (recast guise earlier) (m.perform line instruction) := by
  have same := Oblivious.execute instruction.opcode earlier (m.staged instruction)
  have start : (m.recast guise earlier).staged instruction = (m.staged instruction).behind earlier :=
    rfl
  rw [perform_run, perform_run, start, same]
  cases instruction.opcode.execute (m.staged instruction) with
  | error address stopped => rfl
  | ok value done =>
      let carried : Machine := { m with toState := done, executed := m.executed + 1 }
      exact follow_recast (m := carried) length earlier line

theorem added_recast (guise : Guise) (earlier : Array Event) (m next : Machine) :
    (m.recast guise earlier).added (next.recast guise earlier) = m.added next := by
  have size : earlier.size = earlier.toList.length := rfl
  simp only [added, recast, Array.toList_append, Array.size_append]
  rw [← List.drop_drop, size, List.drop_left]

/-- Outcomes of one kind, with the same result or failure, on machines that correspond. -/
inductive Alike {α : Type} (R : Machine → Machine → Prop) : Outcome α → Outcome α → Prop
  | ok {a : α} {m other : Machine} (related : R m other) : Alike R (.ok a m) (.ok a other)
  | error {failure : Failure} {m other : Machine} (related : R m other) :
      Alike R (.error failure m) (.error failure other)

theorem alike_on_left {α : Type} {R : Machine → Machine → Prop}
    {first second : Machine → Machine} (related : ∀ m, R (first m) (second m))
    (outcome : Outcome α) : Alike R (onLeft first outcome) (onLeft second outcome) := by
  cases outcome with
  | ok a next => exact .ok (related next)
  | error failure stopped => exact .error (related stopped)

/-- The same machine in both guises, behind whatever events. -/
inductive Twins (first second : Guise) : Machine → Machine → Prop
  | recast (m : Machine) (earlier others : Array Event) :
      Twins first second (m.recast first earlier) (m.recast second others)

theorem twins_recast (m : Machine) (guise : Guise) :
    Twins m.guise guise m (m.recast guise #[]) := by
  have same : m.recast m.guise #[] = m := by
    simp only [recast, Machine.guise, Array.empty_append]
  have twins : Twins m.guise guise (m.recast m.guise #[]) (m.recast guise #[]) :=
    .recast m #[] #[]
  rwa [same] at twins

/-- What the trace says of a line that has been decoded, before it is executed. -/
def Moment.announcement (moment : Moment) : List Event :=
  match moment.fetched with
  | some ⟨line, text, .ok _⟩ => [.traced line text]
  | _ => []

def Guise.announced (guise : Guise) (moment : Moment) : List Event :=
  if guise.trace then moment.announcement else []

/-- One moment as it is seen in both guises. -/
structure Seen (first second : Guise) (moment other : Moment) : Prop where
  fetched : other.fetched = moment.fetched
  failure : other.failure = moment.failure
  shown : ∃ events, moment.shown = first.announced moment ++ events ∧
    other.shown = second.announced other ++ events

/-- The guises differ in nothing that is ever executed. -/
structure Guise.Agrees (first second : Guise) : Prop where
  length : second.program.lines.length = first.program.lines.length
  fetches : ∀ pointer, fetchFrom pointer (second.program.lines.drop pointer) =
    fetchFrom pointer (first.program.lines.drop pointer)

variable {first second : Guise} {fetched : Fetched} {instruction : Instruction}

theorem announcement_fetched (found : m.fetch = some fetched)
    (right : fetched.decoded = .ok instruction) :
    m.moment.announcement = [.traced fetched.line fetched.text] := by
  cases fetched with
  | mk line text decoded =>
      cases right
      simp only [Moment.announcement, moment, found]

theorem log_reached_guise {earlier : Array Event}
    (found : (m.recast guise earlier).fetch = some fetched)
    (right : fetched.decoded = .ok instruction) :
    ((m.recast guise earlier).reached fetched).log.toList =
      (m.recast guise earlier).log.toList ++ guise.announced (m.recast guise earlier).moment := by
  have worn : (m.recast guise earlier).trace = guise.trace := rfl
  rw [reached_eq, worn, Guise.announced, announcement_fetched found right]
  by_cases traced : guise.trace = true
  · rw [if_pos traced, if_pos traced, Array.toList_push]
  · rw [if_neg traced, if_neg traced, List.append_nil]

/-- The machine once it stands before a line, with nothing in its log. -/
def bare (m : Machine) (program : Program) (line : Nat) : Machine :=
  { m with program, pointer := line, log := #[] }

/-- A step in any guise does what it does in no guise, behind the announcement. -/
theorem step_recast {earlier : Array Event} (program : Program)
    (length : guise.program.lines.length = program.lines.length)
    (found : (m.recast guise earlier).fetch = some fetched)
    (right : fetched.decoded = .ok instruction) :
    (m.recast guise earlier).step =
      onLeft (recast guise ((m.recast guise earlier).reached fetched).log)
        ((m.bare program fetched.line).perform fetched.line instruction) := by
  have taken : (m.recast guise earlier).step =
      ((m.recast guise earlier).reached fetched).perform fetched.line instruction := by
    simp only [step, found, right]
    rfl
  have worn : (m.recast guise earlier).reached fetched =
      (m.bare program fetched.line).recast guise
        ((m.recast guise earlier).reached fetched).log := by
    rw [reached_eq]
    simp only [recast, bare, Array.append_empty]
  rw [taken]
  conv => lhs; rw [worn]
  exact perform_recast (m := m.bare program fetched.line) length _ _ _

theorem announcement_eq {moment other : Moment} (fetched : other.fetched = moment.fetched) :
    other.announcement = moment.announcement := by
  rw [Moment.announcement, Moment.announcement, fetched]

/-- A step that executes nothing shows nothing, in whatever guise. -/
theorem seen_idle (same : other.fetch = m.fetch) (failure : thrown other.step = thrown m.step)
    (plain : m.moment.announcement = []) (log : (after m.step).log = m.log)
    (log_too : (after other.step).log = other.log) : Seen first second m.moment other.moment := by
  have nothing : ∀ guise : Guise, guise.announced m.moment = [] := by
    intro guise
    rw [Guise.announced, plain, ite_self]
  have fetched : other.moment.fetched = m.moment.fetched := same
  refine ⟨fetched, failure, [], ?_, ?_⟩
  · rw [nothing]
    exact added_eq (by rw [log]; exact (List.append_nil _).symm)
  · rw [Guise.announced, announcement_eq fetched, ← Guise.announced, nothing]
    exact added_eq (by rw [log_too]; exact (List.append_nil _).symm)

/-- A step leaves the machine in both guises, and shows the same in both but for the trace. -/
theorem twins_step (agrees : first.Agrees second) (twins : Twins first second m other) :
    Alike (Twins first second) m.step other.step ∧ Seen first second m.moment other.moment := by
  cases twins with
  | recast m earlier others =>
      have same : (m.recast second others).fetch = (m.recast first earlier).fetch :=
        agrees.fetches m.pointer
      cases found : (m.recast first earlier).fetch with
      | none =>
          have found_too := same.trans found
          have here : (m.recast first earlier).step = .ok false (m.recast first earlier).finish := by
            simp only [step, found]
          have there : (m.recast second others).step =
              .ok false (m.recast second others).finish := by
            simp only [step, found_too]
          let ended : Machine := { m with pointer := max m.pointer first.program.lines.length }
          have ends : (m.recast second others).finish = ended.recast second others := by
            simp only [finish, recast, agrees.length, ended]
          constructor
          · rw [here, there, ends]
            exact .ok (.recast ended earlier others)
          · apply seen_idle same
            · rw [here, there]
              rfl
            · simp only [Moment.announcement, moment, found]
            · rw [here]
              rfl
            · rw [there]
              rfl
      | some fetched =>
          have found_too := same.trans found
          cases right : fetched.decoded with
          | error defect =>
              have here : (m.recast first earlier).step = .error (.program fetched.line defect)
                  { m.recast first earlier with pointer := fetched.line } := by
                simp only [step, found, right]
              have there : (m.recast second others).step = .error (.program fetched.line defect)
                  { m.recast second others with pointer := fetched.line } := by
                simp only [step, found_too, right]
              constructor
              · rw [here, there]
                exact .error (.recast { m with pointer := fetched.line } earlier others)
              · apply seen_idle same
                · rw [here, there]
                  rfl
                · simp only [Moment.announcement, moment, found]
                  split
                  · rename_i line text instruction decoded
                    cases decoded
                    cases right
                  · rfl
                · rw [here]
                  rfl
                · rw [there]
                  rfl
          | ok instruction =>
              have here := step_recast first.program rfl found right
              have there := step_recast first.program agrees.length found_too right
              refine ⟨?_, same, ?_, ?_⟩
              · rw [here, there]
                exact alike_on_left (fun next => .recast next _ _) _
              · rw [moment, moment, here, there, thrown_on_left, thrown_on_left]
              · refine ⟨(after ((m.bare first.program fetched.line).perform fetched.line
                  instruction)).log.toList, ?_, ?_⟩
                · apply added_eq
                  rw [here, after_on_left, ← List.append_assoc, ← log_reached_guise found right]
                  exact Array.toList_append
                · apply added_eq
                  rw [there, after_on_left, ← List.append_assoc,
                    ← log_reached_guise found_too right]
                  exact Array.toList_append

/-- The same in all but the guise and the log. -/
structure Resembles (m other : Machine) : Prop where
  registers : other.registers = m.registers
  stack : other.stack = m.stack
  pointer : other.pointer = m.pointer
  executed : other.executed = m.executed
  halted : other.halted = m.halted

theorem resembles_of_twins (agrees : first.Agrees second) (twins : Twins first second m other) :
    Resembles m other := by
  cases twins with
  | recast m earlier others =>
      refine ⟨rfl, rfl, rfl, rfl, ?_⟩
      simp only [halted, recast, agrees.length]
      rfl

/-- By induction on the count, one step of either machine at a time. -/
theorem twins_advance (agrees : first.Agrees second) (twins : Twins first second m other)
    (count : Nat) :
    Alike (Twins first second) (advance count m) (advance count other) ∧
      List.Forall₂ (Seen first second) ((stations count m).map moment)
        ((stations count other).map moment) := by
  induction count generalizing m other with
  | zero => exact ⟨.ok twins, .nil⟩
  | succ count ih =>
      have halts := (resembles_of_twins agrees twins).halted
      rw [advance, advance, stations, stations, halts]
      by_cases ended : m.halted = true
      · rw [if_pos ended, if_pos ended, if_pos ended, if_pos ended]
        exact ⟨.ok twins, .nil⟩
      · rw [if_neg ended, if_neg ended, if_neg ended, if_neg ended]
        obtain ⟨alike, seen⟩ := twins_step agrees twins
        generalize m.step = here at alike
        generalize other.step = there at alike
        cases alike with
        | ok onward =>
            obtain ⟨advanced, rest⟩ := ih onward
            exact ⟨advanced, .cons seen rest⟩
        | error stopped => exact ⟨.error stopped, .cons seen .nil⟩

theorem twins_run_for (agrees : first.Agrees second) (twins : Twins first second m other)
    (count : Nat) : Alike (Twins first second) (runFor count m) (runFor count other) := by
  have alike := (twins_advance agrees twins count).1
  have executed := (resembles_of_twins agrees twins).executed
  rw [runFor, runFor]
  generalize advance count m = here at alike
  generalize advance count other = there at alike
  cases alike with
  | ok ended =>
      have resembles := resembles_of_twins agrees ended
      simp only [resembles.halted, resembles.executed, executed]
      exact .ok ended
  | error stopped => exact .error stopped

/-- The same answer, on machines that correspond. -/
def Matches {α : Type} (R : Machine → Machine → Prop) (answered other : Except Failure α × Machine) :
    Prop :=
  other.1 = answered.1 ∧ R answered.2 other.2

theorem matches_reply {α : Type} {R : Machine → Machine → Prop} {here there : Outcome α}
    (alike : Alike R here there) (returned : α → Reply) :
    Matches R (reply returned here) (reply returned there) := by
  cases alike with
  | ok related => exact ⟨rfl, related⟩
  | error related => exact ⟨rfl, related⟩

theorem matches_settle {α : Type} {R : Machine → Machine → Prop} {here there : Outcome α}
    (alike : Alike R here there) (returned : α → Response) :
    Matches R (settle returned here) (settle returned there) := by
  cases alike with
  | ok related => exact ⟨rfl, related⟩
  | error related => exact ⟨rfl, related⟩

theorem twins_answer (agrees : first.Agrees second) (twins : Twins first second m other)
    (fuel : Nat) (call : Call) :
    Option.Rel (Matches (Twins first second)) (m.answer fuel call) (other.answer fuel call) := by
  cases call with
  | step => exact .some (matches_reply (twins_step agrees twins).1 _)
  | run limit =>
      rw [answer, answer, run, run]
      cases budget? limit with
      | some count => exact .some (matches_reply (twins_run_for agrees twins count) _)
      | none =>
          have alike := twins_run_for agrees twins fuel
          generalize runFor fuel m = here at alike
          generalize runFor fuel other = there at alike
          cases alike with
          | error stopped => exact .some (matches_reply (.error stopped) _)
          | @ok summary _ _ ended =>
              cases halts : summary.halted with
              | true =>
                  simp only [halts, if_true]
                  exact .some (matches_reply (.ok ended) _)
              | false =>
                  simp only [halts, Bool.false_eq_true, if_false]
                  exact .none

theorem twins_act {α : Type} {action : Action α} (oblivious : Oblivious action)
    (twins : Twins first second m other) :
    Alike (Twins first second) (m.act none action) (other.act none action) := by
  cases twins with
  | recast m earlier others =>
      rw [act_recast oblivious, act_recast oblivious]
      exact alike_on_left (fun next => .recast next earlier others) _

theorem twins_respond (agrees : first.Agrees second) (twins : Twins first second m other)
    (fuel : Nat) (deed : Deed) :
    Option.Rel (Matches (Twins first second)) (m.respond fuel deed) (other.respond fuel deed) := by
  cases deed with
  | call call =>
      have answered := twins_answer agrees twins fuel call
      rw [respond, respond]
      generalize m.answer fuel call = here at answered
      generalize other.answer fuel call = there at answered
      cases answered with
      | none => exact .none
      | some matched =>
          have given := congrArg (fun given => given.map Response.replied) matched.1
          exact .some ⟨given, matched.2⟩
  | set address c => exact .some (matches_settle (twins_act (Oblivious.write_at address c) twins) _)
  | push c => exact .some (matches_settle (twins_act (Oblivious.push c) twins) _)
  | pop => exact .some (matches_settle (twins_act Oblivious.pop twins) _)

theorem seen_aside {α : Type} {action : Action α} (oblivious : Oblivious action)
    (twins : Twins first second m other) :
    Seen first second (m.aside (after (m.act none action)))
      (other.aside (after (other.act none action))) := by
  have silent : ∀ (guise : Guise) (m next : Machine), guise.announced (m.aside next) = [] := by
    intro guise m next
    exact ite_self []
  cases twins with
  | recast m earlier others =>
      refine ⟨rfl, rfl, m.added (after (m.act none action)), ?_, ?_⟩
      · rw [silent, act_recast oblivious, after_on_left]
        exact added_recast first earlier m _
      · rw [silent, act_recast oblivious, after_on_left]
        exact added_recast second others m _

theorem twins_moments (agrees : first.Agrees second) (twins : Twins first second m other)
    (fuel : Nat) (deed : Deed) :
    List.Forall₂ (Seen first second) (m.moments fuel deed) (other.moments fuel deed) := by
  cases deed with
  | call call =>
      cases call with
      | step => exact .cons (twins_step agrees twins).2 .nil
      | run limit => exact (twins_advance agrees twins _).2
  | set address c => exact .cons (seen_aside (Oblivious.write_at address c) twins) .nil
  | push c => exact .cons (seen_aside (Oblivious.push c) twins) .nil
  | pop => exact .cons (seen_aside Oblivious.pop twins) .nil

/-- One record as it is written in both guises. -/
structure Copied (first second : Guise) (r other : Record) : Prop where
  given : other.given = r.given
  moments : List.Forall₂ (Seen first second) r.moments other.moments
  left : Twins first second r.left other.left

/-- Whatever a host does with both machines, it cannot tell them apart by what it is given,
and it never gets an answer from one of them only. -/
theorem twins_record (agrees : first.Agrees second) (twins : Twins first second m other)
    (fuel : Nat) (deeds : List Deed) :
    Option.Rel (Copied first second) (m.record fuel deeds) (other.record fuel deeds) := by
  induction deeds generalizing m other with
  | nil => exact .some ⟨rfl, .nil, twins⟩
  | cons deed rest ih =>
      have responded := twins_respond agrees twins fuel deed
      have moments := twins_moments agrees twins fuel deed
      rw [record, record]
      generalize m.respond fuel deed = here at responded
      generalize other.respond fuel deed = there at responded
      cases responded with
      | none => exact .none
      | @some answered matched same =>
          have later := ih same.2
          change Option.Rel _ ((answered.2.record fuel rest).bind _)
            ((matched.2.record fuel rest).bind _)
          generalize answered.2.record fuel rest = near at later
          generalize matched.2.record fuel rest = far at later
          cases later with
          | none => exact .none
          | some copied =>
              refine .some ⟨?_, List.rel_append moments copied.moments, copied.left⟩
              change matched.1 :: _ = answered.1 :: _
              rw [same.1, copied.given]

end Machine

end StackMachine
