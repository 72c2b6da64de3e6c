import StackMachine.Launch
import StackMachine.Proofs.Guises

/-!
# Tracing

A machine with traces does what the same machine does without them. To what is shown it adds
one warning for each line that has been decoded, right before the effects of that line; and
since a line that stops at an address has been announced too, there is one trace for every
instruction that counts and one for every step that has stopped like this.
-/

namespace StackMachine

set_option autoImplicit false

def Event.isTrace : Event → Bool
  | .traced _ _ => true
  | _ => false

def Event.printed? : Event → Option String
  | .printed text => some text
  | _ => none

/-- Nothing that an operation does is a trace. -/
theorem lasting_traces : Lasting fun s t : State =>
    t.log.toList.countP Event.isTrace = s.log.toList.countP Event.isTrace where
  refl := fun _ => rfl
  trans := fun early late => late.trans early
  write := fun _ _ _ => rfl
  print := by
    intro s text
    rw [Array.toList_push, List.countP_append]
    rfl
  push := by
    intro s c
    rw [Action.push_run]
    change (s.log ++ _).toList.countP Event.isTrace = _
    rw [Array.toList_append, List.countP_append]
    cases (s.stack.push c).1 <;> rfl
  pop := by
    intro s
    rw [Action.pop_run]
    change (s.log ++ _).toList.countP Event.isTrace = _
    rw [Array.toList_append, List.countP_append]
    cases s.stack.pop.2.1 <;> rfl

namespace Machine

def traced (m : Machine) : Machine := { m with trace := true }

def printed (m : Machine) : List String := m.log.toList.filterMap Event.printed?

def traces (m : Machine) : Nat := m.log.toList.countP Event.isTrace

namespace Moment

def messages (moment : Moment) : List Message := moment.shown.map Event.message

/-- The warning that tracing gives of a line that has been decoded. -/
def warning (moment : Moment) : List Message :=
  match moment.fetched with
  | some ⟨line, text, .ok _⟩ =>
      [.warn ("[Machine] " ++ Text.decimal line ++ ": " ++ String.ofList text)]
  | _ => []

theorem message_announcement (moment : Moment) :
    moment.announcement.map Event.message = moment.warning := by
  rw [announcement, warning]
  cases moment.fetched with
  | none => rfl
  | some fetched =>
      obtain ⟨line, text, decoded⟩ := fetched
      cases decoded <;> rfl

theorem traces_announcement (moment : Moment) :
    moment.announcement.countP Event.isTrace = moment.attempted.toList.length := by
  rw [announcement, attempted]
  cases moment.fetched with
  | none => rfl
  | some fetched =>
      obtain ⟨line, text, decoded⟩ := fetched
      cases decoded <;> rfl

theorem printed_announcement (moment : Moment) :
    moment.announcement.filterMap Event.printed? = [] := by
  rw [announcement]
  split <;> rfl

/-- What has been attempted has been performed, or it has stopped at an address. -/
theorem attempted_splits {moment : Moment}
    (decoded : moment.strays = true → moment.attempted.isSome = true) :
    moment.attempted.toList.length =
      moment.performed.toList.length + if moment.strays then 1 else 0 := by
  cases strays : moment.strays with
  | false =>
      rw [performed_eq strays]
      rfl
  | true =>
      obtain ⟨instruction, attempt⟩ := Option.isSome_iff_exists.mp (decoded strays)
      rw [performed, strays, attempt]
      rfl

end Moment

variable {m next : Machine} {fuel : Nat} {deeds : List Deed} {r : Record}

/-- All that has been shown, with an announcement put before each moment's own events. -/
def retold (moments : List Moment) : List Event :=
  moments.flatMap fun moment => moment.announcement ++ moment.shown

theorem message_retold (moments : List Moment) :
    (retold moments).map Event.message =
      moments.flatMap fun moment => moment.warning ++ moment.messages := by
  rw [retold, List.map_flatMap]
  congr 1
  funext moment
  rw [List.map_append, Moment.message_announcement]
  rfl

theorem printed_retold (moments : List Moment) :
    (retold moments).filterMap Event.printed? =
      (moments.flatMap Moment.shown).filterMap Event.printed? := by
  rw [retold, List.filterMap_flatMap, List.filterMap_flatMap]
  congr 1
  funext moment
  rw [List.filterMap_append, Moment.printed_announcement, List.nil_append]

/-- By induction on the moments: each one counts for itself. -/
theorem traces_retold {moments : List Moment}
    (decoded : ∀ moment ∈ moments, moment.strays = true → moment.attempted.isSome = true) :
    (retold moments).countP Event.isTrace =
      (moments.filterMap Moment.performed).length + moments.countP Moment.strays +
        (moments.flatMap Moment.shown).countP Event.isTrace := by
  induction moments with
  | nil => rfl
  | cons moment rest ih =>
      have later := ih fun other member => decoded other (List.mem_cons_of_mem moment member)
      have here := Moment.attempted_splits (decoded moment List.mem_cons_self)
      have split : (moment :: rest).filterMap Moment.performed =
          moment.performed.toList ++ rest.filterMap Moment.performed := by
        cases performed : moment.performed <;> simp [performed]
      have first : retold (moment :: rest) =
          (moment.announcement ++ moment.shown) ++ retold rest := rfl
      rw [first, split, List.flatMap_cons, List.countP_append, List.countP_append,
        List.countP_append, List.countP_cons, List.length_append, Moment.traces_announcement,
        later, here]
      omega

theorem note_trace_plain (plain : m.trace = false) (line : Nat) (text : Text) :
    m.noteTrace line text = m := by
  rw [noteTrace, plain]
  rfl

/-- A machine without traces that has come out of another one. -/
structure Untraced (start m : Machine) : Prop where
  program : m.program = start.program
  trace : m.trace = false
  traces : m.traces = start.traces

theorem Untraced.refl (plain : m.trace = false) : Untraced m m := ⟨rfl, plain, rfl⟩

theorem untraced_executed {start : Machine} (untraced : Untraced start m) (fetched : Fetched)
    (instruction : Instruction) :
    (Action.left (instruction.opcode.execute ((m.reached fetched).staged instruction))
      ).log.toList.countP Event.isTrace = start.traces := by
  have same := lasting_traces.execute instruction.opcode ((m.reached fetched).staged instruction)
  have log : (m.reached fetched).log = m.log := by
    rw [reached_eq, untraced.trace]
    rfl
  have staged : ((m.reached fetched).staged instruction).log = (m.reached fetched).log := rfl
  rw [same, staged, log]
  exact untraced.traces

theorem untraced_step {start : Machine} (untraced : Untraced start m) :
    Untraced start (after m.step) := by
  have taken := taken_step m
  generalize m.step = outcome at taken
  cases taken with
  | finished nothing => exact ⟨untraced.program, untraced.trace, untraced.traces⟩
  | undecoded found wrong => exact ⟨untraced.program, untraced.trace, untraced.traces⟩
  | @strayed fetched instruction address state found right executed =>
      have traces := untraced_executed untraced fetched instruction
      rw [executed] at traces
      refine ⟨?_, ?_, traces⟩
      · rw [reached_eq]
        exact untraced.program
      · rw [reached_eq]
        exact untraced.trace
  | @followed fetched instruction done found right executed =>
      have traces := untraced_executed untraced fetched instruction
      rw [executed] at traces
      have settled := settled_follow (m.carried fetched done) fetched.line
      refine ⟨?_, ?_, ?_⟩
      · rw [settled.program, carried, reached_eq]
        exact untraced.program
      · rw [settled.trace, carried, reached_eq]
        exact untraced.trace
      · rw [Machine.traces, settled.log]
        exact traces

theorem untraced_aside {start : Machine} {deed : Deed} (apart : ¬deed.Calls)
    (handled : m.handle fuel deed = some next) (untraced : Untraced start m) :
    Untraced start next := by
  obtain ⟨traces, same⟩ := aside_keeps lasting_traces apart handled
  refine ⟨?_, ?_, traces.trans untraced.traces⟩
  · rw [same]
    exact untraced.program
  · rw [same]
    exact untraced.trace

theorem silent_of_untraced (grows : Grows m next) (untraced : Untraced m next) :
    (m.added next).countP Event.isTrace = 0 := by
  have same := untraced.traces
  rw [traces, traces, log_of_grows grows, List.countP_append] at same
  omega

/-- What is true of each moment of a machine without traces. -/
structure Plain (program : Program) (moment : Moment) : Prop where
  silent : moment.shown.countP Event.isTrace = 0
  decoded : moment.strays = true → moment.attempted.isSome = true
  text : ∀ fetched, moment.fetched = some fetched →
    program.lines[fetched.line]? = some fetched.text

theorem plain_moments (recorded : m.record fuel deeds = some r) (plain : m.trace = false) :
    Untraced m r.left ∧ ∀ moment ∈ r.moments, Plain m.program moment := by
  refine moments_of_record (P := Untraced m) (Q := Plain m.program) ?_ ?_ recorded (.refl plain)
  · intro before untraced
    refine ⟨untraced_step untraced, ?_, fun strays => attempted_of_strays strays, ?_⟩
    · exact silent_of_untraced (grows_step before) (untraced_step (.refl untraced.trace))
    · intro fetched found
      rw [← untraced.program]
      exact text_of_fetch found
  · intro deed _ apart before next handled untraced
    refine ⟨untraced_aside apart handled untraced, ?_, nofun, nofun⟩
    exact silent_of_untraced (aside_keeps lasting_log apart handled).1
      (untraced_aside apart handled (.refl untraced.trace))

/-- Two records that differ by the warnings of the second one alone. -/
structure OnlyWarns (program : Program) (quiet told : Record) : Prop where
  given : told.given = quiet.given
  left : Resembles quiet.left told.left
  printed : told.left.printed = quiet.left.printed
  shown : Launch.shown quiet.left = quiet.moments.flatMap Moment.messages
  warned : Launch.shown told.left =
    quiet.moments.flatMap fun moment => moment.warning ++ moment.messages
  text : ∀ moment ∈ quiet.moments, ∀ fetched, moment.fetched = some fetched →
    program.lines[fetched.line]? = some fetched.text
  traces : told.left.traces = told.left.executed + quiet.moments.countP Moment.strays

def quietly (program : Program) : Guise := ⟨program, false⟩

def aloud (program : Program) : Guise := ⟨program, true⟩

theorem retold_of_seen {program : Program} {moments others : List Moment}
    (seen : List.Forall₂ (Seen (quietly program) (aloud program)) moments others) :
    others.flatMap Moment.shown = retold moments := by
  induction seen with
  | nil => rfl
  | cons first rest ih =>
      obtain ⟨events, plain, traced⟩ := first.shown
      rw [List.flatMap_cons, ih, traced, retold, retold, List.flatMap_cons, plain]
      rw [Guise.announced, Guise.announced, announcement_eq first.fetched]
      rfl

theorem tells (program : Program) : (quietly program).Agrees (aloud program) :=
  ⟨rfl, fun _ => rfl⟩

theorem only_warns_of_copied {quiet told : Record} (plain : m.trace = false)
    (fresh : m.log = #[]) (start : m.executed = 0)
    (recorded : m.record fuel deeds = some quiet)
    (recorded_told : m.traced.record fuel deeds = some told)
    (copied : Copied (quietly m.program) (aloud m.program) quiet told) :
    OnlyWarns m.program quiet told := by
  obtain ⟨untraced, known⟩ := plain_moments recorded plain
  have log := log_of_record recorded
  rw [fresh, List.nil_append] at log
  have log_told : told.left.log.toList = retold quiet.moments := by
    rw [← retold_of_seen copied.moments, log_of_record recorded_told]
    exact congrArg (· ++ _) (congrArg Array.toList fresh)
  have resembles := resembles_of_twins (tells m.program) copied.left
  have performed := executed_of_record recorded
  rw [start, Nat.zero_add] at performed
  have silent : (quiet.moments.flatMap Moment.shown).countP Event.isTrace = 0 := by
    rw [← log]
    exact untraced.traces.trans (by rw [traces, fresh]; rfl)
  refine ⟨copied.given, resembles, ?_, ?_, ?_, ?_, ?_⟩
  · rw [printed, printed, log, log_told]
    exact printed_retold _
  · rw [Launch.shown, log, List.map_flatMap]
    rfl
  · rw [Launch.shown, log_told]
    exact message_retold _
  · exact fun moment member => (known moment member).text
  · rw [traces, log_told, traces_retold fun moment member => (known moment member).decoded,
      resembles.executed, performed, silent, Nat.add_zero]

theorem only_warns (plain : m.trace = false) (fresh : m.log = #[]) (start : m.executed = 0)
    (fuel : Nat) (deeds : List Deed) :
    Option.Rel (OnlyWarns m.program) (m.record fuel deeds) (m.traced.record fuel deeds) := by
  have twins := twins_recast m (aloud m.program)
  have told : m.recast (aloud m.program) #[] = m.traced := by
    simp only [recast, aloud, traced, Array.empty_append]
  rw [told, guise, plain] at twins
  have copied := twins_record (tells m.program) twins fuel deeds
  refine rel_of_rel copied ?_
  intro quiet told recorded recorded_told copied
  exact only_warns_of_copied plain fresh start recorded recorded_told copied

/-- Machines built with and without traces from one source give the same answers and are the
same after whatever a host does with both. All that is added is the warnings. -/
theorem traces_only_warn (source : List Text) (capacity : Double) :
    build source ⟨true, capacity⟩ = (build source ⟨false, capacity⟩).map traced ∧
      ∀ quiet, build source ⟨false, capacity⟩ = .ok quiet → ∀ fuel deeds,
        Option.Rel (OnlyWarns quiet.program) (quiet.record fuel deeds)
          (quiet.traced.record fuel deeds) := by
  constructor
  · rw [build, build]
    cases Stack.ofCapacity capacity with
    | error failure => rfl
    | ok stack =>
        cases Program.prepare source with
        | error failure => rfl
        | ok program => rfl
  · intro quiet made fuel deeds
    have fresh := fresh_of_build made
    exact only_warns fresh.trace fresh.log fresh.executed fuel deeds

/-- An exchange on a stack with room for one cell, and a register that does not exist. -/
def lostLines : List Text := ["swp".toList, "# nowhere".toList, "inc 77".toList]

def lost : Machine where
  registers := .zero
  stack := .empty 1
  log := #[]
  program := ⟨lostLines, []⟩
  trace := false
  pointer := 0
  executed := 0

theorem build_lost : build lostLines ⟨false, Double.ofInt 1⟩ = .ok lost := by
  have prepared : Program.prepare lostLines = .ok ⟨lostLines, []⟩ :=
    Program.prepare_undeclared (by decide) rfl
  simp only [build, prepared]
  rfl

def lostDeeds : List Deed := [.push ⟨5⟩, .call (.run none), .set (.int 4) ⟨8⟩, .call .step, .pop]

theorem traces_only_warn_lost :
    build lostLines ⟨false, Double.ofInt 1⟩ = .ok lost ∧
      build lostLines ⟨true, Double.ofInt 1⟩ = .ok lost.traced ∧
      ∃ quiet told, lost.record 3 lostDeeds = some quiet ∧
        lost.traced.record 3 lostDeeds = some told ∧ OnlyWarns lost.program quiet told ∧
        told.left.executed = 1 ∧ told.left.traces = 3 := by
  obtain ⟨traced, warns⟩ := traces_only_warn lostLines (Double.ofInt 1)
  rw [build_lost] at traced
  obtain ⟨quiet, recorded⟩ : ∃ quiet, lost.record 3 lostDeeds = some quiet := ⟨_, rfl⟩
  obtain ⟨told, recorded_told⟩ : ∃ told, lost.traced.record 3 lostDeeds = some told := ⟨_, rfl⟩
  have only := warns lost build_lost 3 lostDeeds
  rw [recorded, recorded_told] at only
  cases only with
  | some only =>
      refine ⟨build_lost, traced, quiet, told, recorded, recorded_told, only, ?_, ?_⟩
      · cases recorded_told
        rfl
      · cases recorded_told
        rfl

end Machine

end StackMachine
