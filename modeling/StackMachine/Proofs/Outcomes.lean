import StackMachine.Proofs.Changes
import StackMachine.Proofs.Limits
import StackMachine.Proofs.Reports
import StackMachine.Proofs.Tracing

/-!
# How a launch ends

A launch succeeds where its program loads and runs to the end, and there are five ways in
which it fails: no file, an unreadable one, a program that is refused, an error while it
runs, and a limit. What it reports is what the program has shown, and one complaint about a
failure behind that. Traces can be taken off a machine before a step as well as after it, so
no switch for debugging changes the exit status or what is printed.
-/

namespace StackMachine

set_option autoImplicit false

/-- Without the traces. -/
def hush (log : Array Event) : Array Event := log.filter fun event => !event.isTrace

theorem hush_append {later : Array Event} (silent : later.toList.countP Event.isTrace = 0)
    (earlier : Array Event) : hush (earlier ++ later) = hush earlier ++ later := by
  have kept : hush later = later := by
    rw [hush, Array.filter_eq_self]
    intro event member
    have plain := List.countP_eq_zero.mp silent event (Array.mem_toList_iff.mpr member)
    simpa using plain
  rw [hush, Array.filter_append Array.size_append, ← hush, ← hush, kept]

def State.hushed (s : State) : State := { s with log := hush s.log }

theorem State.hushed_behind {s : State} (silent : s.log.toList.countP Event.isTrace = 0)
    (earlier : Array Event) : (s.behind earlier).hushed = s.behind (hush earlier) := by
  simp only [hushed, behind, hush_append silent]

def Action.onState {α : Type} (change : State → State) :
    EStateM.Result Address State α → EStateM.Result Address State α
  | .ok a done => .ok a (change done)
  | .error address stopped => .error address (change stopped)

/-- An operation does not look at the traces before it, and adds none. -/
theorem Opcode.execute_hushed (opcode : Opcode) (s : State) :
    opcode.execute s.hushed = Action.onState State.hushed (opcode.execute s) := by
  let bare : State := { s with log := #[] }
  have before : s = bare.behind s.log := by simp [bare, State.behind]
  have before_hushed : s.hushed = bare.behind (hush s.log) := by
    simp [bare, State.behind, State.hushed]
  have silent : (Action.left (opcode.execute bare)).log.toList.countP Event.isTrace = 0 :=
    lasting_traces.execute opcode bare
  have oblivious := Oblivious.execute opcode
  rw [before_hushed, oblivious (hush s.log) bare]
  conv => rhs; rw [before, oblivious s.log bare]
  cases result : opcode.execute bare with
  | ok value done =>
      rw [result] at silent
      exact congrArg (EStateM.Result.ok value) (State.hushed_behind silent s.log).symm
  | error address stopped =>
      rw [result] at silent
      exact congrArg (EStateM.Result.error address) (State.hushed_behind silent s.log).symm

namespace Machine

variable {m : Machine} {limit : Option Double} {fuel : Nat}

/-- Without the traces that have been shown, and with none to come. -/
def hushed (m : Machine) : Machine := { m with log := hush m.log, trace := false }

theorem perform_hushed (line : Nat) (instruction : Instruction) :
    m.hushed.perform line instruction = onLeft hushed (m.perform line instruction) := by
  have start : m.hushed.staged instruction = (m.staged instruction).hushed := rfl
  rw [perform_run, perform_run, start, Opcode.execute_hushed]
  cases instruction.opcode.execute (m.staged instruction) with
  | error address stopped => rfl
  | ok value done =>
      simp only [Action.onState, follow, hushed, halted, State.hushed]
      split
      · rfl
      · split <;> rfl

theorem note_trace_hushed (line : Nat) (text : Text) :
    m.hushed.noteTrace line text = (m.noteTrace line text).hushed := by
  rw [note_trace_plain rfl, noteTrace]
  by_cases traces : m.trace = true
  · rw [if_pos traces]
    simp only [hushed, hush, Array.filter_push]
    rfl
  · rw [if_neg traces]

theorem step_hushed : m.hushed.step = onLeft hushed m.step := by
  have same : m.hushed.fetch = m.fetch := rfl
  rw [step, step, same]
  cases m.fetch with
  | none => rfl
  | some fetched =>
      cases right : fetched.decoded with
      | error defect => simp only [right]; rfl
      | ok instruction =>
          have quiet := note_trace_hushed (m := { m with pointer := fetched.line }) fetched.line
            fetched.text
          simp only [right]
          rw [← perform_hushed, ← quiet]
          rfl

theorem unnoticed_hushed : Unnoticed (fun _ => True) hushed where
  keeps := fun _ _ => trivial
  step := fun _ _ => step_hushed
  halted := fun _ _ => rfl
  executed := fun _ => rfl

/-- With traces or without them, machines from one source are the same without traces. -/
theorem build_hushed (source : List Text) (trace : Bool) :
    (build source { trace }).map hushed = build source {} := by
  rw [build, build]
  cases Stack.ofCapacity (Double.ofInt Stack.defaultCapacity) with
  | error failure => rfl
  | ok stack =>
      cases Program.prepare source with
      | error failure => rfl
      | ok program => rfl

theorem build_error_iff {source : List Text} {trace : Bool} {failure : Failure} :
    build source { trace } = .error failure ↔ Program.prepare source = .error failure := by
  have room : Stack.ofCapacity (Double.ofInt Stack.defaultCapacity) =
      .ok (.empty Stack.defaultCapacity) := rfl
  simp only [build, room]
  change (Program.prepare source >>= _) = _ ↔ _
  cases Program.prepare source with
  | error found =>
      constructor
      · rintro ⟨⟩
        rfl
      · rintro ⟨⟩
        rfl
  | ok program =>
      constructor
      · intro built
        cases built
      · intro refused
        cases refused

/-- What no further step would change, more fuel does not change. -/
theorem run_for_conclusive (conclusive : Conclusive (runFor fuel m)) (rest : Nat) :
    runFor (fuel + rest) m = runFor fuel m := by
  unfold runFor at conclusive ⊢
  rw [advance_add]
  cases advanced : advance fuel m with
  | error failure stopped => rfl
  | ok value final =>
      rw [advanced] at conclusive
      have halts : final.halted = true := conclusive
      simp only [advance_halted halts]

theorem run_lasting {outcome : Outcome Summary} (ended : m.run limit fuel = .ended outcome)
    {more : Nat} (later : fuel ≤ more) : m.run limit more = .ended outcome := by
  cases budget : budget? limit with
  | some count =>
      simp only [run, budget] at ended ⊢
      exact ended
  | none =>
      rw [run_unbounded budget] at ended ⊢
      obtain ⟨same, conclusive⟩ := (run_none_iff fuel).mp ended
      rw [same] at conclusive
      have kept := run_for_conclusive conclusive (more - fuel)
      rw [Nat.add_sub_cancel' later] at kept
      exact (run_none_iff more).mpr ⟨same.trans kept.symm, same ▸ conclusive⟩

end Machine

namespace Launch

/-- The exit status and the printed lines of a report. -/
def Report.seen (report : Report) : Option Nat × List String :=
  (report.status, Message.printedLines report.messages)

/-- What is said of a failure. Debugging adds the chain of calls behind an error that was
thrown. -/
def complaints (environment : Environment) (thrown : Bool) (text : String) : List Message :=
  .warn ("Error: " ++ text) ::
    if thrown = true ∧ IsSet environment.debug then [.warn "<stack>"] else []

theorem printed_complaints (environment : Environment) (thrown : Bool) (text : String) :
    Message.printedLines (complaints environment thrown text) = [] := by
  unfold complaints
  split <;> rfl

theorem complaints_thrown (environment : Environment) (text : String) :
    errorMessages environment text = complaints environment true text := by
  rw [errorMessages, complaints, is_on_eq]
  simp only [true_and, decide_eq_true_eq]
  rfl

theorem complaints_unthrown (environment : Environment) (text : String) :
    [complaint text] = complaints environment false text := by
  rw [complaints, if_neg (fun both => Bool.false_ne_true both.1)]
  rfl

theorem first_of_message {event : Event} {text : String} (warns : event.message = .warn text) :
    text.toList.head? = some '[' ∨ text.toList.head? = some 'S' := by
  cases event with
  | printed line =>
      rw [Event.message] at warns
      cases warns
  | traced line traced =>
      rw [← Message.warn.inj warns]
      simp only [String.toList_append]
      exact .inl rfl
  | fault cause =>
      rw [← Message.warn.inj warns]
      cases cause with
      | underflow => exact .inr rfl
      | overflow refused =>
          have split : (Fault.overflow refused).text.toList =
              "STACK OVERFLOW, tried to push ".toList ++ refused.text.toList :=
            String.toList_append ..
          rw [split]
          exact .inr rfl

/-- What a machine shows is told apart from a complaint by its first character. -/
theorem message_ne_complaint (event : Event) (text : String) :
    event.message ≠ .warn ("Error: " ++ text) := by
  intro same
  have first : ("Error: " ++ text).toList.head? = some 'E' := by
    rw [String.toList_append]
    rfl
  have starts := first_of_message same
  rw [first] at starts
  exact absurd starts (by decide)

theorem printed_shown_hushed (m : Machine) :
    Message.printedLines (shown m.hushed) = Message.printedLines (shown m) := by
  have log : m.hushed.log.toList = m.log.toList.filter fun event => !event.isTrace :=
    Array.toList_filter
  rw [← Message.printed_lines_eq, ← Message.printed_lines_eq, shown, shown, log,
    List.filterMap_map, List.filterMap_map, List.filterMap_filter]
  congr 1
  funext event
  cases event <;> rfl

section

variable (tree : FileTree) (path : Text) (options : Options) (environment : Environment)
  (fuel : Nat)

/-- The file is read, and a machine is built from its lines. Traces are shown if the option says
so or the variable for them is set. -/
def Starts (machine : Machine) : Prop :=
  ∃ octets, tree.read path = .contents octets ∧
    Machine.build (Text.lines (Utf8.decode octets))
      { trace := options.trace || decide (IsSet environment.debugTrace) } = .ok machine

/-- The five ways to fail, with the text that is reported, and whether an error is thrown. -/
inductive Fails : Bool → String → Prop
  | missing (nothing : tree.read path = .missing) :
      Fails false ("Program file not found: " ++ String.ofList path)
  | unreadable {reason : String} (refused : tree.read path = .unreadable reason) :
      Fails true reason
  | rejected {octets : List UInt8} {failure : Failure} (read : tree.read path = .contents octets)
      (refused : Program.prepare (Text.lines (Utf8.decode octets)) = .error failure) :
      Fails true failure.message
  | stopped {machine left : Machine} {failure : Failure}
      (starts : Starts tree path options environment machine)
      (ran : machine.run options.maxSteps fuel = .ended (.error failure left)) :
      Fails true failure.message
  | limited {machine left : Machine} {summary : Machine.Summary}
      (starts : Starts tree path options environment machine)
      (ran : machine.run options.maxSteps fuel = .ended (.ok summary left))
      (short : summary.halted = false) :
      Fails false ("Step limit reached after " ++ Text.decimal summary.steps ++
        " instructions (line " ++ Text.decimal left.pointer ++ ")")

/-- Starts and runs to the end. -/
def Halts : Prop :=
  ∃ machine summary left, Starts tree path options environment machine ∧
    machine.run options.maxSteps fuel = .ended (.ok summary left) ∧ summary.halted = true

/-- Starts, and is still running when the fuel is spent. -/
def Lasts : Prop :=
  ∃ machine left, Starts tree path options environment machine ∧
    machine.run options.maxSteps fuel = .running left

/-- A way to end, by the exit status it gives; where the program is still running there is none. -/
inductive Ends : Option Nat → Prop
  | halts (halts : Halts tree path options environment fuel) : Ends (some 0)
  | fails {thrown : Bool} {text : String}
      (fails : Fails tree path options environment fuel thrown text) : Ends (some 1)
  | lasts (lasts : Lasts tree path options environment fuel) : Ends none

/-- The machine as a run leaves it, for good or for the time being. -/
def leftBy : Machine.Progress → Machine
  | .running left => left
  | .ended outcome => Machine.after outcome

/-- What there is to see of a program: the listing that is asked for, and all that the machine
has shown. Of a program that does not start there is nothing to see. -/
inductive Shows : List Message → Prop
  | unstarted (unstarted : ∀ machine, ¬Starts tree path options environment machine) : Shows []
  | started {machine : Machine} (starts : Starts tree path options environment machine) :
      Shows ((if options.listing then numbered 0 machine.program.lines else []) ++
        (leftBy (machine.run options.maxSteps fuel)).log.toList.map Event.message)

/-- What is said at the end: nothing, or what is said of the failure. -/
inductive Closes : List Message → Prop
  | silent (unfailed : ∀ thrown text, ¬Fails tree path options environment fuel thrown text) :
      Closes []
  | complains {thrown : Bool} {text : String}
      (fails : Fails tree path options environment fuel thrown text) :
      Closes (complaints environment thrown text)

/-- What holds of a launch, however it ends: the status it has by then, that more fuel does
not change it, what is reported in which order, and what no switch for debugging changes. -/
structure Concludes : Prop where
  succeeded : (runFile tree path options environment fuel).status = some 0 ↔
    Halts tree path options environment fuel
  failed : (runFile tree path options environment fuel).status = some 1 ↔
    ∃ thrown text, Fails tree path options environment fuel thrown text
  running : (runFile tree path options environment fuel).status = none ↔
    Lasts tree path options environment fuel
  starts : ∀ machine other, Starts tree path options environment machine →
    Starts tree path options environment other → other = machine
  limited : budget? options.maxSteps ≠ none → ¬Lasts tree path options environment fuel
  final : (runFile tree path options environment fuel).status ≠ none → ∀ more, fuel ≤ more →
    runFile tree path options environment more = runFile tree path options environment fuel
  shows : ∃ shows, Shows tree path options environment fuel shows
  closes : ∃ closing, Closes tree path options environment fuel closing
  messages : ∀ shows closing, Shows tree path options environment fuel shows →
    Closes tree path options environment fuel closing →
      (runFile tree path options environment fuel).messages = shows ++ closing
  apart : ∀ shows, Shows tree path options environment fuel shows →
    ∀ text, .warn ("Error: " ++ text) ∉ shows
  rejected : ∀ octets failure, tree.read path = .contents octets →
    Program.prepare (Text.lines (Utf8.decode octets)) = .error failure →
      (∀ machine, ¬Starts tree path options environment machine) ∧
        runFile tree path options environment fuel =
          ⟨complaints environment true failure.message, some 1⟩
  switches : ∀ others, (runFile tree path options others fuel).seen =
    (runFile tree path options environment fuel).seen

end

variable {tree : FileTree} {path : Text} {options : Options} {environment : Environment}
  {fuel : Nat} {machine other : Machine} {thrown : Bool} {text : String}
  {shows closing : List Message}

theorem starts_iff :
    Starts tree path options environment machine ↔ Loads tree path options environment machine := by
  rw [Starts, Loads, is_on_eq]

theorem starts_unique (starts : Starts tree path options environment machine)
    (again : Starts tree path options environment other) : other = machine := by
  obtain ⟨octets, read, built⟩ := starts
  obtain ⟨others, read_again, built_again⟩ := again
  rw [read] at read_again
  cases read_again
  rw [built] at built_again
  exact (Except.ok.inj built_again).symm

theorem run_file_started (starts : Starts tree path options environment machine) (fuel : Nat) :
    runFile tree path options environment fuel =
      runMachine options environment fuel machine :=
  Machine.run_file_of_loads (starts_iff.mp starts) options.maxSteps fuel

theorem not_starts_unread (unread : ∀ octets, tree.read path ≠ .contents octets) :
    ¬Starts tree path options environment machine := by
  rintro ⟨octets, read, -⟩
  exact unread octets read

theorem not_starts_rejected {octets : List UInt8} {failure : Failure}
    (read : tree.read path = .contents octets)
    (refused : Program.prepare (Text.lines (Utf8.decode octets)) = .error failure) :
    ¬Starts tree path options environment machine := by
  rintro ⟨others, read_again, built⟩
  rw [read] at read_again
  cases read_again
  rw [Machine.build_error_iff.mpr refused] at built
  cases built

theorem exists_shows : ∃ shows, Shows tree path options environment fuel shows := by
  by_cases some : ∃ machine, Starts tree path options environment machine
  · obtain ⟨machine, starts⟩ := some
    exact ⟨_, .started starts⟩
  · exact ⟨[], .unstarted fun machine starts => some ⟨machine, starts⟩⟩

theorem exists_closes : ∃ closing, Closes tree path options environment fuel closing := by
  by_cases some : ∃ thrown text, Fails tree path options environment fuel thrown text
  · obtain ⟨thrown, text, fails⟩ := some
    exact ⟨_, .complains fails⟩
  · exact ⟨[], .silent fun thrown text fails => some ⟨thrown, text, fails⟩⟩

theorem shows_nothing (unstarted : ∀ machine, ¬Starts tree path options environment machine)
    (shown : Shows tree path options environment fuel shows) : shows = [] := by
  cases shown with
  | unstarted => rfl
  | started starts => exact (unstarted _ starts).elim

/-- What is reported of a program that starts, before anything is said about its end. -/
theorem shows_started (starts : Starts tree path options environment machine)
    (shown : Shows tree path options environment fuel shows) :
    shows = (if options.listing then machine.program.listing.map Message.print else []) ++
      Launch.shown (leftBy (machine.run options.maxSteps fuel)) := by
  rw [numbered_listing]
  cases shown with
  | unstarted unstarted => exact (unstarted machine starts).elim
  | started again =>
      cases starts_unique starts again
      rfl

theorem report_of_fails (fails : Fails tree path options environment fuel thrown text)
    (shown : Shows tree path options environment fuel shows) :
    runFile tree path options environment fuel =
      ⟨shows ++ complaints environment thrown text, some 1⟩ := by
  cases fails with
  | missing nothing =>
      have unread : ∀ octets, tree.read path ≠ .contents octets := by
        intro octets read
        rw [nothing] at read
        cases read
      rw [shows_nothing (fun _ => not_starts_unread unread) shown, runFile, nothing,
        List.nil_append, ← complaints_unthrown]
      rfl
  | unreadable refused =>
      have unread : ∀ octets, tree.read path ≠ .contents octets := by
        intro octets read
        rw [refused] at read
        cases read
      rw [shows_nothing (fun _ => not_starts_unread unread) shown, runFile, refused,
        List.nil_append, ← complaints_thrown]
      rfl
  | rejected read refused =>
      rw [shows_nothing (fun _ => not_starts_rejected read refused) shown, runFile, read,
        List.nil_append, ← complaints_thrown]
      unfold runReading
      simp only [Machine.build_error_iff.mpr refused]
  | stopped starts ran =>
      rw [shows_started starts shown, run_file_started starts]
      simp only [runMachine, ran, complaints_thrown]
      rfl
  | limited starts ran short =>
      rw [shows_started starts shown, run_file_started starts, ← complaints_unthrown]
      simp only [runMachine, ran, short]
      rfl

theorem report_of_halts (halts : Halts tree path options environment fuel)
    (shown : Shows tree path options environment fuel shows) :
    runFile tree path options environment fuel = ⟨shows, some 0⟩ := by
  obtain ⟨machine, summary, left, starts, ran, halted⟩ := halts
  rw [shows_started starts shown, run_file_started starts]
  simp only [runMachine, ran, halted, if_true]
  rfl

theorem report_of_lasts (lasts : Lasts tree path options environment fuel)
    (shown : Shows tree path options environment fuel shows) :
    runFile tree path options environment fuel = ⟨shows, none⟩ := by
  obtain ⟨machine, left, starts, ran⟩ := lasts
  rw [shows_started starts shown, run_file_started starts]
  simp only [runMachine, ran]
  rfl

theorem exists_ends : ∃ status, Ends tree path options environment fuel status := by
  cases read : tree.read path with
  | missing => exact ⟨_, .fails (.missing read)⟩
  | unreadable reason => exact ⟨_, .fails (.unreadable read)⟩
  | contents octets =>
      cases built : Machine.build (Text.lines (Utf8.decode octets))
          { trace := options.trace || decide (IsSet environment.debugTrace) } with
      | error failure => exact ⟨_, .fails (.rejected read (Machine.build_error_iff.mp built))⟩
      | ok machine =>
          have starts : Starts tree path options environment machine := ⟨octets, read, built⟩
          cases ran : machine.run options.maxSteps fuel with
          | running left => exact ⟨_, .lasts ⟨machine, left, starts, ran⟩⟩
          | ended outcome =>
              cases outcome with
              | error failure left => exact ⟨_, .fails (.stopped starts ran)⟩
              | ok summary left =>
                  cases halted : summary.halted with
                  | true => exact ⟨_, .halts ⟨machine, summary, left, starts, ran, halted⟩⟩
                  | false => exact ⟨_, .fails (.limited starts ran halted)⟩

/-- The ways to end exclude each other, for there is but one status. -/
theorem status_eq_iff {status : Option Nat} :
    (runFile tree path options environment fuel).status = status ↔
      Ends tree path options environment fuel status := by
  obtain ⟨shows, shown⟩ : ∃ shows, Shows tree path options environment fuel shows := exists_shows
  have known : ∀ {status}, Ends tree path options environment fuel status →
      (runFile tree path options environment fuel).status = status := by
    intro status ends
    cases ends with
    | halts halts => rw [report_of_halts halts shown]
    | fails fails => rw [report_of_fails fails shown]
    | lasts lasts => rw [report_of_lasts lasts shown]
  constructor
  · rintro rfl
    obtain ⟨status, ends⟩ : ∃ status, Ends tree path options environment fuel status :=
      exists_ends
    rw [known ends]
    exact ends
  · exact known

theorem halts_iff :
    (runFile tree path options environment fuel).status = some 0 ↔
      Halts tree path options environment fuel := by
  rw [status_eq_iff]
  constructor
  · intro ends
    cases ends with
    | halts halts => exact halts
  · exact .halts

theorem fails_iff :
    (runFile tree path options environment fuel).status = some 1 ↔
      ∃ thrown text, Fails tree path options environment fuel thrown text := by
  rw [status_eq_iff]
  constructor
  · intro ends
    cases ends with
    | fails fails => exact ⟨_, _, fails⟩
  · rintro ⟨thrown, text, fails⟩
    exact .fails fails

theorem lasts_iff :
    (runFile tree path options environment fuel).status = none ↔
      Lasts tree path options environment fuel := by
  rw [status_eq_iff]
  constructor
  · intro ends
    cases ends with
    | lasts lasts => exact lasts
  · exact .lasts

/-- A report is what there is to see of the program and, behind it, what is said at the end. -/
theorem messages_run_file (shown : Shows tree path options environment fuel shows)
    (closes : Closes tree path options environment fuel closing) :
    (runFile tree path options environment fuel).messages = shows ++ closing := by
  cases closes with
  | complains fails => rw [report_of_fails fails shown]
  | silent unfailed =>
      rw [List.append_nil]
      obtain ⟨status, ends⟩ : ∃ status, Ends tree path options environment fuel status :=
        exists_ends
      cases ends with
      | fails fails => exact (unfailed _ _ fails).elim
      | halts halts => rw [report_of_halts halts shown]
      | lasts lasts => rw [report_of_lasts lasts shown]

/-- Under a limit that binds, every run ends. -/
theorem not_lasts_of_budget (binding : budget? options.maxSteps ≠ none) :
    ¬Lasts tree path options environment fuel := by
  rintro ⟨machine, left, -, ran⟩
  unfold Machine.run at ran
  cases budget : budget? options.maxSteps with
  | none => exact binding budget
  | some count =>
      rw [budget] at ran
      cases ran

theorem run_file_lasting (ended : (runFile tree path options environment fuel).status ≠ none)
    {more : Nat} (later : fuel ≤ more) :
    runFile tree path options environment more = runFile tree path options environment fuel := by
  unfold runFile at ended ⊢
  cases read : tree.read path with
  | missing => rfl
  | unreadable reason => rfl
  | contents octets =>
      rw [read] at ended
      unfold runReading at ended ⊢
      cases built : Machine.build (Text.lines (Utf8.decode octets))
          { trace := options.trace || isOn environment.debugTrace } with
      | error failure => simp only [built]
      | ok machine =>
          simp only [built] at ended ⊢
          unfold runMachine at ended ⊢
          cases ran : machine.run options.maxSteps fuel with
          | ended outcome => rw [Machine.run_lasting ran later]
          | running left =>
              rw [ran] at ended
              exact absurd rfl ended

theorem seen_run_machine (environment others : Environment) (machine : Machine) :
    (runMachine options others fuel machine.hushed).seen =
      (runMachine options environment fuel machine).seen := by
  have ran := Machine.unnoticed_hushed.run options.maxSteps fuel (m := machine) trivial
  have program : machine.hushed.program = machine.program := rfl
  unfold runMachine
  rw [ran, program]
  cases machine.run options.maxSteps fuel with
  | running left =>
      simp only [Machine.Progress.onLeft, Report.seen, Message.printed_lines_append,
        printed_shown_hushed]
  | ended outcome =>
      cases outcome with
      | error failure left =>
          simp only [Machine.Progress.onLeft, Machine.onLeft, Report.seen,
            Message.printed_lines_append, printed_shown_hushed, complaints_thrown,
            printed_complaints]
      | ok summary left =>
          have pointer : left.hushed.pointer = left.pointer := rfl
          simp only [Machine.Progress.onLeft, Machine.onLeft, pointer]
          cases summary.halted with
          | true =>
              simp only [if_true, Report.seen, Message.printed_lines_append, printed_shown_hushed]
          | false =>
              simp only [Bool.false_eq_true, if_false, Report.seen, Message.printed_lines_append,
                printed_shown_hushed]

theorem seen_run_file (environment others : Environment) :
    (runFile tree path options others fuel).seen =
      (runFile tree path options environment fuel).seen := by
  unfold runFile
  cases tree.read path with
  | missing => rfl
  | unreadable reason =>
      unfold runReading
      simp only [Report.seen, complaints_thrown, printed_complaints]
  | contents octets =>
      unfold runReading
      have same := (Machine.build_hushed (Text.lines (Utf8.decode octets))
        (options.trace || isOn others.debugTrace)).trans
        (Machine.build_hushed (Text.lines (Utf8.decode octets))
          (options.trace || isOn environment.debugTrace)).symm
      simp only
      generalize Machine.build (Text.lines (Utf8.decode octets))
        { trace := options.trace || isOn others.debugTrace } = there at same ⊢
      generalize Machine.build (Text.lines (Utf8.decode octets))
        { trace := options.trace || isOn environment.debugTrace } = here at same ⊢
      cases there with
      | error failure =>
          cases here with
          | error other =>
              cases same
              simp only [Report.seen, complaints_thrown, printed_complaints]
          | ok machine => cases same
      | ok other =>
          cases here with
          | error failure => cases same
          | ok machine =>
              have hushed : other.hushed = machine.hushed := Except.ok.inj same
              simp only
              rw [← seen_run_machine others others other, hushed]
              exact seen_run_machine environment others machine

theorem apart_of_shows (shown : Shows tree path options environment fuel shows)
    (text : String) : .warn ("Error: " ++ text) ∉ shows := by
  intro member
  cases shown with
  | unstarted unstarted => exact List.not_mem_nil member
  | @started machine starts =>
      rw [← numbered_listing] at member
      rcases List.mem_append.mp member with listed | logged
      · split at listed
        · obtain ⟨line, -, prints⟩ := List.mem_map.mp listed
          cases prints
        · exact List.not_mem_nil listed
      · obtain ⟨event, -, same⟩ := List.mem_map.mp logged
        exact message_ne_complaint event text same

theorem rejected_run_file {octets : List UInt8} {failure : Failure}
    (read : tree.read path = .contents octets)
    (refused : Program.prepare (Text.lines (Utf8.decode octets)) = .error failure) :
    (∀ machine, ¬Starts tree path options environment machine) ∧
      runFile tree path options environment fuel =
        ⟨complaints environment true failure.message, some 1⟩ := by
  have unstarted : ∀ machine, ¬Starts tree path options environment machine :=
    fun machine => not_starts_rejected read refused
  exact ⟨unstarted, report_of_fails (.rejected read refused) (.unstarted unstarted)⟩

/-- How a launch ends, what it has reported by then, and that nothing more comes of more fuel
or, but for warnings, of other switches for debugging. -/
theorem run_file_concludes (tree : FileTree) (path : Text) (options : Options)
    (environment : Environment) (fuel : Nat) : Concludes tree path options environment fuel where
  succeeded := halts_iff
  failed := fails_iff
  running := lasts_iff
  starts := fun _ _ => starts_unique
  limited := not_lasts_of_budget
  final := fun ended _ later => run_file_lasting ended later
  shows := exists_shows
  closes := exists_closes
  messages := fun _ _ => messages_run_file
  apart := fun _ => apart_of_shows
  rejected := fun _ _ => rejected_run_file
  switches := seen_run_file environment

def strayFile : FileTree :=
  FileTree.empty.insert "code.txt".toList (Utf8.encode "# no way back\njmp -1".toList)

def debugging : Environment := { debug := some "1", debugTrace := some "1" }

/-- A jump that leads nowhere, with all that can be reported of it. -/
theorem run_file_concludes_stray :
    Starts strayFile "code.txt".toList { listing := true } debugging Machine.stray ∧
      Fails strayFile "code.txt".toList { listing := true } debugging 1 true
        "Line 1: Jump target -1 is before the start of the program" ∧
      (runFile strayFile "code.txt".toList { listing := true } debugging 1).status = some 1 ∧
      (runFile strayFile "code.txt".toList { listing := true } debugging 1).messages =
        [.print "0: # no way back", .print "1: jmp -1", .warn "[Machine] 1: jmp -1",
          .warn "Error: Line 1: Jump target -1 is before the start of the program",
          .warn "<stack>"] ∧
      (runFile strayFile "code.txt".toList { listing := true } {} 1).seen =
        (some 1, ["0: # no way back", "1: jmp -1"]) := by
  have concludes := run_file_concludes strayFile "code.txt".toList { listing := true } debugging 1
  have starts : Starts strayFile "code.txt".toList { listing := true } debugging Machine.stray := by
    refine ⟨Utf8.encode "# no way back\njmp -1".toList, rfl, ?_⟩
    have lines : Text.lines (Utf8.decode (Utf8.encode "# no way back\njmp -1".toList)) =
      Machine.strayLines := rfl
    rw [lines]
    exact Machine.build_stray
  obtain ⟨left, ran, logged⟩ : ∃ left, Machine.stray.run none 1 =
      .ended (.error (.program 1 (.negativeJump (-1))) left) ∧
      left.log.toList.map Event.message = [.warn "[Machine] 1: jmp -1"] :=
    ⟨_, rfl, by decide⟩
  have text : (Failure.program 1 (.negativeJump (-1))).message =
      "Line 1: Jump target -1 is before the start of the program" := by decide
  have fails := Fails.stopped starts ran
  rw [text] at fails
  have failed := concludes.failed.mpr ⟨_, _, fails⟩
  have messages := concludes.messages _ _ (.started starts) (.complains fails)
  have gone : leftBy (Machine.stray.run none 1) = left := by rw [ran]; rfl
  have listing : numbered 0 Machine.stray.program.lines =
      [.print "0: # no way back", .print "1: jmp -1"] := by decide
  have said : complaints debugging true
        "Line 1: Jump target -1 is before the start of the program" =
      [.warn "Error: Line 1: Jump target -1 is before the start of the program",
        .warn "<stack>"] := by decide
  rw [if_pos rfl, gone, logged, listing, said] at messages
  refine ⟨starts, fails, failed, messages, ?_⟩
  rw [concludes.switches {}, Report.seen, failed, messages]
  rfl

end Launch

end StackMachine
