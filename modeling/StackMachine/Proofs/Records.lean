import StackMachine.Proofs.Handling

/-!
# Records

A record of what a host does with a machine holds what it is given for each deed, and the
moments in between: every single step, also those that runs are made of, with the line it
fetched, its failure if it had one, and what it showed. What holds of every step and goes on
holding from one to the next holds of the whole record.
-/

namespace StackMachine

set_option autoImplicit false

namespace Machine

inductive Response where
  | replied (reply : Reply)
  | done
  | accepted (whether : Bool)
  | popped (c : Cell)

def settle {α : Type} (returned : α → Response) :
    Outcome α → Except Failure Response × Machine
  | .ok a next => (.ok (returned a), next)
  | .error failure stopped => (.error failure, stopped)

/-- What a deed returns or throws, and the machine that is left. -/
def respond (fuel : Nat) (m : Machine) : Deed → Option (Except Failure Response × Machine)
  | .call call => (m.answer fuel call).map fun answered => (answered.1.map .replied, answered.2)
  | .set address c => some (settle (fun _ => .done) (m.act none (Action.writeAt address c)))
  | .push c => some (settle .accepted (m.act none (Action.push c)))
  | .pop => some (settle .popped (m.act none Action.pop))

structure Moment where
  fetched : Option Fetched
  failure : Option Failure
  shown : List Event

namespace Moment

/-- The instruction that the fetched line has decoded to. -/
def attempted (moment : Moment) : Option Instruction :=
  moment.fetched.bind fun fetched => fetched.decoded.toOption

def strays (moment : Moment) : Bool :=
  match moment.failure with
  | some (.address _ _) => true
  | _ => false

/-- The instruction that has been executed. One that stops at an address has not. -/
def performed (moment : Moment) : Option Instruction :=
  if moment.strays then none else moment.attempted

theorem performed_eq {moment : Moment} (straight : moment.strays = false) :
    moment.performed = moment.attempted := by
  rw [performed, straight]
  rfl

end Moment

def thrown {α : Type} : Outcome α → Option Failure
  | .ok _ _ => none
  | .error failure _ => some failure

/-- The events that the log of a later machine has behind those of an earlier one. -/
def added (m next : Machine) : List Event := next.log.toList.drop m.log.size

def moment (m : Machine) : Moment := ⟨m.fetch, thrown m.step, m.added (after m.step)⟩

/-- What the host does itself fetches nothing, and is no failure of a step. -/
def aside (m next : Machine) : Moment := ⟨none, none, m.added next⟩

/-- The machines that the steps of a count are made on. -/
def stations : Nat → Machine → List Machine
  | 0, _ => []
  | count + 1, m =>
      if m.halted then []
      else
        m :: match m.step with
          | .ok _ next => stations count next
          | .error _ _ => []

def Call.stations (fuel : Nat) (m : Machine) : Call → List Machine
  | .step => [m]
  | .run limit => Machine.stations ((budget? limit).getD fuel) m

def moments (fuel : Nat) (m : Machine) : Deed → List Moment
  | .call call => (call.stations fuel m).map moment
  | deed => (m.handle fuel deed).toList.map m.aside

structure Record where
  given : List (Except Failure Response)
  moments : List Moment
  left : Machine

/-- Deeds in a row, as long as each of them is over before the fuel is spent. -/
def record (fuel : Nat) : Machine → List Deed → Option Record
  | m, [] => some ⟨[], [], m⟩
  | m, deed :: rest => do
      let (given, next) ← m.respond fuel deed
      let later ← record fuel next rest
      return ⟨given :: later.given, m.moments fuel deed ++ later.moments, later.left⟩

variable {m next : Machine} {fuel : Nat} {deeds : List Deed} {r : Record}

theorem settle_after {α : Type} (returned : α → Response) (outcome : Outcome α) :
    (settle returned outcome).2 = after outcome := by
  cases outcome <;> rfl

theorem handle_of_respond {deed : Deed} {given : Except Failure Response}
    (responded : m.respond fuel deed = some (given, next)) : m.handle fuel deed = some next := by
  cases deed with
  | call call =>
      obtain ⟨answered, answers, same⟩ := Option.map_eq_some_iff.mp responded
      rw [handle, answers, Option.map_some]
      exact congrArg some (congrArg Prod.snd same)
  | set address c =>
      rw [handle, ← settle_after fun _ => .done]
      exact congrArg some (congrArg Prod.snd (Option.some.inj responded))
  | push c =>
      rw [handle, ← settle_after .accepted]
      exact congrArg some (congrArg Prod.snd (Option.some.inj responded))
  | pop =>
      rw [handle, ← settle_after .popped]
      exact congrArg some (congrArg Prod.snd (Option.some.inj responded))

def Deed.Calls (deed : Deed) : Prop := ∃ call, deed = .call call

theorem moments_aside {deed : Deed} (apart : ¬deed.Calls)
    (handled : m.handle fuel deed = some next) : m.moments fuel deed = [m.aside next] := by
  have alone : (m.handle fuel deed).toList.map m.aside = [m.aside next] := by
    rw [handled]
    rfl
  cases deed with
  | call call => exact (apart ⟨call, rfl⟩).elim
  | set address c => exact alone
  | push c => exact alone
  | pop => exact alone

/-- What the host does itself works on the state alone, and keeps what every action keeps. -/
theorem aside_keeps {R : State → State → Prop} (lasting : Lasting R) {deed : Deed}
    (apart : ¬deed.Calls) (handled : m.handle fuel deed = some next) :
    R m.toState next.toState ∧ next = { m with toState := next.toState } := by
  cases deed with
  | call call => exact (apart ⟨call, rfl⟩).elim
  | set address c =>
      cases handled
      rw [after_act]
      exact ⟨lasting.write_at address c m.toState, rfl⟩
  | push c =>
      cases handled
      rw [after_act]
      exact ⟨lasting.push m.toState c, rfl⟩
  | pop =>
      cases handled
      rw [after_act]
      exact ⟨lasting.pop m.toState, rfl⟩

/-- All that a step can do. -/
inductive Taken (m : Machine) : Outcome Bool → Prop
  | finished (nothing : m.fetch = none) : Taken m (.ok false m.finish)
  | undecoded {fetched : Fetched} {defect : Defect} (found : m.fetch = some fetched)
      (wrong : fetched.decoded = .error defect) :
      Taken m (.error (.program fetched.line defect) { m with pointer := fetched.line })
  | strayed {fetched : Fetched} {instruction : Instruction} {address : Address} {state : State}
      (found : m.fetch = some fetched) (right : fetched.decoded = .ok instruction)
      (executed : instruction.opcode.execute ((m.reached fetched).staged instruction) =
        .error address state) :
      Taken m (.error (.address (some (fetched.line : Int)) address)
        { m.reached fetched with toState := state })
  | followed {fetched : Fetched} {instruction : Instruction} {done : State}
      (found : m.fetch = some fetched) (right : fetched.decoded = .ok instruction)
      (executed : instruction.opcode.execute ((m.reached fetched).staged instruction) =
        .ok () done) :
      Taken m ((m.carried fetched done).follow fetched.line)

theorem taken_step (m : Machine) : Taken m m.step := by
  cases found : m.fetch with
  | none =>
      have ended : m.step = .ok false m.finish := by simp only [step, found]
      rw [ended]
      exact .finished found
  | some fetched =>
      cases right : fetched.decoded with
      | error defect =>
          have stops : m.step =
              .error (.program fetched.line defect) { m with pointer := fetched.line } := by
            simp only [step, found, right]
          rw [stops]
          exact .undecoded found right
      | ok instruction =>
          rw [step_fetched found right]
          cases executed :
              instruction.opcode.execute ((m.reached fetched).staged instruction) with
          | error address state => exact .strayed found right executed
          | ok value done => exact .followed found right executed

/-- Once an instruction is done, only the jump register and the pointer are still at stake;
and it may turn out that the program cannot go on. -/
structure Settled (m : Machine) (outcome : Outcome Bool) : Prop where
  program : (after outcome).program = m.program
  trace : (after outcome).trace = m.trace
  stack : (after outcome).stack = m.stack
  log : (after outcome).log = m.log
  executed : (after outcome).executed = m.executed
  straight : ∀ fetched shown, Moment.strays ⟨fetched, thrown outcome, shown⟩ = false

theorem settled_follow (m : Machine) (line : Nat) : Settled m (m.follow line) := by
  rw [follow]
  by_cases stays : (m.registers.get .jump).int = 0
  · rw [if_pos stays]
    exact ⟨rfl, rfl, rfl, rfl, rfl, fun _ _ => rfl⟩
  · rw [if_neg stays]
    by_cases before : (m.registers.get .jump).int < 0
    · rw [if_pos before]
      exact ⟨rfl, rfl, rfl, rfl, rfl, fun _ _ => rfl⟩
    · rw [if_neg before]
      exact ⟨rfl, rfl, rfl, rfl, rfl, fun _ _ => rfl⟩

/-- Holds from the machine before some moments to the machine after them. -/
structure Links (T : Machine → List Moment → Machine → Prop) : Prop where
  refl : ∀ m, T m [] m
  trans : ∀ {first second third : Machine} {early late : List Moment},
    T first early second → T second late third → T first (early ++ late) third
  step : ∀ m, T m [m.moment] (after m.step)

namespace Links

variable {T : Machine → List Moment → Machine → Prop}

theorem advance (links : Links T) (count : Nat) (m : Machine) :
    T m ((stations count m).map moment) (after (m.advance count)) := by
  induction count generalizing m with
  | zero => exact links.refl m
  | succ count ih =>
      rw [stations, Machine.advance]
      by_cases halts : m.halted = true
      · rw [if_pos halts, if_pos halts]
        exact links.refl m
      · rw [if_neg halts, if_neg halts]
        have first := links.step m
        cases taken : m.step with
        | ok continues next =>
            rw [taken] at first
            exact links.trans first (ih next)
        | error failure stopped =>
            rw [taken] at first
            exact first

theorem call (links : Links T) {call : Call} {given : Except Failure Response}
    (responded : m.respond fuel (.call call) = some (given, next)) :
    T m (m.moments fuel (.call call)) next := by
  obtain ⟨answered, answers, same⟩ := Option.map_eq_some_iff.mp responded
  have left : answered.2 = next := congrArg Prod.snd same
  rw [← left]
  cases call with
  | step =>
      have stepped : (reply .stepped m.step).2 = answered.2 :=
        congrArg Prod.snd (Option.some.inj answers)
      rw [← stepped, reply_after]
      exact links.step m
  | run limit =>
      rw [answer] at answers
      cases progress : m.run limit fuel with
      | running machine =>
          rw [progress] at answers
          cases answers
      | ended outcome =>
          simp only [progress, Option.some.injEq] at answers
          have ran := outcome_of_run progress
          rw [← answers, reply_after, ran, run_for_after]
          exact links.advance _ m

/-- What holds of steps, and of what the host does in between, holds of a whole record. -/
theorem record (links : Links T)
    (acts : ∀ deed ∈ deeds, ¬deed.Calls → ∀ m next, m.handle fuel deed = some next →
      T m [m.aside next] next)
    (recorded : m.record fuel deeds = some r) : T m r.moments r.left := by
  induction deeds generalizing m r with
  | nil =>
      cases recorded
      exact links.refl m
  | cons deed rest ih =>
      obtain ⟨⟨given, next⟩, responded, onward⟩ := Option.bind_eq_some_iff.mp recorded
      obtain ⟨later, others, same⟩ := Option.bind_eq_some_iff.mp onward
      cases same
      have last := ih (fun other member => acts other (List.mem_cons_of_mem deed member)) others
      have first : T m (m.moments fuel deed) next := by
        by_cases calls : deed.Calls
        · obtain ⟨call, same⟩ := calls
          rw [same] at responded ⊢
          exact links.call responded
        · have handled := handle_of_respond responded
          rw [moments_aside calls handled]
          exact acts deed List.mem_cons_self calls m next handled
      exact links.trans first last

end Links

/-- Adds events behind those that are there already. -/
def Grows (m next : Machine) : Prop := ∃ more, next.log.toList = m.log.toList ++ more

theorem added_eq {more : List Event} (longer : next.log.toList = m.log.toList ++ more) :
    m.added next = more := by
  have size : m.log.size = m.log.toList.length := rfl
  rw [added, longer, size, List.drop_left]

theorem log_of_grows (grows : Grows m next) :
    next.log.toList = m.log.toList ++ m.added next := by
  obtain ⟨more, longer⟩ := grows
  rw [added_eq longer, longer]

theorem lasting_log :
    Lasting fun s t : State => ∃ more, t.log.toList = s.log.toList ++ more where
  refl := fun s => ⟨[], (List.append_nil _).symm⟩
  trans := by
    rintro first second third ⟨early, longer⟩ ⟨late, longest⟩
    refine ⟨early ++ late, ?_⟩
    rw [longest, longer, List.append_assoc]
  write := fun s _ _ => ⟨[], (List.append_nil _).symm⟩
  print := fun s text => ⟨[.printed text], Array.toList_push⟩
  push := by
    intro s c
    rw [Action.push_run]
    exact ⟨_, Array.toList_append⟩
  pop := by
    intro s
    rw [Action.pop_run]
    exact ⟨_, Array.toList_append⟩

theorem grows_executed {fetched : Fetched} {instruction : Instruction} :
    ∃ more, (Action.left (instruction.opcode.execute
      ((m.reached fetched).staged instruction))).log.toList = m.log.toList ++ more := by
  obtain ⟨more, longer⟩ :=
    lasting_log.execute instruction.opcode ((m.reached fetched).staged instruction)
  have start : ((m.reached fetched).staged instruction).log = (m.reached fetched).log := rfl
  rcases log_reached m fetched with same | ⟨-, text, pushed⟩
  · exact ⟨more, by rw [longer, start, same]⟩
  · exact ⟨[.traced fetched.line text] ++ more, by
      rw [longer, start, pushed, Array.toList_push, List.append_assoc]⟩

theorem grows_step (m : Machine) : Grows m (after m.step) := by
  have taken := taken_step m
  generalize m.step = outcome at taken
  cases taken with
  | finished nothing => exact ⟨[], (List.append_nil _).symm⟩
  | undecoded found wrong => exact ⟨[], (List.append_nil _).symm⟩
  | strayed found right executed =>
      obtain ⟨more, longer⟩ := grows_executed
      rw [executed] at longer
      exact ⟨more, longer⟩
  | followed found right executed =>
      obtain ⟨more, longer⟩ := grows_executed
      rw [executed] at longer
      refine ⟨more, ?_⟩
      rw [(settled_follow _ _).log]
      exact longer

theorem links_log : Links fun m moments next =>
    next.log.toList = m.log.toList ++ moments.flatMap Moment.shown where
  refl := fun m => (List.append_nil m.log.toList).symm
  trans := by
    intro first second third early late longer longest
    rw [longest, longer, List.flatMap_append, List.append_assoc]
  step := by
    intro m
    rw [List.flatMap_singleton]
    exact log_of_grows (grows_step m)

/-- The log of a machine holds what the moments have shown, in their order. -/
theorem log_of_record (recorded : m.record fuel deeds = some r) :
    r.left.log.toList = m.log.toList ++ r.moments.flatMap Moment.shown := by
  refine links_log.record ?_ recorded
  intro deed _ apart m next handled
  rw [List.flatMap_singleton]
  exact log_of_grows (aside_keeps lasting_log apart handled).1

theorem executed_step (m : Machine) :
    (after m.step).executed = m.executed + m.moment.performed.toList.length := by
  rw [moment]
  have taken := taken_step m
  generalize m.step = outcome at taken
  cases taken with
  | finished nothing =>
      rw [nothing]
      rfl
  | undecoded found wrong =>
      rw [Moment.performed_eq rfl, Moment.attempted, found, Option.bind_some, wrong]
      rfl
  | strayed found right executed =>
      rw [reached_eq]
      rfl
  | @followed fetched instruction done found right executed =>
      have settled := settled_follow (m.carried fetched done) fetched.line
      have counted : (m.carried fetched done).executed = m.executed + 1 := by
        rw [carried, reached_eq]
      rw [settled.executed, counted, Moment.performed_eq (settled.straight _ _), Moment.attempted,
        found, Option.bind_some, right]
      rfl

theorem executed_of_record (recorded : m.record fuel deeds = some r) :
    r.left.executed = m.executed + (r.moments.filterMap Moment.performed).length := by
  have links : Links fun m moments next =>
      next.executed = m.executed + (moments.filterMap Moment.performed).length := by
    constructor
    · intro m
      rfl
    · intro first second third early late counted last
      rw [last, counted, List.filterMap_append, List.length_append, Nat.add_assoc]
    · intro m
      rw [executed_step]
      cases performed : m.moment.performed with
      | none => simp [performed]
      | some instruction => simp [performed]
  refine links.record ?_ recorded
  intro deed _ apart m next handled
  rw [(aside_keeps lasting_log apart handled).2]
  rfl

/-- What is true of the moments of machines of one kind is true of all moments of a record, as
long as steps and deeds lead to machines of that kind only. -/
theorem moments_of_record {P : Machine → Prop} {Q : Moment → Prop}
    (steps : ∀ m, P m → P (after m.step) ∧ Q m.moment)
    (acts : ∀ deed ∈ deeds, ¬deed.Calls → ∀ m next, m.handle fuel deed = some next →
      P m → P next ∧ Q (m.aside next))
    (recorded : m.record fuel deeds = some r) (start : P m) :
    P r.left ∧ ∀ moment ∈ r.moments, Q moment := by
  have links : Links fun m moments next => P m → P next ∧ ∀ moment ∈ moments, Q moment := by
    constructor
    · intro m kind
      exact ⟨kind, fun moment member => (List.not_mem_nil member).elim⟩
    · intro first second third early late before behind kind
      obtain ⟨middle, known⟩ := before kind
      obtain ⟨last, others⟩ := behind middle
      refine ⟨last, fun moment member => ?_⟩
      rcases List.mem_append.mp member with earlier | later
      · exact known moment earlier
      · exact others moment later
    · intro m kind
      obtain ⟨next, known⟩ := steps m kind
      exact ⟨next, fun moment member => List.mem_singleton.mp member ▸ known⟩
  refine links.record ?_ recorded start
  intro deed member apart m next handled kind
  obtain ⟨last, known⟩ := acts deed member apart m next handled kind
  exact ⟨last, fun moment alone => List.mem_singleton.mp alone ▸ known⟩

/-- Only an instruction that has been decoded can stop at an address. -/
theorem attempted_of_strays (strays : m.moment.strays = true) :
    m.moment.attempted.isSome = true := by
  rw [moment] at strays ⊢
  have taken := taken_step m
  generalize m.step = outcome at taken strays
  cases taken with
  | finished nothing => cases strays
  | undecoded found wrong => cases strays
  | strayed found right executed =>
      rw [Moment.attempted, found, Option.bind_some, right]
      rfl
  | followed found right executed =>
      rw [(settled_follow _ _).straight] at strays
      cases strays

end Machine

end StackMachine
