import StackMachine.Proofs.Records

/-!
# Accounts of the stack

What an instruction does to the stack is settled before it is executed: so many pops and
pushes in a fixed order, or none at all where it stops at an address. Every push adds a cell
or reports an overflow, and every pop takes one or reports an underflow, so the depth can be
told from the instructions and the faults of a run alone. An instruction that pops two cells
before it pushes two never overflows a stack with room for two cells.
-/

namespace StackMachine

set_option autoImplicit false

def Event.fault? : Event → Option Fault
  | .fault cause => some cause
  | _ => none

def Fault.isOverflow : Fault → Bool
  | .overflow _ => true
  | .underflow => false

def Fault.isUnderflow : Fault → Bool
  | .overflow _ => false
  | .underflow => true

/-- A stack, and all the faults that have been reported of it. -/
structure Ledger where
  stack : Stack
  faults : List Fault

namespace Ledger

def push (ledger : Ledger) (c : Cell) : Ledger :=
  ⟨(ledger.stack.push c).2, ledger.faults ++ (ledger.stack.push c).1.toList⟩

def pop (ledger : Ledger) : Ledger :=
  ⟨ledger.stack.pop.2.2, ledger.faults ++ ledger.stack.pop.2.1.toList⟩

def overflows (ledger : Ledger) : Nat := ledger.faults.countP Fault.isOverflow

def underflows (ledger : Ledger) : Nat := ledger.faults.countP Fault.isUnderflow

/-- The depth if no push had been refused and every pop had taken a cell. -/
def nominal (ledger : Ledger) : Int :=
  ledger.stack.depth + ledger.overflows - ledger.underflows

variable {ledger : Ledger}

theorem push_full (full : ledger.stack.depth = ledger.stack.capacity) (c : Cell) :
    ledger.push c = ⟨ledger.stack, ledger.faults ++ [.overflow c]⟩ := by
  rw [push, Stack.push_full full]
  rfl

theorem push_partly (partly : ledger.stack.depth ≠ ledger.stack.capacity) (c : Cell) :
    ledger.push c =
      ⟨⟨ledger.stack.slots.setIfInBounds ledger.stack.depth c, ledger.stack.depth + 1⟩,
        ledger.faults⟩ := by
  rw [push, Stack.push, if_neg partly]
  exact congrArg (Ledger.mk _) (List.append_nil _)

theorem pop_empty (empty : ledger.stack.depth = 0) :
    ledger.pop = ⟨ledger.stack, ledger.faults ++ [.underflow]⟩ := by
  simp only [pop, Stack.pop, empty, Option.toList]

theorem pop_live {rest : Nat} (live : ledger.stack.depth = rest + 1) :
    ledger.pop = ⟨⟨ledger.stack.slots.setIfInBounds rest .zero, rest⟩, ledger.faults⟩ := by
  simp only [pop, Stack.pop, live, Option.toList, List.append_nil]

theorem nominal_push (ledger : Ledger) (c : Cell) :
    (ledger.push c).nominal = ledger.nominal + 1 := by
  by_cases full : ledger.stack.depth = ledger.stack.capacity
  · have refusals : (ledger.faults ++ [Fault.overflow c]).countP Fault.isOverflow = ledger.overflows + 1 :=
      List.countP_append
    have misses : (ledger.faults ++ [Fault.overflow c]).countP Fault.isUnderflow = ledger.underflows :=
      List.countP_append
    rw [push_full full]
    simp only [nominal, overflows, underflows] at refusals misses ⊢
    omega
  · rw [push_partly full]
    simp only [nominal, overflows, underflows]
    omega

theorem nominal_pop (ledger : Ledger) : ledger.pop.nominal = ledger.nominal - 1 := by
  cases depth : ledger.stack.depth with
  | zero =>
      have refusals : (ledger.faults ++ [Fault.underflow]).countP Fault.isOverflow = ledger.overflows :=
        List.countP_append
      have misses : (ledger.faults ++ [Fault.underflow]).countP Fault.isUnderflow =
          ledger.underflows + 1 := List.countP_append
      rw [pop_empty depth]
      simp only [nominal, overflows, underflows] at refusals misses ⊢
      omega
  | succ rest =>
      rw [pop_live depth]
      simp only [nominal, overflows, underflows, depth]
      omega

theorem overflows_pop (ledger : Ledger) : ledger.pop.overflows = ledger.overflows := by
  cases depth : ledger.stack.depth with
  | zero =>
      rw [pop_empty depth]
      exact List.countP_append
  | succ rest => rw [pop_live depth]; rfl

theorem depth_pop (ledger : Ledger) : ledger.pop.stack.depth = ledger.stack.depth - 1 := by
  cases depth : ledger.stack.depth with
  | zero => rw [pop_empty depth]; exact depth
  | succ rest => rw [pop_live depth]; rfl

end Ledger

/-- What goes over the top of a stack. -/
inductive Traffic where
  | push
  | pop
deriving DecidableEq

/-- How many more pushes than pops there are. -/
def Traffic.net : List Traffic → Int
  | [] => 0
  | .push :: rest => net rest + 1
  | .pop :: rest => net rest - 1

theorem Traffic.net_append (early late : List Traffic) :
    net (early ++ late) = net early + net late := by
  induction early with
  | nil => exact (Int.zero_add _).symm
  | cons traffic rest ih =>
      cases traffic <;> simp only [List.cons_append, net, ih] <;> omega

/-- Some traffic in its order, whatever the cells are that are pushed. -/
inductive Passes : List Traffic → Ledger → Ledger → Prop
  | still (ledger : Ledger) : Passes [] ledger ledger
  | push {rest : List Traffic} {ledger last : Ledger} (c : Cell)
      (onward : Passes rest (ledger.push c) last) : Passes (.push :: rest) ledger last
  | pop {rest : List Traffic} {ledger last : Ledger}
      (onward : Passes rest ledger.pop last) : Passes (.pop :: rest) ledger last

namespace Passes

variable {traffic early late : List Traffic} {ledger middle last : Ledger}

theorem trans (first : Passes early ledger middle) (second : Passes late middle last) :
    Passes (early ++ late) ledger last := by
  induction first with
  | still ledger => exact second
  | push c onward ih => exact .push c (ih second)
  | pop onward ih => exact .pop (ih second)

theorem nominal (passes : Passes traffic ledger last) :
    last.nominal = ledger.nominal + Traffic.net traffic := by
  induction passes with
  | still ledger => exact (Int.add_zero _).symm
  | push c onward ih =>
      rw [ih, Ledger.nominal_push, Traffic.net]
      omega
  | pop onward ih =>
      rw [ih, Ledger.nominal_pop, Traffic.net]
      omega

end Passes

/-- Whether pushes always find room, if there is room for some cells at first. On a stack for
two cells or more, a pop makes room for one cell more, but perhaps for no more than two. -/
def Traffic.fits : Nat → List Traffic → Bool
  | _, [] => true
  | 0, .push :: _ => false
  | room + 1, .push :: rest => fits room rest
  | room, .pop :: rest => fits (min 2 (room + 1)) rest

theorem Passes.overflows {traffic : List Traffic} {ledger last : Ledger}
    (passes : Passes traffic ledger last) {room : Nat} (fits : Traffic.fits room traffic = true)
    (spare : ledger.stack.depth + room ≤ ledger.stack.capacity)
    (wide : 2 ≤ ledger.stack.capacity) : last.overflows = ledger.overflows := by
  induction passes generalizing room with
  | still ledger => rfl
  | @push rest ledger last c onward ih =>
      cases room with
      | zero => cases fits
      | succ room =>
          have partly : ledger.stack.depth ≠ ledger.stack.capacity := by omega
          have capacity : (ledger.push c).stack.capacity = ledger.stack.capacity :=
            Stack.capacity_push ledger.stack c
          have depth : (ledger.push c).stack.depth = ledger.stack.depth + 1 := by
            rw [Ledger.push_partly partly]
          have same : (ledger.push c).overflows = ledger.overflows := by
            rw [Ledger.push_partly partly]
            rfl
          rw [ih fits (by omega) (by omega), same]
  | @pop rest ledger last onward ih =>
      have capacity : ledger.pop.stack.capacity = ledger.stack.capacity :=
        Stack.capacity_pop ledger.stack
      have depth := ledger.depth_pop
      have fits_after : Traffic.fits (min 2 (room + 1)) rest = true := by
        rw [← fits]
        cases room <;> rfl
      rw [ih fits_after (by omega) (by omega), ledger.overflows_pop]

def State.ledger (s : State) : Ledger := ⟨s.stack, s.log.toList.filterMap Event.fault?⟩

def Source.traffic : Source → List Traffic
  | .popped => [.pop]
  | .combined _ left right => left.traffic ++ right.traffic
  | _ => []

def Effect.traffic : Effect → List Traffic
  | .store _ source => source.traffic
  | .push source => source.traffic ++ [.push]
  | .discard => [.pop]
  | _ => []

def Opcode.traffic (opcode : Opcode) : List Traffic := opcode.row.flatMap Effect.traffic

/-- What an action does to the stack and reports of it, wherever it succeeds. -/
def Carries {α : Type} (traffic : List Traffic) (action : Action α) : Prop :=
  ∀ s a done, action s = .ok a done → Passes traffic s.ledger done.ledger

namespace Carries

variable {α β : Type}

theorem idle {action : Action α}
    (same : ∀ s a done, action s = .ok a done → done.ledger = s.ledger) : Carries [] action := by
  intro s a done acted
  rw [same s a done acted]
  exact .still _

theorem pure (a : α) : Carries [] (Pure.pure a) := by
  apply idle
  intro s b done acted
  cases acted
  rfl

theorem bind {first second : List Traffic} {action : Action α} {next : α → Action β}
    (early : Carries first action) (late : ∀ a, Carries second (next a)) :
    Carries (first ++ second) (action >>= next) := by
  intro s b done acted
  obtain ⟨a, middle, result, onward⟩ := Action.done_of_bind acted
  exact (early s a middle result).trans (late a middle b done onward)

theorem read (r : Register) : Carries [] (Action.read r) := by
  apply idle
  intro s c done acted
  cases acted
  rfl

theorem write (r : Register) (c : Cell) : Carries [] (Action.write r c) := by
  apply idle
  intro s a done acted
  cases acted
  rfl

theorem bottom : Carries [] Action.bottom := by
  apply idle
  intro s c done acted
  cases acted
  rfl

theorem target (r : Register) : Carries [] (Action.target r) := by
  apply idle
  intro s found done acted
  rw [Action.target_run] at acted
  split at acted <;> cases acted
  rfl

theorem ledger_report (s : State) (stack : Stack) (cause : Option Fault) :
    State.ledger { s with stack, log := s.log ++ (cause.map Event.fault).toArray } =
      ⟨stack, s.ledger.faults ++ cause.toList⟩ := by
  rw [State.ledger, Array.toList_append, List.filterMap_append]
  cases cause <;> rfl

theorem push (c : Cell) : Carries [.push] (Action.push c) := by
  intro s accepted done acted
  rw [Action.push_run] at acted
  cases acted
  rw [ledger_report]
  exact .push c (.still _)

theorem pop : Carries [.pop] Action.pop := by
  intro s c done acted
  rw [Action.pop_run] at acted
  cases acted
  rw [ledger_report]
  exact .pop (.still _)

theorem print_each (lines : List String) (s : State) :
    State.ledger { s with log := s.log ++ (lines.map Event.printed).toArray } = s.ledger := by
  have silent : (lines.map Event.printed).filterMap Event.fault? = [] := by
    induction lines with
    | nil => rfl
    | cons line rest ih => exact ih
  rw [State.ledger, Array.toList_append, List.filterMap_append, silent, List.append_nil]
  rfl

theorem fetch (source : Source) : Carries source.traffic source.fetch := by
  induction source with
  | register r => exact read r
  | addressed r =>
      apply bind (target r)
      intro found
      exact read found
  | bottom => exact bottom
  | popped => exact pop
  | combined f left right left_carries right_carries =>
      apply bind left_carries
      intro first
      rw [← List.append_nil right.traffic]
      apply bind right_carries
      intro second
      exact pure _

theorem put (place : Place) (c : Cell) : Carries [] (place.put c) := by
  cases place with
  | register r => exact write r c
  | addressed r =>
      apply bind (target r)
      intro found
      exact write found c

theorem effect (effect : Effect) : Carries effect.traffic effect.act := by
  cases effect with
  | store place source =>
      rw [Effect.traffic, ← List.append_nil source.traffic]
      apply bind (fetch source)
      intro c
      exact put place c
  | push source =>
      apply bind (fetch source)
      intro c
      apply bind (push c)
      intro _
      exact pure ()
  | discard =>
      apply bind pop
      intro _
      exact pure ()
  | jumpIf test =>
      apply idle
      intro s a done acted
      rw [Effect.act_jump] at acted
      cases acted
      split <;> rfl
  | print =>
      apply idle
      intro s a done acted
      cases acted
      exact print_each [s.stack.bottom.text] s
  | dump =>
      apply idle
      intro s a done acted
      rw [Effect.act_dump] at acted
      cases acted
      exact print_each _ s

theorem execute (opcode : Opcode) : Carries opcode.traffic opcode.execute := by
  rw [Opcode.execute_eq_row, Opcode.traffic]
  induction opcode.row with
  | nil => exact pure ()
  | cons first rest ih =>
      apply bind (effect first)
      intro _
      exact ih

end Carries

/-- An operation that stops at an address leaves no more behind than the cell it has loaded. -/
theorem Opcode.left_of_error {opcode : Opcode} {s stopped : State} {address : Address}
    (failed : opcode.execute s = .error address stopped) :
    stopped = s.loaded opcode.scratch := by
  rw [execute_eq_row] at failed
  cases shape opcode with
  | single effect narrow row =>
      have contained := Effect.act_narrow narrow (s.loaded opcode.scratch)
      rw [row, State.act_all_load, Effect.act_all_single] at failed
      rw [failed] at contained
      exact contained
  | plain scratch plain =>
      obtain ⟨done, finished, -⟩ := Effect.act_all_plain plain s
      rw [finished] at failed
      cases failed

namespace Opcode

/-- The operations that put a cell on the stack and take none off. -/
def deposits : List Opcode := [.push, .registerToStack]

def withdrawals : List Opcode := [.pop]

/-- The operations that put one cell on the stack for two that they take off. -/
def folds : List Opcode := [.add, .sub, .mul]

theorem net_traffic (opcode : Opcode) :
    Traffic.net opcode.traffic =
      ((if opcode ∈ deposits then 1 else 0 : Nat) : Int) -
        (if opcode ∈ withdrawals then 1 else 0 : Nat) -
        (if opcode ∈ folds then 1 else 0 : Nat) := by
  cases opcode <;> rfl

theorem fits_traffic {opcode : Opcode} (apart : opcode ∉ deposits) :
    Traffic.fits 0 opcode.traffic = true := by
  revert apart
  cases opcode <;> decide

end Opcode

namespace Machine

variable {m next : Machine} {fuel : Nat} {deeds : List Deed} {r : Record}

def Moment.traffic (moment : Moment) : List Traffic :=
  moment.performed.toList.flatMap fun instruction => instruction.opcode.traffic

/-- To reach a line and to stage its operands is no business of the stack. -/
theorem ledger_staged (m : Machine) (fetched : Fetched) (instruction : Instruction) :
    ((m.reached fetched).staged instruction).ledger = m.ledger := by
  have staged : ((m.reached fetched).staged instruction).ledger = (m.reached fetched).ledger := rfl
  rw [staged, reached_eq]
  by_cases traced : m.trace = true
  · simp only [State.ledger, if_pos traced, Array.toList_push, List.filterMap_append]
    exact congrArg (Ledger.mk _) (List.append_nil _)
  · simp only [State.ledger, if_neg traced]

/-- A step does with the stack what its instruction says, unless it stops at an address. -/
theorem passes_step (m : Machine) : Passes m.moment.traffic m.ledger (after m.step).ledger := by
  rw [moment]
  have taken := taken_step m
  generalize m.step = outcome at taken
  cases taken with
  | finished nothing =>
      rw [nothing]
      exact .still _
  | undecoded found wrong =>
      rw [Moment.traffic, Moment.performed_eq rfl, Moment.attempted, found, Option.bind_some, wrong]
      exact .still _
  | @strayed fetched instruction address state found right executed =>
      have same : state.ledger = m.ledger := by
        rw [Opcode.left_of_error executed, ← ledger_staged m fetched instruction, State.ledger,
          State.stack_loaded, State.log_loaded]
        rfl
      change Passes [] m.ledger state.ledger
      rw [same]
      exact .still _
  | @followed fetched instruction done found right executed =>
      have settled := settled_follow (m.carried fetched done) fetched.line
      have passes := Carries.execute instruction.opcode _ _ done executed
      rw [ledger_staged] at passes
      have left : (after ((m.carried fetched done).follow fetched.line)).ledger = done.ledger := by
        rw [State.ledger, settled.stack, settled.log]
        rfl
      rw [left, Moment.traffic, Moment.performed_eq (settled.straight _ _), Moment.attempted, found,
        Option.bind_some, right]
      change Passes (instruction.opcode.traffic ++ []) m.ledger done.ledger
      rw [List.append_nil]
      exact passes

theorem links_traffic : Links fun m moments next =>
    Passes (moments.flatMap Moment.traffic) m.ledger next.ledger where
  refl := fun m => .still m.ledger
  trans := by
    intro first second third early late before behind
    rw [List.flatMap_append]
    exact before.trans behind
  step := by
    intro m
    rw [List.flatMap_singleton]
    exact passes_step m

theorem passes_of_record (calls : ∀ deed ∈ deeds, deed.Calls)
    (recorded : m.record fuel deeds = some r) :
    Passes (r.moments.flatMap Moment.traffic) m.ledger r.left.ledger :=
  links_traffic.record (fun deed member apart => (apart (calls deed member)).elim) recorded

/-- How many of the instructions that have been executed are among some operations. -/
def times (opcodes : List Opcode) (moments : List Moment) : Nat :=
  (moments.filterMap Moment.performed).countP fun instruction => instruction.opcode ∈ opcodes

theorem times_idle {moment : Moment} (idle : moment.performed = none) (opcodes : List Opcode)
    (rest : List Moment) : times opcodes (moment :: rest) = times opcodes rest := by
  simp only [times, List.filterMap_cons, idle]

theorem times_performed {moment : Moment} {instruction : Instruction}
    (performed : moment.performed = some instruction) (opcodes : List Opcode)
    (rest : List Moment) :
    times opcodes (moment :: rest) =
      times opcodes rest + if instruction.opcode ∈ opcodes then 1 else 0 := by
  simp only [times, List.filterMap_cons, performed, List.countP_cons, decide_eq_true_eq]

/-- By induction on the moments, of which each has performed one instruction or none. -/
theorem net_moments (moments : List Moment) :
    Traffic.net (moments.flatMap Moment.traffic) =
      (times Opcode.deposits moments : Int) - times Opcode.withdrawals moments -
        times Opcode.folds moments := by
  induction moments with
  | nil => rfl
  | cons moment rest ih =>
      rw [List.flatMap_cons, Traffic.net_append, ih, Moment.traffic]
      cases performed : moment.performed with
      | none =>
          rw [times_idle performed, times_idle performed, times_idle performed]
          exact Int.zero_add _
      | some instruction =>
          rw [times_performed performed, times_performed performed, times_performed performed,
            Option.toList, List.flatMap_singleton, Opcode.net_traffic]
          omega

theorem faults_of_grows (grows : Grows m next) :
    next.ledger.faults = m.ledger.faults ++ (m.added next).filterMap Event.fault? := by
  rw [State.ledger, State.ledger, log_of_grows grows, List.filterMap_append]

/-- Overflows come from the operations that only push. -/
def Moment.Blames (moment : Moment) : Prop :=
  ∀ c, Event.fault (.overflow c) ∈ moment.shown →
    ∃ instruction, moment.performed = some instruction ∧ instruction.opcode ∈ Opcode.deposits

theorem blames_step {capacity : Nat} (reached : Stack.Reached capacity m.stack)
    (wide : 2 ≤ capacity) : m.moment.Blames := by
  intro c shown
  by_contra otherwise
  have fits : Traffic.fits 0 m.moment.traffic = true := by
    rw [Moment.traffic]
    cases performed : m.moment.performed with
    | none => rfl
    | some instruction =>
        have apart : instruction.opcode ∉ Opcode.deposits :=
          fun member => otherwise ⟨instruction, performed, member⟩
        rw [Option.toList, List.flatMap_singleton]
        exact Opcode.fits_traffic apart
  have room : m.ledger.stack.depth + 0 ≤ m.ledger.stack.capacity := reached.well_formed.fits
  have same := (passes_step m).overflows fits room (reached.capacity_eq.symm ▸ wide)
  have fault : Fault.overflow c ∈ m.moment.shown.filterMap Event.fault? :=
    List.mem_filterMap.mpr ⟨_, shown, rfl⟩
  have counted : 0 < (m.moment.shown.filterMap Event.fault?).countP Fault.isOverflow :=
    List.countP_pos_iff.mpr ⟨_, fault, rfl⟩
  rw [Ledger.overflows, Ledger.overflows, faults_of_grows (grows_step m), List.countP_append] at same
  have shown_eq : m.moment.shown = m.added (after m.step) := rfl
  rw [shown_eq] at counted
  omega

/-- What the instructions and the faults of a record tell of its stack. -/
structure Accounted (start : Machine) (r : Record) : Prop where
  executed : r.left.executed = (r.moments.filterMap Moment.performed).length
  shown : r.left.log.toList = r.moments.flatMap Moment.shown
  depth : (r.left.stack.depth : Int) =
    times Opcode.deposits r.moments - times Opcode.withdrawals r.moments -
      times Opcode.folds r.moments - r.left.ledger.overflows + r.left.ledger.underflows
  overflow : 2 ≤ start.stack.capacity → ∀ moment ∈ r.moments, moment.Blames

/-- However a new machine has been called, its stack is as deep as the instructions and the
faults up to then say; and where there is room for two cells, nothing overflows but what
only pushes. -/
theorem accounted_of_calls {source : List Text} {setup : Setup}
    (made : build source setup = .ok m) {calls : List Call}
    (recorded : m.record fuel (calls.map .call) = some r) : Accounted m r := by
  have called : ∀ deed ∈ calls.map Deed.call, deed.Calls := by
    intro deed member
    obtain ⟨call, -, same⟩ := List.mem_map.mp member
    exact ⟨call, same.symm⟩
  have fresh := fresh_of_build made
  have executed := executed_of_record recorded
  have shown := log_of_record recorded
  have nominal := (passes_of_record called recorded).nominal
  have start : m.ledger.nominal = 0 := by
    rw [State.ledger, fresh.stack, fresh.log]
    rfl
  have depth : r.left.ledger.stack = r.left.stack := rfl
  rw [fresh.executed, Nat.zero_add] at executed
  rw [fresh.log, List.nil_append] at shown
  rw [start, net_moments, Ledger.nominal, depth] at nominal
  refine ⟨executed, shown, by omega, ?_⟩
  intro wide
  have blamed := moments_of_record (P := fun n => Stack.Reached m.stack.capacity n.stack)
    (Q := Moment.Blames)
    (fun n reached => ⟨(remains_step n).stack reached, blames_step reached wide⟩)
    (fun deed member apart => (apart (called deed member)).elim) recorded (build_reached made)
  exact blamed.2

/-- On a stack for two cells: two pushes and one too many, an exchange, a sum, two pops of
which the second finds nothing, and a register that does not exist. -/
def ledgerLines : List Text :=
  ["push 1", "push 2", "push 3", "swp", "add", "pop", "pop", "mov_r2s 99"].map String.toList

def unposted : Machine where
  registers := .zero
  stack := .empty 2
  log := #[]
  program := ⟨ledgerLines, []⟩
  trace := true
  pointer := 0
  executed := 0

def posting : List Call := [.step, .run (some (Double.ofInt 3)), .run none, .step]

theorem accounted_of_calls_posted :
    build ledgerLines ⟨true, Double.ofInt 2⟩ = .ok unposted ∧
      ∃ r, unposted.record 9 (posting.map .call) = some r ∧ Accounted unposted r ∧
        r.left.executed = 7 ∧ r.left.ledger.faults = [.overflow ⟨3⟩, .underflow] ∧
        r.left.stack.depth = 0 := by
  have prepared : Program.prepare ledgerLines = .ok ⟨ledgerLines, []⟩ :=
    Program.prepare_undeclared (by decide) rfl
  have made : build ledgerLines ⟨true, Double.ofInt 2⟩ = .ok unposted := by
    simp only [build, prepared]
    rfl
  obtain ⟨r, recorded⟩ : ∃ r, unposted.record 9 (posting.map .call) = some r := ⟨_, rfl⟩
  refine ⟨made, r, recorded, accounted_of_calls made recorded, ?_, ?_, ?_⟩
  · cases recorded
    rfl
  · cases recorded
    rfl
  · cases recorded
    rfl

end Machine

end StackMachine
