import StackMachine.Proofs.Accounts
import StackMachine.Proofs.Tracing

/-!
# What an instruction leaves alone

An instruction writes the argument registers that it is given operands for, those that its
operation writes by name, and the one register it may be given the address of. Everything else
of the machine is as it was, but for the stack under the operations that push and pop, and the
pointer goes on to the next line unless something was written to the jump register.
-/

namespace StackMachine

set_option autoImplicit false

namespace Opcode

/-- The registers that an operation writes by name, besides the jump register. -/
def fixed : Opcode → List Register
  | .add | .sub | .mul | .swap => [.arg0, .arg1]
  | .stackToRegister | .jumpZero | .jumpNonzero => [.arg1]
  | .jumpEqual | .jumpDifferent => [.arg2]
  | _ => []

/-- The register that holds the address of another one, which the operation writes. -/
def addressing : Opcode → Option Register
  | .set | .increment | .decrement | .shiftRight | .shiftLeft | .flipBit | .setBit | .clearBit
  | .stackToRegister => some .arg0
  | .registerToRegister => some .arg1
  | _ => none

/-- The operations that push or pop. -/
def stacking : List Opcode := [.push, .pop, .add, .sub, .mul, .swap, .registerToStack]

def printing : List Opcode := [.print, .dump]

/-- Whether an operation is a jump, and its condition holds. -/
def Leaps (s : State) : Opcode → Prop
  | .jump => True
  | .jumpZero => s.stack.bottom.int = 0
  | .jumpNonzero => s.stack.bottom.int ≠ 0
  | .jumpEqual => (s.registers.get .arg1).int = s.stack.bottom.int
  | .jumpDifferent => (s.registers.get .arg1).int ≠ s.stack.bottom.int
  | _ => False

/-- The register is the one that the operation is given the address of. -/
def Addresses (opcode : Opcode) (s : State) (r : Register) : Prop :=
  ∃ holder, opcode.addressing = some holder ∧ (s.registers.get holder).int = r.val

end Opcode

variable {s done : State} {r : Register}

def State.printed (s : State) : List String := s.log.toList.filterMap Event.printed?

theorem State.printed_report (s : State) (stack : Stack) (cause : Option Fault) :
    State.printed { s with stack, log := s.log ++ (cause.map Event.fault).toArray } =
      s.printed := by
  rw [printed, Array.toList_append, List.filterMap_append]
  cases cause <;> exact List.append_nil _

namespace Source

/-- Fetching does nothing but pop. -/
theorem fetch_keeps {P : State → Prop} (pops : ∀ t, P t → P (Action.left (Action.pop t)))
    {source : Source} {c : Cell} (holds : P s) (fetched : source.fetch s = .ok c done) :
    P done := by
  induction source generalizing s c done with
  | register r =>
      cases fetched
      exact holds
  | addressed r =>
      rw [fetch_addressed] at fetched
      split at fetched <;> cases fetched
      exact holds
  | bottom =>
      cases fetched
      exact holds
  | popped =>
      have popped := pops s holds
      rw [fetch, Action.pop_run] at fetched
      rw [Action.pop_run] at popped
      cases fetched
      exact popped
  | combined f left right left_ih right_ih =>
      obtain ⟨a, between, first, onward⟩ := Action.done_of_bind fetched
      obtain ⟨b, after, second, last⟩ := Action.done_of_bind onward
      cases last
      exact right_ih (left_ih holds first) second

theorem kept_of_fetch {source : Source} {c : Cell} (fetched : source.fetch s = .ok c done) :
    done.registers = s.registers := by
  refine fetch_keeps (P := fun t => t.registers = s.registers) ?_ rfl fetched
  intro t same
  rw [Action.pop_run]
  exact same

theorem printed_of_fetch {source : Source} {c : Cell} (fetched : source.fetch s = .ok c done) :
    done.printed = s.printed := by
  refine fetch_keeps (P := fun t => t.printed = s.printed) ?_ rfl fetched
  intro t same
  rw [Action.pop_run]
  exact (State.printed_report ..).trans same

end Source

namespace Effect

/-- The register that an effect writes, in the state that it finds. -/
def Puts (s : State) (r : Register) : Effect → Prop
  | .store (.register place) _ => r = place
  | .store (.addressed holder) _ => (s.registers.get holder).int = r.val
  | .jumpIf test => r = .jump ∧ test.holds s.registers.get = true
  | _ => False

theorem kept_of_put {place : Place} {source : Source} {c : Cell}
    (stored : place.put c s = .ok () done) (other : ¬(store place source).Puts s r) :
    done.registers.get r = s.registers.get r := by
  cases place with
  | register named =>
      cases stored
      exact Registers.get_set_other _ _ _ _ (Ne.symm other)
  | addressed holder =>
      rw [Place.put_addressed] at stored
      split at stored
      · rename_i found named
        cases stored
        apply Registers.get_set_other
        rintro rfl
        apply other
        rw [Register.ofInt?] at named
        split at named
        · rename_i bounds
          cases named
          exact (Int.toNat_of_nonneg bounds.1).symm
        · cases named
      · cases stored

theorem kept_of_act {effect : Effect} (acted : effect.act s = .ok () done)
    (other : ¬effect.Puts s r) : done.registers.get r = s.registers.get r := by
  cases effect with
  | store place source =>
      obtain ⟨c, between, fetched, stored⟩ := Action.done_of_bind acted
      have same := Source.kept_of_fetch fetched
      have aside : ¬(store place source).Puts between r := by
        cases place with
        | register named => exact other
        | addressed holder => rwa [Puts, same]
      rw [kept_of_put stored aside, same]
  | push source =>
      obtain ⟨c, between, fetched, pushed⟩ := Action.done_of_bind acted
      rw [Action.bind_run, Action.push_run] at pushed
      cases pushed
      exact congrArg (fun registers => registers.get r) (Source.kept_of_fetch fetched)
  | discard =>
      rw [act_discard] at acted
      cases acted
      rfl
  | jumpIf test =>
      rw [act_jump] at acted
      cases acted
      split
      · rename_i holds
        exact Registers.get_set_other _ _ _ _ fun same => other ⟨same.symm, holds⟩
      · rfl
  | print =>
      cases acted
      rfl
  | dump =>
      rw [act_dump] at acted
      cases acted
      rfl

/-- What no effect of a row writes, wherever it comes to it, the row leaves. -/
theorem kept_of_act_all {row : List Effect} (acted : actAll row s = .ok () done)
    (others : ∀ effect ∈ row, ∀ t, ¬effect.Puts t r) :
    done.registers.get r = s.registers.get r := by
  induction row generalizing s with
  | nil =>
      cases acted
      rfl
  | cons effect rest ih =>
      obtain ⟨value, between, first, onward⟩ := Action.done_of_bind acted
      have later := ih onward fun other member => others other (List.mem_cons_of_mem _ member)
      exact later.trans (kept_of_act first (others effect List.mem_cons_self s))

/-- The effects that print. -/
def Speaks : Effect → Prop
  | .print | .dump => True
  | _ => False

theorem printed_of_act {effect : Effect} (acted : effect.act s = .ok () done)
    (silent : ¬effect.Speaks) : done.printed = s.printed := by
  cases effect with
  | store place source =>
      obtain ⟨c, between, fetched, put⟩ := Action.done_of_bind acted
      have same := Source.printed_of_fetch fetched
      rcases put_run place c between with ⟨r, stored⟩ | ⟨address, refused⟩
      · rw [stored] at put
        cases put
        exact same
      · rw [refused] at put
        cases put
  | push source =>
      obtain ⟨c, between, fetched, pushed⟩ := Action.done_of_bind acted
      rw [Action.bind_run, Action.push_run] at pushed
      cases pushed
      exact (State.printed_report ..).trans (Source.printed_of_fetch fetched)
  | discard =>
      rw [act_discard] at acted
      cases acted
      exact State.printed_report ..
  | jumpIf test =>
      rw [act_jump] at acted
      cases acted
      split <;> rfl
  | print => exact (silent trivial).elim
  | dump => exact (silent trivial).elim

theorem printed_of_act_all {row : List Effect} (acted : actAll row s = .ok () done)
    (silent : ∀ effect ∈ row, ¬effect.Speaks) : done.printed = s.printed := by
  induction row generalizing s with
  | nil =>
      cases acted
      rfl
  | cons effect rest ih =>
      obtain ⟨value, between, first, onward⟩ := Action.done_of_bind acted
      have later := ih onward fun other member => silent other (List.mem_cons_of_mem _ member)
      exact later.trans (printed_of_act first (silent effect List.mem_cons_self))

end Effect

namespace Opcode

variable {opcode : Opcode} {effect : Effect}

theorem fixed_of_scratch (loads : opcode.scratch = some r) : r ∈ opcode.fixed := by
  cases opcode <;> cases loads <;> decide

theorem fixed_of_plain (member : effect ∈ opcode.row) (plain : effect.Plain)
    (puts : effect.Puts s r) : r ∈ opcode.fixed := by
  cases opcode with
  | add | sub | mul =>
      simp only [row, combineRow, List.mem_cons, List.not_mem_nil, or_false] at member
      rcases member with rfl | rfl | rfl <;> cases puts <;> decide
  | swap =>
      simp only [row, List.mem_cons, List.not_mem_nil, or_false] at member
      rcases member with rfl | rfl | rfl | rfl <;> cases puts <;> decide
  | stackToRegister | jumpZero | jumpNonzero | jumpEqual | jumpDifferent =>
      simp only [row, List.mem_cons, List.not_mem_nil, or_false] at member
      rcases member with rfl | rfl
      · cases puts
        decide
      · cases plain
  | push | registerToStack =>
      rw [List.mem_singleton.mp member] at puts
      cases puts
  | jump =>
      rw [List.mem_singleton.mp member] at plain puts
      exact (plain.1 rfl).elim
  | _ =>
      rw [List.mem_singleton.mp member] at plain
      cases plain

/-- The effect that decides an operation writes what it is given the address of, or jumps. -/
theorem puts_of_single (row : opcode.row = Effect.load opcode.scratch ++ [effect])
    (puts : effect.Puts (s.loaded opcode.scratch) r) :
    opcode.Addresses s r ∨ r = .jump ∧ opcode.Leaps s := by
  have second : Register.arg1 ≠ Register.arg0 := by decide
  have third : Register.arg2 ≠ Register.arg1 := by decide
  cases opcode with
  | push | pop | dump | print | registerToStack =>
      cases row
      cases puts
  | add | sub | mul | swap => cases row
  | set | decrement | increment | shiftRight | shiftLeft | flipBit | setBit | clearBit =>
      cases row
      exact .inl ⟨.arg0, rfl, puts⟩
  | registerToRegister =>
      cases row
      exact .inl ⟨.arg1, rfl, puts⟩
  | stackToRegister =>
      cases row
      refine .inl ⟨.arg0, rfl, ?_⟩
      rw [← Registers.get_set_other _ _ _ s.stack.bottom second]
      exact puts
  | jump =>
      cases row
      exact .inr ⟨puts, trivial⟩
  -- What is loaded is the bottom cell, and the test looks at it where it has been loaded.
  | jumpZero | jumpNonzero =>
      cases row
      obtain ⟨rfl, holds⟩ := puts
      refine .inr ⟨rfl, ?_⟩
      simpa [Leaps, Test.holds, State.loaded, scratch, Registers.get_set_same] using holds
  | jumpEqual | jumpDifferent =>
      cases row
      obtain ⟨rfl, holds⟩ := puts
      refine .inr ⟨rfl, ?_⟩
      simpa [Leaps, Test.holds, State.loaded, scratch, Registers.get_set_same,
        Registers.get_set_other _ _ _ _ third] using holds

/-- An operation keeps every register that it neither names nor is given the address of, and the
jump register too unless it jumps. -/
theorem kept_of_execute (executed : opcode.execute s = .ok () done) (unnamed : r ∉ opcode.fixed)
    (unaddressed : ¬opcode.Addresses s r) (stays : r = .jump → ¬opcode.Leaps s) :
    done.registers.get r = s.registers.get r := by
  rw [execute_eq_row] at executed
  cases shape opcode with
  | single effect narrow row =>
      rw [row, State.act_all_load, Effect.act_all_single] at executed
      have other : ¬effect.Puts (s.loaded opcode.scratch) r := by
        intro puts
        rcases puts_of_single row puts with addressed | ⟨jump, leaps⟩
        · exact unaddressed addressed
        · exact stays jump leaps
      rw [Effect.kept_of_act executed other]
      cases loads : opcode.scratch with
      | none => rfl
      | some loaded =>
          apply Registers.get_set_other
          rintro rfl
          exact unnamed (fixed_of_scratch loads)
  | plain scratch plain =>
      apply Effect.kept_of_act_all executed
      intro effect member t puts
      exact unnamed (fixed_of_plain member (plain effect member) puts)

/-- The stack is only got at by pushes and pops. -/
theorem stack_of_execute (executed : opcode.execute s = .ok () done) (apart : opcode ∉ stacking) :
    done.stack = s.stack := by
  have passes := Carries.execute opcode s () done executed
  have idle : opcode.traffic = [] := by
    revert apart
    cases opcode <;> decide
  rw [idle] at passes
  generalize before : s.ledger = first at passes
  generalize after : done.ledger = last at passes
  cases passes
  exact congrArg Ledger.stack (after.trans before.symm)

theorem printed_of_execute (executed : opcode.execute s = .ok () done)
    (apart : opcode ∉ printing) : done.printed = s.printed := by
  rw [execute_eq_row] at executed
  apply Effect.printed_of_act_all executed
  revert apart
  cases opcode <;> simp [printing, row, combineRow, updateRow, Effect.Speaks]

end Opcode

theorem Register.place_of_argument {n : Nat} (place : arguments[n]? = some r) : n = r.val := by
  obtain ⟨within, rfl⟩ := List.getElem?_eq_some_iff.mp place
  simp only [arguments, all, List.getElem_take, List.getElem_finRange, Fin.val_cast]

namespace Instruction

/-- Registers behind the last operand are not staged. -/
theorem get_stage_behind {operands : List Int} (behind : operands.length ≤ r.val)
    (registers : Registers) : (stage operands registers).get r = registers.get r := by
  apply get_fold_other
  rintro ⟨place, operand⟩ member rfl
  obtain ⟨n, at_pair⟩ := List.getElem?_of_mem member
  obtain ⟨at_place, at_operand⟩ := List.getElem?_zip_eq_some.mp at_pair
  obtain ⟨within, -⟩ := List.getElem?_eq_some_iff.mp at_operand
  have same := Register.place_of_argument at_place
  omega

end Instruction

namespace Machine

variable {m next : Machine} {continues : Bool}

/-- What an instruction on a line of a machine leaves of it. The registers and the bottom cell
that it goes by are those that it finds once its operands are staged. -/
structure Framed (m : Machine) (line : Nat) (instruction : Instruction) (next : Machine) :
    Prop where
  registers : ∀ r : Register, instruction.operands.length ≤ r.val →
    r ∉ instruction.opcode.fixed → ¬instruction.opcode.Addresses (m.staged instruction) r →
      next.registers.get r = m.registers.get r
  clear_before : m.registers.get .jump = .zero
  clear_after : next.registers.get .jump = .zero
  stack : instruction.opcode ∉ Opcode.stacking → next.stack = m.stack
  printed : instruction.opcode ∉ Opcode.printing → next.printed = m.printed
  pointer : ¬instruction.opcode.Leaps (m.staged instruction) →
    ¬instruction.opcode.Addresses (m.staged instruction) .jump → next.pointer = line + 1

/-- The line on which a step finds its instruction: the first one that holds a statement. -/
structure Finds (m : Machine) (line : Nat) (instruction : Instruction) : Prop where
  first : FirstStatement m.program.lines m.pointer line
  decodes : ∃ text, m.program.lines[line]? = some text ∧
    Instruction.decode text = .ok (some instruction)

theorem finds_of_fetch {fetched : Fetched} {instruction : Instruction}
    (found : m.fetch = some fetched) (right : fetched.decoded = .ok instruction) :
    Finds m fetched.line instruction := by
  obtain ⟨skipped, rest, scanned⟩ := scanned_of_fetch_from found
  refine ⟨first_statement_of_fetch found, fetched.text, text_of_fetch found, ?_⟩
  rw [scanned.decoded, right]
  rfl

theorem printed_reached (m : Machine) (fetched : Fetched) :
    (m.reached fetched).printed = m.printed := by
  rcases log_reached m fetched with same | ⟨-, text, pushed⟩
  · rw [printed, same, printed]
  · rw [printed, pushed, Array.toList_push, List.filterMap_append]
    exact List.append_nil _

theorem framed_of_executed (clear : m.registers.get .jump = .zero) {fetched : Fetched}
    {instruction : Instruction} {done : State}
    (executed : instruction.opcode.execute ((m.reached fetched).staged instruction) =
      .ok () done) :
    Framed m fetched.line instruction ((m.carried fetched done).landed fetched.line) := by
  let ready : State := { m.staged instruction with log := (m.reached fetched).log }
  have same : (m.reached fetched).staged instruction = ready := by
    simp only [staged, reached_eq, ready]
  rw [same] at executed
  have printed_before : ready.printed = m.printed := m.printed_reached fetched
  have unchanged : ∀ r, r ∉ instruction.opcode.fixed →
      ¬instruction.opcode.Addresses (m.staged instruction) r →
      (r = .jump → ¬instruction.opcode.Leaps (m.staged instruction)) →
      done.registers.get r = (m.staged instruction).registers.get r := by
    intro r unnamed unaddressed stays
    have kept : done.registers.get r = ready.registers.get r :=
      Opcode.kept_of_execute executed unnamed unaddressed stays
    exact kept
  have clear_after : ((m.carried fetched done).landed fetched.line).registers.get .jump = .zero :=
    Registers.get_set_same _ _ _
  constructor
  · intro r behind unnamed unaddressed
    by_cases jump : r = .jump
    · rw [jump, clear_after, clear]
    · have landed_same : ((m.carried fetched done).landed fetched.line).registers.get r =
          done.registers.get r := Registers.get_set_other _ _ _ _ (Ne.symm jump)
      rw [landed_same, unchanged r unnamed unaddressed fun absurd => (jump absurd).elim]
      exact Instruction.get_stage_behind behind _
  · exact clear
  · exact clear_after
  · intro apart
    have kept : done.stack = ready.stack := Opcode.stack_of_execute executed apart
    exact kept
  · intro apart
    exact (Opcode.printed_of_execute executed apart).trans printed_before
  · intro stays unaddressed
    have unnamed : Register.jump ∉ instruction.opcode.fixed := by
      cases instruction.opcode <;> decide
    have still_clear : done.registers.get .jump = .zero := by
      rw [unchanged .jump unnamed unaddressed fun _ => stays]
      exact clear_staged clear instruction
    change landing (done.registers.get .jump).int fetched.line = fetched.line + 1
    rw [still_clear]
    rfl

/-- A step that executes an instruction leaves alone whatever its operands and its operation do
not name. -/
theorem instruction_is_framed (driven : m.Driven) (taken : m.step = .ok continues next)
    (counted : next.executed ≠ m.executed) :
    ∃ line instruction, Finds m line instruction ∧ Framed m line instruction next := by
  cases (stepped_of_step taken).1 with
  | finished nothing => exact absurd rfl counted
  | @performed fetched instruction done found right executed onward =>
      exact ⟨fetched.line, instruction, finds_of_fetch found right,
        framed_of_executed driven.clear executed⟩

def countingLines : List Text := ["set 4,9".toList, "inc 1".toList]

def counting : Machine := { stray with program := ⟨countingLines, []⟩, trace := false }

/-- The second line addresses a register that the first one has staged, and that its own
operand leaves alone. -/
theorem instruction_is_framed_counting :
    ∃ m next, m.Driven ∧ m.step = .ok false next ∧ next.executed ≠ m.executed ∧
      Finds m 1 ⟨.increment, [1]⟩ ∧ Framed m 1 ⟨.increment, [1]⟩ next ∧
      (m.registers.get .arg1).int = 9 ∧ (next.registers.get .arg1).int = 10 ∧
      next.registers.get .arg2 = m.registers.get .arg2 ∧ next.pointer = 2 := by
  have prepared : Program.prepare countingLines = .ok ⟨countingLines, []⟩ :=
    Program.prepare_undeclared (by decide) rfl
  have built : build countingLines {} = .ok counting := by
    simp only [build, prepared]
    rfl
  obtain ⟨m, first⟩ : ∃ m, counting.step = .ok true m := ⟨_, rfl⟩
  have answered : counting.answer 0 .step = some (.ok (.stepped true), m) := by
    rw [answer, first]
    rfl
  have driven : m.Driven := .called (.built built) answered
  cases first
  obtain ⟨next, second⟩ : ∃ next, (after counting.step).step = .ok false next := ⟨_, rfl⟩
  have counted : next.executed ≠ (after counting.step).executed := by
    cases second
    decide
  obtain ⟨line, instruction, finds, framed⟩ := instruction_is_framed driven second counted
  obtain ⟨text, there, decodes⟩ := finds.decodes
  have here : line = 1 := by
    have behind : 1 ≤ line := finds.first.not_before
    have within : line < 2 := (List.getElem?_eq_some_iff.mp there).1
    omega
  cases here
  cases there
  cases decodes
  refine ⟨_, next, driven, second, counted, finds, framed, rfl, ?_, ?_, ?_⟩
  · cases second
    rfl
  · apply framed.registers
    · decide
    · decide
    · rintro ⟨holder, named, same⟩
      cases named
      cases same
  · apply framed.pointer
    · exact id
    · rintro ⟨holder, named, same⟩
      cases named
      cases same

end Machine

end StackMachine
