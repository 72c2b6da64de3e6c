import StackMachine.Proofs.Staging
import StackMachine.Proofs.Table

/-!
# What an operation can change

A row either ends in its only real effect, perhaps with the bottom cell loaded into an
argument register first, or it cannot fail and never writes the jump register. In the
first case a failure leaves just the loaded cell behind; and where the jump register
is written, nothing else is.
-/

namespace StackMachine

set_option autoImplicit false

/-- Takes nothing off the stack. -/
def Source.Peeks : Source → Prop
  | .popped => False
  | .combined _ left right => left.Peeks ∧ right.Peeks
  | _ => True

/-- Looks up no address. -/
def Source.Direct : Source → Prop
  | .addressed _ => False
  | .combined _ left right => left.Direct ∧ right.Direct
  | _ => True

theorem Source.fetch_peeks {source : Source} (peeks : source.Peeks) (s : State) :
    (∃ c, source.fetch s = .ok c s) ∨ ∃ address, source.fetch s = .error address s := by
  induction source with
  | register r => exact .inl ⟨_, rfl⟩
  | addressed r =>
      rw [fetch_addressed]
      cases Register.ofInt? (s.registers.get r).int with
      | none => exact .inr ⟨_, rfl⟩
      | some found => exact .inl ⟨_, rfl⟩
  | bottom => exact .inl ⟨_, rfl⟩
  | popped => exact peeks.elim
  | combined f left right left_ih right_ih =>
      rcases left_ih peeks.1 with ⟨first, left_ok⟩ | ⟨address, left_error⟩
      · rcases right_ih peeks.2 with ⟨second, right_ok⟩ | ⟨address, right_error⟩
        · left
          refine ⟨f first second, ?_⟩
          simp only [fetch, Action.bind_run, Action.pure_run, left_ok, right_ok]
        · right
          refine ⟨address, ?_⟩
          simp only [fetch, Action.bind_run, left_ok, right_error]
      · right
        refine ⟨address, ?_⟩
        simp only [fetch, Action.bind_run, left_error]

theorem Source.fetch_direct {source : Source} (direct : source.Direct) (s : State) :
    ∃ c after, source.fetch s = .ok c after ∧ after.registers = s.registers := by
  induction source generalizing s with
  | register r => exact ⟨_, s, rfl, rfl⟩
  | addressed r => exact direct.elim
  | bottom => exact ⟨_, s, rfl, rfl⟩
  | popped => exact ⟨_, _, Action.pop_run s, rfl⟩
  | combined f left right left_ih right_ih =>
      obtain ⟨first, between, left_ok, left_kept⟩ := left_ih direct.1 s
      obtain ⟨second, after, right_ok, right_kept⟩ := right_ih direct.2 between
      refine ⟨f first second, after, ?_, right_kept.trans left_kept⟩
      simp only [fetch, Action.bind_run, Action.pure_run, left_ok, right_ok]

/-- Writes at most one register, or leaves all of them; and fails before it does either. -/
def Effect.Narrow : Effect → Prop
  | .store _ source => source.Peeks
  | .push source => source.Peeks
  | _ => True

/-- Cannot fail, and leaves the jump register. -/
def Effect.Plain : Effect → Prop
  | .store (.register r) source => r ≠ .jump ∧ source.Direct
  | .push source => source.Direct
  | _ => False

namespace Effect

theorem put_run (place : Place) (c : Cell) (s : State) :
    (∃ r, place.put c s = .ok () { s with registers := s.registers.set r c }) ∨
      ∃ address, place.put c s = .error address s := by
  cases place with
  | register r => exact .inl ⟨r, rfl⟩
  | addressed r =>
      rw [Place.put_addressed]
      cases Register.ofInt? (s.registers.get r).int with
      | none => exact .inr ⟨_, rfl⟩
      | some found => exact .inl ⟨found, rfl⟩

/-- Where an effect can lead when it writes at most one register. -/
def Contained (s : State) : EStateM.Result Address State Unit → Prop
  | .error _ stopped => stopped = s
  | .ok _ done =>
      done.registers = s.registers ∨
        ∃ r c, done = { s with registers := s.registers.set r c }

theorem act_narrow {effect : Effect} (narrow : effect.Narrow) (s : State) :
    Contained s (effect.act s) := by
  cases effect with
  | store place source =>
      rw [act_store]
      rcases Source.fetch_peeks narrow s with ⟨c, fetched⟩ | ⟨address, refused⟩
      · rw [fetched]
        rcases put_run place c s with ⟨r, stored⟩ | ⟨address, refused⟩
        · simp only [stored]
          exact .inr ⟨r, c, rfl⟩
        · simp only [refused]
          rfl
      · rw [refused]
        rfl
  | push source =>
      rw [act_push]
      rcases Source.fetch_peeks narrow s with ⟨c, fetched⟩ | ⟨address, refused⟩
      · rw [fetched]
        exact .inl rfl
      · rw [refused]
        rfl
  | discard =>
      rw [act_discard]
      exact .inl rfl
  | jumpIf test =>
      rw [act_jump]
      by_cases holds : test.holds s.registers.get = true
      · rw [if_pos holds]
        exact .inr ⟨.jump, _, rfl⟩
      · rw [if_neg holds]
        exact .inl rfl
  | print => exact .inl rfl
  | dump =>
      rw [act_dump]
      exact .inl rfl

theorem act_plain {effect : Effect} (plain : effect.Plain) (s : State) :
    ∃ done, effect.act s = .ok () done ∧
      done.registers.get .jump = s.registers.get .jump := by
  cases effect with
  | store place source =>
      cases place with
      | register r =>
          obtain ⟨c, after, fetched, kept⟩ := Source.fetch_direct plain.2 s
          refine ⟨{ after with registers := after.registers.set r c }, ?_, ?_⟩
          · rw [act_store, fetched]
            rfl
          · rw [Registers.get_set_other _ _ _ _ plain.1, kept]
      | addressed r => exact plain.elim
  | push source =>
      obtain ⟨c, after, fetched, kept⟩ := Source.fetch_direct plain s
      rw [act_push, fetched]
      exact ⟨_, rfl, congrArg (fun registers => registers.get .jump) kept⟩
  | discard => exact plain.elim
  | jumpIf test => exact plain.elim
  | print => exact plain.elim
  | dump => exact plain.elim

theorem act_all_plain {row : List Effect} (plain : ∀ effect ∈ row, effect.Plain) (s : State) :
    ∃ done, actAll row s = .ok () done ∧
      done.registers.get .jump = s.registers.get .jump := by
  induction row generalizing s with
  | nil => exact ⟨s, rfl, rfl⟩
  | cons effect rest ih =>
      have others : ∀ other ∈ rest, other.Plain :=
        fun other member => plain other (List.mem_cons_of_mem effect member)
      obtain ⟨between, acted, kept⟩ := act_plain (plain effect List.mem_cons_self) s
      obtain ⟨done, finished, kept_after⟩ := ih others between
      refine ⟨done, ?_, kept_after.trans kept⟩
      rw [act_all_cons, acted]
      exact finished

def load : Option Register → List Effect
  | none => []
  | some r => [.store (.register r) .bottom]

end Effect

def State.loaded (scratch : Option Register) (s : State) : State :=
  match scratch with
  | none => s
  | some r => { s with registers := s.registers.set r s.stack.bottom }

namespace State

variable (scratch : Option Register) (s : State)

theorem stack_loaded : (s.loaded scratch).stack = s.stack := by
  cases scratch <;> rfl

theorem log_loaded : (s.loaded scratch).log = s.log := by
  cases scratch <;> rfl

theorem loaded_loaded : (s.loaded scratch).loaded scratch = s.loaded scratch := by
  cases scratch with
  | none => rfl
  | some r => simp only [loaded, Registers.set_set]

theorem act_all_load (row : List Effect) :
    Effect.actAll (Effect.load scratch ++ row) s = Effect.actAll row (s.loaded scratch) := by
  cases scratch with
  | none => rfl
  | some r =>
      rw [Effect.load, List.singleton_append, Effect.act_all_cons]
      rfl

end State

namespace Opcode

/-- The register into which an operation loads the bottom cell before all else. -/
def scratch : Opcode → Option Register
  | .stackToRegister | .jumpZero | .jumpNonzero => some .arg1
  | .jumpEqual | .jumpDifferent => some .arg2
  | _ => none

theorem scratch_below {opcode : Opcode} {r : Register} (loads : opcode.scratch = some r) :
    r.val < 4 := by
  cases opcode <;> simp only [scratch, reduceCtorEq, Option.some.injEq] at loads <;>
    subst loads <;> decide

/-- One effect decides the operation, or none of its effects is of concern. -/
inductive Shape (opcode : Opcode) : Prop
  | single (effect : Effect) (narrow : effect.Narrow)
      (row : opcode.row = Effect.load opcode.scratch ++ [effect])
  | plain (scratch : opcode.scratch = none) (plain : ∀ effect ∈ opcode.row, effect.Plain)

theorem combine_row_plain (f : Cell → Cell → Cell) :
    ∀ effect ∈ combineRow f, effect.Plain := by
  have first : Register.arg0 ≠ Register.jump := by decide
  have second : Register.arg1 ≠ Register.jump := by decide
  intro effect member
  simp only [combineRow, List.mem_cons, List.not_mem_nil, or_false] at member
  rcases member with same | same | same <;> rw [same]
  · exact ⟨first, trivial⟩
  · exact ⟨second, trivial⟩
  · exact ⟨trivial, trivial⟩

theorem swap_row_plain : ∀ effect ∈ swap.row, effect.Plain := by
  have first : Register.arg0 ≠ Register.jump := by decide
  have second : Register.arg1 ≠ Register.jump := by decide
  intro effect member
  simp only [row, List.mem_cons, List.not_mem_nil, or_false] at member
  rcases member with same | same | same | same <;> rw [same]
  · exact ⟨first, trivial⟩
  · exact ⟨second, trivial⟩
  · exact trivial
  · exact trivial

theorem shape (opcode : Opcode) : Shape opcode := by
  cases opcode with
  | add | sub | mul => exact .plain rfl (combine_row_plain _)
  | swap => exact .plain rfl swap_row_plain
  | decrement | increment | shiftRight | shiftLeft | flipBit | setBit | clearBit =>
      refine .single _ ?_ rfl
      exact ⟨trivial, trivial⟩
  | _ =>
      refine .single _ ?_ rfl
      exact trivial

/-- What an operation loads is there already when it is done again. -/
theorem execute_loaded (opcode : Opcode) (s : State) :
    opcode.execute (s.loaded opcode.scratch) = opcode.execute s := by
  rw [execute_eq_row]
  cases shape opcode with
  | single effect narrow row =>
      rw [row, State.act_all_load, State.act_all_load, State.loaded_loaded]
  | plain scratch plain => rw [scratch, State.loaded]

/-- Where an operation leads if the jump register was clear. A failure changes nothing
but what was loaded; and neither does a jump, once the jump register is clear again. -/
def Steady (s : State) : EStateM.Result Address State Unit → Prop
  | .error _ stopped => stopped = s
  | .ok _ done =>
      done.registers.get .jump ≠ .zero →
        { done with registers := done.registers.set .jump .zero } = s

theorem steady_of_contained {s : State} (clear : s.registers.get .jump = .zero)
    {result : EStateM.Result Address State Unit} (contained : Effect.Contained s result) :
    Steady s result := by
  cases result with
  | error address stopped => exact contained
  | ok value done =>
      intro jumps
      rcases contained with kept | ⟨r, c, written⟩
      · rw [kept, clear] at jumps
        exact absurd rfl jumps
      -- Either the one register that was written is the jump register, or it is still clear.
      · by_cases leaps : r = .jump
        · rw [written, leaps]
          simp only [Registers.set_set]
          rw [← clear, Registers.set_get]
        · rw [written, Registers.get_set_other _ _ _ _ leaps, clear] at jumps
          exact absurd rfl jumps

theorem get_loaded_other (opcode : Opcode) (s : State) {r : Register} (above : 4 ≤ r.val) :
    (s.loaded opcode.scratch).registers.get r = s.registers.get r := by
  cases loads : opcode.scratch with
  | none => rfl
  | some loaded =>
      have below := scratch_below loads
      have distinct : loaded ≠ r := by
        intro same
        rw [same] at below
        omega
      exact Registers.get_set_other _ _ _ _ distinct

theorem clear_loaded {opcode : Opcode} {s : State} (clear : s.registers.get .jump = .zero) :
    (s.loaded opcode.scratch).registers.get .jump = .zero := by
  have above : 4 ≤ Register.jump.val := by decide
  exact (get_loaded_other opcode s above).trans clear

/-- The case analysis over all operations: each is steady on what it has loaded. -/
theorem execute_steady (opcode : Opcode) {s : State} (clear : s.registers.get .jump = .zero) :
    Steady (s.loaded opcode.scratch) (opcode.execute s) := by
  rw [execute_eq_row]
  cases shape opcode with
  | single effect narrow row =>
      have still_clear : (s.loaded opcode.scratch).registers.get .jump = .zero :=
        clear_loaded clear
      rw [row, State.act_all_load, Effect.act_all_single]
      exact steady_of_contained still_clear (Effect.act_narrow narrow _)
  | plain scratch plain =>
      obtain ⟨done, finished, kept⟩ := Effect.act_all_plain plain s
      rw [finished]
      intro jumps
      rw [kept, clear] at jumps
      exact absurd rfl jumps

end Opcode

end StackMachine
