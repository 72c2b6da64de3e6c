import StackMachine.Opcode

/-!
# What actions do to a state

An action either goes on with a value or stops at an address, and in both cases
leaves a state behind. These equations run one action on a given state; the ones of
the operations are built from them.
-/

namespace StackMachine.Action

set_option autoImplicit false

theorem bind_run {α β : Type} (first : Action α) (next : α → Action β) (s : State) :
    (first >>= next) s =
      match first s with
      | .ok a after => next a after
      | .error address stopped => .error address stopped := by
  change EStateM.bind first next s = _
  unfold EStateM.bind
  cases first s <;> rfl

/-- What goes through has gone through the first action and then through the rest. -/
theorem done_of_bind {α β : Type} {first : Action α} {next : α → Action β} {s done : State} {b : β}
    (acted : (first >>= next) s = .ok b done) :
    ∃ a between, first s = .ok a between ∧ next a between = .ok b done := by
  rw [bind_run] at acted
  cases ran : first s with
  | error address stopped =>
      rw [ran] at acted
      cases acted
  | ok a between =>
      rw [ran] at acted
      exact ⟨a, between, rfl, acted⟩

theorem pure_run {α : Type} (a : α) (s : State) : (pure a : Action α) s = .ok a s := rfl

theorem get_run (s : State) : (get : Action State) s = .ok s s := rfl

theorem modify_run (f : State → State) (s : State) :
    (modify f : Action PUnit) s = .ok PUnit.unit (f s) := rfl

theorem push_run (c : Cell) (s : State) :
    Action.push c s = .ok (s.stack.push c).1.isNone
      { s with
        stack := (s.stack.push c).2
        log := s.log ++ ((s.stack.push c).1.map Event.fault).toArray } := by
  simp only [Action.push, bind_run, get_run, modify_run, report_run, pure_run]

theorem pop_run (s : State) :
    Action.pop s = .ok s.stack.pop.1
      { s with
        stack := s.stack.pop.2.2
        log := s.log ++ (s.stack.pop.2.1.map Event.fault).toArray } := by
  simp only [Action.pop, bind_run, get_run, modify_run, report_run, pure_run]

theorem target_run (r : Register) (s : State) :
    target r s =
      match Register.ofInt? (s.registers.get r).int with
      | some found => .ok found s
      | none => .error (.int (s.registers.get r).int) s := by
  simp only [target, bind_run, read_run]
  cases found : Register.ofInt? (s.registers.get r).int with
  | none =>
      have unnamed : (Address.int (s.registers.get r).int).register? = none := found
      rw [locate_of_no_register unnamed]
  | some register =>
      have named : (Address.int (s.registers.get r).int).register? = some register := found
      rw [locate_of_register named]

theorem write_at_run (i : Int) (c : Cell) (s : State) :
    writeAt (.int i) c s =
      match Register.ofInt? i with
      | some found => .ok () { s with registers := s.registers.set found c }
      | none => .error (.int i) s := by
  simp only [writeAt, bind_run]
  cases found : Register.ofInt? i with
  | none =>
      have unnamed : (Address.int i).register? = none := found
      rw [locate_of_no_register unnamed]
  | some register =>
      have named : (Address.int i).register? = some register := found
      rw [locate_of_register named]
      rfl

theorem print_run (text : String) (s : State) :
    Action.print text s = .ok () { s with log := s.log.push (.printed text) } := rfl

theorem print_each_run (lines : List String) (s : State) :
    (forIn lines PUnit.unit fun line _ => do
        Action.print line
        pure (ForInStep.yield PUnit.unit) : Action PUnit) s =
      .ok () { s with log := s.log ++ (lines.map Event.printed).toArray } := by
  induction lines generalizing s with
  | nil => simp [pure_run]
  | cons line rest ih =>
      rw [List.forIn_cons]
      simp only [bind_run, print_run, pure_run, ih]
      simp

end StackMachine.Action
