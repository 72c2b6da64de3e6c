import StackMachine.Proofs.Actions

/-!
# The table of operations

Every operation is a row of effects, done in order: a cell is taken from somewhere
and put somewhere, and the value is there before its place is looked up. What holds
of every effect holds of every operation, so the cases are those of the effects.
-/

namespace StackMachine

set_option autoImplicit false

inductive Source where
  | register (r : Register)
  | addressed (r : Register)
  | bottom
  | popped
  | combined (f : Cell → Cell → Cell) (left right : Source)

inductive Place where
  | register (r : Register)
  | addressed (r : Register)

inductive Test where
  | zero (r : Register)
  | equal (left right : Register)
  | not (test : Test)

def Test.holds (registers : Register → Cell) : Test → Bool
  | .zero r => (registers r).int = 0
  | .equal left right => (registers left).int = (registers right).int
  | .not test => !test.holds registers

inductive Effect where
  | store (place : Place) (source : Source)
  | push (source : Source)
  | discard
  | jumpIf (test : Test)
  | print
  | dump

namespace Opcode

/-- Both operands from the stack, the top one first, and the result back to it. -/
def combineRow (f : Cell → Cell → Cell) : List Effect :=
  [.store (.register .arg0) .popped, .store (.register .arg1) .popped,
    .push (.combined f (.register .arg0) (.register .arg1))]

def updateRow (f : Cell → Cell → Cell) : List Effect :=
  [.store (.addressed .arg0) (.combined f (.addressed .arg0) (.register .arg1))]

def row : Opcode → List Effect
  | .push => [.push (.register .arg0)]
  | .pop => [.discard]
  | .dump => [.dump]
  | .print => [.print]
  | .add => combineRow Cell.add
  | .sub => combineRow Cell.sub
  | .mul => combineRow Cell.mul
  | .set => [.store (.addressed .arg0) (.register .arg1)]
  | .decrement => updateRow fun c _ => c.decrement
  | .increment => updateRow fun c _ => c.increment
  | .swap =>
      [.store (.register .arg0) .popped, .store (.register .arg1) .popped,
        .push (.register .arg0), .push (.register .arg1)]
  | .registerToStack => [.push (.addressed .arg0)]
  | .stackToRegister =>
      [.store (.register .arg1) .bottom, .store (.addressed .arg0) (.register .arg1)]
  | .registerToRegister => [.store (.addressed .arg1) (.addressed .arg0)]
  | .jump => [.store (.register .jump) (.register .arg0)]
  | .jumpZero => [.store (.register .arg1) .bottom, .jumpIf (.zero .arg1)]
  | .jumpNonzero => [.store (.register .arg1) .bottom, .jumpIf (.not (.zero .arg1))]
  | .jumpEqual => [.store (.register .arg2) .bottom, .jumpIf (.equal .arg1 .arg2)]
  | .jumpDifferent => [.store (.register .arg2) .bottom, .jumpIf (.not (.equal .arg1 .arg2))]
  | .shiftRight => updateRow Cell.shiftRight
  | .shiftLeft => updateRow Cell.shiftLeft
  | .flipBit => updateRow Cell.flipBit
  | .setBit => updateRow Cell.setBit
  | .clearBit => updateRow Cell.clearBit

end Opcode

def Source.fetch : Source → Action Cell
  | .register r => Action.read r
  | .addressed r => do
      Action.read (← Action.target r)
  | .bottom => Action.bottom
  | .popped => Action.pop
  | .combined f left right => do
      return f (← left.fetch) (← right.fetch)

def Place.put (c : Cell) : Place → Action Unit
  | .register r => Action.write r c
  | .addressed r => do
      Action.write (← Action.target r) c

def Effect.act : Effect → Action Unit
  | .store place source => do
      place.put (← source.fetch)
  | .push source => do
      let _ ← Action.push (← source.fetch)
  | .discard => do
      let _ ← Action.pop
  | .jumpIf test => do
      if test.holds (← get).registers.get then
        Action.write .jump (← Action.read .arg0)
  | .print => do
      Action.print (← Action.bottom).text
  | .dump => do
      for line in Opcode.dumpLines (← get) do
        Action.print line

def Effect.actAll : List Effect → Action Unit
  | [] => pure ()
  | effect :: rest => do
      effect.act
      actAll rest

theorem Test.holds_zero (registers : Register → Cell) (r : Register) :
    (Test.zero r).holds registers = (registers r).isZero := by
  have views : (registers r).int = 0 ↔ registers r = Cell.zero :=
    ⟨fun same => Cell.int_injective same, fun same => by rw [same]; rfl⟩
  rw [Test.holds, Cell.isZero, decide_eq_decide.mpr views]
  rfl

theorem Test.holds_not (registers : Register → Cell) (test : Test) :
    (Test.not test).holds registers = !test.holds registers := rfl

theorem Test.holds_equal (registers : Register → Cell) (left right : Register) :
    (Test.equal left right).holds registers = (registers left == registers right) := by
  have views : (registers left).int = (registers right).int ↔ registers left = registers right :=
    ⟨Cell.int_injective, congrArg Cell.int⟩
  rw [Test.holds, decide_eq_decide.mpr views]
  rfl

namespace Effect

open StackMachine.Action

theorem act_store (place : Place) (source : Source) (s : State) :
    (store place source).act s =
      match source.fetch s with
      | .ok c after => place.put c after
      | .error address stopped => .error address stopped := by
  rw [act, bind_run]
  cases source.fetch s <;> rfl

theorem act_push (source : Source) (s : State) :
    (push source).act s =
      match source.fetch s with
      | .ok c after =>
          .ok () { after with
            stack := (after.stack.push c).2
            log := after.log ++ ((after.stack.push c).1.map Event.fault).toArray }
      | .error address stopped => .error address stopped := by
  simp only [act, bind_run]
  cases source.fetch s with
  | ok c after => simp only [push_run, pure_run]
  | error address stopped => rfl

theorem act_discard (s : State) :
    discard.act s =
      .ok () { s with
        stack := s.stack.pop.2.2
        log := s.log ++ (s.stack.pop.2.1.map Event.fault).toArray } := by
  simp only [act, bind_run, pop_run, pure_run]

theorem act_jump (test : Test) (s : State) :
    (jumpIf test).act s =
      .ok () (if test.holds s.registers.get then
        { s with registers := s.registers.set .jump (s.registers.get .arg0) } else s) := by
  simp only [act, bind_run, get_run]
  cases test.holds s.registers.get <;> rfl

theorem act_dump (s : State) :
    dump.act s =
      .ok () { s with log := s.log ++ ((Opcode.dumpLines s).map Event.printed).toArray } := by
  simp only [act, bind_run, get_run]
  exact print_each_run (Opcode.dumpLines s) s

theorem act_all_cons (effect : Effect) (rest : List Effect) (s : State) :
    actAll (effect :: rest) s =
      match effect.act s with
      | .ok _ after => actAll rest after
      | .error address stopped => .error address stopped := by
  rw [actAll, bind_run]
  cases effect.act s <;> rfl

/-- The last effect of a row decides how the row ends. -/
theorem act_all_single (effect : Effect) : actAll [effect] = effect.act := by
  funext s
  rw [act_all_cons]
  cases effect.act s <;> rfl

end Effect

theorem Source.fetch_addressed (r : Register) (s : State) :
    (Source.addressed r).fetch s =
      match Register.ofInt? (s.registers.get r).int with
      | some found => .ok (s.registers.get found) s
      | none => .error (.int (s.registers.get r).int) s := by
  simp only [fetch, Action.bind_run, Action.target_run]
  cases Register.ofInt? (s.registers.get r).int <;> rfl

theorem Place.put_addressed (r : Register) (c : Cell) (s : State) :
    (Place.addressed r).put c s =
      match Register.ofInt? (s.registers.get r).int with
      | some found => .ok () { s with registers := s.registers.set found c }
      | none => .error (.int (s.registers.get r).int) s := by
  simp only [put, Action.bind_run, Action.target_run]
  cases Register.ofInt? (s.registers.get r).int <;> rfl

namespace Opcode

open StackMachine.Action

theorem combine_eq_row (f : Cell → Cell → Cell) : combine f = Effect.actAll (combineRow f) := by
  funext s
  simp only [combine, popPair, combineRow, Effect.actAll, Effect.act, Source.fetch, Place.put,
    bind_run, pop_run, push_run, read_run, write_run, pure_run]

/-- The address is looked up once to read and once to write, with the same result. -/
theorem update_eq_row (f : Cell → Cell → Cell) : update f = Effect.actAll (updateRow f) := by
  funext s
  rw [updateRow, Effect.act_all_single, Effect.act_store]
  simp only [update, Source.fetch, bind_run, target_run]
  cases found : Register.ofInt? (s.registers.get .arg0).int with
  | none => rfl
  | some r => simp only [read_run, write_run, pure_run, Place.put_addressed, found]

theorem jump_if_run (condition : Bool) (s : State) :
    jumpIf condition s =
      .ok () (if condition then
        { s with registers := s.registers.set .jump (s.registers.get .arg0) } else s) := by
  cases condition <;> rfl

/-- A conditional jump leaves the bottom cell in a register and then decides. -/
theorem jump_row_run (r : Register) (test : Test) (s : State) :
    Effect.actAll [.store (.register r) .bottom, .jumpIf test] s =
      (Effect.jumpIf test).act { s with registers := s.registers.set r s.stack.bottom } := by
  rw [Effect.act_all_cons, Effect.act_all_single]
  rfl

theorem bottom_is_zero_run (s : State) :
    bottomIsZero s = .ok s.stack.bottom.isZero
      { s with registers := s.registers.set .arg1 s.stack.bottom } := by
  simp only [bottomIsZero, bind_run, bottom_run, write_run, read_run, pure_run,
    Registers.get_set_same]

theorem matches_bottom_run (s : State) :
    matchesBottom s = .ok (s.registers.get .arg1 == s.stack.bottom)
      { s with registers := s.registers.set .arg2 s.stack.bottom } := by
  have apart : Register.arg2 ≠ Register.arg1 := by decide
  simp only [matchesBottom, bind_run, bottom_run, write_run, read_run, pure_run,
    Registers.get_set_same, Registers.get_set_other _ _ _ _ apart]

theorem zero_jump_eq_row (decide : Bool → Bool) (test : Test)
    (agree : ∀ registers : Register → Cell, test.holds registers = decide (registers .arg1).isZero) :
    (do jumpIf (decide (← bottomIsZero)) : Action Unit) =
      Effect.actAll [.store (.register .arg1) .bottom, .jumpIf test] := by
  funext s
  simp only [jump_row_run, Effect.act_jump, bind_run, bottom_is_zero_run, jump_if_run, agree,
    Registers.get_set_same]

theorem equal_jump_eq_row (decide : Bool → Bool) (test : Test)
    (agree : ∀ registers : Register → Cell,
      test.holds registers = decide (registers .arg1 == registers .arg2)) :
    (do jumpIf (decide (← matchesBottom)) : Action Unit) =
      Effect.actAll [.store (.register .arg2) .bottom, .jumpIf test] := by
  have apart : Register.arg2 ≠ Register.arg1 := by decide
  funext s
  simp only [jump_row_run, Effect.act_jump, bind_run, matches_bottom_run, jump_if_run, agree,
    Registers.get_set_same, Registers.get_set_other _ _ _ _ apart]

/-- Every operation does what its row says, in the order of the row. -/
theorem execute_eq_row (opcode : Opcode) : opcode.execute = Effect.actAll opcode.row := by
  cases opcode with
  | push | pop | dump | print | jump =>
      rw [row, Effect.act_all_single]
      rfl
  | add | sub | mul => exact combine_eq_row _
  | set =>
      funext s
      rw [row, Effect.act_all_single, Effect.act_store]
      cases found : Register.ofInt? (s.registers.get .arg0).int <;>
        simp only [execute, Source.fetch, bind_run, read_run, write_at_run, Place.put_addressed,
          found]
  | swap =>
      funext s
      simp only [execute, popPair, row, Effect.actAll, Effect.act, Source.fetch, Place.put,
        bind_run, pop_run, push_run, read_run, write_run, pure_run]
  | registerToStack =>
      funext s
      rw [row, Effect.act_all_single, Effect.act_push, Source.fetch_addressed]
      simp only [execute, bind_run, target_run]
      cases Register.ofInt? (s.registers.get .arg0).int with
      | none => rfl
      | some r => simp only [read_run, push_run, pure_run]
  | stackToRegister =>
      funext s
      rw [row, Effect.act_all_cons, Effect.act_all_single]
      simp only [execute, Effect.act_store, Source.fetch, Place.put, bind_run, bottom_run,
        read_run, write_run, target_run]
      cases Register.ofInt? ((s.registers.set .arg1 s.stack.bottom).get .arg0).int <;> rfl
  | registerToRegister =>
      funext s
      rw [row, Effect.act_all_single, Effect.act_store, Source.fetch_addressed]
      simp only [execute, bind_run, target_run]
      cases Register.ofInt? (s.registers.get .arg0).int with
      | none => rfl
      | some r => simp only [read_run, Place.put, bind_run, target_run]
  | jumpZero => exact zero_jump_eq_row id _ fun registers => Test.holds_zero registers .arg1
  | jumpNonzero =>
      apply zero_jump_eq_row not
      intro registers
      rw [Test.holds_not, Test.holds_zero]
  | jumpEqual => exact equal_jump_eq_row id _ fun registers => Test.holds_equal registers .arg1 .arg2
  | jumpDifferent =>
      apply equal_jump_eq_row not
      intro registers
      rw [Test.holds_not, Test.holds_equal]
  | decrement | increment | shiftRight | shiftLeft | flipBit | setBit | clearBit =>
      exact update_eq_row _

end Opcode

end StackMachine
