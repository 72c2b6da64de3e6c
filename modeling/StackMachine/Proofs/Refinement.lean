import StackMachine.Proofs.Staging
import StackMachine.Proofs.Table

/-!
# Operations over a list

A sheet keeps the registers as a map and the live cells as a list, bounded by a
capacity. The table of operations is carried out on it directly: there are no slots
and no depth, a popped cell is gone, and an address is a number between zero and
fifteen or no address. Every operation of the machine does to the sheet what its row
says, with the same faults, the same lines and the same failures. The lines of a dump tell
the registers and the cells that it is of.
-/

namespace StackMachine

set_option autoImplicit false

structure Sheet where
  registers : Register → Cell
  capacity : Nat
  cells : List Cell
  events : List Event

namespace Sheet

abbrev Entry := EStateM Address Sheet

def note (event : Event) : Entry Unit :=
  modify fun sheet => { sheet with events := sheet.events ++ [event] }

def read (r : Register) : Entry Cell := do
  return (← get).registers r

def write (r : Register) (c : Cell) : Entry Unit :=
  modify fun sheet =>
    { sheet with registers := fun other => if other = r then c else sheet.registers other }

def target (r : Register) : Entry Register := do
  let number := (← read r).int
  if within : 0 ≤ number ∧ number < 16 then return ⟨number.toNat, by omega⟩
  else throw (.int number)

/-- A push on a full list is refused, and the refused cell is reported. -/
def push (c : Cell) : Entry Unit := do
  let sheet ← get
  if sheet.cells.length < sheet.capacity then set { sheet with cells := sheet.cells ++ [c] }
  else note (.fault (.overflow c))

def pop : Entry Cell := do
  let sheet ← get
  match sheet.cells.getLast? with
  | some c =>
      set { sheet with cells := sheet.cells.dropLast }
      return c
  | none =>
      note (.fault .underflow)
      return .zero

def bottom : Entry Cell := do
  return (← get).cells.headD .zero

def dumpLines (sheet : Sheet) : List String :=
  ["STACKPTR: " ++ Text.decimal ((sheet.cells.length : Int) - 1), "DUMP:",
    " ".intercalate (sheet.cells.map Cell.text), "REGISTERS:"] ++
  Register.all.map fun r => r.name ++ ": " ++ (sheet.registers r).text

def fetch : Source → Entry Cell
  | .register r => read r
  | .addressed r => do
      read (← target r)
  | .bottom => bottom
  | .popped => pop
  | .combined f left right => do
      return f (← fetch left) (← fetch right)

def put (c : Cell) : Place → Entry Unit
  | .register r => write r c
  | .addressed r => do
      write (← target r) c

def perform : Effect → Entry Unit
  | .store place source => do
      put (← fetch source) place
  | .push source => do
      push (← fetch source)
  | .discard => do
      let _ ← pop
  | .jumpIf test => do
      if test.holds (← get).registers then write .jump (← read .arg0)
  | .print => do
      note (.printed (← bottom).text)
  | .dump => do
      for line in dumpLines (← get) do
        note (.printed line)

/-- The effects of a row, one after the other, up to the first that fails. -/
def performAll : List Effect → Entry Unit
  | [] => pure ()
  | effect :: rest => do
      perform effect
      performAll rest

/-- What a state shows, without the row of slots. -/
def view (s : State) : Sheet :=
  ⟨s.registers.get, s.stack.capacity, s.stack.toList, s.log.toList⟩

def outcome {α : Type} : EStateM.Result Address State α → EStateM.Result Address Sheet α
  | .ok a after => .ok a (view after)
  | .error address stopped => .error address (view stopped)

end Sheet

/-- The stacks that pushes and pops make out of an empty one. -/
inductive Stack.Reached (capacity : Nat) : Stack → Prop
  | empty : Stack.Reached capacity (Stack.empty capacity)
  | push {stack : Stack} (before : Stack.Reached capacity stack) (c : Cell) :
      Stack.Reached capacity (stack.push c).2
  | pop {stack : Stack} (before : Stack.Reached capacity stack) :
      Stack.Reached capacity stack.pop.2.2

namespace Stack.Reached

variable {capacity : Nat} {stack : Stack}

theorem capacity_eq (reached : Stack.Reached capacity stack) : stack.capacity = capacity := by
  induction reached with
  | empty => simp [Stack.empty, Stack.capacity]
  | push before c same => rw [capacity_push, same]
  | pop before same => rw [capacity_pop, same]

theorem well_formed (reached : Stack.Reached capacity stack) : stack.WellFormed := by
  induction reached with
  | empty => exact well_formed_empty capacity
  | push before c formed => exact well_formed_push formed c
  | pop before formed => exact well_formed_pop formed

end Stack.Reached

namespace Sheet

/-- A dump letter by letter, but for the cells. -/
theorem dump_lines_spelled (sheet : Sheet) :
    dumpLines sheet =
      ["STACKPTR: " ++ Text.decimal ((sheet.cells.length : Int) - 1), "DUMP:",
        " ".intercalate (sheet.cells.map Cell.text), "REGISTERS:",
        "arg0: " ++ (sheet.registers 0).text, "arg1: " ++ (sheet.registers 1).text,
        "arg2: " ++ (sheet.registers 2).text, "arg3: " ++ (sheet.registers 3).text,
        "reg4: " ++ (sheet.registers 4).text, "reg5: " ++ (sheet.registers 5).text,
        "reg6: " ++ (sheet.registers 6).text, "jmp: " ++ (sheet.registers 7).text,
        "loop: " ++ (sheet.registers 8).text, "reg9: " ++ (sheet.registers 9).text,
        "regA: " ++ (sheet.registers 10).text, "regB: " ++ (sheet.registers 11).text,
        "regC: " ++ (sheet.registers 12).text, "regD: " ++ (sheet.registers 13).text,
        "regE: " ++ (sheet.registers 14).text, "regF: " ++ (sheet.registers 15).text] := rfl

/-- The cells of a dump are in one line, with a blank before each but the first. -/
theorem listed_cons (c : Cell) (cells : List Cell) :
    (" ".intercalate ((c :: cells).map Cell.text)).toList =
      c.text.toList ++
        if cells = [] then [] else ' ' :: (" ".intercalate (cells.map Cell.text)).toList := by
  cases cells with
  | nil => simp
  | cons next rest => simp [String.toList_intercalate]

/-- They are read from left to right. -/
theorem listed_injective {cells others : List Cell}
    (same : (" ".intercalate (cells.map Cell.text)).toList =
      (" ".intercalate (others.map Cell.text)).toList) : cells = others := by
  have nonempty : ∀ (c : Cell) (rest : List Cell),
      (" ".intercalate ((c :: rest).map Cell.text)).toList ≠ [] := by
    intro c rest
    rw [listed_cons, Cell.text_spelled]
    simp
  induction cells generalizing others with
  | nil =>
      cases others with
      | nil => rfl
      | cons d more => exact absurd same.symm (nonempty d more)
  | cons c rest ih =>
      cases others with
      | nil => exact absurd same (nonempty c rest)
      | cons d more =>
          rw [listed_cons, listed_cons] at same
          obtain ⟨rfl, behind⟩ := Cell.eq_of_text same
          congr 1
          split at behind
          · rename_i last
            split at behind
            · rename_i last_other
              rw [last, last_other]
            · cases behind
          · split at behind
            · cases behind
            · exact ih (List.cons.inj behind).2

/-- A dump tells all registers and all live cells. -/
theorem dump_lines_injective {sheet other : Sheet}
    (same : dumpLines sheet = dumpLines other) :
    sheet.registers = other.registers ∧ sheet.cells = other.cells := by
  simp only [dumpLines, List.cons_append, List.nil_append, List.cons.injEq, true_and] at same
  obtain ⟨-, row, registers⟩ := same
  refine ⟨?_, listed_injective (congrArg String.toList row)⟩
  funext r
  have line := List.map_inj_left.mp registers r (List.mem_finRange r)
  rw [String.append_right_inj] at line
  exact (Cell.eq_of_text (congrArg (·.toList ++ []) line)).1

def Settled {α : Type} : EStateM.Result Address State α → Prop
  | .ok _ after => after.stack.WellFormed
  | .error _ stopped => stopped.stack.WellFormed

/-- An action does to every state what an entry does to the sheet of that state. -/
structure Refines {α : Type} (action : Action α) (entry : Entry α) : Prop where
  agrees : ∀ s : State, s.stack.WellFormed → outcome (action s) = entry (view s)
  settles : ∀ s : State, s.stack.WellFormed → Settled (action s)

theorem bind_entry {α β : Type} (first : Entry α) (next : α → Entry β) (sheet : Sheet) :
    (first >>= next) sheet =
      match first sheet with
      | .ok a after => next a after
      | .error address stopped => .error address stopped := by
  change EStateM.bind first next sheet = _
  unfold EStateM.bind
  cases first sheet <;> rfl

theorem push_accepted {sheet : Sheet} (room : sheet.cells.length < sheet.capacity) (c : Cell) :
    push c sheet = .ok () { sheet with cells := sheet.cells ++ [c] } := by
  rw [push, bind_entry]
  change (if sheet.cells.length < sheet.capacity then _ else _ : Entry Unit) sheet = _
  rw [if_pos room]
  rfl

theorem push_refused {sheet : Sheet} (full : sheet.capacity ≤ sheet.cells.length) (c : Cell) :
    push c sheet =
      .ok () { sheet with events := sheet.events ++ [.fault (.overflow c)] } := by
  rw [push, bind_entry]
  change (if sheet.cells.length < sheet.capacity then _ else _ : Entry Unit) sheet = _
  rw [if_neg (by omega)]
  rfl

theorem pop_live {sheet : Sheet} {rest : List Cell} {c : Cell}
    (live : sheet.cells = rest ++ [c]) : pop sheet = .ok c { sheet with cells := rest } := by
  have last : sheet.cells.getLast? = some c := by rw [live, List.getLast?_concat]
  have others : sheet.cells.dropLast = rest := by rw [live, List.dropLast_concat]
  rw [← others, pop, bind_entry]
  change (match sheet.cells.getLast? with
    | some c => _
    | none => _ : Entry Cell) sheet = _
  rw [last]
  rfl

theorem pop_empty {sheet : Sheet} (empty : sheet.cells = []) :
    pop sheet = .ok .zero { sheet with events := sheet.events ++ [.fault .underflow] } := by
  have last : sheet.cells.getLast? = none := by rw [empty, List.getLast?_nil]
  rw [pop, bind_entry]
  change (match sheet.cells.getLast? with
    | some c => _
    | none => _ : Entry Cell) sheet = _
  rw [last]
  rfl

namespace Refines

theorem pure {α : Type} (a : α) : Refines (Pure.pure a) (Pure.pure a) where
  agrees := fun _ _ => rfl
  settles := fun _ formed => formed

theorem bind {α β : Type} {action : Action α} {entry : Entry α} {next : α → Action β}
    {follow : α → Entry β} (first : Refines action entry)
    (second : ∀ a, Refines (next a) (follow a)) :
    Refines (action >>= next) (entry >>= follow) where
  agrees := by
    intro s formed
    have agrees := first.agrees s formed
    have settles := first.settles s formed
    rw [Action.bind_run, bind_entry, ← agrees]
    cases result : action s with
    | ok a after =>
        rw [result] at settles
        exact (second a).agrees after settles
    | error address stopped => rfl
  settles := by
    intro s formed
    have settles := first.settles s formed
    rw [Action.bind_run]
    cases result : action s with
    | ok a after =>
        rw [result] at settles
        exact (second a).settles after settles
    | error address stopped =>
        rw [result] at settles
        exact settles

/-- What comes after a state has been looked at may use what the state shows. -/
theorem look {α : Type} {next : State → Action α} {follow : Sheet → Entry α}
    (second : ∀ s : State, s.stack.WellFormed → Refines (next s) (follow (view s))) :
    Refines (get >>= next) (get >>= follow) where
  agrees := by
    intro s formed
    rw [Action.bind_run, Action.get_run]
    exact (second s formed).agrees s formed
  settles := by
    intro s formed
    rw [Action.bind_run, Action.get_run]
    exact (second s formed).settles s formed

theorem read (r : Register) : Refines (Action.read r) (Sheet.read r) where
  agrees := fun _ _ => rfl
  settles := fun _ formed => formed

theorem write (r : Register) (c : Cell) : Refines (Action.write r c) (Sheet.write r c) where
  agrees := by
    intro s formed
    rw [Action.write_run]
    simp only [outcome, view, funext (Registers.get_set s.registers r c)]
    rfl
  settles := fun _ formed => formed

theorem emit (event : Event) : Refines (Action.emit event) (Sheet.note event) where
  agrees := by
    intro s formed
    rw [Action.emit_run]
    simp only [outcome, view, Array.toList_push]
    rfl
  settles := fun _ formed => formed

theorem target (r : Register) : Refines (Action.target r) (Sheet.target r) where
  agrees := by
    intro s formed
    rw [Action.target_run, Sheet.target, bind_entry]
    change _ = (if within : 0 ≤ (s.registers.get r).int ∧ (s.registers.get r).int < 16 then
      Pure.pure (⟨(s.registers.get r).int.toNat, by omega⟩ : Register)
      else throw (.int (s.registers.get r).int) : Entry Register) (view s)
    by_cases within : 0 ≤ (s.registers.get r).int ∧ (s.registers.get r).int < 16
    · have bounds : 0 ≤ (s.registers.get r).int ∧ (s.registers.get r).int.toNat < 16 := by omega
      rw [dif_pos within, Register.ofInt?, dif_pos bounds]
      rfl
    · have outside : ¬(0 ≤ (s.registers.get r).int ∧ (s.registers.get r).int.toNat < 16) := by
        omega
      rw [dif_neg within, Register.ofInt?, dif_neg outside]
      rfl
  settles := by
    intro s formed
    rw [Action.target_run]
    cases Register.ofInt? (s.registers.get r).int <;> exact formed

theorem bottom : Refines Action.bottom Sheet.bottom where
  agrees := by
    intro s formed
    rw [Action.bottom_run, Stack.bottom_eq formed]
    rfl
  settles := fun _ formed => formed

theorem push (c : Cell) :
    Refines (do let _ ← Action.push c) (Sheet.push c) where
  agrees := by
    intro s formed
    have fits := formed.fits
    have length := Stack.length_to_list formed
    rw [Action.bind_run, Action.push_run]
    by_cases room : s.stack.depth < s.stack.capacity
    · have accepted : (s.stack.push c).1 = none := by
        rw [Stack.push, if_neg (by omega)]
      have short : (view s).cells.length < (view s).capacity := by
        change s.stack.toList.length < s.stack.capacity
        omega
      rw [push_accepted short, accepted]
      simp only [outcome, view, Action.pure_run, Stack.to_list_push room, Stack.capacity_push,
        Option.map_none, Option.toArray_none, Array.append_empty]
    · have full : s.stack.depth = s.stack.capacity := by omega
      have long : (view s).capacity ≤ (view s).cells.length := by
        change s.stack.capacity ≤ s.stack.toList.length
        omega
      rw [push_refused long, Stack.push_full full]
      simp only [outcome, view, Action.pure_run, Option.map_some, Option.toArray_some,
        Array.toList_append]
  settles := by
    intro s formed
    rw [Action.bind_run, Action.push_run]
    exact Stack.well_formed_push formed c

theorem pop : Refines Action.pop Sheet.pop where
  agrees := by
    intro s formed
    rw [Action.pop_run]
    by_cases live : 0 < s.stack.depth
    · have accepted : s.stack.pop.2.1 = none := by
        rw [Stack.pop]
        split
        · omega
        · rfl
      rw [pop_live (Stack.to_list_pop formed live), accepted]
      simp only [outcome, view, Stack.capacity_pop, Option.map_none, Option.toArray_none,
        Array.append_empty]
    · have depth : s.stack.depth = 0 := by omega
      have none : (view s).cells = [] := by
        change s.stack.slots.toList.take s.stack.depth = []
        rw [depth, List.take_zero]
      have popped : s.stack.pop = (.zero, some .underflow, s.stack) := by
        simp only [Stack.pop, depth]
      rw [pop_empty none, popped]
      simp only [outcome, view, Option.map_some, Option.toArray_some, Array.toList_append]
  settles := by
    intro s formed
    rw [Action.pop_run]
    exact Stack.well_formed_pop formed

theorem print_each (messages : List String) :
    Refines
      (forIn messages PUnit.unit fun line _ => do
        Action.print line
        Pure.pure (ForInStep.yield PUnit.unit))
      (forIn messages PUnit.unit fun line _ => do
        note (.printed line)
        Pure.pure (ForInStep.yield PUnit.unit)) := by
  induction messages with
  | nil => exact pure PUnit.unit
  | cons line rest ih =>
      rw [List.forIn_cons, List.forIn_cons]
      apply bind
      · exact bind (emit (.printed line)) fun _ => pure _
      · intro progress
        cases progress with
        | done value => exact pure value
        | yield _ => exact ih

theorem dump_lines {s : State} (formed : s.stack.WellFormed) :
    Opcode.dumpLines s = Sheet.dumpLines (view s) := by
  have length := Stack.length_to_list formed
  simp only [Opcode.dumpLines, Sheet.dumpLines, view, Stack.top, length]

theorem fetch (source : Source) : Refines source.fetch (Sheet.fetch source) := by
  induction source with
  | register r => exact read r
  | addressed r =>
      apply bind (target r)
      intro found
      exact read found
  | bottom => exact bottom
  | popped => exact pop
  | combined f left right left_refines right_refines =>
      apply bind left_refines
      intro first
      apply bind right_refines
      intro second
      exact pure (f first second)

theorem put (place : Place) (c : Cell) : Refines (place.put c) (Sheet.put c place) := by
  cases place with
  | register r => exact write r c
  | addressed r =>
      apply bind (target r)
      intro found
      exact write found c

theorem effect (effect : Effect) : Refines effect.act (Sheet.perform effect) := by
  cases effect with
  | store place source =>
      apply bind (fetch source)
      intro c
      exact put place c
  | push source =>
      apply bind (fetch source)
      intro c
      exact push c
  | discard =>
      apply bind pop
      intro _
      exact pure ()
  | jumpIf test =>
      apply look
      intro s formed
      change Refines (if test.holds s.registers.get then _ else _)
        (if test.holds s.registers.get then _ else _)
      by_cases holds : test.holds s.registers.get = true
      · rw [if_pos holds, if_pos holds]
        apply bind (read .arg0)
        intro c
        exact write .jump c
      · rw [if_neg holds, if_neg holds]
        exact pure ()
  | print =>
      apply bind bottom
      intro c
      exact emit (.printed c.text)
  | dump =>
      apply look
      intro s formed
      rw [dump_lines formed]
      apply bind (print_each _)
      intro _
      exact pure ()

/-- What holds of the effects holds of a whole row, by induction on the row. -/
theorem effects (row : List Effect) : Refines (Effect.actAll row) (Sheet.performAll row) := by
  induction row with
  | nil => exact pure ()
  | cons first rest ih =>
      apply bind (effect first)
      intro _
      exact ih

end Refines

/-- An operation on a stack that pushes and pops have made has the outcome that its row
has on the list of live cells. -/
theorem execute_refines_table (opcode : Opcode) {capacity : Nat} {stack : Stack}
    (reached : Stack.Reached capacity stack) (registers : Registers) (log : Array Event) :
    outcome (opcode.execute ⟨registers, stack, log⟩) =
      performAll opcode.row ⟨registers.get, capacity, stack.toList, log.toList⟩ := by
  have refines := Refines.effects opcode.row
  have agrees := refines.agrees ⟨registers, stack, log⟩ reached.well_formed
  rw [Opcode.execute_eq_row, agrees, view, reached.capacity_eq]

def lonely : Stack := ((Stack.empty 1).push ⟨5⟩).2

/-- A swap needs two cells. With one cell and room for one, it misses the second cell
and then has no room to put it back. -/
theorem execute_refines_table_swap :
    Stack.Reached 1 lonely ∧
      ∃ registers, outcome (Opcode.swap.execute ⟨.zero, lonely, #[]⟩) =
        .ok () ⟨registers, 1, [⟨5⟩], [.fault .underflow, .fault (.overflow .zero)]⟩ := by
  have reached : Stack.Reached 1 lonely := .push .empty ⟨5⟩
  exact ⟨reached, _, (execute_refines_table .swap reached .zero #[]).trans rfl⟩

end Sheet

end StackMachine
