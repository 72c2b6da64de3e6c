import StackMachine.Failure

/-!
# The operand stack

A fixed row of slots of which the lowest `depth` are live. A push on a full stack
is refused and a pop of an empty one yields zero; both are faults, reported to
the caller, and leave the stack as it was. Popped slots are cleared, so the
bottom slot of an empty stack reads as zero.
-/

namespace StackMachine

set_option autoImplicit false

inductive Fault where
  | overflow (refused : Cell)
  | underflow
deriving DecidableEq

structure Stack where
  slots : Array Cell
  depth : Nat

namespace Stack

def defaultCapacity : Nat := 256

def empty (capacity : Nat) : Stack := ⟨Array.replicate capacity .zero, 0⟩

/-- The greatest number of slots in a row. -/
def longest : Nat := 4294967295

/-- An empty stack of the requested capacity, which has to be a positive integer. One that is
greater than the length of any row is refused for that. -/
def ofCapacity (requested : Double) : Except Failure Stack :=
  match requested.whole? with
  | some capacity =>
      if 0 < capacity then
        if capacity ≤ longest then .ok (empty capacity.toNat) else .error .tooLong
      else .error (.capacity requested)
  | none => .error (.capacity requested)

theorem of_capacity_ok_iff {requested : Double} {stack : Stack} :
    ofCapacity requested = .ok stack ↔
      ∃ capacity : Nat, requested.whole? = some (capacity : Int) ∧ 0 < capacity ∧
        capacity ≤ longest ∧ stack = empty capacity := by
  constructor
  · intro made
    rw [ofCapacity] at made
    split at made
    · rename_i capacity whole
      split at made
      · rename_i positive
        split at made
        · rename_i fits
          cases made
          refine ⟨capacity.toNat, ?_, by omega, by omega, rfl⟩
          rw [whole, Int.toNat_of_nonneg (Int.le_of_lt positive)]
        · cases made
      · cases made
    · cases made
  · rintro ⟨capacity, whole, positive, fits, rfl⟩
    have above : 0 < (capacity : Int) := by omega
    have below : (capacity : Int) ≤ longest := by omega
    simp only [ofCapacity, whole, above, below, if_true, Int.toNat_natCast]

theorem of_capacity_too_long {requested : Double} {capacity : Nat}
    (whole : requested.whole? = some (capacity : Int)) (long : longest < capacity) :
    ofCapacity requested = .error .tooLong := by
  have above : 0 < (capacity : Int) := by omega
  have beyond : ¬(capacity : Int) ≤ longest := by omega
  simp only [ofCapacity, whole, above, beyond, if_true, if_false]

def capacity (stack : Stack) : Nat := stack.slots.size

/-- The index of the top cell, or `-1`. -/
def top (stack : Stack) : Int := stack.depth - 1

/-- The live cells, oldest first. -/
def toList (stack : Stack) : List Cell := stack.slots.toList.take stack.depth

def push (stack : Stack) (c : Cell) : Option Fault × Stack :=
  if stack.depth = stack.capacity then (some (.overflow c), stack)
  else (none, ⟨stack.slots.setIfInBounds stack.depth c, stack.depth + 1⟩)

def pop (stack : Stack) : Cell × Option Fault × Stack :=
  match stack.depth with
  | 0 => (.zero, some .underflow, stack)
  | rest + 1 =>
      (stack.slots.getD rest .zero, none, ⟨stack.slots.setIfInBounds rest .zero, rest⟩)

/-- The oldest cell, whatever the depth. -/
def bottom (stack : Stack) : Cell := stack.slots.getD 0 .zero

/-- The live cells fit into the row and every slot above them is clear. -/
structure WellFormed (stack : Stack) : Prop where
  fits : stack.depth ≤ stack.capacity
  clear : ∀ index, stack.depth ≤ index → stack.slots.getD index .zero = .zero

theorem well_formed_empty (capacity : Nat) : (empty capacity).WellFormed where
  fits := Nat.zero_le _
  clear := by
    intro index _
    simp only [empty, Array.getD_eq_getD_getElem?, Array.getElem?_replicate]
    split <;> rfl

theorem to_list_empty (capacity : Nat) : (empty capacity).toList = [] := by
  simp [toList, empty]

theorem length_to_list {stack : Stack} (wellFormed : stack.WellFormed) :
    stack.toList.length = stack.depth := by
  have fits : stack.depth ≤ stack.slots.toList.length := by
    simpa [capacity] using wellFormed.fits
  simp only [toList, List.length_take]
  omega

/-- A full stack is left as it was. -/
theorem push_full {stack : Stack} (full : stack.depth = stack.capacity) (c : Cell) :
    stack.push c = (some (.overflow c), stack) := by
  simp [push, full]

theorem capacity_push (stack : Stack) (c : Cell) :
    (stack.push c).2.capacity = stack.capacity := by
  unfold push
  split <;> simp [capacity]

theorem capacity_pop (stack : Stack) : stack.pop.2.2.capacity = stack.capacity := by
  unfold pop
  split <;> simp [capacity]

theorem well_formed_push {stack : Stack} (wellFormed : stack.WellFormed) (c : Cell) :
    (stack.push c).2.WellFormed := by
  unfold push
  split
  · exact wellFormed
  · rename_i room
    have fits := wellFormed.fits
    constructor
    · simp only [capacity, Array.size_setIfInBounds] at fits room ⊢
      omega
    · intro index above
      have later : stack.depth + 1 ≤ index := above
      have clear := wellFormed.clear index (by omega)
      have other : stack.depth ≠ index := by omega
      simpa [Array.getElem?_setIfInBounds_ne other] using clear

theorem well_formed_pop {stack : Stack} (wellFormed : stack.WellFormed) :
    stack.pop.2.2.WellFormed := by
  unfold pop
  split
  · exact wellFormed
  · rename_i rest depth
    have fits := wellFormed.fits
    constructor
    · simp only [capacity, Array.size_setIfInBounds] at fits ⊢
      omega
    · intro index above
      have later : rest ≤ index := above
      by_cases same : rest = index
      · subst same
        simp only [Array.getD_eq_getD_getElem?, Array.getElem?_setIfInBounds_self]
        split <;> rfl
      · have clear := wellFormed.clear index (by omega)
        simpa [Array.getElem?_setIfInBounds_ne same] using clear

/-- An accepted cell goes behind the live ones. -/
theorem to_list_push {stack : Stack} (room : stack.depth < stack.capacity) (c : Cell) :
    (stack.push c).2.toList = stack.toList ++ [c] := by
  have bound : stack.depth < stack.slots.toList.length := by simpa [capacity] using room
  have partly : stack.depth ≠ stack.capacity := by omega
  simp only [push, partly, if_false, toList, Array.toList_setIfInBounds]
  rw [List.take_add_one, List.take_set_of_le (Nat.le_refl _)]
  simp [List.getElem?_set_self bound]

/-- A pop takes the live cell that came last. -/
theorem to_list_pop {stack : Stack} (wellFormed : stack.WellFormed) (live : 0 < stack.depth) :
    stack.toList = stack.pop.2.2.toList ++ [stack.pop.1] := by
  have fits := wellFormed.fits
  unfold pop
  split
  · omega
  · rename_i rest depth
    have bound : rest < stack.slots.toList.length := by
      simp only [capacity] at fits
      simp
      omega
    simp only [toList, depth, Array.toList_setIfInBounds]
    rw [List.take_add_one, List.take_set_of_le (Nat.le_refl _)]
    simp at bound
    simp [bound]

/-- An empty stack shows zero at the bottom, whatever it has held. -/
theorem bottom_eq {stack : Stack} (wellFormed : stack.WellFormed) :
    stack.bottom = stack.toList.headD .zero := by
  by_cases live : stack.depth = 0
  · have clear := wellFormed.clear 0 (by omega)
    simp [bottom, toList, live, clear]
  · cases cells : stack.slots.toList with
    | nil =>
        have none : stack.slots = #[] := by simpa using cells
        simp [bottom, toList, none]
    | cons c rest =>
        have first : stack.slots[0]? = some c := by
          rw [← Array.getElem?_toList, cells]
          rfl
        obtain ⟨rest', depth⟩ := Nat.exists_eq_succ_of_ne_zero live
        simp [bottom, toList, cells, first, depth]

end Stack

end StackMachine
