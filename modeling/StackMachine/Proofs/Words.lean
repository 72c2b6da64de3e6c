import StackMachine.Proofs.Entries
import Mathlib.Data.Int.ModEq

/-!
# Words as integers

The arithmetic of words is that of the integers, reduced to the range of a word. Shifts multiply
and divide by a power of two, and the operations on bits change one bit and no other. Operands
are taken as they are before anything is written, so a register may address itself or hold its
own count.
-/

namespace StackMachine

set_option autoImplicit false

namespace Cell

variable {a b c : Cell} {i : Int}

/-- The cell holds the one integer of 32 bits that is congruent to the given one. -/
structure IsResidue (c : Cell) (i : Int) : Prop where
  least : -2 ^ 31 ≤ c.int
  greatest : c.int < 2 ^ 31
  congruent : c.int ≡ i [ZMOD 2 ^ 32]
  alone : ∀ j : Int, -2 ^ 31 ≤ j → j < 2 ^ 31 → j ≡ i [ZMOD 2 ^ 32] → j = c.int

/-- The bit, or the number of places to shift by, that a count stands for. -/
def position (count : Cell) : Nat := (count.int % 32).toNat

/-- A bit of one cell is changed in the other, and the rest are the same. -/
def ChangesBit (before after : Cell) (n : Nat) (change : Bool → Bool) : Prop :=
  ∀ k (below : k < 32), after.bits[k] = if k = n then change before.bits[k] else before.bits[k]

theorem is_residue_of_bmod (reduced : c.int = i.bmod (2 ^ 32)) : c.IsResidue i := by
  have congruent : c.int ≡ i [ZMOD 2 ^ 32] := by
    rw [reduced]
    exact Int.bmod_emod
  have least : -2 ^ 31 ≤ c.int := c.bits.le_toInt
  have greatest : c.int < 2 ^ 31 := c.bits.toInt_lt
  refine ⟨least, greatest, congruent, ?_⟩
  intro j low high same
  have together : j % 2 ^ 32 = c.int % 2 ^ 32 := same.trans congruent.symm
  omega

theorem residue_of_int (i : Int) : (ofInt i).IsResidue i :=
  is_residue_of_bmod (BitVec.toInt_ofInt ..)

/-- A word forgets what is reduced. -/
theorem of_int_eq_of_modeq {i j : Int} (same : i ≡ j [ZMOD 2 ^ 32]) : ofInt i = ofInt j := by
  apply int_injective
  have left : (ofInt i).int = i.bmod (2 ^ 32) := BitVec.toInt_ofInt ..
  have right : (ofInt j).int = j.bmod (2 ^ 32) := BitVec.toInt_ofInt ..
  have reduced : i % ((2 ^ 32 : Nat) : Int) = j % ((2 ^ 32 : Nat) : Int) := same
  rw [left, right, ← Int.emod_bmod, reduced, Int.emod_bmod]

theorem add_of_int (i j : Int) : (ofInt i).add (ofInt j) = ofInt (i + j) :=
  congrArg mk (BitVec.ofInt_add ..).symm

theorem sub_of_int (i j : Int) : (ofInt i).sub (ofInt j) = ofInt (i - j) := by
  have difference : BitVec.ofInt 32 (i - j) = BitVec.ofInt 32 i - BitVec.ofInt 32 j := by
    rw [Int.sub_eq_add_neg, BitVec.ofInt_add, BitVec.ofInt_neg, BitVec.sub_eq_add_neg]
  exact congrArg mk difference.symm

theorem mul_of_int (i j : Int) : (ofInt i).mul (ofInt j) = ofInt (i * j) :=
  congrArg mk (BitVec.ofInt_mul ..).symm

theorem increment_of_int (i : Int) : (ofInt i).increment = ofInt (i + 1) := add_of_int i 1

theorem decrement_of_int (i : Int) : (ofInt i).decrement = ofInt (i - 1) := sub_of_int i 1

theorem residue_add (a b : Cell) : (a.add b).IsResidue (a.int + b.int) :=
  is_residue_of_bmod (BitVec.toInt_add ..)

theorem residue_sub (a b : Cell) : (a.sub b).IsResidue (a.int - b.int) :=
  is_residue_of_bmod BitVec.toInt_sub

theorem residue_mul (a b : Cell) : (a.mul b).IsResidue (a.int * b.int) :=
  is_residue_of_bmod (BitVec.toInt_mul ..)

theorem residue_increment (c : Cell) : c.increment.IsResidue (c.int + 1) :=
  residue_add c ⟨1⟩

theorem residue_decrement (c : Cell) : c.decrement.IsResidue (c.int - 1) :=
  residue_sub c ⟨1⟩

theorem position_lt (count : Cell) : count.position < 32 := by
  rw [position]
  omega

theorem place_eq_position (count : Cell) : count.place = count.position := by
  rw [place, position, int, BitVec.toInt_eq_toNat_cond]
  omega

/-- The power of two that a shift multiplies by is negative in the last place, but not modulo
the size of a word. -/
theorem residue_shift_left (c count : Cell) :
    (c.shiftLeft count).IsResidue (c.int * 2 ^ count.position) := by
  have below := count.position_lt
  apply is_residue_of_bmod
  have product : (c.shiftLeft count).int =
      (c.int * (BitVec.twoPow 32 count.position).toInt).bmod (2 ^ 32) := by
    rw [shiftLeft, place_eq_position, int, BitVec.shiftLeft_eq_mul_twoPow, BitVec.toInt_mul]
    rfl
  have power : (BitVec.twoPow 32 count.position).toInt =
      ((2 : Int) ^ count.position).bmod (2 ^ 32) := by
    rw [BitVec.toInt_eq_toNat_bmod, BitVec.toNat_twoPow_of_lt below]
    norm_cast
  rw [product, power, Int.mul_bmod_bmod]

theorem int_shift_right (c count : Cell) :
    (c.shiftRight count).int = Int.fdiv c.int (2 ^ count.position) := by
  have nonneg : (0 : Int) ≤ 2 ^ count.position := Int.pow_nonneg (by decide)
  rw [Int.fdiv_eq_ediv_of_nonneg _ nonneg, shiftRight, place_eq_position, int,
    BitVec.toInt_sshiftRight, Int.shiftRight_eq_div_pow]
  norm_cast

theorem get_bit (count : Cell) {k : Nat} (below : k < 32) :
    count.bit[k] = decide (k = count.position) := by
  simp only [bit, place_eq_position, ← BitVec.twoPow_eq, BitVec.getElem_twoPow]

theorem changes_flip_bit (c count : Cell) :
    c.ChangesBit (c.flipBit count) count.position fun bit => !bit := by
  intro k below
  rw [flipBit, BitVec.getElem_xor, get_bit]
  by_cases same : k = count.position
  · rw [if_pos same, decide_eq_true same, Bool.xor_true]
  · rw [if_neg same, decide_eq_false same, Bool.xor_false]

theorem changes_set_bit (c count : Cell) :
    c.ChangesBit (c.setBit count) count.position fun _ => true := by
  intro k below
  rw [setBit, BitVec.getElem_or, get_bit]
  by_cases same : k = count.position
  · rw [if_pos same, decide_eq_true same, Bool.or_true]
  · rw [if_neg same, decide_eq_false same, Bool.or_false]

theorem changes_clear_bit (c count : Cell) :
    c.ChangesBit (c.clearBit count) count.position fun _ => false := by
  intro k below
  rw [clearBit, BitVec.getElem_and, BitVec.getElem_not, get_bit]
  by_cases same : k = count.position
  · rw [if_pos same, decide_eq_true same, Bool.not_true, Bool.and_false]
  · rw [if_neg same, decide_eq_false same, Bool.not_false, Bool.and_true]

/-- A bit that is changed twice in a place is changed once, by both changes in turn. -/
theorem ChangesBit.again {n : Nat} {first second : Bool → Bool}
    (early : a.ChangesBit b n first) (late : b.ChangesBit c n second) :
    a.ChangesBit c n (second ∘ first) := by
  intro k below
  rw [late k below, early k below]
  by_cases same : k = n
  · rw [if_pos same, if_pos same, if_pos same, Function.comp_apply]
  · rw [if_neg same, if_neg same, if_neg same]

/-- The change decides the cell. -/
theorem ChangesBit.unique {n : Nat} {change : Bool → Bool} (one : a.ChangesBit b n change)
    (other : a.ChangesBit c n change) : b = c := by
  have same : b.bits = c.bits := by
    apply BitVec.eq_of_getElem_eq
    intro k below
    rw [one k below, other k below]
  cases b
  cases c
  exact congrArg mk same

theorem ChangesBit.refl (c : Cell) (n : Nat) : c.ChangesBit c n id := by
  intro k below
  split <;> rfl

end Cell

/-- The operations that put one cell on the stack for two that they take off. -/
inductive Arithmetic where
  | add
  | sub
  | mul

namespace Arithmetic

def opcode : Arithmetic → Opcode
  | .add => .add
  | .sub => .sub
  | .mul => .mul

def value (i j : Int) : Arithmetic → Int
  | .add => i + j
  | .sub => i - j
  | .mul => i * j

def word : Arithmetic → Cell → Cell → Cell
  | .add => Cell.add
  | .sub => Cell.sub
  | .mul => Cell.mul

theorem row_eq (operation : Arithmetic) :
    operation.opcode.row = Opcode.combineRow operation.word := by
  cases operation <;> rfl

theorem residue_word (operation : Arithmetic) (a b : Cell) :
    (operation.word a b).IsResidue (operation.value a.int b.int) := by
  cases operation with
  | add => exact Cell.residue_add a b
  | sub => exact Cell.residue_sub a b
  | mul => exact Cell.residue_mul a b

end Arithmetic

namespace Stack

variable (stack : Stack)

/-- The cell that comes off first, and the one after it. A cell that is missing counts as zero. -/
def upper : Cell := stack.toList.getLastD .zero

def lower : Cell := stack.toList.dropLast.getLastD .zero

/-- What is left when both are off. -/
def remainder : List Cell := stack.toList.dropLast.dropLast

end Stack

theorem Sheet.perform_combine (f : Cell → Cell → Cell) {sheet : Sheet}
    (room : sheet.cells.dropLast.dropLast.length < sheet.capacity) :
    performAll (Opcode.combineRow f) sheet =
      .ok () { sheet with
        registers :=
          Function.update (Function.update sheet.registers .arg0 (sheet.cells.getLastD .zero))
            .arg1 (sheet.cells.dropLast.getLastD .zero)
        cells := sheet.cells.dropLast.dropLast ++
          [f (sheet.cells.getLastD .zero) (sheet.cells.dropLast.getLastD .zero)]
        events := sheet.events ++ missed sheet.cells ++ missed sheet.cells.dropLast } := by
  have apart : Register.arg0 ≠ Register.arg1 := by decide
  let popped : Sheet := { sheet with
    registers :=
      Function.update (Function.update sheet.registers .arg0 (sheet.cells.getLastD .zero))
        .arg1 (sheet.cells.dropLast.getLastD .zero)
    cells := sheet.cells.dropLast.dropLast
    events := sheet.events ++ missed sheet.cells ++ missed sheet.cells.dropLast }
  have accepted := @push_accepted popped room
  simp only [Opcode.combineRow, perform_all_cons, perform_store, perform_push, fetch, put,
    bind_entry, pop_entry, write_entry, read_entry, pure_entry, Function.update_self,
    Function.update_of_ne apart]
  rw [accepted]
  rfl

/-- The operations that replace the register they are given the address of. -/
inductive Revision where
  | increment
  | decrement
  | shiftLeft
  | shiftRight
  | flipBit
  | setBit
  | clearBit

namespace Revision

def opcode : Revision → Opcode
  | .increment => .increment
  | .decrement => .decrement
  | .shiftLeft => .shiftLeft
  | .shiftRight => .shiftRight
  | .flipBit => .flipBit
  | .setBit => .setBit
  | .clearBit => .clearBit

/-- What becomes of a register, given the count in the second argument register. -/
def Makes (before count after : Cell) : Revision → Prop
  | .increment => after.IsResidue (before.int + 1)
  | .decrement => after.IsResidue (before.int - 1)
  | .shiftLeft => after.IsResidue (before.int * 2 ^ count.position)
  | .shiftRight => after.int = Int.fdiv before.int (2 ^ count.position)
  | .flipBit => before.ChangesBit after count.position fun bit => !bit
  | .setBit => before.ChangesBit after count.position fun _ => true
  | .clearBit => before.ChangesBit after count.position fun _ => false

def word : Revision → Cell → Cell → Cell
  | .increment => fun c _ => c.increment
  | .decrement => fun c _ => c.decrement
  | .shiftLeft => Cell.shiftLeft
  | .shiftRight => Cell.shiftRight
  | .flipBit => Cell.flipBit
  | .setBit => Cell.setBit
  | .clearBit => Cell.clearBit

theorem execute_eq (revision : Revision) :
    revision.opcode.execute = Opcode.update revision.word := by
  cases revision <;> rfl

theorem makes_word (revision : Revision) (before count : Cell) :
    revision.Makes before count (revision.word before count) := by
  cases revision with
  | increment => exact before.residue_increment
  | decrement => exact before.residue_decrement
  | shiftLeft => exact before.residue_shift_left count
  | shiftRight => exact before.int_shift_right count
  | flipBit => exact before.changes_flip_bit count
  | setBit => exact before.changes_set_bit count
  | clearBit => exact before.changes_clear_bit count

end Revision

namespace Opcode

variable {s done : State} {r : Register} {f : Cell → Cell → Cell}

theorem update_run (f : Cell → Cell → Cell) (addressed : (s.registers.get .arg0).int = r.val) :
    update f s =
      .ok () { s with
        registers := s.registers.set r (f (s.registers.get r) (s.registers.get .arg1)) } := by
  have found : Register.ofInt? (s.registers.get .arg0).int = some r := by
    rw [addressed, Register.ofInt?, dif_pos ⟨Int.natCast_nonneg _, r.isLt⟩]
    rfl
  simp only [update, Action.bind_run, Action.target_run, found, Action.read_run, Action.write_run]

/-- An update that leaves its address and its count can be made again, on what it has made. -/
theorem update_again (addressed : (s.registers.get .arg0).int = r.val)
    (updated : update f s = .ok () done)
    (address_kept : done.registers.get .arg0 = s.registers.get .arg0)
    (count_kept : done.registers.get .arg1 = s.registers.get .arg1) :
    update f done =
      .ok () { s with
        registers := s.registers.set r
          (f (f (s.registers.get r) (s.registers.get .arg1)) (s.registers.get .arg1)) } := by
  rw [← address_kept] at addressed
  rw [update_run f addressed, count_kept]
  rw [address_kept] at addressed
  rw [update_run f addressed] at updated
  cases updated
  rw [Registers.set_set, Registers.get_set_same]

theorem flip_again (addressed : (s.registers.get .arg0).int = r.val)
    (flipped : flipBit.execute s = .ok () done)
    (address_kept : done.registers.get .arg0 = s.registers.get .arg0)
    (count_kept : done.registers.get .arg1 = s.registers.get .arg1) :
    flipBit.execute done = .ok () s := by
  let count := s.registers.get .arg1
  have twice : ((s.registers.get r).flipBit count).flipBit count = s.registers.get r := by
    have early := (s.registers.get r).changes_flip_bit count
    have late := ((s.registers.get r).flipBit count).changes_flip_bit count
    have unchanged : (fun bit => !bit) ∘ (fun bit => !bit) = id := funext Bool.not_not
    have both := early.again late
    rw [unchanged] at both
    exact both.unique (.refl _ _)
  have again := update_again addressed flipped address_kept count_kept
  rw [twice, Registers.set_get] at again
  exact again

/-- What is done twice and does no more than once leaves the state of the first time. -/
theorem fixed_again {change : Bool → Bool} (addressed : (s.registers.get .arg0).int = r.val)
    (updated : update f s = .ok () done)
    (address_kept : done.registers.get .arg0 = s.registers.get .arg0)
    (count_kept : done.registers.get .arg1 = s.registers.get .arg1)
    (changes : ∀ c count : Cell, c.ChangesBit (f c count) count.position change)
    (settled : change ∘ change = change) : update f done = .ok () done := by
  let count := s.registers.get .arg1
  have once : f (f (s.registers.get r) count) count = f (s.registers.get r) count := by
    have both := (changes (s.registers.get r) count).again (changes _ count)
    rw [settled] at both
    exact both.unique (changes _ count)
  have again := update_again addressed updated address_kept count_kept
  rw [once, ← update_run f addressed, updated] at again
  exact again

end Opcode

/-- The arithmetic of the machine is exact modulo the size of a word, whatever the operands are
and wherever they stand, and its operations on bits change the one bit they are given. -/
theorem words_are_exact :
    (∀ (operation : Arithmetic) (s : State), s.stack.WellFormed → 0 < s.stack.capacity →
      ∃ done c, operation.opcode.execute s = .ok () done ∧
        done.stack.toList = s.stack.remainder ++ [c] ∧
        c.IsResidue (operation.value s.stack.upper.int s.stack.lower.int)) ∧
      (∀ (revision : Revision) (s : State) (r : Register),
        (s.registers.get .arg0).int = r.val →
        ∃ c, revision.opcode.execute s =
            .ok () { s with registers := s.registers.set r c } ∧
          revision.Makes (s.registers.get r) (s.registers.get .arg1) c) ∧
      ∀ (s done : State) (r : Register), (s.registers.get .arg0).int = r.val →
        done.registers.get .arg0 = s.registers.get .arg0 →
        done.registers.get .arg1 = s.registers.get .arg1 →
        (Opcode.flipBit.execute s = .ok () done → Opcode.flipBit.execute done = .ok () s) ∧
          (Opcode.setBit.execute s = .ok () done → Opcode.setBit.execute done = .ok () done) ∧
          (Opcode.clearBit.execute s = .ok () done →
            Opcode.clearBit.execute done = .ok () done) := by
  refine ⟨?_, ?_, ?_⟩
  · intro operation s formed capacity
    have room : s.stack.remainder.length < s.stack.capacity := by
      have fits := formed.fits
      have length := Stack.length_to_list formed
      simp only [Stack.remainder, List.length_dropLast]
      omega
    have performed := @Sheet.perform_combine operation.word (Sheet.view s) room
    rw [← operation.row_eq] at performed
    obtain ⟨done, executed, -, left⟩ := Sheet.executed_of_performed formed performed
    exact ⟨done, _, executed, congrArg Sheet.cells left, operation.residue_word _ _⟩
  · intro revision s r addressed
    refine ⟨_, ?_, revision.makes_word (s.registers.get r) (s.registers.get .arg1)⟩
    rw [revision.execute_eq, Opcode.update_run _ addressed]
  · intro s done r addressed address_kept count_kept
    refine ⟨?_, ?_, ?_⟩
    · intro flipped
      exact Opcode.flip_again addressed flipped address_kept count_kept
    · intro updated
      exact Opcode.fixed_again addressed updated address_kept count_kept Cell.changes_set_bit rfl
    · intro updated
      exact Opcode.fixed_again addressed updated address_kept count_kept Cell.changes_clear_bit rfl

/-- The greatest integer twice on the stack, and minus one both in the register that is addressed
and as the count. -/
def extreme : State where
  registers := (Registers.zero.set .arg0 ⟨1⟩).set .arg1 (.ofInt (-1))
  stack := (((Stack.empty 2).push (.ofInt 2147483647)).2.push (.ofInt 2147483647)).2
  log := #[]

/-- The same with another register addressed, so that address and count stay. -/
def steadyExtreme : State := { extreme with registers := extreme.registers.set .arg0 ⟨4⟩ }

theorem words_are_exact_extreme :
    extreme.stack.WellFormed ∧ 0 < extreme.stack.capacity ∧
      (∃ done c, Opcode.mul.execute extreme = .ok () done ∧ done.stack.toList = [c] ∧
        c.int = 1) ∧
      (extreme.registers.get .arg0).int = (1 : Register).val ∧
      (∃ c, Opcode.shiftLeft.execute extreme =
          .ok () { extreme with registers := extreme.registers.set .arg1 c } ∧
        c.int = -2147483648) ∧
      (steadyExtreme.registers.get .arg0).int = (4 : Register).val ∧
      ∃ done, Opcode.flipBit.execute steadyExtreme = .ok () done ∧
        done.registers.get .arg0 = steadyExtreme.registers.get .arg0 ∧
        done.registers.get .arg1 = steadyExtreme.registers.get .arg1 ∧
        (done.registers.get 4).int = -2147483648 ∧
        Opcode.flipBit.execute done = .ok () steadyExtreme := by
  have formed : extreme.stack.WellFormed :=
    Stack.well_formed_push (Stack.well_formed_push (Stack.well_formed_empty 2) _) _
  have capacity : 0 < extreme.stack.capacity := by decide
  have itself : (extreme.registers.get .arg0).int = (1 : Register).val := by decide
  have elsewhere : (steadyExtreme.registers.get .arg0).int = (4 : Register).val := by decide
  obtain ⟨arithmetic, revisions, again⟩ := words_are_exact
  obtain ⟨done, product, multiplied, left, exact_product⟩ :=
    arithmetic .mul extreme formed capacity
  obtain ⟨shifted, moved, exact_shift⟩ := revisions .shiftLeft extreme 1 itself
  obtain ⟨flipped, first⟩ : ∃ done, Opcode.flipBit.execute steadyExtreme = .ok () done := ⟨_, rfl⟩
  have address_kept : flipped.registers.get .arg0 = steadyExtreme.registers.get .arg0 := by
    cases first
    rfl
  have count_kept : flipped.registers.get .arg1 = steadyExtreme.registers.get .arg1 := by
    cases first
    rfl
  refine ⟨formed, capacity, ⟨done, product, multiplied, left, ?_⟩, itself,
    ⟨shifted, moved, ?_⟩, elsewhere, flipped, first, address_kept, count_kept, ?_,
    (again steadyExtreme flipped 4 elsewhere address_kept count_kept).1 first⟩
  · exact (exact_product.alone 1 (by decide) (by decide) (by decide)).symm
  · exact (exact_shift.alone (-2147483648) (by decide) (by decide) (by decide)).symm
  · cases first
    rfl

end StackMachine
