import StackMachine.Instruction

/-!
# Operands in the argument registers

Staging gives some of the argument registers fixed cells and leaves all others as
they are. So does loading the bottom cell into one of them. A change of this kind
done twice is the change done once, which is why an instruction that is tried again
finds the operands that it found before.
-/

namespace StackMachine

set_option autoImplicit false

namespace Registers

theorem ext_get {a b : Registers} (same : ∀ r, a.get r = b.get r) : a = b := by
  cases a with
  | mk cells =>
      cases b with
      | mk others =>
          have equal : cells = others := by
            apply Vector.ext
            intro index bound
            exact same ⟨index, bound⟩
          rw [equal]

theorem get_set (registers : Registers) (r : Register) (c : Cell) (other : Register) :
    (registers.set r c).get other = if other = r then c else registers.get other := by
  by_cases same : other = r
  · rw [if_pos same, same, get_set_same]
  · rw [if_neg same, get_set_other _ _ _ _ (Ne.symm same)]

theorem set_get (registers : Registers) (r : Register) :
    registers.set r (registers.get r) = registers := by
  apply ext_get
  intro other
  rw [get_set]
  by_cases same : other = r
  · rw [if_pos same, same]
  · rw [if_neg same]

theorem set_set (registers : Registers) (r : Register) (first second : Cell) :
    (registers.set r first).set r second = registers.set r second := by
  apply ext_get
  intro other
  rw [get_set, get_set, get_set]
  split <;> rfl

/-- Gives some registers fixed cells and leaves the others. -/
def Overwrites (change : Registers → Registers) : Prop :=
  ∃ cells : Register → Option Cell, ∀ registers r,
    (change registers).get r = (cells r).getD (registers.get r)

namespace Overwrites

theorem refl : Overwrites id := ⟨fun _ => none, fun _ _ => rfl⟩

theorem set (r : Register) (c : Cell) : Overwrites fun registers => registers.set r c := by
  refine ⟨fun other => if other = r then some c else none, ?_⟩
  intro registers other
  rw [get_set]
  by_cases same : other = r
  · simp only [same, if_true, Option.getD_some]
  · simp only [same, if_false, Option.getD_none]

theorem comp {first second : Registers → Registers} (earlier : Overwrites first)
    (later : Overwrites second) : Overwrites fun registers => second (first registers) := by
  obtain ⟨cells, fixed⟩ := earlier
  obtain ⟨others, refixed⟩ := later
  refine ⟨fun r => (others r).or (cells r), ?_⟩
  intro registers r
  rw [refixed, fixed]
  cases later : others r with
  | none => simp only [later, Option.none_or, Option.getD_none]
  | some c => simp only [later, Option.some_or, Option.getD_some]

theorem again {change : Registers → Registers} (overwrites : Overwrites change)
    (registers : Registers) : change (change registers) = change registers := by
  obtain ⟨cells, fixed⟩ := overwrites
  apply ext_get
  intro r
  rw [fixed, fixed]
  cases cells r <;> rfl

end Overwrites

end Registers

namespace Instruction

theorem overwrites_fold (pairs : List (Register × Int)) :
    Registers.Overwrites fun registers =>
      pairs.foldl (fun staged pair => staged.set pair.1 (Cell.ofInt pair.2)) registers := by
  induction pairs with
  | nil => exact Registers.Overwrites.refl
  | cons pair rest ih =>
      have first := Registers.Overwrites.set pair.1 (Cell.ofInt pair.2)
      exact first.comp ih

theorem overwrites_stage (operands : List Int) : Registers.Overwrites (stage operands) :=
  overwrites_fold (Register.arguments.zip operands)

theorem get_fold_other {pairs : List (Register × Int)} {r : Register}
    (absent : ∀ pair ∈ pairs, pair.1 ≠ r) (registers : Registers) :
    (pairs.foldl (fun staged pair => staged.set pair.1 (Cell.ofInt pair.2)) registers).get r =
      registers.get r := by
  induction pairs generalizing registers with
  | nil => rfl
  | cons pair rest ih =>
      have others : ∀ other ∈ rest, other.1 ≠ r :=
        fun other member => absent other (List.mem_cons_of_mem pair member)
      have distinct : pair.1 ≠ r := absent pair List.mem_cons_self
      rw [List.foldl_cons, ih others, Registers.get_set_other _ _ _ _ distinct]

theorem get_fold_staged {places : List Register} (distinct : places.Nodup) {operands : List Int}
    {n : Nat} {r : Register} {i : Int} (place : places[n]? = some r)
    (given : operands[n]? = some i) (registers : Registers) :
    ((places.zip operands).foldl (fun staged pair => staged.set pair.1 (Cell.ofInt pair.2))
      registers).get r = Cell.ofInt i := by
  induction places generalizing operands n registers with
  | nil => cases place
  | cons first rest ih =>
      cases operands with
      | nil => cases given
      | cons operand others =>
          rw [List.zip_cons_cons, List.foldl_cons]
          cases n with
          | zero =>
              cases place
              cases given
              rw [get_fold_other, Registers.get_set_same]
              intro pair member same
              have within := (List.of_mem_zip member).1
              rw [same] at within
              exact (List.nodup_cons.mp distinct).1 within
          | succ n => exact ih (List.nodup_cons.mp distinct).2 place given _

/-- Every operand is found in the argument register of its place. -/
theorem get_stage {operands : List Int} {n : Nat} {r : Register} {i : Int}
    (place : Register.arguments[n]? = some r) (given : operands[n]? = some i)
    (registers : Registers) : (stage operands registers).get r = Cell.ofInt i :=
  get_fold_staged (by decide) place given registers

theorem arguments_below {r : Register} (argument : r ∈ Register.arguments) : r.val < 4 := by
  revert r
  decide

theorem get_stage_other (operands : List Int) (registers : Registers) {r : Register}
    (above : 4 ≤ r.val) : (stage operands registers).get r = registers.get r := by
  apply get_fold_other
  intro pair member
  have argument := (List.of_mem_zip member).1
  have below := arguments_below argument
  intro same
  rw [same] at below
  omega

end Instruction

end StackMachine
