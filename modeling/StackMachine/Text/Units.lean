import StackMachine.Text.Blank

/-!
# Length in sixteen-bit units

Names are ranked by how many sixteen-bit units they take. A character outside
the basic plane takes two of them, every other character one.
-/

namespace StackMachine.Text

set_option autoImplicit false

def unitsOf (c : Char) : Nat := if c.toNat < 0x10000 then 1 else 2

def units : Text → Nat
  | [] => 0
  | c :: rest => unitsOf c + units rest

theorem length_le_units (text : Text) : text.length ≤ units text := by
  induction text with
  | nil => exact Nat.le_refl 0
  | cons c rest ih =>
      have one : 1 ≤ unitsOf c := by
        unfold unitsOf
        split <;> omega
      simp only [units, List.length_cons]
      omega

end StackMachine.Text
