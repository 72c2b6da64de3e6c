import StackMachine.Text.Blank

/-!
# Decimal integers

The written form of a natural number has no leading zeros. Reading accepts any
non-empty run of ASCII digits with at most one sign before it, of any length.
-/

namespace StackMachine.Text

set_option autoImplicit false

/-- The shortest decimal form of a natural number. -/
def ofNat (n : Nat) : Text := Nat.toDigits 10 n

/-- A minus sign stands before a negative integer and nothing before another. -/
def ofInt (i : Int) : Text := if i < 0 then '-' :: ofNat i.natAbs else ofNat i.natAbs

def natural? (text : Text) : Option Nat :=
  if text ≠ [] ∧ text.all Char.isDigit then some (Nat.ofDigitChars 10 text 0) else none

def integer? : Text → Option Int
  | '+' :: digits => (natural? digits).map Int.ofNat
  | '-' :: digits => (natural? digits).map fun n => -Int.ofNat n
  | digits => (natural? digits).map Int.ofNat

def decimal (i : Int) : String := String.ofList (ofInt i)

theorem is_digit_of_mem_of_nat {n : Nat} {c : Char} (member : c ∈ ofNat n) :
    c.isDigit = true :=
  Nat.isDigit_of_mem_toDigits (by decide) (by decide) member

theorem natural_of_nat (n : Nat) : natural? (ofNat n) = some n := by
  have digits : (ofNat n).all Char.isDigit = true := by
    rw [List.all_eq_true]
    exact fun c member => is_digit_of_mem_of_nat member
  have nonempty : ofNat n ≠ [] := Nat.toDigits_ne_nil
  simp only [natural?, nonempty, digits, ne_eq, not_false_eq_true, and_self, if_true]
  exact congrArg some Nat.ofDigitChars_ten_toDigits

/-- An integer is read back from its decimal form. -/
theorem integer_of_int (i : Int) : integer? (ofInt i) = some i := by
  rw [ofInt]
  split
  · rw [integer?, natural_of_nat, Option.map_some]
    have same : -(i.natAbs : Int) = i := by omega
    exact congrArg some same
  · have same : (i.natAbs : Int) = i := by omega
    have read := natural_of_nat i.natAbs
    cases digits : ofNat i.natAbs with
    | nil => exact absurd digits Nat.toDigits_ne_nil
    | cons first rest =>
        have digit : first.isDigit = true := is_digit_of_mem_of_nat (digits ▸ List.mem_cons_self)
        rw [digits] at read
        unfold integer?
        split
        · rename_i plus
          cases plus
          cases digit
        · rename_i minus
          cases minus
          cases digit
        · rw [read]
          exact congrArg some same

theorem blank_not_mem_of_int (i : Int) : ' ' ∉ ofInt i := by
  have natural : ' ' ∉ ofNat i.natAbs := by
    intro member
    have digit := is_digit_of_mem_of_nat member
    cases digit
  rw [ofInt]
  split
  · simp [natural]
  · exact natural

end StackMachine.Text
