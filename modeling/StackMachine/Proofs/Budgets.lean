import StackMachine.Run
import StackMachine.Proofs.Values
import Mathlib.Data.ENat.Basic

/-!
# Limits

A limit allows as many instructions as its ceiling says, and a NaN allows none. So one that is
a whole number allows exactly that many, and both zeros allow none.
-/

namespace StackMachine

set_option autoImplicit false

theorem Ratio.ceiling_of_whole {r : Ratio} (positive : 0 < r.denominator)
    (whole : r.isWhole = true) : r.ceiling = r.floor := by
  have divides : r.numerator % r.denominator = 0 := eq_of_beq whole
  obtain ⟨quotient, product⟩ := Nat.dvd_of_mod_eq_zero divides
  rw [ceiling, floor, product, Nat.mul_div_cancel_left quotient positive,
    Nat.add_sub_assoc positive, Nat.mul_add_div positive,
    Nat.div_eq_of_lt (Nat.sub_lt positive Nat.one_pos), Nat.add_zero]

theorem budget_of_whole {limit : Double} {count : Nat} (whole : limit.whole? = some (count : Int)) :
    budget? (some limit) = some count := by
  rw [Double.whole?] at whole
  split at whole
  · rename_i finite
    rw [Bool.and_eq_true] at finite
    have size : limit.withSign limit.size.floor = (count : Int) := Option.some.inj whole
    have number := Double.not_nan_of_finite finite.1
    have ceiling : limit.size.ceiling = limit.size.floor :=
      Ratio.ceiling_of_whole (BinaryFormat.denominator_pos _ _) finite.2
    cases sign : limit.negative with
    | true =>
        have zero : count = 0 := by
          simp only [Double.withSign, sign, if_true] at size
          omega
        simp only [budget?, sign, Bool.or_true, if_true, zero]
    | false =>
        have same : limit.size.floor = count := by
          simp only [Double.withSign, sign] at size
          omega
        simp only [budget?, number, sign, finite.1, ceiling, same, Bool.or_self, if_true]
        rfl
  · cases whole

end StackMachine
