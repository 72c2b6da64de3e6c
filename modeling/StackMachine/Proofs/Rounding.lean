import StackMachine.Number.Numeral
import StackMachine.Proofs.Spelling
import StackMachine.Proofs.Values
import Mathlib.Data.Nat.Digits.Defs

/-!
# Integers as numbers

Rounding keeps the order of integers, and one with no more binary digits than a significand
has is not rounded at all. So an integer, whatever its length, can be read as a number first
and be held against bounds that are such integers after that.
-/

namespace StackMachine

set_option autoImplicit false

namespace Ratio

theorem floor_le_nearest (r : Ratio) : r.floor ≤ r.nearest ∧ r.nearest ≤ r.floor + 1 := by
  simp only [nearest]
  split
  · omega
  · split
    · omega
    · split <;> omega

theorem nearest_mono {a b d : Nat} (le : a ≤ b) : nearest ⟨a, d⟩ ≤ nearest ⟨b, d⟩ := by
  have floors : a / d ≤ b / d := Nat.div_le_div_right le
  rcases Nat.lt_or_eq_of_le floors with less | same
  · calc
      nearest ⟨a, d⟩ ≤ a / d + 1 := (floor_le_nearest ⟨a, d⟩).2
      _ ≤ b / d := less
      _ ≤ nearest ⟨b, d⟩ := (floor_le_nearest ⟨b, d⟩).1
  · have left : d * (a / d) + a % d = a := Nat.div_add_mod a d
    have right : d * (b / d) + b % d = b := Nat.div_add_mod b d
    rw [← same] at right
    have remainders : a % d ≤ b % d := by omega
    simp only [nearest, floor, ← same]
    grind

theorem nearest_whole {d : Nat} (positive : 0 < d) (n : Nat) : nearest ⟨n * d, d⟩ = n := by
  simp only [nearest, floor, Nat.mul_mod_left, Nat.mul_div_cancel n positive, Nat.mul_zero,
    if_pos positive]

theorem log2_of_nat {n : Nat} (nonzero : n ≠ 0) : (ofNat n).log2 = n.log2 := by
  have reached : (ofNat n).atLeastPower 2 n.log2 = true := by
    simpa [atLeastPower, ofNat] using Nat.log2_self_le nonzero
  have upper : ((ofNat n).numerator.log2 : Int) - (ofNat n).denominator.log2 = n.log2 := by
    have unit : Nat.log2 1 = 0 := by decide
    simp only [ofNat, unit, Nat.cast_zero, Int.sub_zero]
  simp only [log2, upper, reached, if_true]

end Ratio

namespace BinaryFormat

/-- The significand that an integer is rounded to. It can be one too many for its field, and
carries then. -/
def nearestSignificand (n : Nat) : Nat :=
  Ratio.nearest ⟨n * 2 ^ (52 - n.log2), 2 ^ (n.log2 - 52)⟩

theorem round_of_nat {n : Nat} (nonzero : n ≠ 0) :
    double.round (.ofNat n) =
      min (nearestSignificand n + (n.log2 + 1022) * 2 ^ 52) double.infinity := by
  have least : double.minExponent = -1074 := by decide
  have place : max ((n.log2 : Int) - double.fractionWidth) double.minExponent =
      (n.log2 : Int) - 52 := by
    have width : (double.fractionWidth : Int) = 52 := rfl
    rw [least, width]
    exact max_eq_left (by omega)
  have steps : ((n.log2 : Int) - 52 - double.minExponent).toNat = n.log2 + 1022 := by
    rw [least]
    omega
  have up : (-((n.log2 : Int) - 52)).toNat = 52 - n.log2 := by omega
  have down : (- -((n.log2 : Int) - 52)).toNat = n.log2 - 52 := by omega
  have numerator : (Ratio.ofNat n).numerator ≠ 0 := nonzero
  simp only [round, if_neg numerator, Ratio.log2_of_nat nonzero, place, steps, Ratio.scale, up,
    down, nearestSignificand]
  simp only [Ratio.ofNat, Nat.one_mul, Nat.pow_eq]
  rfl

theorem nearest_significand_bounds {n : Nat} (nonzero : n ≠ 0) :
    2 ^ 52 ≤ nearestSignificand n ∧ nearestSignificand n ≤ 2 ^ 53 := by
  have places : 52 + (n.log2 - 52) = n.log2 + (52 - n.log2) := by omega
  have below : 2 ^ 52 * 2 ^ (n.log2 - 52) ≤ n * 2 ^ (52 - n.log2) := by
    rw [← Nat.pow_add, places, Nat.pow_add]
    exact Nat.mul_le_mul_right _ (Nat.log2_self_le nonzero)
  have above : n * 2 ^ (52 - n.log2) ≤ 2 ^ 53 * 2 ^ (n.log2 - 52) := by
    have more : 53 + (n.log2 - 52) = n.log2 + 1 + (52 - n.log2) := by omega
    rw [← Nat.pow_add, more, Nat.pow_add]
    exact Nat.mul_le_mul_right _ (Nat.le_of_lt Nat.lt_log2_self)
  have positive : 0 < 2 ^ (n.log2 - 52) := Nat.pow_pos Nat.two_pos
  have lower := Ratio.nearest_mono (d := 2 ^ (n.log2 - 52)) below
  have upper := Ratio.nearest_mono (d := 2 ^ (n.log2 - 52)) above
  rw [Ratio.nearest_whole positive] at lower upper
  exact ⟨lower, upper⟩

theorem round_le_infinity (n : Nat) : double.round (.ofNat n) ≤ double.infinity :=
  (double.round_nearest (by decide) Nat.one_pos).within

theorem round_mono {m n : Nat} (le : m ≤ n) :
    double.round (.ofNat m) ≤ double.round (.ofNat n) := by
  have values : (Ratio.ofNat m).toRat ≤ (Ratio.ofNat n).toRat := by
    rw [Ratio.to_rat_of_nat, Ratio.to_rat_of_nat]
    exact_mod_cast le
  have lower := double.round_nearest (by decide) (r := Ratio.ofNat m) Nat.one_pos
  have upper := double.round_nearest (by decide) (r := Ratio.ofNat n) Nat.one_pos
  exact lower.mono upper values

/-- An integer that fits in a significand is the value of its magnitude. -/
theorem round_exact {n : Nat} (short : n < 2 ^ 53) :
    double.round (.ofNat n) < double.infinity ∧
      (double.value (double.round (.ofNat n))).floor = n ∧
      (double.value (double.round (.ofNat n))).isWhole = true := by
  obtain ⟨m, finite, same⟩ := @exists_double n 0 short (by decide) (by decide)
  rw [zpow_zero, mul_one] at same
  have nearest := double.round_nearest (by decide) (r := Ratio.ofNat n) Nat.one_pos
  rw [Ratio.to_rat_of_nat, ← same] at nearest
  have value := (double.to_rat_value m).trans same
  rw [nearest.eq_of_value finite.le]
  refine ⟨finite, ?_, Ratio.is_whole_of_value (double.denominator_pos m) value⟩
  rw [Ratio.floor_eq, value, Nat.floor_natCast]

/-- Short integers are told from all others. -/
theorem round_lt_round_iff {m n : Nat} (short : m < 2 ^ 52 ∨ n < 2 ^ 52) :
    double.round (.ofNat m) < double.round (.ofNat n) ↔ m < n := by
  constructor
  · intro less
    by_contra le
    exact absurd (round_mono (Nat.le_of_not_lt le)) (Nat.not_le_of_lt less)
  · intro less
    have next : m + 1 < 2 ^ 53 := by omega
    have distinct : double.round (.ofNat m) ≠ double.round (.ofNat (m + 1)) := by
      intro same
      have value := (round_exact (Nat.lt_of_succ_lt next)).2.1
      rw [same, (round_exact next).2.1] at value
      omega
    exact (Nat.lt_of_le_of_ne (round_mono (Nat.le_succ m)) distinct).trans_le (round_mono less)

end BinaryFormat

namespace Double

open BinaryFormat (double)

variable {sign other : Bool} {m n : Nat}

def signed (sign : Bool) (n : Nat) : Int := if sign then -n else n

/-- The number that an integer of this size is rounded to. -/
def rounded (sign : Bool) (n : Nat) : Double := ofMagnitude sign (double.round (.ofNat n))

/-- Where a number stands among the others: magnitudes are ordered as the values they stand
for, those of negative numbers the other way. -/
def rank (x : Double) : Int := signed x.negative x.magnitude

/-- A NaN is not below any number, nor is any below it. -/
def isBelow (x y : Double) : Bool := !x.isNaN && !y.isNaN && decide (x.rank < y.rank)

theorem negative_rounded : (rounded sign n).negative = sign := negative_of_magnitude ..

theorem magnitude_rounded : (rounded sign n).magnitude = double.round (.ofNat n) := by
  have room : double.infinity < 2 ^ 63 := by decide
  exact magnitude_of_magnitude sign ((BinaryFormat.round_le_infinity n).trans_lt room)

theorem is_nan_rounded : (rounded sign n).isNaN = false := by
  rw [isNaN, magnitude_rounded, decide_eq_false_iff_not]
  exact Nat.not_lt_of_le (BinaryFormat.round_le_infinity n)

theorem whole_rounded (short : n < 2 ^ 53) : (rounded sign n).whole? = some (signed sign n) := by
  obtain ⟨finite, floor, whole⟩ := BinaryFormat.round_exact short
  simp only [whole?, isFinite, size, withSign, magnitude_rounded, negative_rounded, finite, floor,
    whole, decide_true, Bool.and_self, if_true, signed]

theorem below_rounded_iff (short : m < 2 ^ 52 ∨ n < 2 ^ 52) :
    (rounded sign m).isBelow (rounded other n) = true ↔ signed sign m < signed other n := by
  have zero : double.round (.ofNat 0) = 0 := rfl
  have up := BinaryFormat.round_lt_round_iff short
  have down := BinaryFormat.round_lt_round_iff short.symm
  have positive_left := BinaryFormat.round_lt_round_iff (m := 0) (n := m) (.inl (by decide))
  have positive_right := BinaryFormat.round_lt_round_iff (m := 0) (n := n) (.inl (by decide))
  rw [zero] at positive_left positive_right
  simp only [isBelow, is_nan_rounded, Bool.not_false, Bool.true_and, decide_eq_true_eq, rank,
    negative_rounded, magnitude_rounded]
  cases sign <;> cases other <;> simp only [signed, Bool.false_eq_true, if_false, if_true] <;> omega

theorem of_int_eq_rounded (i : Int) : ofInt i = rounded (i < 0) i.natAbs := rfl

theorem signed_nat_abs (i : Int) : signed (i < 0) i.natAbs = i := by
  simp only [signed, decide_eq_true_eq]
  split <;> omega

theorem below_int_iff {bound : Int} (short : bound.natAbs < 2 ^ 52) :
    (rounded sign n).isBelow (ofInt bound) = true ↔ signed sign n < bound := by
  rw [of_int_eq_rounded, below_rounded_iff (.inr short), signed_nat_abs]

theorem int_below_iff {bound : Int} (short : bound.natAbs < 2 ^ 52) :
    (ofInt bound).isBelow (rounded sign n) = true ↔ bound < signed sign n := by
  rw [of_int_eq_rounded, below_rounded_iff (.inl short), signed_nat_abs]

end Double

namespace Numeral

open BinaryFormat (double)
open Symbolic (Literal Sign)

variable {digits : Text}

theorem binary_le_decimal (k : Nat) : 2 ^ (3 * k) ≤ 10 ^ k := by
  rw [Nat.pow_mul]
  exact Nat.pow_le_pow_left (by decide) k

/-- A form above the limit is that of an integer which is rounded to infinity as well. -/
theorem round_of_integer (n : Nat) : Decimal.round ⟨n, 0⟩ .double = double.round (.ofNat n) := by
  by_cases nonzero : n = 0
  · rw [nonzero]
    rfl
  · have small : ¬((0 : Int) + (Nat.toDigits 10 n).length < -400) := by omega
    have plain : Decimal.toRatio ⟨n, 0⟩ = .ofNat n := by
      simp [Decimal.toRatio, Ratio.scale, Ratio.ofNat]
    simp only [Decimal.round, Decimal.digits, nonzero, small, or_self, if_false, plain]
    split
    · rename_i long
      have large : 10 ^ 400 ≤ n := by
        by_contra less
        have length := Nat.toDigits_length 10 n 400 (by decide) (Nat.lt_of_not_le less)
        exact absurd length (by omega)
      have length : 1024 ≤ n.log2 := by
        rw [Nat.le_log2 nonzero]
        calc
          2 ^ 1024 ≤ 2 ^ (3 * 400) := Nat.pow_le_pow_right Nat.two_pos (by decide)
          _ ≤ 10 ^ 400 := binary_le_decimal 400
          _ ≤ n := large
      have greatest : double.infinity = 2047 * 2 ^ 52 := rfl
      have hidden := (BinaryFormat.nearest_significand_bounds nonzero).1
      rw [BinaryFormat.round_of_nat nonzero]
      omega
    · rfl

theorem decimal_of_digits {n : Nat} (read : Text.natural? digits = some n) :
    decimal? digits = some ⟨n, 0⟩ := by
  have decimal : ∀ c ∈ digits, c.isDigit = true := by
    rw [Text.natural?] at read
    split at read
    · rename_i legal
      exact List.all_eq_true.mp legal.2
    · cases read
  have taken : digits.takeWhile Char.isDigit = digits := List.takeWhile_eq_self_iff.mpr decimal
  have left : digits.dropWhile Char.isDigit = [] := List.dropWhile_eq_nil_iff.mpr decimal
  simp only [decimal?, taken, left, List.append_nil, read, exponent?, List.length_nil,
    Nat.cast_zero, Int.sub_zero]

theorem unsigned_of_digits {n : Nat} (sign : Bool) (read : Text.natural? digits = some n) :
    unsigned? sign digits = some (Double.rounded sign n) := by
  have finite : digits ≠ "Infinity".toList := by
    rintro rfl
    cases read
  rw [unsigned?, if_neg finite, decimal_of_digits read, Option.map_some, Double.ofDecimal,
    round_of_integer, Double.rounded]

def isMinus : Sign → Bool
  | .minus => true
  | _ => false

theorem apply_eq_signed (sign : Sign) (n : Nat) : sign.apply n = Double.signed (isMinus sign) n := by
  cases sign <;> rfl

/-- An integer reads as the number that it is rounded to, with the sign before it. -/
theorem read_of_literal (literal : Literal) :
    read? literal.text =
      some (Double.rounded (isMinus literal.sign) (Nat.ofDigitChars 10 literal.digits 0)) := by
  have clean := Symbolic.clean_of_literal literal
  have read := Symbolic.natural_of_literal literal
  have trimmed : Text.trim literal.text = literal.text := by
    have around := Text.trim_around Text.all_blank_nil clean.operand.solid clean.nonempty []
    rwa [List.append_nil, List.nil_append, Text.trim_end_all_blank Text.all_blank_nil,
      List.append_nil] at around
  rw [read?, trimmed]
  cases kind : literal.sign with
  | plus =>
      have spelled : literal.text = '+' :: literal.digits := by rw [Literal.text, kind]; rfl
      rw [spelled]
      exact unsigned_of_digits false read
  | minus =>
      have spelled : literal.text = '-' :: literal.digits := by rw [Literal.text, kind]; rfl
      rw [spelled]
      exact unsigned_of_digits true read
  | none =>
      have spelled : literal.text = literal.digits := by rw [Literal.text, kind]; rfl
      have decimal := List.all_eq_true.mp literal.decimal
      rw [spelled]
      have unsigned := unsigned_of_digits false read
      split
      · rename_i empty
        exact (literal.nonempty empty).elim
      · rename_i spelled
        exact absurd (decimal '+' (spelled ▸ List.mem_cons_self)) (by decide)
      · rename_i spelled
        exact absurd (decimal '-' (spelled ▸ List.mem_cons_self)) (by decide)
      · rename_i mark rest spelled
        have digit : mark.isDigit = true :=
          decimal mark (spelled ▸ List.mem_cons_of_mem '0' List.mem_cons_self)
        have no_base : ∀ letter : Char, letter.isDigit = false → mark ≠ letter := by
          rintro letter plain rfl
          rw [digit] at plain
          cases plain
        simp only [no_base 'x' rfl, no_base 'X' rfl, no_base 'o' rfl, no_base 'O' rfl,
          no_base 'b' rfl, no_base 'B' rfl, or_self, if_false]
        rw [← spelled]
        exact unsigned
      · exact unsigned

end Numeral

end StackMachine
