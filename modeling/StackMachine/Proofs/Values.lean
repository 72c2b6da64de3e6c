import StackMachine.Number.Double
import Mathlib.Algebra.Order.Field.Power
import Mathlib.Algebra.Order.Floor.Semifield
import Mathlib.Data.Rat.Floor
import Mathlib.Tactic.FieldSimp
import Mathlib.Tactic.Linarith
import Mathlib.Tactic.Positivity
import Mathlib.Tactic.Ring

/-!
# Values of numbers

Quotients and patterns stand for rational numbers. Greater patterns have greater values,
and rounding gives the pattern whose value is nearest, the even one of two that are as near.
A value that has a pattern is therefore rounded to it, in whatever way it is written as a
quotient.
-/

namespace StackMachine

set_option autoImplicit false

namespace Ratio

variable {r : Ratio}

/-- The number that a quotient stands for. -/
def toRat (r : Ratio) : ℚ := r.numerator / r.denominator

theorem to_rat_of_nat (n : Nat) : (ofNat n).toRat = n := by
  rw [toRat, ofNat, Nat.cast_one, div_one]

theorem to_rat_nonneg (r : Ratio) : 0 ≤ r.toRat := by
  rw [toRat]
  positivity

theorem to_rat_scale (r : Ratio) {base : Nat} (positive : 0 < base) (exponent : Int) :
    (r.scale base exponent).toRat = r.toRat * (base : ℚ) ^ exponent := by
  have nonzero : (base : ℚ) ≠ 0 := by positivity
  obtain ⟨n, rfl | rfl⟩ := exponent.eq_nat_or_neg
  · have down : (-(n : Int)).toNat = 0 := by omega
    simp only [toRat, scale, Int.toNat_natCast, down, Nat.pow_eq, Nat.pow_zero, Nat.mul_one,
      Nat.cast_mul, Nat.cast_pow, zpow_natCast]
    ring
  · have up : (-(n : Int)).toNat = 0 := by omega
    simp only [toRat, scale, neg_neg, Int.toNat_natCast, up, Nat.pow_eq, Nat.pow_zero,
      Nat.mul_one, Nat.cast_mul, Nat.cast_pow, zpow_neg, zpow_natCast]
    field_simp

theorem floor_eq (r : Ratio) : r.floor = ⌊r.toRat⌋₊ := by
  rw [toRat, Nat.floor_div_natCast, Nat.floor_natCast, floor]

theorem is_whole_of_value {n : Nat} (positive : 0 < r.denominator) (value : r.toRat = n) :
    r.isWhole = true := by
  have denominator : (r.denominator : ℚ) ≠ 0 := by positivity
  rw [toRat, div_eq_iff denominator] at value
  have multiple : r.numerator = n * r.denominator := by exact_mod_cast value
  rw [isWhole, beq_iff_eq, multiple, Nat.mul_mod_left]

theorem at_least_power_iff (positive : 0 < r.denominator) (exponent : Int) :
    r.atLeastPower 2 exponent = true ↔ (2 : ℚ) ^ exponent ≤ r.toRat := by
  have power : (0 : ℚ) < 2 ^ exponent := by positivity
  have scaled := r.to_rat_scale Nat.two_pos (-exponent)
  have denominator : (0 : ℚ) < (r.scale 2 (-exponent)).denominator := by
    have down : 0 < Nat.pow 2 (- -exponent).toNat := Nat.pow_pos Nat.two_pos
    exact_mod_cast Nat.mul_pos positive down
  rw [Nat.cast_ofNat, zpow_neg, ← div_eq_mul_inv] at scaled
  rw [← one_le_div power, ← scaled, toRat, one_le_div denominator, atLeastPower, decide_eq_true_eq,
    Nat.cast_le, scale, neg_neg]

/-- A ratio is between the quotients of the powers around its terms. -/
theorem bounds_of_log2 (nonzero : r.numerator ≠ 0) (positive : 0 < r.denominator) :
    (2 : ℚ) ^ ((r.numerator.log2 : Int) - r.denominator.log2 - 1) ≤ r.toRat ∧
      r.toRat < (2 : ℚ) ^ ((r.numerator.log2 : Int) - r.denominator.log2 + 1) := by
  have denominator : (0 : ℚ) < r.denominator := by positivity
  have two : (2 : ℚ) ≠ 0 := two_ne_zero
  have low : (2 : ℚ) ^ r.numerator.log2 ≤ r.numerator := by
    exact_mod_cast Nat.log2_self_le nonzero
  have high : (r.numerator : ℚ) < 2 ^ (r.numerator.log2 + 1) := by
    exact_mod_cast Nat.lt_log2_self
  have low_below : (2 : ℚ) ^ r.denominator.log2 ≤ r.denominator := by
    exact_mod_cast Nat.log2_self_le positive.ne'
  have high_below : (r.denominator : ℚ) < 2 ^ (r.denominator.log2 + 1) := by
    exact_mod_cast Nat.lt_log2_self
  constructor
  · rw [toRat, le_div_iff₀ denominator]
    calc
      (2 : ℚ) ^ ((r.numerator.log2 : Int) - r.denominator.log2 - 1) * r.denominator
          ≤ (2 : ℚ) ^ ((r.numerator.log2 : Int) - r.denominator.log2 - 1) *
              2 ^ (r.denominator.log2 + 1) := by gcongr
      _ = (2 : ℚ) ^ r.numerator.log2 := by
          rw [← zpow_natCast, ← zpow_natCast, ← zpow_add₀ two]
          congr 1
          push_cast
          ring
      _ ≤ r.numerator := low
  · rw [toRat, div_lt_iff₀ denominator]
    calc
      (r.numerator : ℚ) < 2 ^ (r.numerator.log2 + 1) := high
      _ = (2 : ℚ) ^ ((r.numerator.log2 : Int) - r.denominator.log2 + 1) *
            2 ^ r.denominator.log2 := by
          rw [← zpow_natCast, ← zpow_natCast, ← zpow_add₀ two]
          congr 1
          push_cast
          ring
      _ ≤ (2 : ℚ) ^ ((r.numerator.log2 : Int) - r.denominator.log2 + 1) * r.denominator := by
          gcongr

theorem log2_bounds (nonzero : r.numerator ≠ 0) (positive : 0 < r.denominator) :
    (2 : ℚ) ^ r.log2 ≤ r.toRat ∧ r.toRat < (2 : ℚ) ^ (r.log2 + 1) := by
  obtain ⟨low, high⟩ := bounds_of_log2 nonzero positive
  have reached := at_least_power_iff positive ((r.numerator.log2 : Int) - r.denominator.log2)
  rw [log2]
  split
  · rename_i above
    exact ⟨reached.mp above, high⟩
  · rename_i below
    rw [reached, not_le] at below
    exact ⟨low, by rwa [sub_add_cancel]⟩

/-- The nearest natural number is half a unit away at most, and even where it is that far. -/
theorem nearest_close (positive : 0 < r.denominator) :
    |(r.nearest : ℚ) - r.toRat| ≤ 1 / 2 ∧
      (|(r.nearest : ℚ) - r.toRat| = 1 / 2 → r.nearest % 2 = 0) := by
  have denominator : (0 : ℚ) < r.denominator := by positivity
  let fraction : ℚ := (r.numerator % r.denominator : Nat) / r.denominator
  have value : r.toRat = r.floor + fraction := by
    have parts : (r.numerator : ℚ) =
        r.denominator * r.floor + (r.numerator % r.denominator : Nat) := by
      exact_mod_cast (Nat.div_add_mod r.numerator r.denominator).symm
    rw [toRat, parts, add_div, mul_div_cancel_left₀ _ denominator.ne']
  have nonneg : 0 ≤ fraction := by positivity
  have below : fraction < 1 := by
    rw [div_lt_one denominator]
    exact_mod_cast Nat.mod_lt r.numerator positive
  have less : 2 * (r.numerator % r.denominator) < r.denominator ↔ fraction < 1 / 2 := by
    rw [div_lt_div_iff₀ denominator two_pos, one_mul, mul_comm]
    norm_cast
  have more : r.denominator < 2 * (r.numerator % r.denominator) ↔ 1 / 2 < fraction := by
    rw [div_lt_div_iff₀ two_pos denominator, one_mul, mul_comm _ (2 : ℚ)]
    norm_cast
  have down : |(r.floor : ℚ) - r.toRat| = fraction := by
    rw [value, sub_add_cancel_left, abs_neg, abs_of_nonneg nonneg]
  have up : |((r.floor + 1 : Nat) : ℚ) - r.toRat| = 1 - fraction := by
    rw [value, Nat.cast_succ, add_sub_add_left_eq_sub, abs_of_pos (sub_pos.mpr below)]
  simp only [nearest, less, more]
  split
  · rw [down]
    exact ⟨by linarith, fun half => by linarith⟩
  · split
    · rw [up]
      exact ⟨by linarith, fun half => by linarith⟩
    · split
      · rename_i even
        rw [down]
        exact ⟨by linarith, fun _ => even⟩
      · rw [up]
        exact ⟨by linarith, fun _ => by omega⟩

/-- No natural number is nearer, and one that is as near leaves the even one to be taken. -/
theorem nearest_is_nearest (positive : 0 < r.denominator) (n : Nat) :
    |(r.nearest : ℚ) - r.toRat| ≤ |(n : ℚ) - r.toRat| ∧
      (n ≠ r.nearest → |(r.nearest : ℚ) - r.toRat| = |(n : ℚ) - r.toRat| →
        r.nearest % 2 = 0) := by
  obtain ⟨close, even⟩ := nearest_close positive
  by_cases same : n = r.nearest
  · exact ⟨by rw [same], fun other => absurd same other⟩
  · have apart : (1 : ℚ) ≤ |(n : ℚ) - r.nearest| := by
      have integers : 1 ≤ |(n : Int) - r.nearest| := Int.one_le_abs (by omega)
      exact_mod_cast integers
    have around : |(n : ℚ) - r.nearest| ≤ |(n : ℚ) - r.toRat| + |(r.nearest : ℚ) - r.toRat| := by
      rw [abs_sub_comm (r.nearest : ℚ)]
      exact abs_sub_le _ _ _
    exact ⟨by linarith, fun _ tie => even (by linarith)⟩

end Ratio

namespace BinaryFormat

variable {format : BinaryFormat} {significand steps m n : Nat} {q : ℚ}

/-- The value that a magnitude stands for. Infinity has that of the place past the greatest
finite magnitude. -/
def toRat (format : BinaryFormat) (magnitude : Nat) : ℚ :=
  format.significand magnitude * (2 : ℚ) ^ format.exponent magnitude

theorem denominator_pos (format : BinaryFormat) (magnitude : Nat) :
    0 < (format.value magnitude).denominator := by
  have down : 0 < Nat.pow 2 (-format.exponent magnitude).toNat := Nat.pow_pos Nat.two_pos
  simpa only [value, Ratio.ofNat, Ratio.scale, Nat.one_mul] using down

theorem hidden_pos (format : BinaryFormat) : 0 < format.hidden := Nat.pow_pos Nat.two_pos

theorem to_rat_value (format : BinaryFormat) (magnitude : Nat) :
    (format.value magnitude).toRat = format.toRat magnitude := by
  rw [value, Ratio.to_rat_scale _ Nat.two_pos, Ratio.to_rat_of_nat, toRat, Nat.cast_ofNat]

/-- A significand and the number of its last place, from the smallest place on. -/
structure Parts (format : BinaryFormat) (significand steps : Nat) : Prop where
  within : significand ≤ 2 * format.hidden
  placed : steps = 0 ∨ format.hidden ≤ significand

/-- A significand that fills up its places stands for the first one of the next place. -/
theorem Parts.to_rat (parts : format.Parts significand steps) :
    format.toRat (significand + steps * format.hidden) =
      significand * (2 : ℚ) ^ (format.minExponent + steps) := by
  have positive := format.hidden_pos
  obtain ⟨within, placed⟩ := parts
  rcases Nat.lt_or_ge significand format.hidden with small | normal
  · have none : steps = 0 := placed.resolve_right (Nat.not_le_of_lt small)
    rw [none, Nat.zero_mul, Nat.add_zero, toRat, BinaryFormat.significand, if_pos small, exponent,
      Nat.div_eq_of_lt small]
  · have large : ¬significand + steps * format.hidden < format.hidden := by omega
    rcases Nat.lt_or_eq_of_le within with less | full
    · have rest : (significand + steps * format.hidden) % format.hidden =
          significand - format.hidden := by
        rw [Nat.add_mul_mod_self_right, Nat.mod_eq_sub_mod normal, Nat.mod_eq_of_lt (by omega)]
      have one : significand / format.hidden = 1 := Nat.div_eq_of_lt_le (by omega) (by omega)
      have field : (significand + steps * format.hidden) / format.hidden = steps + 1 := by
        rw [Nat.add_mul_div_right _ _ positive, one, Nat.add_comm]
      have whole : format.hidden + (significand - format.hidden) = significand := by omega
      rw [toRat, BinaryFormat.significand, if_neg large, exponent, rest, field, whole,
        Nat.add_sub_cancel]
    · have multiple : significand + steps * format.hidden = (steps + 2) * format.hidden := by
        rw [full]
        ring
      rw [multiple] at large ⊢
      rw [toRat, BinaryFormat.significand, if_neg large, exponent, Nat.mul_mod_left,
        Nat.mul_div_cancel _ positive, full]
      have next : format.minExponent + ((steps + 2 - 1 : Nat) : Int) =
          format.minExponent + steps + 1 := by omega
      rw [next, zpow_add_one₀ two_ne_zero]
      push_cast
      ring

theorem exists_parts (format : BinaryFormat) (m : Nat) :
    ∃ significand steps, format.Parts significand steps ∧ significand < 2 * format.hidden ∧
      m = significand + steps * format.hidden := by
  have positive := format.hidden_pos
  rcases Nat.lt_or_ge m format.hidden with small | normal
  · exact ⟨m, 0, ⟨by omega, .inl rfl⟩, by omega, by omega⟩
  · have less : m % format.hidden < format.hidden := Nat.mod_lt _ positive
    have field : 1 ≤ m / format.hidden := (Nat.one_le_div_iff positive).mpr normal
    refine ⟨format.hidden + m % format.hidden, m / format.hidden - 1,
      ⟨by omega, .inr (by omega)⟩, by omega, ?_⟩
    have whole : format.hidden * (m / format.hidden) + m % format.hidden = m := Nat.div_add_mod ..
    have first : (m / format.hidden - 1) * format.hidden + format.hidden =
        format.hidden * (m / format.hidden) := by
      rw [← Nat.succ_mul, Nat.succ_eq_add_one, Nat.sub_add_cancel field, Nat.mul_comm]
    omega

/-- Greater magnitudes stand for greater values. -/
theorem to_rat_strict_mono (format : BinaryFormat) : StrictMono format.toRat := by
  apply strictMono_nat_of_lt_succ
  intro m
  obtain ⟨significand, steps, parts, less, same⟩ := format.exists_parts m
  have next : format.Parts (significand + 1) steps :=
    ⟨less, parts.placed.imp_right fun hidden => by omega⟩
  have after : m + 1 = significand + 1 + steps * format.hidden := by omega
  have power : (0 : ℚ) < 2 ^ (format.minExponent + steps) := by positivity
  rw [after, next.to_rat, same, parts.to_rat]
  gcongr
  omega

/-- The magnitude is the nearest to a value, and the even one where another is as near. -/
structure IsNearest (format : BinaryFormat) (q : ℚ) (m : Nat) : Prop where
  within : m ≤ format.infinity
  nearest : ∀ n, n ≤ format.infinity → |format.toRat m - q| ≤ |format.toRat n - q|
  even : ∀ n, n ≤ format.infinity → n ≠ m → |format.toRat m - q| = |format.toRat n - q| →
    m % 2 = 0

/-- How a value is rounded while there is no greatest magnitude. -/
structure Rounded (format : BinaryFormat) (q : ℚ) (significand steps : Nat) : Prop where
  parts : format.Parts significand steps
  nearest : ∀ n : Nat, |significand * (2 : ℚ) ^ (format.minExponent + steps) - q| ≤
    |n * (2 : ℚ) ^ (format.minExponent + steps) - q|
  even : ∀ n : Nat, n ≠ significand →
    |significand * (2 : ℚ) ^ (format.minExponent + steps) - q| =
      |n * (2 : ℚ) ^ (format.minExponent + steps) - q| → significand % 2 = 0
  normal : steps = 0 ∨ format.hidden * (2 : ℚ) ^ (format.minExponent + steps) ≤ q

theorem exists_rounded (format : BinaryFormat) {r : Ratio} (nonzero : r.numerator ≠ 0)
    (positive : 0 < r.denominator) :
    ∃ significand steps, format.Rounded r.toRat significand steps ∧
      format.round r = min (significand + steps * format.hidden) format.infinity := by
  let place := max (r.log2 - format.fractionWidth) format.minExponent
  let steps := (place - format.minExponent).toNat
  let scaled := r.scale 2 (-place)
  have least : format.minExponent ≤ place := le_max_right _ _
  have place_eq : format.minExponent + steps = place := by omega
  have two : (2 : ℚ) ≠ 0 := two_ne_zero
  have unit : (0 : ℚ) < 2 ^ place := by positivity
  have hidden : (format.hidden : ℚ) = 2 ^ format.fractionWidth := by
    rw [BinaryFormat.hidden, Nat.pow_eq, Nat.cast_pow, Nat.cast_ofNat]
  have denominator : 0 < scaled.denominator := Nat.mul_pos positive (Nat.pow_pos Nat.two_pos)
  have value : scaled.toRat * 2 ^ place = r.toRat := by
    rw [Ratio.to_rat_scale _ Nat.two_pos, Nat.cast_ofNat, mul_assoc, ← zpow_add₀ two,
      neg_add_cancel, zpow_zero, mul_one]
  have away : ∀ n : Nat,
      |n * (2 : ℚ) ^ place - r.toRat| = |(n : ℚ) - scaled.toRat| * 2 ^ place := by
    intro n
    rw [← value, ← sub_mul, abs_mul, abs_of_pos unit]
  obtain ⟨low, high⟩ := Ratio.log2_bounds nonzero positive
  have above : r.toRat < 2 * format.hidden * 2 ^ place := by
    calc
      r.toRat < 2 ^ (r.log2 + 1) := high
      _ ≤ 2 ^ (1 + (format.fractionWidth : Int) + place) := by
          apply zpow_le_zpow_right₀ one_le_two
          omega
      _ = 2 * format.hidden * 2 ^ place := by
          rw [zpow_add₀ two, zpow_add₀ two, zpow_one, zpow_natCast, hidden]
  have normal : steps = 0 ∨ format.hidden * (2 : ℚ) ^ place ≤ r.toRat := by
    rcases Nat.eq_zero_or_pos steps with none | some
    · exact .inl none
    · right
      calc
        format.hidden * (2 : ℚ) ^ place = 2 ^ ((format.fractionWidth : Int) + place) := by
            rw [zpow_add₀ two, zpow_natCast, hidden]
        _ = 2 ^ r.log2 := by
            congr 1
            omega
        _ ≤ r.toRat := low
  rw [← value] at above normal
  have below_full : scaled.toRat < (2 * format.hidden : Nat) := by
    push_cast
    exact lt_of_mul_lt_mul_right above unit.le
  refine ⟨scaled.nearest, steps, ⟨⟨?_, ?_⟩, ?_, ?_, ?_⟩, ?_⟩
  · have full := (Ratio.nearest_is_nearest denominator (2 * format.hidden)).1
    rw [abs_of_pos (sub_pos.mpr below_full)] at full
    have less := (le_abs_self _).trans full
    have rounded : (scaled.nearest : ℚ) ≤ (2 * format.hidden : Nat) := by linarith
    exact_mod_cast rounded
  · refine normal.imp_right fun reached => ?_
    have above_hidden := le_of_mul_le_mul_right reached unit
    have first := (Ratio.nearest_is_nearest denominator format.hidden).1
    rw [abs_sub_comm (format.hidden : ℚ), abs_of_nonneg (sub_nonneg.mpr above_hidden)] at first
    have more := (neg_abs_le _).trans' (neg_le_neg first)
    have rounded : (format.hidden : ℚ) ≤ scaled.nearest := by linarith
    exact_mod_cast rounded
  · intro n
    rw [place_eq, away, away]
    exact mul_le_mul_of_nonneg_right (Ratio.nearest_is_nearest denominator n).1 unit.le
  · intro n other tie
    rw [place_eq, away, away] at tie
    exact (Ratio.nearest_is_nearest denominator n).2 other (mul_right_cancel₀ unit.ne' tie)
  · rw [place_eq, ← value]
    exact normal
  · rw [round, if_neg nonzero]

/-- A magnitude is a multiple of the last place, or below all that are normal there. -/
theorem on_grid_or_below (format : BinaryFormat) (steps n : Nat) :
    (∃ k : Nat, format.toRat n = k * (2 : ℚ) ^ (format.minExponent + steps)) ∨
      steps ≠ 0 ∧ format.toRat n < format.hidden * (2 : ℚ) ^ (format.minExponent + steps) := by
  obtain ⟨significand, own, parts, less, same⟩ := format.exists_parts n
  rw [same, parts.to_rat]
  rcases Nat.lt_or_ge own steps with lower | upper
  · refine .inr ⟨by omega, ?_⟩
    calc
      significand * (2 : ℚ) ^ (format.minExponent + own)
          < (2 * format.hidden : Nat) * (2 : ℚ) ^ (format.minExponent + own) := by gcongr
      _ = format.hidden * (2 : ℚ) ^ (format.minExponent + own + 1) := by
          rw [zpow_add_one₀ two_ne_zero]
          push_cast
          ring
      _ ≤ format.hidden * (2 : ℚ) ^ (format.minExponent + steps) := by
          have next : format.minExponent + own + 1 ≤ format.minExponent + steps := by omega
          gcongr
          exact one_le_two
  · refine .inl ⟨significand * 2 ^ (own - steps), ?_⟩
    have split : format.minExponent + own =
        ((own - steps : Nat) : Int) + (format.minExponent + steps) := by
      omega
    rw [split, zpow_add₀ two_ne_zero, zpow_natCast]
    push_cast
    ring

theorem Rounded.nearest_of_all (rounded : format.Rounded q significand steps)
    (fraction : 0 < format.fractionWidth) (n : Nat) :
    |format.toRat (significand + steps * format.hidden) - q| ≤ |format.toRat n - q| ∧
      (n ≠ significand + steps * format.hidden →
        |format.toRat (significand + steps * format.hidden) - q| = |format.toRat n - q| →
        (significand + steps * format.hidden) % 2 = 0) := by
  have parity : format.hidden % 2 = 0 := by
    obtain ⟨others, width⟩ := Nat.exists_eq_succ_of_ne_zero fraction.ne'
    rw [hidden, width, Nat.pow_eq, Nat.pow_succ]
    exact Nat.mul_mod_left _ 2
  have even : significand % 2 = 0 → (significand + steps * format.hidden) % 2 = 0 := by
    intro even
    rw [Nat.add_mod, even, Nat.mul_mod, parity, Nat.mul_zero]
  have value := rounded.parts.to_rat
  rw [value]
  rcases format.on_grid_or_below steps n with ⟨k, on_grid⟩ | ⟨some, below⟩
  · rw [on_grid]
    refine ⟨rounded.nearest k, fun other tie => even (rounded.even k ?_ tie)⟩
    rintro rfl
    exact other (format.to_rat_strict_mono.injective (on_grid.trans value.symm))
  · have normal := rounded.normal.resolve_left some
    have first := rounded.nearest format.hidden
    rw [abs_sub_comm ((format.hidden : ℚ) * _), abs_of_nonneg (sub_nonneg.mpr normal)] at first
    have farther : |format.toRat n - q| = q - format.toRat n := by
      rw [abs_sub_comm, abs_of_pos (sub_pos.mpr (below.trans_le normal))]
    rw [farther]
    exact ⟨by linarith, fun _ tie => by linarith⟩

/-- What is not below infinity has no nearer magnitude. -/
theorem nearest_infinity (beyond : format.toRat format.infinity ≤ q) :
    format.IsNearest q format.infinity := by
  have away : |format.toRat format.infinity - q| = q - format.toRat format.infinity := by
    rw [abs_sub_comm, abs_of_nonneg (sub_nonneg.mpr beyond)]
  refine ⟨Nat.le_refl _, fun n within => ?_, fun n within other tie => ?_⟩
  · have lower := format.to_rat_strict_mono.monotone within
    rw [away, abs_sub_comm, abs_of_nonneg (sub_nonneg.mpr (lower.trans beyond))]
    linarith
  · have lower := format.to_rat_strict_mono (Nat.lt_of_le_of_ne within other)
    rw [away, abs_sub_comm, abs_of_nonneg (sub_nonneg.mpr (lower.le.trans beyond))] at tie
    linarith

/-- Rounding gives the nearest magnitude. -/
theorem round_nearest (format : BinaryFormat) (fraction : 0 < format.fractionWidth) {r : Ratio}
    (positive : 0 < r.denominator) : format.IsNearest r.toRat (format.round r) := by
  by_cases zero : r.numerator = 0
  · have value : r.toRat = 0 := by rw [Ratio.toRat, zero, Nat.cast_zero, zero_div]
    have least : format.toRat 0 = 0 := by
      rw [toRat, BinaryFormat.significand, if_pos format.hidden_pos, Nat.cast_zero, zero_mul]
    rw [value, round, if_pos zero]
    refine ⟨Nat.zero_le _, fun n _ => ?_, fun _ _ _ _ => rfl⟩
    rw [least, sub_zero, abs_zero]
    exact abs_nonneg _
  · obtain ⟨significand, steps, rounded, round_eq⟩ := format.exists_rounded zero positive
    have nearest := rounded.nearest_of_all fraction
    rw [round_eq]
    rcases le_or_gt (significand + steps * format.hidden) format.infinity with fits | exceeds
    · rw [Nat.min_eq_left fits]
      exact ⟨fits, fun n _ => (nearest n).1, fun n _ => (nearest n).2⟩
    · rw [Nat.min_eq_right exceeds.le]
      apply nearest_infinity
      by_contra below
      have greater := format.to_rat_strict_mono exceeds
      have near := (nearest format.infinity).1
      rw [not_le] at below
      rw [abs_of_pos (sub_pos.mpr below), abs_of_pos (sub_pos.mpr (below.trans greater))] at near
      linarith

theorem nearer_above {low high : ℚ} (less : low < high) :
    |high - q| ≤ |low - q| ↔ low + high ≤ 2 * q := by
  rcases abs_cases (high - q) with ⟨above, _⟩ | ⟨above, _⟩ <;>
    rcases abs_cases (low - q) with ⟨below, _⟩ | ⟨below, _⟩ <;>
      rw [above, below] <;> constructor <;> intro <;> linarith

theorem nearer_below {low high : ℚ} (less : low < high) :
    |low - q| ≤ |high - q| ↔ 2 * q ≤ low + high := by
  have mirrored := nearer_above (q := -q) (neg_lt_neg less)
  rw [neg_sub_neg, neg_sub_neg, abs_sub_comm q, abs_sub_comm q] at mirrored
  rw [mirrored]
  constructor <;> intro <;> linarith

/-- Greater values have greater magnitudes nearest to them. If they had not, both would be one
value in the middle of two even magnitudes, and the odd ones between these would be nearer. -/
theorem IsNearest.mono {p : ℚ} (lower : format.IsNearest p m) (upper : format.IsNearest q n)
    (le : p ≤ q) : m ≤ n := by
  by_contra greater
  rw [not_le] at greater
  have above := format.to_rat_strict_mono greater
  have near_lower := lower.nearest n upper.within
  have near_upper := upper.nearest m lower.within
  have high := (nearer_above above).mp near_lower
  have low := (nearer_below above).mp near_upper
  obtain rfl : p = q := by linarith
  have tie := near_lower.antisymm near_upper
  have even := lower.even n upper.within greater.ne tie
  have even_below := upper.even m lower.within greater.ne' tie.symm
  have between : n + 1 < m := by omega
  have nearer := lower.nearest (n + 1) (between.le.trans lower.within)
  have middle := (nearer_above (format.to_rat_strict_mono between)).mp nearer
  have next := format.to_rat_strict_mono (Nat.lt_succ_self n)
  rw [Nat.succ_eq_add_one] at next
  linarith

/-- What has a magnitude is nearest to no other. -/
theorem IsNearest.eq_of_value (nearest : format.IsNearest (format.toRat n) m)
    (within : n ≤ format.infinity) : m = n := by
  have near := nearest.nearest n within
  rw [sub_self, abs_zero] at near
  have same := sub_eq_zero.mp (abs_eq_zero.mp (near.antisymm (abs_nonneg _)))
  exact format.to_rat_strict_mono.injective same

/-- A number with no more binary digits than a significand has is the value of a magnitude,
that of its digits filled up with zeros. -/
theorem exists_double {exponent : Int} (short : n < 2 ^ 53) (low : -1022 ≤ exponent)
    (high : exponent ≤ 900) :
    ∃ m, m < double.infinity ∧ double.toRat m = n * (2 : ℚ) ^ exponent := by
  have hidden : double.hidden = 2 ^ 52 := rfl
  have greatest : double.infinity = 2047 * 2 ^ 52 := rfl
  have least : double.minExponent = -1074 := by decide
  by_cases zero : n = 0
  · refine ⟨0, by decide, ?_⟩
    rw [zero, Nat.cast_zero, zero_mul, toRat, BinaryFormat.significand, if_pos double.hidden_pos,
      Nat.cast_zero, zero_mul]
  · have length : n.log2 ≤ 52 := Nat.le_of_lt_succ ((Nat.log2_lt zero).mpr short)
    let filled := n * 2 ^ (52 - n.log2)
    let steps := (exponent + 1022 + n.log2).toNat
    have normal : 2 ^ 52 ≤ filled := by
      calc
        2 ^ 52 = 2 ^ n.log2 * 2 ^ (52 - n.log2) := by
            rw [← Nat.pow_add]
            congr 1
            omega
        _ ≤ filled := Nat.mul_le_mul_right _ (Nat.log2_self_le zero)
    have below : filled < 2 ^ 53 := by
      calc
        filled < 2 ^ (n.log2 + 1) * 2 ^ (52 - n.log2) :=
            Nat.mul_lt_mul_of_pos_right Nat.lt_log2_self (Nat.pow_pos Nat.two_pos)
        _ = 2 ^ 53 := by
            rw [← Nat.pow_add]
            congr 1
            omega
    have parts : double.Parts filled steps := ⟨by rw [hidden]; omega, .inr normal⟩
    have finite : filled + steps * 2 ^ 52 < double.infinity := by omega
    refine ⟨filled + steps * double.hidden, hidden ▸ finite, ?_⟩
    have place : double.minExponent + steps = exponent - (52 - n.log2 : Nat) := by omega
    have power : (2 : ℚ) ^ (52 - n.log2) ≠ 0 := by positivity
    have filled_up : (filled : ℚ) = n * 2 ^ (52 - n.log2) := by
      push_cast [filled]
      rfl
    rw [parts.to_rat, place, zpow_sub₀ two_ne_zero, zpow_natCast, filled_up]
    field_simp

end BinaryFormat

/-- A number without its fraction. -/
def truncated (q : ℚ) : ℤ := if q < 0 then ⌈q⌉ else ⌊q⌋

theorem truncated_of_nonneg {q : ℚ} (nonneg : 0 ≤ q) : truncated q = ⌊q⌋ := by
  rw [truncated, if_neg (not_lt.mpr nonneg)]

theorem truncated_neg {q : ℚ} (nonneg : 0 ≤ q) : truncated (-q) = -⌊q⌋ := by
  rw [truncated, Int.ceil_neg]
  split
  · rfl
  · have zero : q = 0 := by linarith
    rw [zero, neg_zero, Int.floor_zero, neg_zero]

namespace Double

variable {x : Double}

theorem negative_of_magnitude (sign : Bool) (n : Nat) : (ofMagnitude sign n).negative = sign :=
  BitVec.msb_cons

theorem magnitude_of_magnitude {n : Nat} (sign : Bool) (fits : n < 2 ^ 63) :
    (ofMagnitude sign n).magnitude = n := by
  rw [ofMagnitude, magnitude, BitVec.setWidth_cons, BitVec.toNat_ofNat, Nat.mod_eq_of_lt fits]

/-- The number that a finite pattern stands for. -/
def toRat (x : Double) : ℚ :=
  if x.negative then -BinaryFormat.double.toRat x.magnitude
  else BinaryFormat.double.toRat x.magnitude

theorem to_rat_size (x : Double) : x.size.toRat = BinaryFormat.double.toRat x.magnitude :=
  BinaryFormat.double.to_rat_value x.magnitude

theorem not_nan_of_finite (finite : x.isFinite = true) : x.isNaN = false := by
  have below : x.magnitude < BinaryFormat.double.infinity := of_decide_eq_true finite
  exact decide_eq_false (Nat.lt_asymm below)

theorem truncate_of_whole {i : Int} (whole : x.whole? = some i) : x.truncate? = some i := by
  rw [whole?] at whole
  split at whole
  · rename_i finite
    rw [truncate?, if_pos (Bool.and_eq_true_iff.mp finite).1]
    exact whole
  · cases whole

theorem truncate_eq (finite : x.isFinite = true) : x.truncate? = some (truncated x.toRat) := by
  have nonneg : 0 ≤ BinaryFormat.double.toRat x.magnitude := by
    rw [← to_rat_size]
    exact x.size.to_rat_nonneg
  have floor : (x.size.floor : Int) = ⌊BinaryFormat.double.toRat x.magnitude⌋ := by
    rw [Ratio.floor_eq, to_rat_size, Int.natCast_floor_eq_floor nonneg]
  rw [truncate?, if_pos finite, withSign, toRat, floor]
  cases x.negative with
  | true => simp only [if_true, truncated_neg nonneg]
  | false => simp only [Bool.false_eq_true, if_false, truncated_of_nonneg nonneg]

end Double

end StackMachine
