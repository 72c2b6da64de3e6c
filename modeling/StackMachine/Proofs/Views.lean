import StackMachine.Proofs.Rounding
import StackMachine.Proofs.Values
import StackMachine.Proofs.Words

/-!
# Two views of a cell

Both views of a cell are of the same bits. Every value of the single format is one of the
double format, so widening is exact, and what has been widened is rounded to the pattern it
has come from. A quiet NaN keeps its payload on the way, since there is room for it.
-/

namespace StackMachine

set_option autoImplicit false

namespace BinaryFormat

variable {source target : BinaryFormat} {m x k : Nat}

theorem convert_finite (finite : m < source.infinity) :
    source.convert target m = target.round (source.value m) := by
  rw [convert, if_pos finite]

theorem convert_infinity : source.convert target source.infinity = target.infinity := by
  rw [convert, if_neg (Nat.lt_irrefl _), if_pos rfl]

theorem convert_nan (number : source.infinity < m) :
    source.convert target m =
      target.infinity +
        (m % source.hidden * target.hidden / source.hidden ||| target.quiet) := by
  rw [convert, if_neg (Nat.lt_asymm number), if_neg number.ne']

/-- The significands of the single format are shorter, and its last places are among those of
the double format. -/
theorem exists_wider (finite : m < single.infinity) :
    ∃ n, n < double.infinity ∧ double.toRat n = single.toRat m := by
  have hidden : single.hidden = 2 ^ 23 := rfl
  have greatest : single.infinity = 255 * 2 ^ 23 := rfl
  have least : single.minExponent = -149 := by decide
  obtain ⟨significand, steps, parts, less, same⟩ := single.exists_parts m
  rw [same, parts.to_rat]
  rw [hidden] at same less
  exact exists_double (by omega) (by omega) (by omega)

theorem widened (finite : m < single.infinity) :
    single.convert .double m < double.infinity ∧
      double.toRat (single.convert .double m) = single.toRat m := by
  obtain ⟨n, within, value⟩ := exists_wider finite
  have nearest := double.round_nearest (by decide) (single.denominator_pos m)
  rw [to_rat_value, ← value] at nearest
  rw [convert_finite finite, nearest.eq_of_value within.le]
  exact ⟨within, value⟩

theorem narrowed_nearest (finite : m < double.infinity) :
    single.IsNearest (double.toRat m) (double.convert .single m) := by
  have nearest := single.round_nearest (by decide) (double.denominator_pos m)
  rwa [to_rat_value, ← convert_finite finite] at nearest

theorem narrow_widened (finite : m < single.infinity) :
    double.convert .single (single.convert .double m) = m := by
  obtain ⟨within, value⟩ := widened finite
  have nearest := narrowed_nearest within
  rw [value] at nearest
  exact nearest.eq_of_value finite.le

/-- The leading bit of a number is set in it already. -/
theorem or_leading (low : 2 ^ k ≤ x) (high : x < 2 ^ (k + 1)) : x ||| 2 ^ k = x := by
  have rest : x - 2 ^ k < 2 ^ k := by
    rw [Nat.pow_succ] at high
    omega
  have parts : x = 2 ^ k ||| (x - 2 ^ k) := by
    have sum := Nat.two_pow_add_eq_or_of_lt rest 1
    rw [Nat.mul_one, Nat.add_sub_cancel' low] at sum
    exact sum
  rw [parts, Nat.or_comm, ← Nat.or_assoc, Nat.or_self]

/-- The payload of a quiet NaN moves to the leading places, and back. -/
theorem widened_quiet (quiet : single.infinity + single.quiet ≤ m) (pattern : m < 2 ^ 31) :
    single.convert .double m = double.infinity + (m - single.infinity) * 2 ^ 29 := by
  have hidden : single.hidden = 2 ^ 23 := rfl
  have hidden_wide : double.hidden = 2 ^ 52 := rfl
  have greatest : single.infinity = 255 * 2 ^ 23 := rfl
  have leading : single.quiet = 2 ^ 22 := rfl
  have leading_wide : double.quiet = 2 ^ 51 := rfl
  have payload : m % 2 ^ 23 = m - single.infinity := by omega
  have moved : m % 2 ^ 23 * 2 ^ 52 / 2 ^ 23 = (m - single.infinity) * 2 ^ 29 := by omega
  rw [convert_nan (by omega), hidden, hidden_wide, leading_wide, moved, or_leading]
  · omega
  · omega

theorem narrow_widened_quiet (quiet : single.infinity + single.quiet ≤ m)
    (pattern : m < 2 ^ 31) : double.convert .single (single.convert .double m) = m := by
  have hidden : single.hidden = 2 ^ 23 := rfl
  have hidden_wide : double.hidden = 2 ^ 52 := rfl
  have greatest : single.infinity = 255 * 2 ^ 23 := rfl
  have greatest_wide : double.infinity = 2047 * 2 ^ 52 := rfl
  have leading : single.quiet = 2 ^ 22 := rfl
  rw [widened_quiet quiet pattern]
  have moved : (double.infinity + (m - single.infinity) * 2 ^ 29) % 2 ^ 52 * 2 ^ 23 / 2 ^ 52 =
      m - single.infinity := by omega
  rw [convert_nan (by omega), hidden, hidden_wide, leading, moved, or_leading]
  · omega
  · omega
  · omega

end BinaryFormat

namespace Cell

open BinaryFormat (single double)

variable {c : Cell}

/-- The pattern without its sign. -/
def magnitude (c : Cell) : Nat := (c.bits.setWidth 31).toNat

/-- A NaN whose leading fraction bit is clear. -/
def IsSignalling (c : Cell) : Prop :=
  single.infinity < c.magnitude ∧ c.magnitude < single.infinity + single.quiet

/-- The number that a finite pattern stands for. -/
def toRat (c : Cell) : ℚ :=
  if c.bits.msb then -single.toRat c.magnitude else single.toRat c.magnitude

theorem magnitude_lt (c : Cell) : c.magnitude < 2 ^ 31 := BitVec.isLt _

theorem narrow_widened (quiet : ¬c.IsSignalling) :
    single.convert .double c.magnitude < 2 ^ 63 ∧
      double.convert .single (single.convert .double c.magnitude) = c.magnitude := by
  have greatest : single.infinity = 255 * 2 ^ 23 := rfl
  have greatest_wide : double.infinity = 2047 * 2 ^ 52 := rfl
  have leading : single.quiet = 2 ^ 22 := rfl
  have pattern := c.magnitude_lt
  rcases lt_trichotomy c.magnitude single.infinity with finite | infinite | nan
  · have within := (BinaryFormat.widened finite).1
    exact ⟨by omega, BinaryFormat.narrow_widened finite⟩
  · rw [infinite, BinaryFormat.convert_infinity]
    exact ⟨by omega, BinaryFormat.convert_infinity⟩
  · have loud : single.infinity + single.quiet ≤ c.magnitude := by
      by_contra less
      exact quiet ⟨nan, by omega⟩
    have moved := BinaryFormat.widened_quiet loud pattern
    exact ⟨by omega, BinaryFormat.narrow_widened_quiet loud pattern⟩

/-- A cell that is not a signalling NaN comes back from its float view. -/
theorem of_float_float (quiet : ¬c.IsSignalling) : ofFloat c.float = c := by
  obtain ⟨fits, back⟩ := narrow_widened quiet
  have same : BitVec.cons c.bits.msb (BitVec.ofNat 31 c.magnitude) = c.bits := by
    rw [magnitude, BitVec.ofNat_toNat, BitVec.setWidth_eq, BitVec.cons_msb_setWidth]
  rw [ofFloat, float, Double.negative_of_magnitude]
  rw [← magnitude, Double.magnitude_of_magnitude _ fits, back, same]

theorem float_exact (finite : c.magnitude < single.infinity) :
    c.float.isFinite = true ∧ c.float.toRat = c.toRat := by
  have room : double.infinity < 2 ^ 63 := by decide
  obtain ⟨within, value⟩ := BinaryFormat.widened finite
  have same : c.float.magnitude = single.convert .double c.magnitude :=
    Double.magnitude_of_magnitude _ (within.trans room)
  have sign : c.float.negative = c.bits.msb := Double.negative_of_magnitude ..
  refine ⟨decide_eq_true (same ▸ within), ?_⟩
  rw [Double.toRat, sign, same, value, toRat]

theorem of_float_nearest {x : Double} (finite : x.isFinite = true) :
    (ofFloat x).bits.msb = x.negative ∧
      single.IsNearest (double.toRat x.magnitude) (ofFloat x).magnitude := by
  have room : single.infinity < 2 ^ 31 := by decide
  have nearest := BinaryFormat.narrowed_nearest (of_decide_eq_true finite)
  have same : (ofFloat x).magnitude = double.convert .single x.magnitude := by
    rw [ofFloat, magnitude, BitVec.setWidth_cons, BitVec.toNat_ofNat]
    exact Nat.mod_eq_of_lt (nearest.within.trans_lt room)
  rw [same]
  exact ⟨BitVec.msb_cons, nearest⟩

/-- The integers of a cell are few enough to be numbers that are not rounded. -/
theorem of_number_int (c : Cell) : ofNumber (.ofInt c.int) = c := by
  have least : -2 ^ 31 ≤ c.int := c.bits.le_toInt
  have greatest : c.int < 2 ^ 31 := c.bits.toInt_lt
  have short : c.int.natAbs < 2 ^ 53 := by omega
  have whole : (Double.ofInt c.int).whole? = some c.int := by
    rw [Double.of_int_eq_rounded, Double.whole_rounded short, Double.signed_nat_abs]
  rw [ofNumber, Double.truncate_of_whole whole, Option.getD_some, of_int_int]

theorem residue_of_number {x : Double} (finite : x.isFinite = true) :
    (ofNumber x).IsResidue (truncated x.toRat) := by
  rw [ofNumber, Double.truncate_eq finite]
  exact residue_of_int _

/-- The views of a cell are of the same bits. The float view is the number that the bits stand
for, and a number is stored as the nearest pattern; so all cells come back from it except the
signalling NaNs. All cells come back from the integer view, where a number is stored without
its fraction and modulo the size of a word. -/
theorem views_alias (c : Cell) :
    (¬c.IsSignalling → (ofFloat c.float).int = c.int) ∧
      (c.magnitude < single.infinity → c.float.isFinite = true ∧ c.float.toRat = c.toRat) ∧
      (ofNumber (.ofInt c.int) == c) = true ∧
      ∀ x : Double, x.isFinite = true →
        (ofFloat x).bits.msb = x.negative ∧
          single.IsNearest (double.toRat x.magnitude) (ofFloat x).magnitude ∧
          (ofNumber x).IsResidue (truncated x.toRat) := by
  refine ⟨?_, float_exact, ?_, ?_⟩
  · intro quiet
    rw [of_float_float quiet]
  · rw [of_number_int, beq_self_eq_true]
  · intro x finite
    obtain ⟨sign, nearest⟩ := of_float_nearest finite
    exact ⟨sign, nearest, residue_of_number finite⟩

/-- A quiet NaN with a sign and a payload, the smallest number above zero, and a number with a
fraction that is too large for a word. -/
theorem views_alias_edged :
    ¬(⟨0xffc00001⟩ : Cell).IsSignalling ∧
      (ofFloat (⟨0xffc00001⟩ : Cell).float).int = -4194303 ∧
      (⟨1⟩ : Cell).magnitude < single.infinity ∧
      (⟨1⟩ : Cell).float.toRat = (⟨1⟩ : Cell).toRat ∧
      (⟨0xc1f0000000180000⟩ : Double).isFinite = true ∧
      (ofNumber ⟨0xc1f0000000180000⟩).int = -1 ∧
      (ofNumber ⟨0xc1f0000000180000⟩).IsResidue
        (truncated (⟨0xc1f0000000180000⟩ : Double).toRat) := by
  have quiet : ¬(⟨0xffc00001⟩ : Cell).IsSignalling := by
    rintro ⟨-, less⟩
    exact absurd less (by decide)
  have smallest : (⟨1⟩ : Cell).magnitude < single.infinity := by decide
  have finite : (⟨0xc1f0000000180000⟩ : Double).isFinite = true := by decide
  obtain ⟨back, -, -, stored⟩ := views_alias ⟨0xffc00001⟩
  obtain ⟨-, exact_value, -, -⟩ := views_alias ⟨1⟩
  have view : (⟨0xffc00001⟩ : Cell).int = -4194303 := by decide
  have wrapped : (ofNumber ⟨0xc1f0000000180000⟩).int = -1 := by decide
  exact ⟨quiet, (back quiet).trans view, smallest, (exact_value smallest).2, finite, wrapped,
    (stored _ finite).2.2⟩

end Cell

end StackMachine
