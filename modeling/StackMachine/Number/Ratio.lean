/-!
# Ratios

Exact non-negative rational numbers, kept as the quotient they were built from.
Binary and decimal forms are both compared and rounded here, in natural
arithmetic, so that no rounding ever happens twice.
-/

namespace StackMachine

set_option autoImplicit false

structure Ratio where
  numerator : Nat
  denominator : Nat

namespace Ratio

def ofNat (n : Nat) : Ratio := ⟨n, 1⟩

/-- Multiplies by a power of the base, of either sign. -/
def scale (r : Ratio) (base : Nat) (exponent : Int) : Ratio :=
  ⟨r.numerator * Nat.pow base exponent.toNat, r.denominator * Nat.pow base (-exponent).toNat⟩

def floor (r : Ratio) : Nat := r.numerator / r.denominator

def ceiling (r : Ratio) : Nat := (r.numerator + r.denominator - 1) / r.denominator

def isWhole (r : Ratio) : Bool := r.numerator % r.denominator == 0

/-- The nearest natural number; a half goes to the even neighbour. -/
def nearest (r : Ratio) : Nat :=
  let low := r.floor
  let doubled := 2 * (r.numerator % r.denominator)
  if doubled < r.denominator then low
  else if r.denominator < doubled then low + 1
  else if low % 2 = 0 then low
  else low + 1

/-- Compares with a power of the base. -/
def atLeastPower (r : Ratio) (base : Nat) (exponent : Int) : Bool :=
  r.denominator * Nat.pow base exponent.toNat ≤ r.numerator * Nat.pow base (-exponent).toNat

/-- The exponent of the greatest power of two that is not above a positive ratio.
The lengths of the two terms leave a choice of two exponents. -/
def log2 (r : Ratio) : Int :=
  let upper : Int := r.numerator.log2 - r.denominator.log2
  if r.atLeastPower 2 upper then upper else upper - 1

/-- The exponent of the greatest power of ten that is not above a positive ratio. -/
def log10 (r : Ratio) : Int :=
  let upper : Int :=
    (Nat.toDigits 10 r.numerator).length - (Nat.toDigits 10 r.denominator).length
  if r.atLeastPower 10 upper then upper else upper - 1

end Ratio

end StackMachine
