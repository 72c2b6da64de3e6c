import StackMachine.Number.BinaryFormat

/-!
# Decimal forms

A decimal form is a coefficient and a power of ten. `shortest` finds the form
with the fewest digits that rounds back to a given magnitude, and of those the
nearest one.
-/

namespace StackMachine

set_option autoImplicit false

structure Decimal where
  coefficient : Nat
  exponent : Int

namespace Decimal

def toRatio (d : Decimal) : Ratio := (Ratio.ofNat d.coefficient).scale 10 d.exponent

def digits (d : Decimal) : List Char := Nat.toDigits 10 d.coefficient

/-- The magnitude nearest to a decimal form. A form below `10 ^ (-400)` rounds to zero
and one of at least `10 ^ 400` to infinity in both formats, whatever its digits are;
only forms between them are worked out. -/
def round (d : Decimal) (format : BinaryFormat) : Nat :=
  let size := d.exponent + d.digits.length
  if d.coefficient = 0 ∨ size < -400 then 0
  else if 400 < size then format.infinity
  else format.round d.toRatio

/-- Tells whether a decimal form with this coefficient and place rounds back. -/
def readsBack (format : BinaryFormat) (magnitude : Nat) (place : Int)
    (coefficient : Nat) : Bool :=
  format.round (toRatio ⟨coefficient, place⟩) == magnitude

/-- The nearest coefficient at a decimal place that rounds back. If any does, so does
one of the two neighbours of the value. -/
def atPlace? (format : BinaryFormat) (magnitude : Nat) (place : Int) : Option Nat :=
  let scaled := (format.value magnitude).scale 10 (-place)
  [scaled.nearest, scaled.floor, scaled.floor + 1].find? (readsBack format magnitude place)

/-- Tries finer and finer places; the finest one is taken untested. -/
def shortestFrom (format : BinaryFormat) (magnitude : Nat) : Nat → Int → Decimal
  | 0, place => ⟨((format.value magnitude).scale 10 (-place)).nearest, place⟩
  | tries + 1, place =>
      match atPlace? format magnitude place with
      | some coefficient => ⟨coefficient, place⟩
      | none => shortestFrom format magnitude tries (place - 1)

/-- Seventeen digits tell any two magnitudes of the double format apart. -/
def shortest (format : BinaryFormat) (magnitude : Nat) : Decimal :=
  shortestFrom format magnitude 16 (format.value magnitude).log10

end Decimal

end StackMachine
