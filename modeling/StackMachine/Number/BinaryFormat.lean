import StackMachine.Number.Ratio

/-!
# Binary interchange formats

A format is given by the widths of its fraction and exponent fields. A magnitude
is the bit pattern without its sign, read as a natural number: magnitudes are
ordered as the values they stand for, the pattern of infinity comes right after
the greatest finite one, and every greater pattern is a NaN.
-/

namespace StackMachine

set_option autoImplicit false

structure BinaryFormat where
  fractionWidth : Nat
  exponentWidth : Nat

namespace BinaryFormat

def single : BinaryFormat := ⟨23, 8⟩

def double : BinaryFormat := ⟨52, 11⟩

/-- The weight of the leading bit that normal patterns leave out. -/
def hidden (format : BinaryFormat) : Nat := Nat.pow 2 format.fractionWidth

def infinity (format : BinaryFormat) : Nat :=
  (Nat.pow 2 format.exponentWidth - 1) * format.hidden

/-- The most significant fraction bit, which tells a quiet NaN. -/
def quiet (format : BinaryFormat) : Nat := Nat.pow 2 (format.fractionWidth - 1)

/-- The power of two that the last place of the smallest magnitudes stands for. -/
def minExponent (format : BinaryFormat) : Int :=
  2 - (Nat.pow 2 (format.exponentWidth - 1) + format.fractionWidth : Nat)

def significand (format : BinaryFormat) (magnitude : Nat) : Nat :=
  if magnitude < format.hidden then magnitude
  else format.hidden + magnitude % format.hidden

/-- The power of two that the last place stands for. The two lowest exponent fields
share it, since only the second of them has the hidden bit. -/
def exponent (format : BinaryFormat) (magnitude : Nat) : Int :=
  format.minExponent + (magnitude / format.hidden - 1 : Nat)

/-- The value of a finite magnitude. -/
def value (format : BinaryFormat) (magnitude : Nat) : Ratio :=
  (Ratio.ofNat (format.significand magnitude)).scale 2 (format.exponent magnitude)

/-- The magnitude nearest to a ratio, a half going to the even pattern. A significand
that rounds up to the next power of two carries into the exponent field, and one
past the last finite magnitude becomes infinity. -/
def round (format : BinaryFormat) (r : Ratio) : Nat :=
  if r.numerator = 0 then 0
  else
    let place := max (r.log2 - format.fractionWidth) format.minExponent
    let steps := (place - format.minExponent).toNat
    min ((r.scale 2 (-place)).nearest + steps * format.hidden) format.infinity

/-- Carries a magnitude into another format. A finite value is rounded, and a NaN keeps
the leading bits of its payload and comes out quiet. -/
def convert (source target : BinaryFormat) (magnitude : Nat) : Nat :=
  if magnitude < source.infinity then target.round (source.value magnitude)
  else if magnitude = source.infinity then target.infinity
  else
    let payload := magnitude % source.hidden * target.hidden / source.hidden
    target.infinity + (payload ||| target.quiet)

end BinaryFormat

end StackMachine
