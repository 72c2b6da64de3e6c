import StackMachine.Number.Double
import StackMachine.Text.Integer

/-!
# Numerals

Numbers are written with the fewest digits that read back, positionally while
the point falls near the digits and with an exponent otherwise. Reading takes
decimal numerals with an optional fraction and exponent, and whole numbers in
the bases two, eight and sixteen.
-/

namespace StackMachine.Numeral

set_option autoImplicit false

/-- The point may stand at most this far behind the first digit. -/
def pointLimit : Int := 21

/-- This many zeros between point and digits are one too many. -/
def zeroLimit : Int := 6

def withExponent (digits : Text) (exponent : Int) : Text :=
  let sign := if exponent < 0 then '-' else '+'
  let mantissa := match digits with
    | first :: second :: rest => first :: '.' :: second :: rest
    | short => short
  mantissa ++ 'e' :: sign :: Text.ofNat exponent.natAbs

/-- Lays out digits that begin `point` places in front of the decimal point. -/
def layout (digits : Text) (point : Int) : Text :=
  if digits.length ≤ point ∧ point ≤ pointLimit then
    digits ++ List.replicate (point - digits.length).toNat '0'
  else if 0 < point ∧ point ≤ pointLimit then
    digits.take point.toNat ++ '.' :: digits.drop point.toNat
  else if -zeroLimit < point ∧ point ≤ 0 then
    '0' :: '.' :: List.replicate (-point).toNat '0' ++ digits
  else withExponent digits (point - 1)

def ofDecimal (d : Decimal) : Text :=
  let significant := (d.digits.reverse.dropWhile (· == '0')).reverse
  layout significant (d.digits.length + d.exponent)

/-- The written form of a number. A zero is written without its sign. -/
def write (x : Double) : Text :=
  if x.isNaN then "NaN".toList
  else if x.magnitude = 0 then ['0']
  else
    let size :=
      if x.isFinite then ofDecimal (Decimal.shortest .double x.magnitude)
      else "Infinity".toList
    if x.negative then '-' :: size else size

def digitValue? (base : Nat) (c : Char) : Option Nat :=
  let value? :=
    if c.isDigit then some (c.toNat - '0'.toNat)
    else if 'a' ≤ c ∧ c ≤ 'f' then some (c.toNat - 'a'.toNat + 10)
    else if 'A' ≤ c ∧ c ≤ 'F' then some (c.toNat - 'A'.toNat + 10)
    else none
  value?.filter (· < base)

def naturalIn? (base : Nat) (text : Text) : Option Nat :=
  if text.isEmpty then none
  else text.foldlM (fun n c => (digitValue? base c).map (base * n + ·)) 0

/-- The part of a numeral behind its digits. -/
def exponent? : Text → Option Int
  | [] => some 0
  | mark :: rest => if mark = 'e' ∨ mark = 'E' then Text.integer? rest else none

/-- Digits with at most one point among them, then perhaps an exponent. At least one
digit is needed, on either side of the point. -/
def decimal? (text : Text) : Option Decimal :=
  let whole := text.takeWhile Char.isDigit
  let (fraction, rest) := match text.dropWhile Char.isDigit with
    | '.' :: more => (more.takeWhile Char.isDigit, more.dropWhile Char.isDigit)
    | more => ([], more)
  match Text.natural? (whole ++ fraction), exponent? rest with
  | some coefficient, some exponent => some ⟨coefficient, exponent - fraction.length⟩
  | _, _ => none

def unsigned? (negative : Bool) (text : Text) : Option Double :=
  if text = "Infinity".toList then some (Double.infinity negative)
  else (decimal? text).map (Double.ofDecimal negative)

/-- Reads a numeral with blanks around it. Blank text reads as zero, and only decimal
numerals take a sign. -/
def read? (text : Text) : Option Double :=
  match Text.trim text with
  | [] => some (Double.ofInt 0)
  | '+' :: rest => unsigned? false rest
  | '-' :: rest => unsigned? true rest
  | '0' :: mark :: rest =>
      if mark = 'x' ∨ mark = 'X' then (naturalIn? 16 rest).map (Double.ofInt ·)
      else if mark = 'o' ∨ mark = 'O' then (naturalIn? 8 rest).map (Double.ofInt ·)
      else if mark = 'b' ∨ mark = 'B' then (naturalIn? 2 rest).map (Double.ofInt ·)
      else unsigned? false ('0' :: mark :: rest)
  | other => unsigned? false other

end StackMachine.Numeral
