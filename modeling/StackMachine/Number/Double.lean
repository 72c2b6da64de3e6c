import StackMachine.Number.Decimal

/-!
# Double-precision numbers

Numbers given from outside (limits, capacities, addresses, cell contents) are
64-bit patterns: a sign bit in front of a magnitude of the double format.
-/

namespace StackMachine

set_option autoImplicit false

structure Double where
  bits : BitVec 64
deriving DecidableEq

namespace Double

def ofMagnitude (negative : Bool) (magnitude : Nat) : Double :=
  ⟨BitVec.cons negative (BitVec.ofNat 63 magnitude)⟩

def negative (x : Double) : Bool := x.bits.msb

def magnitude (x : Double) : Nat := (x.bits.setWidth 63).toNat

def isNaN (x : Double) : Bool := BinaryFormat.double.infinity < x.magnitude

def isFinite (x : Double) : Bool := x.magnitude < BinaryFormat.double.infinity

def nan : Double :=
  ofMagnitude false (BinaryFormat.double.infinity + BinaryFormat.double.quiet)

def infinity (negative : Bool) : Double := ofMagnitude negative BinaryFormat.double.infinity

def ofDecimal (negative : Bool) (d : Decimal) : Double :=
  ofMagnitude negative (d.round .double)

def ofInt (i : Int) : Double :=
  ofMagnitude (i < 0) (BinaryFormat.double.round (Ratio.ofNat i.natAbs))

/-- The size of a finite number. -/
def size (x : Double) : Ratio := BinaryFormat.double.value x.magnitude

def withSign (x : Double) (n : Nat) : Int := if x.negative then -n else n

/-- The number without its fraction; there is none for a NaN or an infinity. -/
def truncate? (x : Double) : Option Int :=
  if x.isFinite then some (x.withSign x.size.floor) else none

/-- The number as an integer, if it is one. Both zeros are. -/
def whole? (x : Double) : Option Int :=
  if x.isFinite && x.size.isWhole then some (x.withSign x.size.floor) else none

end Double

end StackMachine
