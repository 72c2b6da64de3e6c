import StackMachine.Number.Numeral

/-!
# Cells

A cell is a 32-bit word with two views: a signed integer, and a single-precision
number widened to double precision. Both views read the same bits, and a cell
built from one of them is read through the other without any conversion.
-/

namespace StackMachine

set_option autoImplicit false

structure Cell where
  bits : BitVec 32
deriving DecidableEq

namespace Cell

def zero : Cell := ⟨0⟩

/-- The word that an integer leaves modulo `2 ^ 32`. -/
def ofInt (i : Int) : Cell := ⟨BitVec.ofInt 32 i⟩

def int (c : Cell) : Int := c.bits.toInt

/-- The integer view takes a number without its fraction, and nothing from a number
that has no integer part. -/
def ofNumber (x : Double) : Cell := ofInt (x.truncate?.getD 0)

def float (c : Cell) : Double :=
  .ofMagnitude c.bits.msb (BinaryFormat.single.convert .double (c.bits.setWidth 31).toNat)

def ofFloat (x : Double) : Cell :=
  ⟨BitVec.cons x.negative (BitVec.ofNat 31 (BinaryFormat.double.convert .single x.magnitude))⟩

def isZero (c : Cell) : Bool := c == zero

def add (a b : Cell) : Cell := ⟨a.bits + b.bits⟩

def sub (a b : Cell) : Cell := ⟨a.bits - b.bits⟩

def mul (a b : Cell) : Cell := ⟨a.bits * b.bits⟩

def increment (c : Cell) : Cell := ⟨c.bits + 1⟩

def decrement (c : Cell) : Cell := ⟨c.bits - 1⟩

/-- Shifts and bit positions count modulo the width of the word. -/
def place (count : Cell) : Nat := count.bits.toNat % 32

def shiftRight (c count : Cell) : Cell := ⟨c.bits.sshiftRight count.place⟩

def shiftLeft (c count : Cell) : Cell := ⟨c.bits <<< count.place⟩

/-- The word with a single bit set. -/
def bit (position : Cell) : BitVec 32 := 1#32 <<< position.place

def flipBit (c position : Cell) : Cell := ⟨c.bits ^^^ position.bit⟩

def setBit (c position : Cell) : Cell := ⟨c.bits ||| position.bit⟩

def clearBit (c position : Cell) : Cell := ⟨c.bits &&& ~~~position.bit⟩

def floatText (c : Cell) : String := String.ofList (Numeral.write c.float)

/-- Both views, the second one in parentheses. -/
def text (c : Cell) : String := Text.decimal c.int ++ " (" ++ c.floatText ++ ")"

@[simp] theorem of_int_int (c : Cell) : ofInt c.int = c := by
  simp [ofInt, int]

theorem int_injective {a b : Cell} (same : a.int = b.int) : a = b := by
  rw [← of_int_int a, ← of_int_int b, same]

/-- The integer and, behind a blank, the other view in parentheses. -/
theorem text_spelled (c : Cell) :
    c.text.toList = Text.ofInt c.int ++ (' ' :: '(' :: (Numeral.write c.float ++ [')'])) := by
  simp [text, floatText, Text.decimal]

/-- The integer is read from the front of the text, whatever is behind it. -/
theorem int_of_text (c : Cell) (rest : Text) :
    Text.integer? ((c.text.toList ++ rest).takeWhile (· != ' ')) = some c.int := by
  have front : (c.text.toList ++ rest).takeWhile (· != ' ') = Text.ofInt c.int := by
    have other : ∀ letter ∈ Text.ofInt c.int, (letter != ' ') = true := by
      intro letter member
      rw [bne_iff_ne]
      rintro rfl
      exact Text.blank_not_mem_of_int c.int member
    rw [text_spelled, List.append_assoc, List.cons_append, List.takeWhile_append_of_pos other]
    simp
  rw [front, Text.integer_of_int]

/-- Cells that are printed alike, with anything behind them, are one cell. -/
theorem eq_of_text {c d : Cell} {rest others : Text}
    (same : c.text.toList ++ rest = d.text.toList ++ others) : c = d ∧ rest = others := by
  have one := int_of_text c rest
  rw [same, int_of_text d others] at one
  have cells : c = d := int_injective (Option.some.inj one).symm
  rw [cells] at same
  exact ⟨cells, List.append_cancel_left same⟩

end Cell

end StackMachine
