import StackMachine.Text.Blank

/-!
# UTF-8

Any list of octets decodes to text. Octets that cannot begin or continue a
character are replaced: one replacement character stands for the longest run of
octets that some character could have begun with, and the octet that broke the
run is looked at again. A byte-order mark is a character like any other.
-/

namespace StackMachine.Utf8

set_option autoImplicit false

def encode (text : Text) : List UInt8 := text.flatMap String.utf8EncodeChar

def replacement : Char := Char.ofNat 0xFFFD

/-- A character that lacks the octet to come and `owed` more after it. The bounds are
those of the octet to come. -/
structure Pending where
  owed : Nat
  value : Nat
  low : Nat
  high : Nat

/-- What the first octet of a longer character leaves pending. The narrower bounds rule
out overlong forms, surrogates, and values past the last code point. -/
def lead? (octet : Nat) : Option Pending :=
  if 0xC2 ≤ octet ∧ octet ≤ 0xDF then some ⟨0, octet - 0xC0, 0x80, 0xBF⟩
  else if octet = 0xE0 then some ⟨1, 0, 0xA0, 0xBF⟩
  else if octet = 0xED then some ⟨1, 0xD, 0x80, 0x9F⟩
  else if 0xE1 ≤ octet ∧ octet ≤ 0xEF then some ⟨1, octet - 0xE0, 0x80, 0xBF⟩
  else if octet = 0xF0 then some ⟨2, 0, 0x90, 0xBF⟩
  else if 0xF1 ≤ octet ∧ octet ≤ 0xF3 then some ⟨2, octet - 0xF0, 0x80, 0xBF⟩
  else if octet = 0xF4 then some ⟨2, 4, 0x80, 0x8F⟩
  else none

/-- An octet between characters: what it gives, and what it leaves pending. -/
def start (octet : Nat) : Text × Option Pending :=
  if octet < 0x80 then ([Char.ofNat octet], none)
  else
    match lead? octet with
    | some pending => ([], some pending)
    | none => ([replacement], none)

def next (pending? : Option Pending) (octet : Nat) : Text × Option Pending :=
  match pending? with
  | none => start octet
  | some pending =>
      if pending.low ≤ octet ∧ octet ≤ pending.high then
        let value := pending.value * 64 + (octet - 0x80)
        match pending.owed with
        | 0 => ([Char.ofNat value], none)
        | owed + 1 => ([], some ⟨owed, value, 0x80, 0xBF⟩)
      else
        let (text, after) := start octet
        (replacement :: text, after)

def decodeFrom (pending? : Option Pending) : List UInt8 → Text
  | [] => if pending?.isSome then [replacement] else []
  | octet :: rest =>
      let (text, after) := next pending? octet.toNat
      text ++ decodeFrom after rest

def decode (octets : List UInt8) : Text := decodeFrom none octets

end StackMachine.Utf8
