import StackMachine.Text.Utf8

/-!
# Text stored as UTF-8

A character is stored as one octet, or as a first octet that tells how many follow and as
octets of six bits each. Reading the first one leaves the rest pending, each of the others
lies within the bounds that are left for it, and the last one gives the character. So what
is stored as UTF-8 is read as the text that it was, a mark at its beginning included.
-/

namespace StackMachine.Utf8

set_option autoImplicit false

variable {octet : Nat} {pending : Pending} {rest : List UInt8}

theorem decode_from_cons (pending? : Option Pending) (octet : UInt8) (rest : List UInt8) :
    decodeFrom pending? (octet :: rest) =
      (next pending? octet.toNat).1 ++ decodeFrom (next pending? octet.toNat).2 rest := rfl

theorem to_nat_of_lt (small : octet < 0x100) : (UInt8.ofNat octet).toNat = octet :=
  UInt8.toNat_ofNat_of_lt' small

theorem decode_single (single : octet < 0x80) :
    decodeFrom none (UInt8.ofNat octet :: rest) = Char.ofNat octet :: decodeFrom none rest := by
  have starts : start octet = ([Char.ofNat octet], none) := if_pos single
  rw [decode_from_cons, to_nat_of_lt (by omega), next, starts]
  rfl

theorem decode_lead (long : 0x80 ≤ octet) (small : octet < 0x100)
    (leads : lead? octet = some pending) :
    decodeFrom none (UInt8.ofNat octet :: rest) = decodeFrom (some pending) rest := by
  have starts : start octet = ([], some pending) := by
    rw [start, if_neg (by omega), leads]
  rw [decode_from_cons, to_nat_of_lt small, next, starts]
  rfl

/-- An octet within its bounds adds six bits. Here it is not the last one. -/
theorem decode_inner {bits owed value low high : Nat} (six : bits < 64)
    (within : low ≤ bits + 0x80 ∧ bits + 0x80 ≤ high) :
    decodeFrom (some ⟨owed + 1, value, low, high⟩) (UInt8.ofNat (bits + 0x80) :: rest) =
      decodeFrom (some ⟨owed, value * 64 + bits, 0x80, 0xBF⟩) rest := by
  rw [decode_from_cons, to_nat_of_lt (by omega)]
  simp only [next, within, and_self, if_true, Nat.add_sub_cancel, List.nil_append]

/-- The last one gives the character. -/
theorem decode_last {bits value low high : Nat} (six : bits < 64)
    (within : low ≤ bits + 0x80 ∧ bits + 0x80 ≤ high) :
    decodeFrom (some ⟨0, value, low, high⟩) (UInt8.ofNat (bits + 0x80) :: rest) =
      Char.ofNat (value * 64 + bits) :: decodeFrom none rest := by
  rw [decode_from_cons, to_nat_of_lt (by omega)]
  simp only [next, within, and_self, if_true, Nat.add_sub_cancel, List.cons_append,
    List.nil_append]

theorem lead_of_two {value : Nat} (least : 0x80 ≤ value) (most : value < 0x800) :
    lead? (value / 64 + 0xC0) = some ⟨0, value / 64, 0x80, 0xBF⟩ := by
  rw [lead?, if_pos (by omega), Nat.add_sub_cancel]

/-- The bounds for the second octet let in all but overlong forms and surrogates. -/
theorem lead_of_three {value : Nat} (least : 0x800 ≤ value) (most : value < 0x10000)
    (scalar : value < 0xD800 ∨ 0xDFFF < value) :
    ∃ low high, lead? (value / 4096 + 0xE0) = some ⟨1, value / 4096, low, high⟩ ∧
      low ≤ value / 64 % 64 + 0x80 ∧ value / 64 % 64 + 0x80 ≤ high := by
  by_cases lowest : value / 4096 = 0
  · refine ⟨0xA0, 0xBF, ?_, by omega, by omega⟩
    rw [lowest]
    rfl
  by_cases split : value / 4096 = 0xD
  · refine ⟨0x80, 0x9F, ?_, by omega, by omega⟩
    rw [split]
    rfl
  · refine ⟨0x80, 0xBF, ?_, by omega, by omega⟩
    rw [lead?, if_neg (by omega), if_neg (by omega), if_neg (by omega), if_pos (by omega),
      Nat.add_sub_cancel]

/-- Here they let in all but overlong forms and values past the last code point. -/
theorem lead_of_four {value : Nat} (least : 0x10000 ≤ value) (most : value < 0x110000) :
    ∃ low high, lead? (value / 262144 + 0xF0) = some ⟨2, value / 262144, low, high⟩ ∧
      low ≤ value / 4096 % 64 + 0x80 ∧ value / 4096 % 64 + 0x80 ≤ high := by
  by_cases lowest : value / 262144 = 0
  · refine ⟨0x90, 0xBF, ?_, by omega, by omega⟩
    rw [lowest]
    rfl
  by_cases greatest : value / 262144 = 4
  · refine ⟨0x80, 0x8F, ?_, by omega, by omega⟩
    rw [greatest]
    rfl
  · refine ⟨0x80, 0xBF, ?_, by omega, by omega⟩
    rw [lead?, if_neg (by omega), if_neg (by omega), if_neg (by omega), if_neg (by omega),
      if_neg (by omega), if_pos (by omega), Nat.add_sub_cancel]

/-- No character stands for half of a pair, or for more than the last code point. -/
theorem scalar_of_char (c : Char) :
    c.toNat < 0xD800 ∨ (0xDFFF < c.toNat ∧ c.toNat < 0x110000) := c.valid

theorem decode_two {value : Nat} (least : 0x80 ≤ value) (most : value < 0x800) :
    decodeFrom none (UInt8.ofNat (value / 64 + 0xC0) :: UInt8.ofNat (value % 64 + 0x80) :: rest) =
      Char.ofNat value :: decodeFrom none rest := by
  have whole : value / 64 * 64 + value % 64 = value := by omega
  rw [decode_lead (by omega) (by omega) (lead_of_two least most),
    decode_last (by omega) (by omega), whole]

theorem decode_three {value : Nat} (least : 0x800 ≤ value) (most : value < 0x10000)
    (scalar : value < 0xD800 ∨ 0xDFFF < value) :
    decodeFrom none (UInt8.ofNat (value / 4096 + 0xE0) :: UInt8.ofNat (value / 64 % 64 + 0x80) ::
      UInt8.ofNat (value % 64 + 0x80) :: rest) = Char.ofNat value :: decodeFrom none rest := by
  have whole : (value / 4096 * 64 + value / 64 % 64) * 64 + value % 64 = value := by omega
  obtain ⟨low, high, leads, within⟩ := lead_of_three least most scalar
  rw [decode_lead (by omega) (by omega) leads, decode_inner (by omega) within,
    decode_last (by omega) (by omega), whole]

theorem decode_four {value : Nat} (least : 0x10000 ≤ value) (most : value < 0x110000) :
    decodeFrom none (UInt8.ofNat (value / 262144 + 0xF0) ::
      UInt8.ofNat (value / 4096 % 64 + 0x80) :: UInt8.ofNat (value / 64 % 64 + 0x80) ::
      UInt8.ofNat (value % 64 + 0x80) :: rest) = Char.ofNat value :: decodeFrom none rest := by
  have whole : ((value / 262144 * 64 + value / 4096 % 64) * 64 + value / 64 % 64) * 64 +
      value % 64 = value := by omega
  obtain ⟨low, high, leads, within⟩ := lead_of_four least most
  rw [decode_lead (by omega) (by omega) leads, decode_inner (by omega) within,
    decode_inner (by omega) (by omega), decode_last (by omega) (by omega), whole]

/-- The four lengths, from the shortest on. -/
theorem decode_char (c : Char) (rest : List UInt8) :
    decodeFrom none (String.utf8EncodeChar c ++ rest) = c :: decodeFrom none rest := by
  have scalar := scalar_of_char c
  have back : Char.ofNat c.toNat = c := Char.ofNat_toNat c
  have point : c.val.toNat = c.toNat := rfl
  simp only [String.utf8EncodeChar, point]
  clear point
  generalize c.toNat = value at scalar back ⊢
  subst back
  split
  · exact decode_single (by omega)
  split
  · have first : value / 64 % 32 = value / 64 := by omega
    rw [first]
    exact decode_two (by omega) (by omega)
  split
  · have first : value / 4096 % 16 = value / 4096 := by omega
    rw [first]
    exact decode_three (by omega) (by omega) (by omega)
  · have first : value / 262144 % 8 = value / 262144 := by omega
    rw [first]
    exact decode_four (by omega) (by omega)

theorem decode_encode (text : Text) : decode (encode text) = text := by
  unfold decode encode
  induction text with
  | nil => rfl
  | cons c rest ih => rw [List.flatMap_cons, decode_char, ih]

end StackMachine.Utf8
