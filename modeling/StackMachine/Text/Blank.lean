/-!
# Text and blank characters

Program text is a list of characters. Blank characters are the white space and
line terminators of program text; trimming removes them from both ends. The
table is wider than the ASCII class and includes the byte-order mark.
-/

namespace StackMachine

set_option autoImplicit false

/-- Program text, character by character. -/
abbrev Text := List Char

namespace Text

/-- Inclusive ranges of the code points that count as blank. -/
def blankRanges : List (Nat × Nat) :=
  [(0x0009, 0x000D), (0x0020, 0x0020), (0x00A0, 0x00A0), (0x1680, 0x1680),
    (0x2000, 0x200A), (0x2028, 0x2029), (0x202F, 0x202F), (0x205F, 0x205F),
    (0x3000, 0x3000), (0xFEFF, 0xFEFF)]

def isBlank (c : Char) : Bool :=
  blankRanges.any fun range => range.1 ≤ c.toNat && c.toNat ≤ range.2

theorem is_blank_of_is_whitespace (c : Char) (white : c.isWhitespace = true) :
    isBlank c = true := by
  simp only [Char.isWhitespace, Bool.or_eq_true, decide_eq_true_eq] at white
  rcases white with ((rfl | rfl) | rfl) | rfl <;> decide

def trimStart (text : Text) : Text := text.dropWhile isBlank

def trimEnd (text : Text) : Text := (text.reverse.dropWhile isBlank).reverse

def trim (text : Text) : Text := trimEnd (trimStart text)

/-- Deletes every blank character, also between others. -/
def dropBlanks (text : Text) : Text := text.filter fun c => !isBlank c

end Text

end StackMachine
