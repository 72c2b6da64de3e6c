import StackMachine.Proofs.Decoding
import StackMachine.Proofs.Rounding
import Mathlib.Data.List.Induction
import Mathlib.Data.Nat.Digits.Defs

/-!
# The grammar of instructions

A line decodes exactly where it is written by the grammar: the name of an operation, and behind
it at most four integers between commas, each with at most one sign and with any number of
digits, of which the value fits in a cell. Every other line that is not skipped is refused, for
its mnemonic before the number of its operands, and for that before the first bad operand.
Whether operands are read as integers or first as numbers, which are rounded, is all one.
-/

namespace StackMachine

set_option autoImplicit false

namespace Text

/-- What digits stand for by their places, the last of them being that of ones. -/
def placeValue (digits : Text) : Nat :=
  Nat.ofDigits 10 (digits.reverse.map fun c => c.toNat - '0'.toNat)

theorem place_value_append (digits : Text) (c : Char) :
    placeValue (digits ++ [c]) = 10 * placeValue digits + (c.toNat - '0'.toNat) := by
  rw [placeValue, List.reverse_append, List.reverse_singleton, List.singleton_append,
    List.map_cons, Nat.ofDigits_cons, Nat.add_comm]
  rfl

/-- Digits are read from the left, and each of them moves those before it one place up. -/
theorem of_digit_chars_eq_place_value (digits : Text) :
    Nat.ofDigitChars 10 digits 0 = placeValue digits := by
  induction digits using List.reverseRecOn with
  | nil => rfl
  | append_singleton before c ih =>
      rw [Nat.ofDigitChars_append, Nat.ofDigitChars_cons, Nat.ofDigitChars_nil, ih,
        place_value_append]

theorem natural_eq_some_iff {text : Text} {n : Nat} :
    natural? text = some n ↔
      text ≠ [] ∧ text.all Char.isDigit = true ∧ placeValue text = n := by
  rw [natural?, ← of_digit_chars_eq_place_value]
  split
  · rename_i decimal
    simp [decimal]
  · rename_i other
    constructor
    · intro absurd
      cases absurd
    · intro digits
      exact (other ⟨digits.1, digits.2.1⟩).elim

end Text

namespace Instruction

open Symbolic (Literal Sign)
open Statement (Holds)

variable {text piece : Text} {value : Int} {pieces : List Text} {values : List Int}
  {statement : Statement} {instruction : Instruction} {defect : Defect} {opcode : Opcode}

/-- The text is that of an integer: at most one sign, and at least one digit behind it. -/
def Denotes (text : Text) (value : Int) : Prop :=
  ∃ literal : Literal, literal.text = text ∧
    literal.sign.apply (Text.placeValue literal.digits) = value

/-- An integer of 32 bits. -/
def Fits (value : Int) : Prop := -2 ^ 31 ≤ value ∧ value ≤ 2 ^ 31 - 1

def Given (piece : Text) (value : Int) : Prop := Denotes piece value ∧ Fits value

/-- What is wrong with a text that is no operand. -/
inductive Unfit : Text → Defect → Prop
  | meaningless {piece : Text} (meaningless : ∀ value, ¬Denotes piece value) :
      Unfit piece (.notAnInteger piece)
  | wide {piece : Text} {value : Int} (denotes : Denotes piece value) (wide : ¬Fits value) :
      Unfit piece (.tooWide piece)

/-- A statement that is an instruction. -/
inductive Spells : Statement → Instruction → Prop
  | spells {opcode : Opcode} {pieces : List Text} {values : List Int} (few : pieces.length ≤ 4)
      (given : List.Forall₂ Given pieces values) :
      Spells ⟨opcode.mnemonic, pieces⟩ ⟨opcode, values⟩

/-- What is wrong with a statement that is none. Operands are counted only where the mnemonic
is known, and looked at only where there are not too many; the first bad one is named. -/
inductive Misspells : Statement → Defect → Prop
  | unknown {word : Text} {pieces : List Text} (unknown : ∀ opcode, Opcode.mnemonic opcode ≠ word) :
      Misspells ⟨word, pieces⟩ (.unknownInstruction word)
  | crowded {opcode : Opcode} {pieces : List Text} (many : 4 < pieces.length) :
      Misspells ⟨opcode.mnemonic, pieces⟩ (.tooManyOperands opcode.mnemonic pieces.length)
  | unfit {opcode : Opcode} {before after : List Text} {piece : Text} {values : List Int}
      {defect : Defect} (few : (before ++ piece :: after).length ≤ 4)
      (given : List.Forall₂ Given before values) (unfit : Unfit piece defect) :
      Misspells ⟨opcode.mnemonic, before ++ piece :: after⟩ defect

theorem integer_eq_some_iff : Text.integer? text = some value ↔ Denotes text value := by
  have literal_of : ∀ {digits : Text} {n : Nat} (sign : Sign), Text.natural? digits = some n →
      Denotes (sign.text ++ digits) (sign.apply n) := by
    intro digits n sign read
    obtain ⟨nonempty, decimal, rfl⟩ := Text.natural_eq_some_iff.mp read
    exact ⟨⟨sign, digits, nonempty, decimal⟩, rfl, rfl⟩
  constructor
  · intro read
    unfold Text.integer? at read
    split at read
    · obtain ⟨n, natural, rfl⟩ := Option.map_eq_some_iff.mp read
      exact literal_of .plus natural
    · obtain ⟨n, natural, rfl⟩ := Option.map_eq_some_iff.mp read
      exact literal_of .minus natural
    · obtain ⟨n, natural, rfl⟩ := Option.map_eq_some_iff.mp read
      exact literal_of .none natural
  · rintro ⟨literal, rfl, rfl⟩
    rw [Symbolic.integer_of_literal, Literal.value, Text.of_digit_chars_eq_place_value]

theorem fits_iff : Fits value ↔ least ≤ value ∧ value ≤ greatest := by
  simp only [Fits, least, greatest]
  omega

theorem operand_ok_iff : operand? piece = .ok value ↔ Given piece value := by
  rw [Given, ← integer_eq_some_iff, fits_iff, operand?]
  cases Text.integer? piece with
  | none => simp
  | some found =>
      simp only [Option.some.injEq]
      split
      · rename_i fits
        constructor
        · intro same
          cases same
          exact ⟨rfl, fits⟩
        · intro given
          rw [given.1]
      · rename_i wide
        constructor
        · intro absurd
          cases absurd
        · intro given
          exact (wide (given.1 ▸ given.2)).elim

theorem operand_error_iff : operand? piece = .error defect ↔ Unfit piece defect := by
  constructor
  · intro refused
    rw [operand?] at refused
    split at refused
    · rename_i unread
      cases refused
      refine .meaningless fun value denotes => ?_
      rw [integer_eq_some_iff.mpr denotes] at unread
      cases unread
    · rename_i value read
      split at refused
      · cases refused
      · rename_i outside
        cases refused
        exact .wide (integer_eq_some_iff.mp read) (mt fits_iff.mp outside)
  · intro unfit
    cases unfit with
    | meaningless meaningless =>
        have unread : Text.integer? piece = none := by
          rw [Option.eq_none_iff_forall_ne_some]
          exact fun value read => meaningless value (integer_eq_some_iff.mp read)
        rw [operand?, unread]
    | wide denotes wide =>
        rw [fits_iff] at wide
        simp only [operand?, integer_eq_some_iff.mpr denotes, if_neg wide]

/-- An operand by way of the number that its text reads as, which is rounded before it is held
against the bounds. -/
def measured (piece : Text) : Except Defect Double :=
  if (Text.integer? piece).isNone then .error (.notAnInteger piece)
  else
    let number := (Numeral.read? piece).getD .nan
    if number.isBelow (.ofInt least) || (Double.ofInt greatest).isBelow number then
      .error (.tooWide piece)
    else .ok number

/-- Rounding brings no integer into the bounds, and changes none within them. -/
theorem operand_measured (piece : Text) :
    (measured piece).map Double.whole? = (operand? piece).map some := by
  cases read : Text.integer? piece with
  | none => simp only [measured, operand?, read, Option.isNone_none, if_true, Except.map]
  | some value =>
      obtain ⟨literal, rfl, rfl⟩ := integer_eq_some_iff.mp read
      have outside : ∀ sign n, ((Double.rounded sign n).isBelow (.ofInt least) ||
          (Double.ofInt greatest).isBelow (Double.rounded sign n)) = true ↔
            ¬(least ≤ Double.signed sign n ∧ Double.signed sign n ≤ greatest) := by
        intro sign n
        rw [Bool.or_eq_true, Double.below_int_iff (by decide), Double.int_below_iff (by decide)]
        omega
      simp only [measured, operand?, read, Numeral.read_of_literal, Option.isNone_some,
        Bool.false_eq_true, if_false, Option.getD_some, outside, Numeral.apply_eq_signed,
        Text.of_digit_chars_eq_place_value, ite_not]
      split
      · rename_i fits
        have short : Text.placeValue literal.digits < 2 ^ 53 := by
          simp only [least, greatest, Double.signed] at fits
          split at fits <;> omega
        simp only [Except.map, Double.whole_rounded short]
      · rfl

theorem operands_ok_iff : pieces.mapM operand? = .ok values ↔ List.Forall₂ Given pieces values := by
  simp only [ok_of_each_iff, operand_ok_iff]

theorem operands_error_iff : pieces.mapM operand? = .error defect ↔
    ∃ before piece after values, pieces = before ++ piece :: after ∧
      List.Forall₂ Given before values ∧ Unfit piece defect := by
  simp only [error_of_each_iff, operand_ok_iff, operand_error_iff]

theorem of_mnemonic_eq_none_iff {word : Text} :
    Opcode.ofMnemonic? word = none ↔ ∀ opcode, Opcode.mnemonic opcode ≠ word := by
  constructor
  · rintro unknown opcode rfl
    rw [Opcode.of_mnemonic_mnemonic] at unknown
    cases unknown
  · intro unknown
    rw [Option.eq_none_iff_forall_ne_some]
    exact fun opcode found => unknown opcode (Opcode.mnemonic_of_of_mnemonic found)

/-- The mnemonic of an operation, by its name, leaves the operands to be looked at. -/
theorem of_statement_named (opcode : Opcode) (pieces : List Text) :
    ofStatement ⟨opcode.mnemonic, pieces⟩ =
      if 4 < pieces.length then .error (.tooManyOperands opcode.mnemonic pieces.length)
      else (pieces.mapM operand?).map (Instruction.mk opcode) := by
  simp only [ofStatement, Opcode.of_mnemonic_mnemonic]
  rfl

theorem of_statement_ok_iff : ofStatement statement = .ok instruction ↔
    Spells statement instruction := by
  constructor
  · intro made
    obtain ⟨word, pieces⟩ := statement
    cases known : Opcode.ofMnemonic? word with
    | none =>
        simp only [ofStatement, known] at made
        cases made
    | some opcode =>
        obtain rfl := Opcode.mnemonic_of_of_mnemonic known
        rw [of_statement_named] at made
        split at made
        · cases made
        · rename_i few
          cases read : pieces.mapM operand? with
          | error defect =>
              rw [read] at made
              cases made
          | ok values =>
              rw [read] at made
              cases made
              exact .spells (Nat.le_of_not_lt few) (operands_ok_iff.mp read)
  · rintro ⟨few, given⟩
    rw [of_statement_named, if_neg (Nat.not_lt.mpr few), operands_ok_iff.mpr given]
    rfl

theorem of_statement_error_iff : ofStatement statement = .error defect ↔
    Misspells statement defect := by
  constructor
  · intro refused
    obtain ⟨word, pieces⟩ := statement
    cases known : Opcode.ofMnemonic? word with
    | none =>
        simp only [ofStatement, known] at refused
        cases refused
        exact .unknown (of_mnemonic_eq_none_iff.mp known)
    | some opcode =>
        obtain rfl := Opcode.mnemonic_of_of_mnemonic known
        rw [of_statement_named] at refused
        split at refused
        · rename_i many
          cases refused
          exact .crowded many
        · rename_i few
          cases read : pieces.mapM operand? with
          | ok values =>
              rw [read] at refused
              cases refused
          | error found =>
              rw [read] at refused
              cases refused
              obtain ⟨before, piece, after, values, rfl, given, unfit⟩ :=
                operands_error_iff.mp read
              exact .unfit (Nat.le_of_not_lt few) given unfit
  · intro wrong
    cases wrong with
    | unknown unknown => simp only [ofStatement, of_mnemonic_eq_none_iff.mpr unknown]
    | crowded many => rw [of_statement_named, if_pos many]
    | unfit few given unfit =>
        rw [of_statement_named, if_neg (Nat.not_lt.mpr few),
          operands_error_iff.mpr ⟨_, _, _, _, rfl, given, unfit⟩]
        rfl

theorem decode_ok_iff : decode text = .ok (some instruction) ↔
    ∃ statement, Holds text statement ∧ Spells statement instruction := by
  simp only [← Statement.of_line_eq_some_iff, ← of_statement_ok_iff]
  rw [decode]
  cases Statement.ofLine? text with
  | none => simp
  | some statement =>
      cases made : ofStatement statement <;> simp [made, Except.map]

theorem decode_error_iff : decode text = .error defect ↔
    ∃ statement, Holds text statement ∧ Misspells statement defect := by
  simp only [← Statement.of_line_eq_some_iff, ← of_statement_error_iff]
  rw [decode]
  cases Statement.ofLine? text with
  | none => simp
  | some statement =>
      cases made : ofStatement statement <;> simp [made, Except.map]

/-- An integer as it is printed. -/
def printed (value : Int) : Literal where
  sign := if value < 0 then .minus else .none
  digits := Text.ofNat value.natAbs
  nonempty := Nat.toDigits_ne_nil
  decimal := List.all_eq_true.mpr fun _ member => Text.is_digit_of_mem_of_nat member

theorem text_printed (value : Int) : (printed value).text = Text.ofInt value := by
  rw [Literal.text, printed, Text.ofInt]
  split <;> rfl

theorem denotes_printed (value : Int) : Denotes (Text.ofInt value) value :=
  integer_eq_some_iff.mp (Text.integer_of_int value)

/-- An instruction is read back from its name and its printed operands. -/
theorem decode_printed (few : values.length ≤ 4) (fits : ∀ value ∈ values, Fits value) :
    decode (Statement.toLine ⟨opcode.mnemonic, values.map Text.ofInt⟩) =
      .ok (some ⟨opcode, values⟩) := by
  have readable : Statement.Readable ⟨opcode.mnemonic, values.map Text.ofInt⟩ := by
    apply Statement.readable_of_operands (Symbolic.mnemonic_of_opcode opcode)
    intro operand member
    obtain ⟨value, -, rfl⟩ := List.mem_map.mp member
    rw [← text_printed]
    exact (Symbolic.clean_of_literal (printed value)).operand
  have given : List.Forall₂ Given (values.map Text.ofInt) values := by
    rw [List.forall₂_map_left_iff, List.forall₂_same]
    exact fun value member => ⟨denotes_printed value, fits value member⟩
  have spells : Spells ⟨opcode.mnemonic, values.map Text.ofInt⟩ ⟨opcode, values⟩ :=
    .spells (by rwa [List.length_map]) given
  rw [decode_of_line (Statement.of_line_to_line readable), of_statement_ok_iff.mpr spells]
  rfl

/-- The instruction on the line at an index, which a failure names. -/
def decodeAt (line : Int) (text : Text) : Except Failure (Option Instruction) :=
  (decode text).mapError (Failure.program line)

theorem decode_at_ok_iff {line : Int} {found : Option Instruction} :
    decodeAt line text = .ok found ↔ decode text = .ok found := by
  rw [decodeAt]
  cases decode text <;> simp [Except.mapError]

theorem decode_at_error_iff {line : Int} {failure : Failure} :
    decodeAt line text = .error failure ↔
      ∃ defect, decode text = .error defect ∧ failure = .program line defect := by
  rw [decodeAt]
  cases decode text <;> simp [Except.mapError, eq_comm]

/-- What a line decodes to: to nothing where it is blank or a comment, to the one instruction
that its statement spells, and else it is refused, at its index, for what is wrong first. No
operand has another value, or another defect, for being rounded to a number on the way. So
every instruction that fits in a line is read back as it was printed. -/
theorem decoding_follows_grammar (line : Int) (text : Text) :
    (decodeAt line text = .ok none ↔
        Text.trim text = [] ∨ (Text.trim text).head? = some '#') ∧
      (∀ instruction, decodeAt line text = .ok (some instruction) ↔
        ∃ statement, Holds text statement ∧ Spells statement instruction) ∧
      (∀ failure, decodeAt line text = .error failure ↔
        ∃ statement defect, Holds text statement ∧ Misspells statement defect ∧
          failure = .program line defect) ∧
      (∀ piece, (measured piece).map Double.whole? = (operand? piece).map some) ∧
      ∀ opcode values, List.length values ≤ 4 → (∀ value ∈ values, Fits value) →
        decodeAt line (Statement.toLine ⟨Opcode.mnemonic opcode, values.map Text.ofInt⟩) =
          .ok (some ⟨opcode, values⟩) := by
  refine ⟨?_, fun instruction => ?_, fun failure => ?_, operand_measured,
    fun opcode values few fits => ?_⟩
  · rw [decode_at_ok_iff, decode_eq_none_iff]
    exact Statement.skipped_iff_trim text
  · rw [decode_at_ok_iff, decode_ok_iff]
  · simp only [decode_at_error_iff, decode_error_iff]
    constructor
    · rintro ⟨defect, ⟨statement, holds, wrong⟩, located⟩
      exact ⟨statement, defect, holds, wrong, located⟩
    · rintro ⟨statement, defect, holds, wrong, located⟩
      exact ⟨defect, ⟨statement, holds, wrong⟩, located⟩
  · rw [decode_at_ok_iff]
    exact decode_printed few fits

/-- Leading zeros, a sign of a zero and blanks within a number, up to both ends of the range. -/
def zeroedLine : Text := " jne\u2003+0002147483647 , -0,-2 147483648".toList

def extremes : List Int := [2147483647, 0, -2147483648]

theorem decoding_follows_grammar_zeroed :
    decodeAt 3 zeroedLine = .ok (some ⟨.jumpDifferent, extremes⟩) ∧
      (∃ statement, Holds zeroedLine statement ∧ Spells statement ⟨.jumpDifferent, extremes⟩) ∧
      extremes.length ≤ 4 ∧ (∀ value ∈ extremes, Fits value) ∧
      decodeAt 3 (Statement.toLine ⟨Opcode.mnemonic .clearBit, extremes.map Text.ofInt⟩) =
        .ok (some ⟨.clearBit, extremes⟩) := by
  obtain ⟨-, accepts, -, -, prints⟩ := decoding_follows_grammar 3 zeroedLine
  have decoded : decodeAt 3 zeroedLine = .ok (some ⟨.jumpDifferent, extremes⟩) := rfl
  have few : extremes.length ≤ 4 := by decide
  have fits : ∀ value ∈ extremes, Fits value := by
    intro value member
    rw [fits_iff]
    revert value
    decide
  exact ⟨decoded, (accepts _).mp decoded, few, fits, prints .clearBit extremes few fits⟩

end Instruction

end StackMachine
