import StackMachine.Instruction
import StackMachine.Proofs.Reading
import Mathlib.Data.List.Forall2

/-!
# Decoding lines

A line decodes to nothing exactly where it holds no statement. What can be wrong with a
statement lies in its mnemonic, in the number of its operands or in one of them, and
never in a jump.
-/

namespace StackMachine

set_option autoImplicit false

section Each

variable {ε α β : Type} {f : α → Except ε β} {reason : ε} {as : List α} {bs : List β}

theorem ok_of_each_iff : as.mapM f = .ok bs ↔ List.Forall₂ (fun a b => f a = .ok b) as bs := by
  induction as generalizing bs with
  | nil =>
      rw [List.mapM_nil, List.forall₂_nil_left_iff]
      exact ⟨fun same => (Except.ok.inj same).symm, fun none => none ▸ rfl⟩
  | cons a rest ih =>
      rw [List.mapM_cons, List.forall₂_cons_left_iff]
      constructor
      · intro made
        cases first : f a with
        | error found =>
            rw [first] at made
            cases made
        | ok b =>
            cases others : rest.mapM f with
            | error found =>
                rw [first, others] at made
                cases made
            | ok results =>
                rw [first, others] at made
                cases made
                exact ⟨b, results, rfl, ih.mp others, rfl⟩
      · rintro ⟨b, results, first, others, rfl⟩
        rw [first, ih.mpr others]
        rfl

/-- The first failure is the failure of the whole. -/
theorem error_of_each_iff : as.mapM f = .error reason ↔
    ∃ before a after bs, as = before ++ a :: after ∧
      List.Forall₂ (fun a b => f a = .ok b) before bs ∧ f a = .error reason := by
  constructor
  · intro failed
    induction as with
    | nil => cases failed
    | cons a rest ih =>
        rw [List.mapM_cons] at failed
        cases first : f a with
        | error found =>
            rw [first] at failed
            cases failed
            exact ⟨[], a, rest, [], rfl, .nil, first⟩
        | ok b =>
            cases others : rest.mapM f with
            | ok results =>
                rw [first, others] at failed
                cases failed
            | error found =>
                rw [first, others] at failed
                cases failed
                obtain ⟨before, here, after, results, split, passed, stops⟩ := ih others
                exact ⟨a :: before, here, after, b :: results, by rw [split]; rfl,
                  .cons first passed, stops⟩
  · rintro ⟨before, a, after, results, rfl, passed, stops⟩
    induction passed with
    | nil =>
        rw [List.nil_append, List.mapM_cons, stops]
        rfl
    | cons first later ih =>
        rw [List.cons_append, List.mapM_cons, first, ih]
        rfl

end Each

def Defect.isLeap : Defect → Bool
  | .negativeJump _ => true
  | _ => false

namespace Instruction

theorem decode_of_line {text : Text} {statement : Statement}
    (read : Statement.ofLine? text = some statement) :
    decode text = (ofStatement statement).map some := by
  simp only [decode, read]

theorem decode_eq_none_iff (line : Text) :
    decode line = .ok none ↔ Statement.isSkipped line = true := by
  rw [← Statement.of_line_eq_none_iff, decode]
  cases Statement.ofLine? line with
  | none => simp
  | some statement =>
      cases decoded : ofStatement statement <;> simp [decoded, Except.map]

theorem no_leap_of_operand {text : Text} {defect : Defect}
    (refused : operand? text = .error defect) : defect.isLeap = false := by
  rw [operand?] at refused
  split at refused
  · cases refused
    rfl
  · split at refused
    · cases refused
    · cases refused
      rfl

theorem no_leap_of_operands {texts : List Text} {defect : Defect}
    (refused : texts.mapM operand? = .error defect) : defect.isLeap = false := by
  obtain ⟨before, text, after, values, -, -, here⟩ := error_of_each_iff.mp refused
  exact no_leap_of_operand here

theorem no_leap_of_statement {statement : Statement} {defect : Defect}
    (refused : ofStatement statement = .error defect) : defect.isLeap = false := by
  rw [ofStatement] at refused
  split at refused
  · cases refused
    rfl
  · split at refused
    · cases refused
      rfl
    · cases values : statement.operands.mapM operand? with
      | ok operands =>
          rw [values] at refused
          cases refused
      | error found =>
          rw [values] at refused
          cases refused
          exact no_leap_of_operands values

/-- What is wrong with a line is never a jump. -/
theorem no_leap_of_decode {line : Text} {defect : Defect}
    (refused : decode line = .error defect) : defect.isLeap = false := by
  rw [decode] at refused
  cases read : Statement.ofLine? line with
  | none =>
      simp only [read] at refused
      cases refused
  | some statement =>
      simp only [read] at refused
      cases decoded : ofStatement statement with
      | ok instruction =>
          rw [decoded] at refused
          cases refused
      | error found =>
          rw [decoded] at refused
          cases refused
          exact no_leap_of_statement decoded

end Instruction

end StackMachine
