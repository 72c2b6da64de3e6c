import StackMachine.CommandLine

/-!
# What reports are made of

The lines of either channel, the numbered lines of a program, and what it is for a variable to
be set.
-/

namespace StackMachine

set_option autoImplicit false

namespace Message

/-- The lines for the standard output. -/
def printedLines : List Message → List String
  | [] => []
  | .print text :: rest => text :: printedLines rest
  | .warn _ :: rest => printedLines rest

/-- The lines for the standard error. -/
def warnedLines : List Message → List String
  | [] => []
  | .print _ :: rest => warnedLines rest
  | .warn text :: rest => text :: warnedLines rest

theorem printed_lines_eq (messages : List Message) :
    messages.filterMap CommandLine.printed? = printedLines messages := by
  induction messages with
  | nil => rfl
  | cons message rest ih =>
      cases message with
      | print text => exact congrArg (text :: ·) ih
      | warn text => exact ih

theorem warned_lines_eq (messages : List Message) :
    messages.filterMap CommandLine.warned? = warnedLines messages := by
  induction messages with
  | nil => rfl
  | cons message rest ih =>
      cases message with
      | print text => exact ih
      | warn text => exact congrArg (text :: ·) ih

theorem printed_lines_append (messages others : List Message) :
    printedLines (messages ++ others) = printedLines messages ++ printedLines others := by
  simp only [← printed_lines_eq, List.filterMap_append]

end Message

namespace Launch

/-- A variable is set to any text but the empty one. -/
def IsSet (setting : Option String) : Prop := setting ≠ none ∧ setting ≠ some ""

instance (setting : Option String) : Decidable (IsSet setting) :=
  inferInstanceAs (Decidable (_ ∧ _))

theorem is_on_eq (setting : Option String) : isOn setting = decide (IsSet setting) := by
  cases setting with
  | none => rfl
  | some value =>
      have test : isOn (some value) = !value.isEmpty := rfl
      rw [test]
      cases empty : value.isEmpty with
      | true =>
          have nothing : value = "" := String.isEmpty_iff.mp empty
          rw [nothing]
          rfl
      | false =>
          have given : IsSet (some value) := by
            refine ⟨Option.some_ne_none value, ?_⟩
            rintro ⟨⟩
            cases empty
          rw [decide_eq_true given]
          rfl

/-- Lines behind their numbers, from a number on. -/
def numbered (number : Nat) : List Text → List Message
  | [] => []
  | line :: rest =>
      .print (Text.decimal number ++ ": " ++ String.ofList line) :: numbered (number + 1) rest

theorem numbered_listing (program : Program) :
    program.listing.map Message.print = numbered 0 program.lines := by
  have shifted : ∀ (lines : List Text) (number : Nat),
      (lines.mapIdx fun index line =>
        Text.decimal (index + number : Nat) ++ ": " ++ String.ofList line).map Message.print =
        numbered number lines := by
    intro lines
    induction lines with
    | nil => exact fun number => rfl
    | cons line rest ih =>
        intro number
        rw [List.mapIdx_cons, List.map_cons, numbered, ← ih (number + 1), Nat.zero_add]
        simp only [Nat.add_assoc, Nat.add_comm 1 number]
  exact shifted program.lines 0

end Launch

end StackMachine
