import StackMachine.Machine
import StackMachine.Proofs.Decoding

/-!
# Fetching lines

A machine passes over blank lines and comments to the first statement, and takes that
line whether it decodes or not. A machine that is already there fetches the same line.
-/

namespace StackMachine

set_option autoImplicit false

/-- The first line from a given one on that is neither blank nor a comment. -/
structure FirstStatement (lines : List Text) (start index : Nat) : Prop where
  not_before : start ≤ index
  statement : ∃ text, lines[index]? = some text ∧ Statement.isSkipped text = false
  skipped : ∀ earlier text, start ≤ earlier → earlier < index →
    lines[earlier]? = some text → Statement.isSkipped text = true

namespace Machine

variable {m : Machine}

/-- The lines that a scan has gone through, and the one it has found. -/
structure Scanned (line : Nat) (lines skipped rest : List Text) (fetched : Fetched) : Prop where
  parted : lines = skipped ++ fetched.text :: rest
  passed : ∀ text ∈ skipped, Statement.isSkipped text = true
  line_eq : fetched.line = line + skipped.length
  decoded : Instruction.decode fetched.text = fetched.decoded.map some

theorem scanned_of_fetch_from {line : Nat} {lines : List Text} {fetched : Fetched}
    (found : fetchFrom line lines = some fetched) :
    ∃ skipped rest, Scanned line lines skipped rest fetched := by
  induction lines generalizing line with
  | nil => cases found
  | cons text rest ih =>
      rw [fetchFrom] at found
      split at found
      · rename_i decoded
        obtain ⟨skipped, others, scanned⟩ := ih found
        refine ⟨text :: skipped, others, ?_, ?_, ?_, scanned.decoded⟩
        · rw [scanned.parted, List.cons_append]
        · intro passed member
          rcases List.mem_cons.mp member with same | later
          · rw [same]
            exact (Instruction.decode_eq_none_iff text).mp decoded
          · exact scanned.passed passed later
        · rw [scanned.line_eq, List.length_cons]
          omega
      · rename_i instruction decoded
        cases found
        exact ⟨[], rest, rfl, fun _ member => (List.not_mem_nil member).elim, rfl, decoded⟩
      · rename_i defect decoded
        cases found
        exact ⟨[], rest, rfl, fun _ member => (List.not_mem_nil member).elim, rfl, decoded⟩

theorem skipped_of_fetch_from {line : Nat} {lines : List Text}
    (nothing : fetchFrom line lines = none) :
    ∀ text ∈ lines, Statement.isSkipped text = true := by
  induction lines generalizing line with
  | nil => exact fun _ member => (List.not_mem_nil member).elim
  | cons text rest ih =>
      rw [fetchFrom] at nothing
      split at nothing
      · rename_i decoded
        intro passed member
        rcases List.mem_cons.mp member with same | later
        · rw [same]
          exact (Instruction.decode_eq_none_iff text).mp decoded
        · exact ih nothing passed later
      · cases nothing
      · cases nothing

/-- A machine that finds no statement has only blank lines and comments before it. -/
theorem skipped_of_fetch (nothing : m.fetch = none) (index : Nat) (text : Text)
    (ahead : m.pointer ≤ index) (there : m.program.lines[index]? = some text) :
    Statement.isSkipped text = true := by
  apply skipped_of_fetch_from nothing
  apply List.mem_of_getElem? (i := index - m.pointer)
  rw [List.getElem?_drop, Nat.add_sub_cancel' ahead]
  exact there

theorem fetch_from_here {fetched : Fetched} (rest : List Text)
    (decoded : Instruction.decode fetched.text = fetched.decoded.map some) :
    fetchFrom fetched.line (fetched.text :: rest) = some fetched := by
  rw [fetchFrom]
  cases fetched with
  | mk line text outcome =>
      cases outcome with
      | error defect =>
          have wrong : Instruction.decode text = .error defect := decoded
          simp only [wrong]
      | ok instruction =>
          have right : Instruction.decode text = .ok (some instruction) := decoded
          simp only [right]

theorem lines_from {lines : List Text} {line : Nat} {text : Text}
    (there : lines[line]? = some text) : lines.drop line = text :: lines.drop (line + 1) :=
  (List.drop_eq_getElem?_toList_append (l := lines)).trans (by rw [there]; rfl)

theorem fetch_from_line {lines : List Text} {line : Nat} {text : Text}
    {decoded : Except Defect Instruction} (there : lines[line]? = some text)
    (decodes : Instruction.decode text = decoded.map some) :
    fetchFrom line (lines.drop line) = some ⟨line, text, decoded⟩ := by
  rw [lines_from there]
  exact @fetch_from_here ⟨line, text, decoded⟩ (lines.drop (line + 1)) decodes

theorem fetch_again {again : Machine} {fetched : Fetched} (found : m.fetch = some fetched)
    (program : again.program = m.program) (pointer : again.pointer = fetched.line) :
    again.fetch = some fetched := by
  obtain ⟨skipped, rest, scanned⟩ := scanned_of_fetch_from found
  have here : m.program.lines.drop fetched.line = fetched.text :: rest := by
    rw [scanned.line_eq, ← List.drop_drop, scanned.parted, List.drop_left]
  rw [fetch, program, pointer, here]
  exact fetch_from_here rest scanned.decoded

/-- The text that is fetched stands in the program, at the line that is fetched. -/
theorem text_of_fetch {fetched : Fetched} (found : m.fetch = some fetched) :
    m.program.lines[fetched.line]? = some fetched.text := by
  obtain ⟨skipped, rest, scanned⟩ := scanned_of_fetch_from found
  rw [scanned.line_eq, ← List.getElem?_drop, scanned.parted,
    List.getElem?_append_right (Nat.le_refl _), Nat.sub_self]
  rfl

theorem first_statement_of_fetch {fetched : Fetched} (found : m.fetch = some fetched) :
    FirstStatement m.program.lines m.pointer fetched.line := by
  obtain ⟨skipped, rest, scanned⟩ := scanned_of_fetch_from found
  have place : ∀ offset, m.program.lines[m.pointer + offset]? =
      (skipped ++ fetched.text :: rest)[offset]? := by
    intro offset
    rw [← scanned.parted, List.getElem?_drop]
  constructor
  · rw [scanned.line_eq]
    omega
  · refine ⟨fetched.text, text_of_fetch found, ?_⟩
    · by_contra skips
      have none := (Instruction.decode_eq_none_iff fetched.text).mpr (by simpa using skips)
      rw [scanned.decoded] at none
      cases decoded : fetched.decoded with
      | error defect =>
          rw [decoded] at none
          cases none
      | ok instruction =>
          rw [decoded] at none
          cases none
  · intro earlier text above below at_earlier
    have bound : earlier - m.pointer < skipped.length := by
      rw [scanned.line_eq] at below
      omega
    have shifted : m.pointer + (earlier - m.pointer) = earlier := by omega
    rw [← shifted, place, List.getElem?_append_left bound] at at_earlier
    exact scanned.passed text (List.mem_of_getElem? at_earlier)

end Machine

end StackMachine
