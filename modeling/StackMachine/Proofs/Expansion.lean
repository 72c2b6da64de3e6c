import StackMachine.Proofs.Acceptance
import StackMachine.Proofs.Spelling

/-!
# What moves are expanded to

The shorthand gives way to a line that reads as the operation its operands tell, with the same
operands, whatever these are: also where they are empty, or hold brackets or the marks of
comments and labels. Every other line stays as it is, and no shorthand is left.
-/

namespace StackMachine.Move

set_option autoImplicit false

variable {text out : Text} {lines operands : List Text} {statement : Statement}

/-- What becomes of a line. -/
inductive Expanded (text : Text) : Text → Prop
  | kept (plain : ∀ operands, ¬Moves text operands) : Expanded text text
  | toStack {register out : Text} (moves : Moves text [register])
      (plain : register.head? ≠ some '[')
      (reads : Statement.ofLine? out = some ⟨"mov_r2s".toList, [register]⟩) : Expanded text out
  | fromStack {register out : Text} (moves : Moves text ['[' :: (register ++ [']'])])
      (reads : Statement.ofLine? out = some ⟨"mov_s2r".toList, [register]⟩) : Expanded text out
  | between {source target out : Text} (moves : Moves text [source, target])
      (reads : Statement.ofLine? out = some ⟨"mov_r2r".toList, [source, target]⟩) :
      Expanded text out

/-- An operation is read back with the operands that a move was read with. -/
theorem of_line_operation (moves : Moves text operands) (opcode : Opcode) :
    Statement.ofLine? (Statement.toLine ⟨opcode.mnemonic, operands⟩) =
      some ⟨opcode.mnemonic, operands⟩ := by
  obtain ⟨mnemonic, read, -⟩ := moves
  have readable := Statement.readable_of_line read
  exact Statement.of_line_to_line {
    mnemonic := Symbolic.mnemonic_of_opcode opcode
    solid := readable.solid
    whole := readable.whole
    visible := readable.visible }

/-- Between the brackets there is an operand as well, if there is anything. -/
theorem of_line_unbracketed {register : Text} (nonempty : register ≠ [])
    (moves : Moves text ['[' :: (register ++ [']'])]) (opcode : Opcode) :
    Statement.ofLine? (Statement.toLine ⟨opcode.mnemonic, [register]⟩) =
      some ⟨opcode.mnemonic, [register]⟩ := by
  obtain ⟨mnemonic, read, -⟩ := moves
  have readable := Statement.readable_of_line read
  have inside : ∀ c ∈ register, c ∈ '[' :: (register ++ [']']) :=
    fun c member => List.mem_cons_of_mem '[' (List.mem_append_left _ member)
  apply Statement.of_line_to_line
  apply Statement.readable_of_operands (Symbolic.mnemonic_of_opcode opcode)
  intro operand member
  rw [List.mem_singleton.mp member]
  constructor
  · exact nonempty
  · exact fun c within => readable.solid _ (List.mem_singleton_self _) c (inside c within)
  · exact fun comma => readable.whole _ (List.mem_singleton_self _) (inside ',' comma)

/-- One case for each shape of the operands. -/
theorem expanded_of_shaped (moves : Moves text operands) (shaped : Shaped operands) :
    ∃ statement, expand operands = .ok statement ∧ Expanded text statement.toLine := by
  cases shaped with
  | @register operand plain =>
      have unmarked : isStackOperand operand = false := by
        rw [Bool.eq_false_iff, ne_eq, is_stack_operand_iff]
        exact plain
      refine ⟨⟨Opcode.registerToStack.mnemonic, [operand]⟩, ?_, ?_⟩
      · simp only [expand, unmarked, Bool.false_eq_true, if_false]
      · exact .toStack moves plain (of_line_operation moves .registerToStack)
  | @stack inner nonempty =>
      have marked : isStackOperand ('[' :: (inner ++ [']'])) = true := rfl
      have found : inner? ('[' :: (inner ++ [']'])) = some inner :=
        inner_eq_some_iff.mpr ⟨rfl, nonempty⟩
      refine ⟨⟨Opcode.stackToRegister.mnemonic, [inner]⟩, ?_, ?_⟩
      · simp only [expand, marked, found, if_true]
      · exact .fromStack moves (of_line_unbracketed nonempty moves .stackToRegister)
  | @registers source target source_plain target_plain =>
      have unmarked : (isStackOperand source || isStackOperand target) = false := by
        rw [Bool.eq_false_iff, ne_eq, Bool.or_eq_true, is_stack_operand_iff, is_stack_operand_iff]
        exact fun marked => marked.elim source_plain target_plain
      refine ⟨⟨Opcode.registerToRegister.mnemonic, [source, target]⟩, ?_, ?_⟩
      · simp only [expand, unmarked, Bool.false_eq_true, if_false]
      · exact .between moves (of_line_operation moves .registerToRegister)

theorem expanded_of_expand_line (made : expandLine text = .ok out) : Expanded text out := by
  by_cases moves : ∃ operands, Moves text operands
  · obtain ⟨operands, moves⟩ := moves
    rw [expand_line_moves moves] at made
    rcases expand_cases operands with ⟨-, -, shaped⟩ | ⟨defect, refused, -⟩
    · obtain ⟨statement, expanded, becomes⟩ := expanded_of_shaped moves shaped
      rw [expanded] at made
      cases made
      exact becomes
    · rw [refused] at made
      cases made
  · rw [not_exists] at moves
    rw [expand_line_other moves] at made
    cases made
    exact .kept moves

theorem not_moves_of_line (read : Statement.ofLine? out = some statement)
    (plain : isMove statement.mnemonic = false) (operands : List Text) : ¬Moves out operands := by
  rintro ⟨mnemonic, again, named⟩
  rw [read] at again
  cases again
  rw [named] at plain
  cases plain

theorem Expanded.plain (expanded : Expanded text out) (operands : List Text) :
    ¬Moves out operands := by
  cases expanded with
  | kept plain => exact plain operands
  | toStack moves plain reads =>
      exact not_moves_of_line reads (Symbolic.opcode_is_no_move .registerToStack) operands
  | fromStack moves reads =>
      exact not_moves_of_line reads (Symbolic.opcode_is_no_move .stackToRegister) operands
  | between moves reads =>
      exact not_moves_of_line reads (Symbolic.opcode_is_no_move .registerToRegister) operands

theorem expanded_of_expand_all {outs : List Text} (made : expandAll lines = .ok outs) :
    List.Forall₂ Expanded lines outs :=
  (expand_from_ok_iff.mp made).imp fun _ _ made => expanded_of_expand_line made

/-- Where all moves have a shape, and only there, lines are expanded: each to what it stands
for, and none of them to a move. -/
theorem expansion_is_normal (lines : List Text) :
    ((∃ outs, expandAll lines = .ok outs) ↔ WellShaped lines) ∧
      ∀ outs, expandAll lines = .ok outs →
        outs.length = lines.length ∧ List.Forall₂ Expanded lines outs ∧
          ∀ out ∈ outs, ∀ operands, ¬Moves out operands := by
  refine ⟨expand_all_ok_iff, fun outs made => ?_⟩
  have each := expanded_of_expand_all made
  refine ⟨each.length_eq.symm, each, ?_⟩
  intro out member
  obtain ⟨index, within, rfl⟩ := List.getElem_of_mem member
  have there : index < lines.length := each.length_eq ▸ within
  exact (each.get there within).plain

/-- An empty operand and one that is the mark of a comment; the mark of a label in brackets;
and two lines that only look like moves. -/
def markedLines : List Text :=
  ["mov ,#".toList, "\tmove [ : ]".toList, " # mov a".toList, "movx [".toList]

theorem expansion_is_normal_marked :
    expandAll markedLines =
        .ok ["mov_r2r , #".toList, "mov_s2r :".toList, " # mov a".toList, "movx [".toList] ∧
      List.Forall₂ Expanded markedLines
        ["mov_r2r , #".toList, "mov_s2r :".toList, " # mov a".toList, "movx [".toList] := by
  have made : expandAll markedLines =
      .ok ["mov_r2r , #".toList, "mov_s2r :".toList, " # mov a".toList, "movx [".toList] := rfl
  obtain ⟨-, each, -⟩ := (expansion_is_normal markedLines).2 _ made
  exact ⟨made, each⟩

end StackMachine.Move
