import StackMachine.Proofs.Expansion

/-!
# Prepared programs are settled

Preparing a program again leaves it as it is. Whatever a name is made of, only a digit can
come before what a line began with, so no line becomes a declaration; and a move becomes an
operation, so no move is left. The lines that both passes leave alone are exactly these.
-/

namespace StackMachine

set_option autoImplicit false

variable {source lines : List Text} {text out : Text}

namespace Label

theorem undeclared_substitute (ranking : List Label) (undeclared : declared? text = none) :
    declared? (substitute ranking text) = none := by
  rw [declared_eq_none_iff] at undeclared ⊢
  intro first
  rcases first_substitute first with same | digit
  · exact undeclared same
  · cases digit

/-- A line that declares a label is emptied, and no other line comes to declare one. -/
theorem undeclared_resolve (labels : List Label) :
    ∀ text ∈ resolve labels source, declared? text = none := by
  intro text member
  obtain ⟨line, -, rfl⟩ := List.mem_map.mp member
  rw [resolveLine]
  cases declares : declared? line with
  | some name => rfl
  | none => exact undeclared_substitute (ranked labels) declares

theorem undeclared_iff :
    (∀ text ∈ source, declared? text = none) ↔ ∀ index name, ¬Declares source index name := by
  constructor
  · rintro undeclared index name ⟨text, there, trimmed⟩
    have none := undeclared text (List.mem_of_getElem? there)
    rw [declared_eq_some_iff.mpr trimmed] at none
    cases none
  · intro undeclared text member
    obtain ⟨index, there⟩ := List.getElem?_of_mem member
    cases declares : declared? text with
    | none => rfl
    | some name =>
        have trimmed := declared_eq_some_iff.mp declares
        exact (undeclared index name ⟨text, there, trimmed⟩).elim

end Label

namespace Move

theorem undeclared_of_line {statement : Statement} (read : Statement.ofLine? out = some statement)
    (plain : statement.mnemonic.head? ≠ some Label.mark) : Label.declared? out = none := by
  rw [Label.declared_eq_none_iff, ← Statement.head_of_line read]
  exact plain

theorem Expanded.undeclared (expanded : Expanded text out)
    (undeclared : Label.declared? text = none) : Label.declared? out = none := by
  cases expanded with
  | kept plain => exact undeclared
  | toStack moves plain reads => exact undeclared_of_line reads nofun
  | fromStack moves reads => exact undeclared_of_line reads nofun
  | between moves reads => exact undeclared_of_line reads nofun

theorem expand_all_plain (plain : ∀ text ∈ lines, ∀ operands, ¬Moves text operands) :
    expandAll lines = .ok lines := by
  apply expand_from_ok_iff.mpr
  rw [List.forall₂_same]
  exact fun text member => expand_line_other (plain text member)

end Move

namespace Program

/-- Neither a declaration nor a move. -/
structure Settled (line : Text) : Prop where
  undeclared : Label.declared? line = none
  plain : ∀ operands, ¬Move.Moves line operands

theorem prepare_settled (settled : ∀ line ∈ source, Settled line) :
    prepare source = .ok ⟨source, []⟩ := by
  apply prepare_undeclared
  · exact fun line member => (settled line member).undeclared
  · exact Move.expand_all_plain fun line member => (settled line member).plain

theorem settled_of_prepare {program : Program} (prepared : prepare source = .ok program) :
    ∀ line ∈ program.lines, Settled line := by
  intro line member
  obtain ⟨index, within, rfl⟩ := List.getElem_of_mem member
  have each := Move.expanded_of_expand_all (prepare_ok prepared).2
  have there : index < (Label.resolve program.labels source).length := each.length_eq ▸ within
  have expanded := each.get there within
  constructor
  · exact expanded.undeclared (Label.undeclared_resolve program.labels _ (List.get_mem _ _))
  · exact expanded.plain

/-- The programs that preparing leaves as they are. -/
theorem prepare_eq_self_iff :
    prepare source = .ok ⟨source, []⟩ ↔ ∀ line ∈ source, Settled line :=
  ⟨fun prepared => settled_of_prepare prepared, prepare_settled⟩

/-- A prepared program can be given as a source again: it has no labels then, and its lines
stay what they are, as those of all settled sources do. Without declarations, already
resolving leaves every source as it is. -/
theorem prepare_idempotent (source : List Text) :
    (∀ program, prepare source = .ok program →
        prepare program.lines = .ok ⟨program.lines, []⟩) ∧
      (prepare source = .ok ⟨source, []⟩ ↔ ∀ line ∈ source, Settled line) ∧
      ((∀ index name, ¬Label.Declares source index name) →
        resolve source = .ok ⟨source, []⟩) := by
  refine ⟨?_, prepare_eq_self_iff, ?_⟩
  · intro program prepared
    exact prepare_settled (settled_of_prepare prepared)
  · intro undeclared
    exact resolve_undeclared (Label.undeclared_iff.mpr undeclared)

/-- Names that are the marks of a comment and of a bracket, and one with a blank before the
mark of a label: with them a move and a comment become what they were not. -/
def disguisedSource : List Text :=
  [": :".toList, ":#".toList, ":[".toList, "mov [5]".toList, "# a :b".toList]

def disguisedLabels : List Label := [⟨" :".toList, 0⟩, ⟨"#".toList, 1⟩, ⟨"[".toList, 2⟩]

def disguisedLines : List Text := [[], [], [], "mov_r2s 25]".toList, "1 a0b".toList]

theorem prepare_idempotent_disguised :
    prepare disguisedSource = .ok ⟨disguisedLines, disguisedLabels⟩ ∧
      prepare disguisedLines = .ok ⟨disguisedLines, []⟩ ∧
      (∀ index name, ¬Label.Declares disguisedLines index name) ∧
      resolve disguisedLines = .ok ⟨disguisedLines, []⟩ := by
  have collected : Label.collect disguisedSource = .ok disguisedLabels := rfl
  have resolved := resolve_ranked collected (by decide)
  have prepared : prepare disguisedSource = .ok ⟨disguisedLines, disguisedLabels⟩ := by
    simp only [prepare, resolved]
    rfl
  have undeclared : ∀ index name, ¬Label.Declares disguisedLines index name :=
    Label.undeclared_iff.mp (by decide)
  exact ⟨prepared, (prepare_idempotent disguisedSource).1 _ prepared, undeclared,
    (prepare_idempotent disguisedLines).2.2 undeclared⟩

end Program

end StackMachine
