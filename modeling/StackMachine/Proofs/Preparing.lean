import StackMachine.Machine
import StackMachine.Proofs.Reading
import StackMachine.Proofs.Substitution
import Mathlib.Data.List.Forall2

/-!
# What has been prepared

A source that could be prepared declares every label once, under a name that is not
empty, and the table of labels is the list of its declarations. Every line of the
program is the line of the source at the same index, resolved and expanded.
-/

namespace StackMachine

set_option autoImplicit false

theorem ok_of_bind {ε α β : Type} {first : Except ε α} {next : α → Except ε β} {b : β}
    (made : first >>= next = .ok b) : ∃ a, first = .ok a ∧ next a = .ok b := by
  cases first with
  | error reason => cases made
  | ok a => exact ⟨a, rfl, made⟩

theorem error_of_bind {ε α β : Type} {first : Except ε α} {next : α → Except ε β} {reason : ε}
    (failed : first >>= next = .error reason) :
    first = .error reason ∨ ∃ a, first = .ok a ∧ next a = .error reason := by
  cases first with
  | error found =>
      cases failed
      exact .inl rfl
  | ok a => exact .inr ⟨a, rfl, failed⟩

namespace Label

theorem declared_eq_some_iff {text name : Text} :
    declared? text = some name ↔ Text.trim text = mark :: name := by
  unfold declared?
  cases Text.trim text with
  | nil => simp
  | cons c rest =>
      by_cases marked : c = mark
      · simp [marked]
      · simp [marked]

theorem declared_eq_none_iff {text : Text} :
    declared? text = none ↔ Text.first? text ≠ some mark := by
  rw [← Text.head_trim, declared?]
  cases Text.trim text with
  | nil => simp
  | cons c rest =>
      by_cases marked : c = mark
      · simp [marked]
      · simp [marked]

theorem undeclared_of_skipped {line : Text} (skipped : Statement.isSkipped line = true) :
    declared? line = none := by
  rw [declared_eq_none_iff]
  intro first
  exact absurd ((Statement.skipped_iff_first line).mp skipped mark first) (by decide)

theorem declare_ok {labels after : List Label} {text : Text} {line : Nat}
    (declared : declare labels text line = .ok after) :
    declared? text = none ∧ after = labels ∨
      ∃ name, declared? text = some name ∧ name ≠ [] ∧ name ∉ names labels ∧
        after = labels ++ [⟨name, line⟩] := by
  rw [declare] at declared
  split at declared
  · rename_i undeclared
    cases declared
    exact .inl ⟨undeclared, rfl⟩
  · cases declared
  · rename_i name named declares
    split at declared
    · cases declared
    · rename_i fresh
      cases declared
      exact .inr ⟨name, declares, named, (find_eq_none_iff labels name).mp fresh, rfl⟩

theorem declarations_of_collect_from {source : List Text} {line : Nat} {labels all : List Label}
    (collected : collectFrom line labels source = .ok all) (distinct : (names labels).Nodup)
    (named : [] ∉ names labels) :
    all = labels ++ declarationsFrom line source ∧ (names all).Nodup ∧ [] ∉ names all := by
  induction source generalizing line labels with
  | nil =>
      cases collected
      exact ⟨(List.append_nil _).symm, distinct, named⟩
  | cons text rest ih =>
      obtain ⟨after, declared, onward⟩ := ok_of_bind collected
      rcases declare_ok declared with ⟨undeclared, same⟩ | ⟨name, declares, nonempty, fresh, added⟩
      · rw [same] at onward
        simp only [declarationsFrom, undeclared]
        exact ih onward distinct named
      · have split : names after = names labels ++ [name] := by
          rw [added, names, List.map_append]
          rfl
        have distinct_after : (names after).Nodup := by
          rw [split]
          refine List.nodup_append.mpr ⟨distinct, List.pairwise_singleton _ name, ?_⟩
          intro other member last there same
          rw [same, List.mem_singleton.mp there] at member
          exact fresh member
        have named_after : [] ∉ names after := by
          rw [split, List.mem_append, List.mem_singleton, not_or]
          exact ⟨named, Ne.symm nonempty⟩
        obtain ⟨all_eq, rest_distinct, rest_named⟩ := ih onward distinct_after named_after
        refine ⟨?_, rest_distinct, rest_named⟩
        simp only [declarationsFrom, declares]
        rw [all_eq, added, List.append_assoc, List.singleton_append]

/-- The labels of a source are its declarations, under distinct names that are not empty. -/
theorem declarations_of_collect {source : List Text} {labels : List Label}
    (collected : collect source = .ok labels) :
    labels = declarationsFrom 0 source ∧ (names labels).Nodup ∧ [] ∉ names labels := by
  have found := declarations_of_collect_from collected List.nodup_nil List.not_mem_nil
  rwa [List.nil_append] at found

theorem mem_declarations_from {source : List Text} {start offset : Nat} {text name : Text}
    (there : source[offset]? = some text) (declares : declared? text = some name) :
    (⟨name, start + offset⟩ : Label) ∈ declarationsFrom start source := by
  induction source generalizing start offset with
  | nil => cases there
  | cons first rest ih =>
      cases offset with
      | zero =>
          cases there
          simp only [declarationsFrom, declares]
          exact List.mem_cons_self
      | succ offset =>
          have later : (⟨name, start + 1 + offset⟩ : Label) ∈ declarationsFrom (start + 1) rest :=
            ih there
          rw [Nat.add_right_comm, Nat.add_assoc] at later
          rw [declarationsFrom]
          split
          · exact List.mem_cons_of_mem _ later
          · exact later

/-- Every declaration that is found stands on the line that it names. -/
theorem line_of_mem_declarations {source : List Text} {start : Nat} {label : Label}
    (member : label ∈ declarationsFrom start source) :
    ∃ offset text, source[offset]? = some text ∧ declared? text = some label.name ∧
      label.line = start + offset := by
  induction source generalizing start with
  | nil => cases member
  | cons text rest ih =>
      have later : label ∈ declarationsFrom (start + 1) rest → ∃ offset other,
          (text :: rest)[offset]? = some other ∧ declared? other = some label.name ∧
            label.line = start + offset := by
        intro behind
        obtain ⟨offset, other, there, declares, line⟩ := ih behind
        exact ⟨offset + 1, other, there, declares, by omega⟩
      rw [declarationsFrom] at member
      split at member
      · rename_i name declares
        rcases List.mem_cons.mp member with same | behind
        · exact ⟨0, text, rfl, by rw [declares, same], by rw [same, Nat.add_zero]⟩
        · exact later behind
      · exact later member

theorem declarations_from_undeclared {source : List Text}
    (undeclared : ∀ text ∈ source, declared? text = none) (line : Nat) :
    declarationsFrom line source = [] := by
  induction source generalizing line with
  | nil => rfl
  | cons text rest ih =>
      simp only [declarationsFrom, undeclared text List.mem_cons_self]
      exact ih (fun other member => undeclared other (List.mem_cons_of_mem _ member)) (line + 1)

theorem collect_undeclared {source : List Text}
    (undeclared : ∀ text ∈ source, declared? text = none) : collect source = .ok [] := by
  have none := declarations_from_undeclared undeclared 0
  have collected : collect source = .ok (declarationsFrom 0 source) := by
    apply collect_distinct
    · rw [none]
      exact List.not_mem_nil
    · rw [none]
      exact List.nodup_nil
  rwa [none] at collected

theorem resolve_unlabelled {source : List Text}
    (undeclared : ∀ text ∈ source, declared? text = none) : resolve [] source = source := by
  rw [resolve, ranked, List.mergeSort_nil]
  conv => rhs; rw [← List.map_id source]
  apply List.map_congr_left
  intro text member
  simp only [resolveLine, undeclared text member]
  rfl

end Label

namespace Move

/-- The pass over the lines takes each of them on its own. -/
theorem expand_from_ok_iff {source lines : List Text} {line : Nat} :
    expandFrom line source = .ok lines ↔
      List.Forall₂ (fun text out => expandLine text = .ok out) source lines := by
  constructor
  · intro expanded
    induction source generalizing line lines with
    | nil =>
        cases expanded
        exact .nil
    | cons first rest ih =>
        obtain ⟨out, here, onward⟩ := ok_of_bind expanded
        obtain ⟨others, later, same⟩ := ok_of_bind onward
        cases same
        refine .cons ?_ (ih later)
        cases made : expandLine first with
        | error defect =>
            rw [made] at here
            cases here
        | ok expanded =>
            rw [made] at here
            cases here
            rfl
  · intro each
    induction each generalizing line with
    | nil => rfl
    | @cons first out rest others made later ih =>
        have onward : expandFrom (line + 1) rest = .ok others := ih
        simp only [expandFrom, made, onward]
        rfl

theorem expanded_of_expand_from {source lines : List Text} {line : Nat}
    (expanded : expandFrom line source = .ok lines) {index : Nat} {text : Text}
    (there : source[index]? = some text) :
    ∃ out, lines[index]? = some out ∧ expandLine text = .ok out := by
  have each := expand_from_ok_iff.mp expanded
  obtain ⟨within, rfl⟩ := List.getElem?_eq_some_iff.mp there
  have fits : index < lines.length := each.length_eq ▸ within
  exact ⟨lines[index], List.getElem?_eq_getElem fits, each.get within fits⟩

theorem length_of_expand_from {source lines : List Text} {line : Nat}
    (expanded : expandFrom line source = .ok lines) : lines.length = source.length :=
  (expand_from_ok_iff.mp expanded).length_eq.symm

end Move

namespace Program

theorem prepare_ok {source : List Text} {program : Program}
    (prepared : prepare source = .ok program) :
    Label.collect source = .ok program.labels ∧
      Move.expandAll (Label.resolve program.labels source) = .ok program.lines := by
  obtain ⟨resolved, made, onward⟩ := ok_of_bind prepared
  obtain ⟨labels, collected, same⟩ := ok_of_bind made
  cases same
  obtain ⟨lines, expanded, done⟩ := ok_of_bind onward
  cases done
  exact ⟨collected, expanded⟩

/-- Both passes keep the number of lines. -/
theorem length_of_prepare {source : List Text} {program : Program}
    (prepared : prepare source = .ok program) : program.lines.length = source.length := by
  have expanded := Move.length_of_expand_from (prepare_ok prepared).2
  rwa [Label.resolve, List.length_map] at expanded

/-- A source without declarations resolves to itself. -/
theorem resolve_undeclared {source : List Text}
    (undeclared : ∀ text ∈ source, Label.declared? text = none) :
    resolve source = .ok ⟨source, []⟩ := by
  have resolved := Label.resolve_unlabelled undeclared
  simp only [resolve, Label.collect_undeclared undeclared, resolved, bind, Except.bind, pure,
    Except.pure]

/-- A source without declarations is expanded as it stands. -/
theorem prepare_undeclared {source lines : List Text}
    (undeclared : ∀ text ∈ source, Label.declared? text = none)
    (expanded : Move.expandAll source = .ok lines) : prepare source = .ok ⟨lines, []⟩ := by
  simp only [prepare, resolve_undeclared undeclared, bind, Except.bind, pure, Except.pure, expanded]

/-- Labels that are declared in the order of their ranks are put in in that order. -/
theorem resolve_ranked {source : List Text} {labels : List Label}
    (collected : Label.collect source = .ok labels)
    (ordered : labels.Pairwise fun a b => Text.units b.name ≤ Text.units a.name) :
    resolve source = .ok ⟨source.map (Label.resolveLine labels), labels⟩ := by
  have ranked : Label.ranked labels = labels :=
    List.mergeSort_of_pairwise (ordered.imp fun longer => decide_eq_true longer)
  simp only [resolve, collected, Label.resolve, ranked, bind, Except.bind, pure, Except.pure]

/-- A source with a single declaration is resolved with the one label it makes. -/
theorem resolve_single {source : List Text} {label : Label}
    (collected : Label.collect source = .ok [label]) :
    resolve source = .ok ⟨source.map (Label.resolveLine [label]), [label]⟩ :=
  resolve_ranked collected (List.pairwise_singleton _ label)

theorem prepare_single {source lines : List Text} {label : Label}
    (collected : Label.collect source = .ok [label])
    (expanded : Move.expandAll (source.map (Label.resolveLine [label])) = .ok lines) :
    prepare source = .ok ⟨lines, [label]⟩ := by
  simp only [prepare, resolve_single collected, bind, Except.bind, pure, Except.pure, expanded]

/-- A line of a prepared program is the line of the source there, resolved and expanded. -/
theorem line_of_prepare {source : List Text} {program : Program}
    (prepared : prepare source = .ok program) {index : Nat} {text : Text}
    (there : source[index]? = some text) :
    ∃ out, program.lines[index]? = some out ∧
      Move.expandLine (Label.resolveLine (Label.ranked program.labels) text) = .ok out := by
  have resolved : (Label.resolve program.labels source)[index]? =
      some (Label.resolveLine (Label.ranked program.labels) text) := by
    rw [Label.resolve, List.getElem?_map, there]
    rfl
  exact Move.expanded_of_expand_from (prepare_ok prepared).2 resolved

end Program

end StackMachine
