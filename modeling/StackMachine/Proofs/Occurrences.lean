import StackMachine.Proofs.Trimming
import StackMachine.Text.Replace

/-!
# Occurrences of a name

A replacement leaves a text alone in which the name does not occur, and gives the
value for a text that is the name itself. A character that the name does not hold
keeps both sides of it apart: no occurrence reaches across, so each side is
rewritten on its own.
-/

namespace StackMachine.Text

set_option autoImplicit false

theorem replace_all_absent {name text : Text} (value : Text) (absent : ¬name <:+: text) :
    replaceAll name value text = text := by
  unfold replaceAll
  induction text with
  | nil => rfl
  | cons c rest ih =>
      rw [List.infix_cons_iff, not_or] at absent
      have elsewhere : ¬name.isPrefixOf (c :: rest) = true := by
        rw [List.isPrefixOf_iff_prefix]
        exact absent.1
      rw [replaceFrom, if_neg elsewhere, ih absent.2]

theorem replace_from_covered (name value text : Text) :
    replaceFrom name value text.length text = [] := by
  induction text with
  | nil => rfl
  | cons c rest ih => exact ih

theorem replace_all_self {name : Text} (named : name ≠ []) (value : Text) :
    replaceAll name value name = value := by
  obtain ⟨c, rest, rfl⟩ := List.exists_cons_of_ne_nil named
  have here : (c :: rest).isPrefixOf (c :: rest) = true :=
    List.isPrefixOf_iff_prefix.mpr List.prefix_rfl
  rw [replaceAll, replaceFrom, if_pos here]
  have covered := replace_from_covered (c :: rest) value rest
  rw [List.length_cons, Nat.add_sub_cancel, covered, List.append_nil]

theorem mem_replace_from {name value text : Text} {skip : Nat} {c : Char}
    (member : c ∈ replaceFrom name value skip text) : c ∈ text ∨ c ∈ value := by
  induction text generalizing skip with
  | nil => cases member
  | cons first rest ih =>
      have onward : ∀ {skip : Nat}, c ∈ replaceFrom name value skip rest →
          c ∈ first :: rest ∨ c ∈ value :=
        fun within => (ih within).imp_left (List.mem_cons_of_mem first)
      cases skip with
      | succ skip => exact onward member
      | zero =>
          rw [replaceFrom] at member
          split at member
          · rcases List.mem_append.mp member with put | within
            · exact .inr put
            · exact onward within
          · rcases List.mem_cons.mp member with same | within
            · exact .inl (same ▸ List.mem_cons_self)
            · exact onward within

theorem replace_all_ne_nil {name value text : Text} (valued : value ≠ []) (nonempty : text ≠ []) :
    replaceAll name value text ≠ [] := by
  obtain ⟨c, rest, rfl⟩ := List.exists_cons_of_ne_nil nonempty
  rw [replaceAll, replaceFrom]
  split
  · exact List.append_ne_nil_of_left_ne_nil valued _
  · exact List.cons_ne_nil _ _

/-- What comes first stays first, or else the value comes before it. -/
theorem first_replace_all {name value text : Text} (valued : value ≠ []) (solid : Solid value)
    {c : Char} (first : first? (replaceAll name value text) = some c) :
    first? text = some c ∨ c ∈ value := by
  unfold replaceAll at first
  induction text with
  | nil => exact .inl first
  | cons head rest ih =>
      rw [replaceFrom] at first
      split at first
      · obtain ⟨leads, others, rfl⟩ := List.exists_cons_of_ne_nil valued
        rw [List.cons_append, first_mark (solid leads List.mem_cons_self)] at first
        cases first
        exact .inr List.mem_cons_self
      · cases blank : isBlank head with
        | true =>
            rw [first_blank blank] at first ⊢
            exact ih first
        | false =>
            rw [first_mark blank] at first ⊢
            exact .inl first

/-- A prefix that lacks the mark ends before it. -/
theorem prefix_before_mark {name : Text} {mark : Char} (apart : mark ∉ name)
    (before after : Text) : name <+: before ++ mark :: after ↔ name <+: before := by
  constructor
  · intro starts
    rcases Nat.lt_or_ge before.length name.length with longer | shorter
    · have marked : before ++ [mark] <+: before ++ mark :: after := ⟨after, by simp⟩
      have reaches : before ++ [mark] <+: name :=
        List.prefix_of_prefix_length_le marked starts (by simp; omega)
      exact absurd (reaches.subset (by simp)) apart
    · exact List.prefix_of_prefix_length_le starts (List.prefix_append _ _) shorter
  · exact List.prefix_append_of_prefix

theorem infix_across_mark {name : Text} {mark : Char} (apart : mark ∉ name)
    {before after : Text} (occurs : name <:+: before ++ mark :: after) :
    name <:+: before ∨ name <:+: after := by
  induction before with
  | nil =>
      rcases List.infix_cons_iff.mp occurs with starts | within
      · exact .inl ((prefix_before_mark apart [] after).mp starts).isInfix
      · exact .inr within
  | cons c rest ih =>
      rcases List.infix_cons_iff.mp occurs with starts | within
      · exact .inl ((prefix_before_mark apart (c :: rest) after).mp starts).isInfix
      · exact (ih within).imp_left List.infix_cons

/-- A name without any of the marks occurs before all of them or behind all of them. -/
theorem infix_across_marks {name marks : Text} (apart : ∀ mark ∈ marks, mark ∉ name)
    (nonempty : marks ≠ []) {before after : Text} (occurs : name <:+: before ++ (marks ++ after)) :
    name <:+: before ∨ name <:+: after := by
  induction marks generalizing before with
  | nil => exact absurd rfl nonempty
  | cons mark rest ih =>
      rcases infix_across_mark (apart mark List.mem_cons_self) occurs with early | late
      · exact .inl early
      · cases rest with
        | nil => exact .inr late
        | cons next others =>
            have onward : name <:+: [] ∨ name <:+: after := ih (fun other member =>
              apart other (List.mem_cons_of_mem mark member)) (List.cons_ne_nil _ _) late
            exact onward.imp_left fun none => none.trans List.nil_infix

theorem replace_from_across {name : Text} (named : name ≠ []) {mark : Char}
    (apart : mark ∉ name) (value after before : Text) (skip : Nat)
    (within : skip ≤ before.length) :
    replaceFrom name value skip (before ++ mark :: after) =
      replaceFrom name value skip before ++ mark :: replaceFrom name value 0 after := by
  induction before generalizing skip with
  | nil =>
      have unmatched : ¬name.isPrefixOf (mark :: after) = true := by
        rw [List.isPrefixOf_iff_prefix]
        intro starts
        obtain ⟨c, rest, rfl⟩ := List.exists_cons_of_ne_nil named
        obtain ⟨rfl, -⟩ := List.cons_prefix_cons.mp starts
        exact apart (List.mem_cons_self ..)
      obtain rfl : skip = 0 := Nat.le_zero.mp within
      simp only [List.nil_append, replaceFrom, if_neg unmatched]
  | cons c rest ih =>
      cases skip with
      | succ skip => exact ih skip (Nat.le_of_succ_le_succ within)
      | zero =>
          have same : name.isPrefixOf (c :: (rest ++ mark :: after)) =
              name.isPrefixOf (c :: rest) := by
            rw [Bool.eq_iff_iff, List.isPrefixOf_iff_prefix, List.isPrefixOf_iff_prefix]
            exact prefix_before_mark apart (c :: rest) after
          rw [List.cons_append, replaceFrom, replaceFrom, same]
          split
          · rename_i starts
            have fits := (List.isPrefixOf_iff_prefix.mp starts).length_le
            rw [List.length_cons] at fits
            rw [ih (name.length - 1) (by omega), List.append_assoc]
          · rw [ih 0 (Nat.zero_le _), List.cons_append]

/-- No occurrence reaches across a character that the name does not hold. -/
theorem replace_all_across {name : Text} (named : name ≠ []) {mark : Char}
    (apart : mark ∉ name) (value before after : Text) :
    replaceAll name value (before ++ mark :: after) =
      replaceAll name value before ++ mark :: replaceAll name value after :=
  replace_from_across named apart value after before 0 (Nat.zero_le _)

end StackMachine.Text
