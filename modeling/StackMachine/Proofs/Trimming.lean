import StackMachine.Statement
import Mathlib.Data.List.TakeWhile

/-!
# Trimming

Blank characters around a text do not count: trimming drops them, and a text that
is solid at its end keeps whatever stands before. What is left begins with the first
character that is not blank, and a word in it ends at the next blank.
-/

namespace StackMachine

set_option autoImplicit false

namespace Text

/-- Blanks and nothing else. -/
def AllBlank (text : Text) : Prop := ∀ c ∈ text, isBlank c = true

/-- No blank at all. -/
def Solid (text : Text) : Prop := ∀ c ∈ text, isBlank c = false

instance (text : Text) : Decidable (AllBlank text) :=
  List.decidableBAll (fun c => isBlank c = true) text

instance (text : Text) : Decidable (Solid text) :=
  List.decidableBAll (fun c => isBlank c = false) text

theorem all_blank_nil : AllBlank [] := fun _ member => absurd member List.not_mem_nil

theorem solid_nil : Solid [] := fun _ member => absurd member List.not_mem_nil

theorem Solid.cons {c : Char} (mark : isBlank c = false) {text : Text} (solid : Solid text) :
    Solid (c :: text) := by
  intro other member
  rcases List.mem_cons.mp member with rfl | later
  · exact mark
  · exact solid other later

/-- Of plain ASCII only the blank and what comes before it can be blank. -/
theorem not_blank_of_ascii {c : Char} (above : 0x20 < c.toNat) (below : c.toNat < 0x7F) :
    isBlank c = false := by
  rw [Bool.eq_false_iff]
  simp only [isBlank, blankRanges, ne_eq, List.any_eq_true, Bool.and_eq_true, decide_eq_true_eq]
  simp
  omega

theorem not_blank_of_digit {c : Char} (digit : c.isDigit = true) : isBlank c = false := by
  have bounds : 48 ≤ c.toNat ∧ c.toNat ≤ 57 := Char.isDigit_iff_toNat.mp digit
  exact not_blank_of_ascii (by omega) (by omega)

/-- Nothing, or a blank in front: what can stand behind a word without lengthening it. -/
def StartsBlank (text : Text) : Prop := ∀ c, text.head? = some c → isBlank c = true

namespace AllBlank

theorem starts_blank {text : Text} (blank : AllBlank text) : StartsBlank text :=
  fun c first => blank c (List.mem_of_mem_head? first)

theorem starts_blank_append {gap : Text} (blank : AllBlank gap) (nonempty : gap ≠ [])
    (rest : Text) : StartsBlank (gap ++ rest) := by
  obtain ⟨first, others, rfl⟩ := List.exists_cons_of_ne_nil nonempty
  rintro c ⟨⟩
  exact blank first List.mem_cons_self

end AllBlank

theorem word_spec (text : Text) : Solid (text.takeWhile fun c => !isBlank c) ∧
    StartsBlank (text.dropWhile fun c => !isBlank c) := by
  constructor
  · intro c member
    have visible := List.mem_takeWhile_imp member
    simpa using visible
  · intro c first
    have stopped := List.head?_dropWhile_not (fun c => !isBlank c) text
    rw [first] at stopped
    simpa using stopped

/-- A solid word ends where a blank stands behind it. -/
theorem word_ends {word rest : Text} (solid : Solid word) (parted : StartsBlank rest) :
    (word ++ rest).takeWhile (fun c => !isBlank c) = word ∧
      (word ++ rest).dropWhile (fun c => !isBlank c) = rest := by
  have visible : ∀ c ∈ word, (!isBlank c) = true := by
    intro c member
    rw [solid c member]
    rfl
  rw [List.takeWhile_append_of_pos visible, List.dropWhile_append_of_pos visible]
  cases rest with
  | nil => exact ⟨List.append_nil word, rfl⟩
  | cons c others =>
      have spaced : isBlank c = true := parted c rfl
      simp [spaced]

theorem trim_start_blank {lead : Text} (blank : AllBlank lead) (text : Text) :
    trimStart (lead ++ text) = trimStart text :=
  List.dropWhile_append_of_pos blank

theorem trim_start_solid {c : Char} (solid : isBlank c = false) (text : Text) :
    trimStart (c :: text) = c :: text :=
  List.dropWhile_cons_of_neg (by simp [solid])

theorem trim_end_blank {trail : Text} (blank : AllBlank trail) (text : Text) :
    trimEnd (text ++ trail) = trimEnd text := by
  have reversed : ∀ c ∈ trail.reverse, isBlank c = true := by
    intro c member
    exact blank c (List.mem_reverse.mp member)
  simp only [trimEnd, List.reverse_append, List.dropWhile_append_of_pos reversed]

theorem trim_end_all_blank {text : Text} (blank : AllBlank text) : trimEnd text = [] := by
  have trimmed := trim_end_blank blank []
  rw [List.nil_append] at trimmed
  exact trimmed

theorem trim_end_append {body : Text} (solid : Solid body) (nonempty : body ≠ [])
    (rest : Text) : trimEnd (body ++ rest) = body ++ trimEnd rest := by
  have kept : body.reverse.dropWhile isBlank = body.reverse := by
    obtain ⟨c, before, reversed⟩ := List.exists_cons_of_ne_nil (by simpa using nonempty :
      body.reverse ≠ [])
    have member : c ∈ body := by
      rw [← List.mem_reverse, reversed]
      exact List.mem_cons_self ..
    rw [reversed, List.dropWhile_cons_of_neg (by simp [solid c member])]
  simp only [trimEnd, List.reverse_append, List.dropWhile_append]
  split
  · rename_i gone
    rw [List.isEmpty_iff] at gone
    simp [kept, gone]
  · simp

theorem trim_all_blank {text : Text} (blank : AllBlank text) : trim text = [] := by
  have start : trimStart text = [] := by
    have dropped := trim_start_blank blank []
    rwa [List.append_nil] at dropped
  rw [trim, start]
  rfl

theorem trim_around {lead body : Text} (blank : AllBlank lead) (solid : Solid body)
    (nonempty : body ≠ []) (rest : Text) :
    trim (lead ++ (body ++ rest)) = body ++ trimEnd rest := by
  obtain ⟨c, after, rfl⟩ := List.exists_cons_of_ne_nil nonempty
  have start : trimStart (lead ++ (c :: after ++ rest)) = c :: after ++ rest := by
    rw [trim_start_blank blank]
    exact trim_start_solid (solid c (List.mem_cons_self ..)) _
  rw [trim, start, trim_end_append solid nonempty]

theorem drop_blanks_append (left right : Text) :
    dropBlanks (left ++ right) = dropBlanks left ++ dropBlanks right :=
  List.filter_append ..

theorem drop_blanks_blank {text : Text} (blank : AllBlank text) : dropBlanks text = [] := by
  rw [dropBlanks, List.filter_eq_nil_iff]
  intro c member
  simp [blank c member]

theorem drop_blanks_solid {text : Text} (solid : Solid text) : dropBlanks text = text := by
  rw [dropBlanks, List.filter_eq_self]
  intro c member
  simp [solid c member]

theorem trim_end_spec (text : Text) :
    ∃ trail, AllBlank trail ∧ text = trimEnd text ++ trail := by
  refine ⟨(text.reverse.takeWhile isBlank).reverse, ?_, ?_⟩
  · intro c member
    exact List.mem_takeWhile_imp (List.mem_reverse.mp member)
  · rw [trimEnd, ← List.reverse_append, List.takeWhile_append_dropWhile, List.reverse_reverse]

theorem head_trim_end {text : Text} {c : Char} (first : (trimEnd text).head? = some c) :
    text.head? = some c := by
  obtain ⟨trail, -, split⟩ := trim_end_spec text
  rw [split, List.head?_append, first]
  rfl

/-- The first character that is not blank. -/
def first? (text : Text) : Option Char := text.find? fun c => !isBlank c

theorem first_blank {c : Char} (blank : isBlank c = true) (rest : Text) :
    first? (c :: rest) = first? rest :=
  List.find?_cons_of_neg (by simp [blank])

theorem first_mark {c : Char} (mark : isBlank c = false) (rest : Text) :
    first? (c :: rest) = some c :=
  List.find?_cons_of_pos (by simp [mark])

theorem first_eq_none_iff (text : Text) : first? text = none ↔ AllBlank text := by
  simp [first?, AllBlank]

theorem not_blank_of_first {text : Text} {c : Char} (first : first? text = some c) :
    isBlank c = false := by
  have mark := List.find?_some first
  simpa using mark

theorem head_trim (text : Text) : (trim text).head? = first? text := by
  have start : (trimStart text).head? = first? text := by
    simp [trimStart, first?, List.find?_eq_head?_dropWhile_not]
  obtain ⟨trail, blank, split⟩ := trim_end_spec (trimStart text)
  rw [trim, ← start]
  cases kept : trimEnd (trimStart text) with
  | cons c rest =>
      rw [split, kept]
      rfl
  | nil =>
      -- All is blank then, but a first character would not be.
      rw [kept, List.nil_append] at split
      cases head : (trimStart text).head? with
      | none => rfl
      | some c =>
          have mark := not_blank_of_first (start.symm.trans head)
          rw [split] at head
          rw [blank c (List.mem_of_mem_head? head)] at mark
          cases mark

/-- A trimmed text ends in no blank. -/
theorem last_trim {text : Text} {c : Char} (last : (trim text).getLast? = some c) :
    isBlank c = false := by
  rw [trim, trimEnd, List.getLast?_reverse] at last
  have solid := List.head?_dropWhile_not isBlank (trimStart text).reverse
  rw [last] at solid
  simpa using solid

theorem trim_behind {trail : Text} (blank : AllBlank trail) (body : Text) :
    trim (body ++ trail) = trim body := by
  unfold trim trimStart
  rw [List.dropWhile_append]
  split
  · rename_i gone
    rw [List.isEmpty_iff.mp gone]
    exact trim_all_blank blank
  · exact trim_end_blank blank _

theorem trim_spec (text : Text) :
    ∃ lead trail, AllBlank lead ∧ AllBlank trail ∧ text = lead ++ (trim text ++ trail) := by
  obtain ⟨trail, blank, split⟩ := trim_end_spec (trimStart text)
  refine ⟨text.takeWhile isBlank, trail, fun c member => List.mem_takeWhile_imp member, blank, ?_⟩
  rw [trim, ← split]
  exact List.takeWhile_append_dropWhile.symm

theorem drop_blanks_trim_end (text : Text) : dropBlanks (trimEnd text) = dropBlanks text := by
  obtain ⟨trail, blank, split⟩ := trim_end_spec text
  conv => rhs; rw [split]
  rw [drop_blanks_append, drop_blanks_blank blank, List.append_nil]

theorem drop_blanks_trim (text : Text) : dropBlanks (trim text) = dropBlanks text := by
  obtain ⟨lead, trail, before, after, split⟩ := trim_spec text
  conv => rhs; rw [split]
  rw [drop_blanks_append, drop_blanks_append, drop_blanks_blank before, drop_blanks_blank after,
    List.nil_append, List.append_nil]

theorem drop_blanks_intercalate (separator : Text) (pieces : List Text) :
    dropBlanks (List.intercalate separator pieces) =
      List.intercalate (dropBlanks separator) (pieces.map dropBlanks) := by
  induction pieces with
  | nil => rfl
  | cons piece rest ih =>
      cases rest with
      | nil => simp
      | cons next others =>
          simp only [List.intercalate_cons_cons, List.map_cons, drop_blanks_append] at ih ⊢
          rw [ih]

end Text

end StackMachine
