import StackMachine.Proofs.Trimming

/-!
# Reading statements

A line with a mnemonic in it is a statement: the mnemonic is solid and reaches to
the first blank, and what stands behind it loses its blanks and is split at the
commas. A statement that is written down and read again is the same statement, if it
is one that reading can give at all: its operands are solid and hold no comma, and a
single empty one is not told from none.
-/

namespace StackMachine

set_option autoImplicit false

namespace Text

theorem mem_split_on {mark : Char} {text piece : Text} (member : piece ∈ text.splitOn mark) :
    mark ∉ piece ∧ ∀ c ∈ piece, c ∈ text := by
  by_cases marked : mark ∈ text
  · obtain ⟨before, after, split, first⟩ := List.eq_append_cons_of_mem marked
    have shorter : after.length < text.length := by
      rw [split, List.length_append, List.length_cons]
      omega
    rw [split, List.splitOn_append_cons_self_of_not_mem first] at member
    rw [split]
    rcases List.mem_cons.mp member with here | later
    · rw [here]
      exact ⟨first, fun c within => List.mem_append_left _ within⟩
    · obtain ⟨whole, inside⟩ := mem_split_on later
      refine ⟨whole, fun c within => ?_⟩
      exact List.mem_append_right before (List.mem_cons_of_mem mark (inside c within))
  · rw [List.splitOn_eq_singleton marked, List.mem_singleton] at member
    rw [member]
    exact ⟨marked, fun c within => within⟩
termination_by text.length

end Text

namespace Statement

open Text (AllBlank Solid first?)

variable {line word rest : Text} {statement : Statement}

theorem skipped_of_all_blank {line : Text} (blank : AllBlank line) : isSkipped line = true := by
  rw [isSkipped, Text.trim_all_blank blank]

theorem skipped_of_comment {lead : Text} (blank : AllBlank lead) (rest : Text) :
    isSkipped (lead ++ commentMark :: rest) = true := by
  have solid : Solid [commentMark] := Text.solid_nil.cons (by decide)
  have trimmed := Text.trim_around blank solid (List.cons_ne_nil _ _) rest
  simp only [List.cons_append, List.nil_append] at trimmed
  rw [isSkipped, trimmed]
  rfl

theorem skipped_iff_first (line : Text) :
    isSkipped line = true ↔ ∀ c, first? line = some c → c = commentMark := by
  rw [isSkipped, ← Text.head_trim]
  cases Text.trim line with
  | nil => simp
  | cons c rest => simp

theorem skipped_iff_trim (line : Text) :
    isSkipped line = true ↔ Text.trim line = [] ∨ (Text.trim line).head? = some commentMark := by
  rw [isSkipped]
  cases Text.trim line with
  | nil => simp
  | cons c rest => simp

theorem of_line_eq_none_iff (line : Text) : ofLine? line = none ↔ isSkipped line = true := by
  unfold ofLine?
  split
  · rename_i skipped
    simp [skipped]
  · rename_i kept
    simp only [kept]
    split <;> simp

/-- A word that is no comment, to the first blank or to the end. -/
structure Mnemonic (text : Text) : Prop where
  nonempty : text ≠ []
  solid : Solid text
  plain : text.head? ≠ some commentMark

/-- The trimmed line is a word, to the first blank or to the end, and what stands behind it. -/
structure Laid (line word rest : Text) : Prop where
  trimmed : Text.trim line = word ++ rest
  solid : Solid word
  parted : Text.StartsBlank rest

/-- What stands behind a word loses its blanks and is split at the commas. -/
def cut (rest : Text) : List Text :=
  if rest = [] then [] else (Text.dropBlanks rest).splitOn ','

theorem exists_laid (line : Text) : ∃ word rest, Laid line word rest := by
  obtain ⟨solid, parted⟩ := Text.word_spec (Text.trim line)
  exact ⟨_, _, List.takeWhile_append_dropWhile.symm, solid, parted⟩

namespace Laid

theorem takes (laid : Laid line word rest) :
    (Text.trim line).takeWhile (fun c => !Text.isBlank c) = word ∧
      (Text.trim line).dropWhile (fun c => !Text.isBlank c) = rest := by
  rw [laid.trimmed]
  exact Text.word_ends laid.solid laid.parted

theorem first_eq (laid : Laid line word rest) (nonempty : word ≠ []) :
    first? line = word.head? := by
  obtain ⟨c, others, rfl⟩ := List.exists_cons_of_ne_nil nonempty
  rw [← Text.head_trim, laid.trimmed]
  rfl

/-- A line without a word is blank, since it is not a blank that a trimmed line begins with. -/
theorem blank_of_no_word (laid : Laid line [] rest) : Text.trim line = [] := by
  cases behind : rest with
  | nil => rw [laid.trimmed, behind, List.append_nil]
  | cons c others =>
      have blank : Text.isBlank c = true := laid.parted c (by rw [behind]; rfl)
      have head : (Text.trim line).head? = some c := by
        rw [laid.trimmed, behind]
        rfl
      rw [Text.head_trim] at head
      rw [Text.not_blank_of_first head] at blank
      cases blank

theorem kept_iff (laid : Laid line word rest) : isSkipped line = false ↔ Mnemonic word := by
  constructor
  · intro kept
    have nonempty : word ≠ [] := by
      rintro rfl
      rw [isSkipped, laid.blank_of_no_word] at kept
      cases kept
    refine ⟨nonempty, laid.solid, fun comment => ?_⟩
    rw [← laid.first_eq nonempty] at comment
    have skipped : isSkipped line = true := by
      rw [skipped_iff_first, comment]
      rintro c ⟨⟩
      rfl
    rw [skipped] at kept
    cases kept
  · intro named
    rw [Bool.eq_false_iff, ne_eq, skipped_iff_first, laid.first_eq named.nonempty]
    intro comment
    obtain ⟨c, others, spelled⟩ := List.exists_cons_of_ne_nil named.nonempty
    apply named.plain
    rw [spelled] at comment ⊢
    rw [← comment c rfl]
    rfl

theorem of_line (laid : Laid line word rest) (named : Mnemonic word) :
    ofLine? line = some ⟨word, cut rest⟩ := by
  obtain ⟨taken, left⟩ := laid.takes
  simp only [ofLine?, laid.kept_iff.mpr named, taken, left, cut]
  cases rest <;> simp

/-- A trimmed line does not end in a blank, so something is left behind its word when the
blanks are gone. -/
theorem cut_visible (laid : Laid line word rest) : cut rest ≠ [[]] := by
  rw [cut]
  split
  · exact nofun
  · rename_i given
    intro empty
    have joined : List.intercalate [','] ((Text.dropBlanks rest).splitOn ',') =
        Text.dropBlanks rest := List.intercalate_splitOn ','
    have gone : Text.dropBlanks rest = [] := by
      rw [← joined, empty]
      rfl
    obtain ⟨c, last⟩ := Option.isSome_iff_exists.mp (List.getLast?_isSome.mpr given)
    have behind : (Text.trim line).getLast? = some c := by
      rw [laid.trimmed, List.getLast?_append, last, Option.some_or]
    have kept : c ∈ Text.dropBlanks rest := by
      rw [Text.dropBlanks, List.mem_filter, Text.last_trim behind]
      exact ⟨List.mem_of_getLast? last, rfl⟩
    rw [gone] at kept
    cases kept

end Laid

/-- What a line is read as: the word it begins with, which is no comment, and the operands
behind that word. -/
structure Holds (line : Text) (statement : Statement) : Prop where
  named : Mnemonic statement.mnemonic
  laid : ∃ rest, Laid line statement.mnemonic rest ∧ statement.operands = cut rest

theorem of_line_eq_some_iff : ofLine? line = some statement ↔ Holds line statement := by
  constructor
  · intro read
    obtain ⟨word, rest, laid⟩ := exists_laid line
    have kept : isSkipped line = false := by
      rw [Bool.eq_false_iff, ne_eq, ← of_line_eq_none_iff, read]
      exact Option.some_ne_none statement
    have named := laid.kept_iff.mp kept
    rw [laid.of_line named] at read
    cases read
    exact ⟨named, rest, laid, rfl⟩
  · rintro ⟨named, rest, laid, operands⟩
    rw [laid.of_line named, ← operands]

theorem head_of_line (read : ofLine? line = some statement) :
    statement.mnemonic.head? = first? line := by
  obtain ⟨named, rest, laid, -⟩ := of_line_eq_some_iff.mp read
  exact (laid.first_eq named.nonempty).symm

theorem of_line_around {lead mnemonic : Text} (blank : AllBlank lead)
    (named : Mnemonic mnemonic) {rest : Text} (parted : Text.StartsBlank rest) :
    ofLine? (lead ++ (mnemonic ++ rest)) = some ⟨mnemonic,
      if Text.trimEnd rest = [] then [] else (Text.dropBlanks rest).splitOn ','⟩ := by
  have laid : Laid (lead ++ (mnemonic ++ rest)) mnemonic (Text.trimEnd rest) := {
    trimmed := Text.trim_around blank named.solid named.nonempty rest
    solid := named.solid
    parted := fun c first => parted c (Text.head_trim_end first) }
  rw [laid.of_line named, cut, Text.drop_blanks_trim_end]

theorem of_line_bare {lead mnemonic trail : Text} (before : AllBlank lead)
    (named : Mnemonic mnemonic) (after : AllBlank trail) :
    ofLine? (lead ++ (mnemonic ++ trail)) = some ⟨mnemonic, []⟩ := by
  have gone := Text.trim_end_all_blank after
  rw [of_line_around before named after.starts_blank, if_pos gone]

theorem of_line_operands {lead mnemonic rest : Text} (before : AllBlank lead)
    (named : Mnemonic mnemonic) (parted : Text.StartsBlank rest)
    (visible : Text.dropBlanks rest ≠ []) :
    ofLine? (lead ++ (mnemonic ++ rest)) =
      some ⟨mnemonic, (Text.dropBlanks rest).splitOn ','⟩ := by
  have left : Text.trimEnd rest ≠ [] := by
    intro gone
    rw [← Text.drop_blanks_trim_end, gone] at visible
    exact visible rfl
  rw [of_line_around before named parted, if_neg left]

structure Operand (text : Text) : Prop where
  nonempty : text ≠ []
  solid : Solid text
  whole : ',' ∉ text

/-- A statement as reading gives it: operands may be empty, but not a single one. -/
structure Readable (statement : Statement) : Prop where
  mnemonic : Mnemonic statement.mnemonic
  solid : ∀ operand ∈ statement.operands, Solid operand
  whole : ∀ operand ∈ statement.operands, ',' ∉ operand
  visible : statement.operands ≠ [[]]

theorem readable_of_operands (named : Mnemonic statement.mnemonic)
    (legal : ∀ operand ∈ statement.operands, Operand operand) : Readable statement where
  mnemonic := named
  solid := fun operand member => (legal operand member).solid
  whole := fun operand member => (legal operand member).whole
  visible := by
    intro single
    rw [single] at legal
    exact (legal [] (List.mem_singleton_self [])).nonempty rfl

theorem readable_of_line (read : ofLine? line = some statement) : Readable statement := by
  obtain ⟨named, rest, laid, operands⟩ := of_line_eq_some_iff.mp read
  have pieces : ∀ operand ∈ statement.operands,
      operand ∈ (Text.dropBlanks rest).splitOn ',' := by
    intro operand member
    rw [operands, cut] at member
    split at member
    · cases member
    · exact member
  refine ⟨named, ?_, ?_, operands ▸ laid.cut_visible⟩
  · intro operand member c within
    have kept := (Text.mem_split_on (pieces operand member)).2 c within
    simpa using (List.mem_filter.mp kept).2
  · exact fun operand member => (Text.mem_split_on (pieces operand member)).1

theorem joined_ne_nil {operands : List Text} (nonempty : operands ≠ [])
    (visible : operands ≠ [[]]) : List.intercalate [','] operands ≠ [] := by
  obtain ⟨first, rest, rfl⟩ := List.exists_cons_of_ne_nil nonempty
  cases rest with
  | nil => simpa using visible
  | cons next others => simp [List.intercalate_cons_cons]

theorem of_line_joined {lead rest : Text} (before : AllBlank lead) (readable : Readable statement)
    (parted : Text.StartsBlank rest) (nonempty : statement.operands ≠ [])
    (joined : Text.dropBlanks rest = List.intercalate [','] statement.operands) :
    ofLine? (lead ++ (statement.mnemonic ++ rest)) = some statement := by
  have visible : Text.dropBlanks rest ≠ [] := by
    rw [joined]
    exact joined_ne_nil nonempty readable.visible
  rw [of_line_operands before readable.mnemonic parted visible, joined,
    List.splitOn_intercalate ',' readable.whole nonempty]

/-- Operands may be set apart by a comma with any blanks around it. -/
theorem of_line_separated {separator : Text} (comma : Text.dropBlanks separator = [','])
    (readable : Readable statement) (nonempty : statement.operands ≠ []) :
    ofLine? (statement.mnemonic ++ ' ' :: List.intercalate separator statement.operands) =
      some statement := by
  have clean : statement.operands.map Text.dropBlanks = statement.operands := by
    conv => rhs; rw [← List.map_id statement.operands]
    exact List.map_congr_left fun operand member =>
      Text.drop_blanks_solid (readable.solid operand member)
  have joined : Text.dropBlanks (' ' :: List.intercalate separator statement.operands) =
      List.intercalate [','] statement.operands := by
    have spaced := Text.drop_blanks_intercalate separator statement.operands
    rw [clean, comma] at spaced
    exact spaced
  have parted : Text.StartsBlank (' ' :: List.intercalate separator statement.operands) := by
    rintro c ⟨⟩
    decide
  have read := of_line_joined Text.all_blank_nil readable parted nonempty joined
  rwa [List.nil_append] at read

theorem of_line_to_line (readable : Readable statement) :
    ofLine? statement.toLine = some statement := by
  obtain ⟨mnemonic, operands⟩ := statement
  cases operands with
  | nil =>
      have read := of_line_bare Text.all_blank_nil readable.mnemonic Text.all_blank_nil
      rwa [List.nil_append, List.append_nil] at read
  | cons first rest => exact of_line_separated rfl readable (List.cons_ne_nil first rest)

/-- Writing and reading are inverse to each other on the statements that reading gives, and
these are told by their shape. -/
theorem reading_inverts_writing :
    (∀ statement, ofLine? (toLine statement) = some statement ↔ Readable statement) ∧
      ∀ line statement, ofLine? line = some statement →
        Readable statement ∧ ofLine? (toLine statement) = some statement := by
  refine ⟨fun statement => ⟨readable_of_line, of_line_to_line⟩, fun line statement read => ?_⟩
  have readable := readable_of_line read
  exact ⟨readable, of_line_to_line readable⟩

/-- Empty operands at both ends, and blanks within and around those between. -/
def edgedLine : Text := "\tje\u3000 , # 1 ,\r".toList

def edged : Statement := ⟨"je".toList, [[], "#1".toList, []]⟩

theorem reading_inverts_writing_edged :
    ofLine? edgedLine = some edged ∧ Readable edged ∧ toLine edged = "je , #1, ".toList ∧
      ofLine? (toLine edged) = some edged := by
  have read : ofLine? edgedLine = some edged := by decide
  obtain ⟨readable, again⟩ := reading_inverts_writing.2 edgedLine edged read
  exact ⟨read, readable, by decide, again⟩

end Statement

end StackMachine
