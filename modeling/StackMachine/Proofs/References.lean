import StackMachine.Proofs.Acceptance
import StackMachine.Proofs.Spelling

/-!
# References

An operand that is the name of a label is on its own between blanks and commas, so nothing
beside it has a part in what becomes of it: it is left as it is until the turn of its label,
and then it is the index of a line. Labels that are put in later find that index, and change
it where their own names are made of digits; if there is none of these, the index stays.
-/

namespace StackMachine

set_option autoImplicit false

namespace Text

/-- A text that is changed piece by piece is split as it was before. -/
theorem split_on_map {f : Text → Text} {mark : Char}
    (across : ∀ before after, f (before ++ mark :: after) = f before ++ mark :: f after)
    (keeps : ∀ piece, mark ∉ piece → mark ∉ f piece) (text : Text) :
    (f text).splitOn mark = (text.splitOn mark).map f := by
  by_cases member : mark ∈ text
  · obtain ⟨before, after, split, first⟩ := List.eq_append_cons_of_mem member
    have shorter : after.length < text.length := by
      rw [split, List.length_append, List.length_cons]
      omega
    rw [split, across, List.splitOn_append_cons_self_of_not_mem first,
      List.splitOn_append_cons_self_of_not_mem (keeps before first), List.map_cons,
      split_on_map across keeps after]
  · rw [List.splitOn_eq_singleton member, List.splitOn_eq_singleton (keeps text member)]
    rfl
termination_by text.length

end Text

namespace Statement

open Text (AllBlank Solid StartsBlank)

variable {lead word rest line : Text}

/-- What stands behind the first word of a line. -/
def behind (line : Text) : Text := (Text.trimStart line).dropWhile fun c => !Text.isBlank c

/-- The operands as they are written, without the blanks around them. -/
def pieces (line : Text) : List Text := ((behind line).splitOn ',').map Text.trim

theorem behind_around (blank : AllBlank lead) (solid : Solid word) (parted : StartsBlank rest)
    (worded : word = [] → rest = []) : behind (lead ++ (word ++ rest)) = rest := by
  rw [behind, Text.trim_start_blank blank]
  have start : Text.trimStart (word ++ rest) = word ++ rest := by
    cases word with
    | nil =>
        rw [worded rfl]
        rfl
    | cons c others => exact Text.trim_start_solid (solid c List.mem_cons_self) _
  rw [start]
  exact (Text.word_ends solid parted).2

/-- A line is blanks, a word, and what stands behind it. -/
theorem behind_spec (line : Text) :
    ∃ lead word, AllBlank lead ∧ Solid word ∧ StartsBlank (behind line) ∧
      (word = [] → behind line = []) ∧ line = lead ++ (word ++ behind line) := by
  refine ⟨line.takeWhile Text.isBlank,
    (Text.trimStart line).takeWhile fun c => !Text.isBlank c, ?_,
    (Text.word_spec _).1, (Text.word_spec _).2, ?_, ?_⟩
  · exact fun c member => List.mem_takeWhile_imp member
  · intro none
    cases start : Text.trimStart line with
    | nil => rw [behind, start, List.dropWhile_nil]
    | cons c others =>
        have solid := List.head?_dropWhile_not Text.isBlank line
        rw [← Text.trimStart, start] at solid
        rw [start, List.takeWhile_cons, if_pos (by simpa using solid)] at none
        cases none
  · rw [behind, List.takeWhile_append_dropWhile]
    exact List.takeWhile_append_dropWhile.symm

theorem mnemonic_of_line {statement : Statement}
    (read : ofLine? (lead ++ (word ++ rest)) = some statement) (before : AllBlank lead)
    (solid : Solid word) (worded : word = [] → rest = []) : Mnemonic word := by
  have kept : ¬isSkipped (lead ++ (word ++ rest)) = true := by
    rw [← of_line_eq_none_iff, read]
    exact Option.some_ne_none statement
  refine ⟨?_, solid, ?_⟩
  · intro none
    apply kept
    rw [worded none, none, List.append_nil, List.append_nil]
    exact skipped_of_all_blank before
  · intro comment
    apply kept
    cases word with
    | nil => cases comment
    | cons c others =>
        cases comment
        exact skipped_of_comment before (others ++ rest)

/-- The operands that are read from a line are its pieces, without the blanks within them. -/
theorem operands_of_pieces {statement : Statement} (read : ofLine? line = some statement)
    (given : statement.operands ≠ []) :
    statement.operands = (pieces line).map Text.dropBlanks := by
  obtain ⟨lead, word, before, solid, parted, worded, split⟩ := behind_spec line
  have named : Mnemonic word := by
    rw [split] at read
    exact mnemonic_of_line read before solid worded
  have operands : statement.operands = (Text.dropBlanks (behind line)).splitOn ',' := by
    rw [split, of_line_around before named parted] at read
    cases read
    exact if_neg fun none => given (if_pos none)
  have trimmed : Text.dropBlanks ∘ Text.trim = Text.dropBlanks := funext Text.drop_blanks_trim
  rw [operands, pieces, List.map_map, trimmed]
  apply Text.split_on_map
  · intro before after
    rw [Text.drop_blanks_append]
    rfl
  · exact fun piece apart member => apart (List.mem_of_mem_filter member)

end Statement

namespace Label

open Text (AllBlank Solid)

variable {labels ranking before after : List Label} {label : Label}

/-- Put in after the label: its name is shorter, or as long and declared behind it. -/
def Later (label other : Label) : Prop :=
  Text.units other.name < Text.units label.name ∨
    Text.units other.name = Text.units label.name ∧ label.line < other.line

instance (label other : Label) : Decidable (Later label other) :=
  inferInstanceAs (Decidable (_ ∨ _))

theorem Later.asymm {other : Label} (later : Later label other) : ¬Later other label := by
  simp only [Later] at later ⊢
  omega

/-- The labels that are put in after the given one, in that order. -/
def laterThan (labels : List Label) (label : Label) : List Label :=
  (ranked labels).filter fun other => Later label other

/-- Names of one length keep the order of their declarations. -/
theorem filter_ranked (labels : List Label) (length : Nat) :
    (ranked labels).filter (fun label => Text.units label.name = length) =
      labels.filter fun label => Text.units label.name = length := by
  have alike : (labels.filter fun label => Text.units label.name = length).Pairwise
      fun a b => decide (Text.units b.name ≤ Text.units a.name) = true := by
    apply List.pairwise_of_forall_mem_list
    intro a first b second
    have same : Text.units a.name = length := by simpa using (List.mem_filter.mp first).2
    have other : Text.units b.name = length := by simpa using (List.mem_filter.mp second).2
    exact decide_eq_true (by omega)
  have kept := (List.sublist_mergeSort rank_trans rank_total alike List.filter_sublist).filter
    fun label => Text.units label.name = length
  rw [List.filter_filter] at kept
  simp only [Bool.and_self] at kept
  have same := (List.mergeSort_perm labels fun a b => Text.units b.name ≤ Text.units a.name).filter
    fun label => Text.units label.name = length
  exact (kept.eq_of_length same.length_eq.symm).symm

theorem ranked_later (sorted : labels.Pairwise fun a b => a.line < b.line) :
    (ranked labels).Pairwise Later := by
  rw [List.pairwise_iff_forall_sublist]
  intro a b pair
  have ordered := List.pairwise_iff_forall_sublist.mp (ranked_pairwise labels) pair
  rcases Nat.lt_or_eq_of_le ordered with shorter | same
  · exact .inl shorter
  · have together := pair.filter fun label => Text.units label.name = Text.units a.name
    rw [filter_ranked] at together
    have kept : [a, b].filter (fun label => Text.units label.name = Text.units a.name) =
        [a, b] := by simp [same]
    rw [kept] at together
    have declared := together.trans List.filter_sublist
    exact .inr ⟨same, List.pairwise_iff_forall_sublist.mp sorted declared⟩

theorem filter_later (ordered : (before ++ label :: after).Pairwise Later) :
    (before ++ label :: after).filter (fun other => Later label other) = after := by
  obtain ⟨-, behind, across⟩ := List.pairwise_append.mp ordered
  obtain ⟨first, -⟩ := List.pairwise_cons.mp behind
  have gone : before.filter (fun other => Later label other) = [] := by
    rw [List.filter_eq_nil_iff]
    intro other member
    have earlier := across other member label List.mem_cons_self
    exact fun later => earlier.asymm (of_decide_eq_true later)
  have itself : ¬Later label label := fun later => later.asymm later
  have kept : after.filter (fun other => Later label other) = after := by
    rw [List.filter_eq_self]
    exact fun other member => decide_eq_true (first other member)
  rw [List.filter_append, gone, List.filter_cons_of_neg (by simp [itself]), kept, List.nil_append]

/-- What the name of a label becomes when all labels are put in. -/
theorem substitute_name (distinct : (names labels).Nodup)
    (sorted : labels.Pairwise fun a b => a.line < b.line) (member : label ∈ labels)
    (nonempty : label.name ≠ []) :
    substitute (ranked labels) label.name =
      substitute (laterThan labels label) (Text.ofNat label.line) := by
  obtain ⟨before, after, split⟩ := List.append_of_mem (mem_ranked.mpr member)
  have ordered := ranked_later sorted
  rw [split] at ordered
  rw [substitute_own_name distinct split nonempty, laterThan, split, filter_later ordered]

theorem solid_substitute {text : Text} (solid : Solid text) : Solid (substitute ranking text) := by
  intro c member
  rcases mem_substitute member with kept | digit
  · exact solid c kept
  · exact Symbolic.not_blank_of_word (Symbolic.word_of_digit digit)

section Pieces

variable (named : [] ∉ names ranking) (blanks : ∀ c, Text.isBlank c = true → Apart ranking c)

include named blanks

theorem behind_substitute (line : Text) :
    Statement.behind (substitute ranking line) = substitute ranking (Statement.behind line) := by
  obtain ⟨lead, word, before, solid, parted, worded, split⟩ := Statement.behind_spec line
  have moved : substitute ranking line =
      lead ++ (substitute ranking word ++ substitute ranking (Statement.behind line)) := by
    conv => lhs; rw [split]
    rw [substitute_lead named fun c member => blanks c (before c member),
      substitute_word named word fun c first => blanks c (parted c first)]
  rw [moved]
  apply Statement.behind_around before (solid_substitute solid)
  · cases rest : Statement.behind line with
    | nil =>
        rw [substitute_nil]
        exact nofun
    | cons c others =>
        have blank : Text.isBlank c = true := parted c (by rw [rest]; rfl)
        rw [substitute_cons named (blanks c blank)]
        rintro _ ⟨⟩
        exact blank
  · intro gone
    have none : word = [] := by
      by_contra nonempty
      exact substitute_ne_nil ranking nonempty gone
    rw [worded none, substitute_nil]

theorem trim_substitute {piece : Text} (nonempty : Text.trim piece ≠ [])
    (solid : Solid (Text.trim piece)) :
    Text.trim (substitute ranking piece) = substitute ranking (Text.trim piece) := by
  obtain ⟨lead, trail, before, after, split⟩ := Text.trim_spec piece
  have moved : substitute ranking piece =
      lead ++ (substitute ranking (Text.trim piece) ++ trail) := by
    conv => lhs; rw [split]
    exact substitute_between named (fun c member => blanks c (before c member))
      (fun c member => blanks c (after c member)) _
  rw [moved, Text.trim_around before (solid_substitute solid)
    (substitute_ne_nil ranking nonempty), Text.trim_end_all_blank after, List.append_nil]

/-- An operand without blanks in it is changed on its own, and keeps its place. -/
theorem piece_substitute (comma : Apart ranking ',') {line piece : Text} {position : Nat}
    (there : (Statement.pieces line)[position]? = some piece) (nonempty : piece ≠ [])
    (solid : Solid piece) :
    (Statement.pieces (substitute ranking line))[position]? =
      some (substitute ranking piece) := by
  rw [Statement.pieces, List.getElem?_map, Option.map_eq_some_iff] at there
  obtain ⟨written, place, trimmed⟩ := there
  have split : (substitute ranking (Statement.behind line)).splitOn ',' =
      ((Statement.behind line).splitOn ',').map (substitute ranking) := by
    apply Text.split_on_map
    · exact substitute_across named comma
    · intro text apart member
      rcases mem_substitute member with kept | digit
      · exact apart kept
      · cases digit
  rw [Statement.pieces, behind_substitute named blanks, split, List.getElem?_map,
    List.getElem?_map, place, Option.map_some, Option.map_some,
    trim_substitute named blanks (trimmed ▸ nonempty) (trimmed ▸ solid), trimmed]

end Pieces

end Label

namespace Program

variable {source : List Text} {program : Program}

/-- A reference to a label is put through the labels that come after it, from the index of the
line that declares it; it is that index unless one of their names occurs in its digits. -/
theorem reference_resolves (resolved : resolve source = .ok program)
    (solid : ∀ label ∈ program.labels, Text.Solid label.name)
    (whole : ∀ label ∈ program.labels, ',' ∉ label.name) {index line position : Nat}
    {text name : Text} (there : source[index]? = some text)
    (undeclared : Label.declared? text = none) (declares : Label.Declares source line name)
    (refers : (Statement.pieces text)[position]? = some name) :
    ∃ out, program.lines[index]? = some out ∧
      (Statement.pieces out)[position]? =
        some (Label.substitute (Label.laterThan program.labels ⟨name, line⟩)
          (Text.ofNat line)) ∧
      ((∀ other ∈ program.labels, Label.Later ⟨name, line⟩ other →
          ¬other.name <:+: Text.ofNat line) →
        (Statement.pieces out)[position]? = some (Text.ofNat line)) := by
  have resolves := resolves_of_resolve resolved
  obtain ⟨distinct, nameless⟩ := named_of_resolve resolved
  have member : (⟨name, line⟩ : Label) ∈ program.labels := (resolves.labels name line).mpr declares
  have nonempty : name ≠ [] := by
    rintro rfl
    exact nameless (List.mem_map_of_mem member)
  have named : [] ∉ Label.names (Label.ranked program.labels) :=
    fun empty => nameless (Label.mem_names_ranked.mp empty)
  have blanks : ∀ c, Text.isBlank c = true → Label.Apart (Label.ranked program.labels) c := by
    intro c blank label known within
    rw [solid label (Label.mem_ranked.mp known) c within] at blank
    cases blank
  have comma : Label.Apart (Label.ranked program.labels) ',' :=
    fun label known => whole label (Label.mem_ranked.mp known)
  have out := resolves.substituted index text there (Label.not_declares there undeclared)
  have piece := Label.piece_substitute named blanks comma refers nonempty (solid _ member)
  have value : Label.substitute (Label.ranked program.labels) name = _ :=
    Label.substitute_name distinct resolves.sorted member nonempty
  rw [value] at piece
  refine ⟨_, out, piece, ?_⟩
  intro untouched
  rw [piece, Label.substitute_absent]
  intro other later
  obtain ⟨known, behind⟩ := List.mem_filter.mp later
  exact untouched other (Label.mem_ranked.mp known) (of_decide_eq_true behind)

/-- Names of which one is within the other, and an operand between blanks. -/
def nestedSource : List Text := ["je lo , loop".toList, ":loop".toList, ":lo".toList]

def nestedLabels : List Label := [⟨"loop".toList, 1⟩, ⟨"lo".toList, 2⟩]

theorem reference_resolves_nested :
    ∃ program, resolve nestedSource = .ok program ∧
      (∀ label ∈ program.labels, Text.Solid label.name) ∧
      (∀ label ∈ program.labels, ',' ∉ label.name) ∧
      nestedSource[0]? = some "je lo , loop".toList ∧
      Label.declared? "je lo , loop".toList = none ∧
      Label.Declares nestedSource 1 "loop".toList ∧
      (Statement.pieces "je lo , loop".toList)[1]? = some "loop".toList ∧
      (∀ other ∈ program.labels, Label.Later ⟨"loop".toList, 1⟩ other →
        ¬other.name <:+: Text.ofNat 1) ∧
      ∃ out, program.lines[0]? = some out ∧
        (Statement.pieces out)[1]? = some (Text.ofNat 1) := by
  have collected : Label.collect nestedSource = .ok nestedLabels := rfl
  have resolved := resolve_ranked collected (by decide)
  have solid : ∀ label ∈ nestedLabels, Text.Solid label.name := by decide
  have whole : ∀ label ∈ nestedLabels, ',' ∉ label.name := by decide
  have there : nestedSource[0]? = some "je lo , loop".toList := rfl
  have undeclared : Label.declared? "je lo , loop".toList = none := rfl
  have declares : Label.Declares nestedSource 1 "loop".toList := ⟨_, rfl, rfl⟩
  have refers : (Statement.pieces "je lo , loop".toList)[1]? = some "loop".toList := rfl
  have untouched : ∀ other ∈ nestedLabels, Label.Later ⟨"loop".toList, 1⟩ other →
      ¬other.name <:+: Text.ofNat 1 := by decide
  obtain ⟨out, here, -, stays⟩ :=
    reference_resolves resolved solid whole there undeclared declares refers
  exact ⟨_, resolved, solid, whole, there, undeclared, declares, refers, untouched, out, here,
    stays untouched⟩

/-- One label is named by the index of the other's line. -/
def numberedSource : List Text := ["jmp loop1".toList, ":loop1".toList, ":1".toList]

def numberedLabels : List Label := [⟨"loop1".toList, 1⟩, ⟨"1".toList, 2⟩]

/-- A reference that is resolved to the line of another label: the index that is put in for
it is the name of that label, and is replaced in its turn. -/
theorem numbered_reference_misses :
    ∃ program, resolve numberedSource = .ok program ∧
      (∀ label ∈ program.labels, Text.Solid label.name) ∧
      (∀ label ∈ program.labels, ',' ∉ label.name) ∧
      numberedSource[0]? = some "jmp loop1".toList ∧
      Label.declared? "jmp loop1".toList = none ∧
      Statement.isSkipped "jmp loop1".toList = false ∧
      Label.Declares numberedSource 1 "loop1".toList ∧
      (Statement.pieces "jmp loop1".toList)[0]? = some "loop1".toList ∧
      program.lines[0]? = some "jmp 2".toList ∧
      (Statement.pieces "jmp 2".toList)[0]? = some (Text.ofNat 2) ∧
      Text.ofNat 2 ≠ Text.ofNat 1 := by
  have collected : Label.collect numberedSource = .ok numberedLabels := rfl
  have resolved := resolve_ranked collected (by decide)
  exact ⟨_, resolved, by decide, by decide, rfl, rfl, rfl, ⟨_, rfl, rfl⟩, rfl, rfl, rfl, by decide⟩

end Program

end StackMachine
