import StackMachine.Proofs.Acceptance

/-!
# Dissections

One label takes a line apart into the places where its name is found and the texts between
them, the next label takes each of these texts apart, and so on. Written with the names this is
the line as it was. Where no name has a digit in it, this is the line as it becomes when written
with the indices: an index that was put in has no part in an occurrence of a later name, and each
occurrence is within one of the texts.
-/

namespace StackMachine

set_option autoImplicit false

/-- Texts, and a label between each and the next. -/
inductive Dissection where
  | last (literal : Text)
  | before (literal : Text) (label : Label) (rest : Dissection)

namespace Dissection

/-- The texts with something put in for each label. -/
def written (put : Label → Text) : Dissection → Text
  | last literal => literal
  | before literal label rest => literal ++ (put label ++ rest.written put)

def spelled (dissection : Dissection) : Text := dissection.written Label.name

def resolved (dissection : Dissection) : Text :=
  dissection.written fun label => Text.ofNat label.line

def literals : Dissection → List Text
  | last literal => [literal]
  | before literal _ rest => literal :: rest.literals

def labels : Dissection → List Label
  | last _ => []
  | before _ label rest => label :: rest.labels

/-- One more character in front. -/
def push (c : Char) : Dissection → Dissection
  | last literal => last (c :: literal)
  | before literal label rest => before (c :: literal) label rest

/-- One dissection, a label, and another one behind it. -/
def join : Dissection → Label → Dissection → Dissection
  | last literal, label, behind => before literal label behind
  | before literal other rest, label, behind => before literal other (rest.join label behind)

/-- Dissects each of the texts further. -/
def refine (dissect : Text → Dissection) : Dissection → Dissection
  | last literal => dissect literal
  | before literal label rest => (dissect literal).join label (rest.refine dissect)

/-- Finds the name of a label from left to right, behind the first `skip` characters, which
belong to an occurrence already found. -/
def cut (label : Label) : Nat → Text → Dissection
  | _, [] => last []
  | skip + 1, _ :: rest => cut label skip rest
  | 0, c :: rest =>
      if label.name.isPrefixOf (c :: rest) then
        before [] label (cut label (label.name.length - 1) rest)
      else (cut label 0 rest).push c

/-- Finds the names of labels, one label after another. -/
def dissect : List Label → Text → Dissection
  | [], text => last text
  | label :: rest, text => (cut label 0 text).refine (dissect rest)

variable {dissection : Dissection} {label : Label} {ranking : List Label}
  {literal name text : Text} {put : Label → Text} {further : Text → Dissection}

theorem written_push (c : Char) (put : Label → Text) (dissection : Dissection) :
    (dissection.push c).written put = c :: dissection.written put := by
  cases dissection <;> rfl

theorem labels_push (c : Char) (dissection : Dissection) :
    (dissection.push c).labels = dissection.labels := by
  cases dissection <;> rfl

theorem written_join (put : Label → Text) (dissection : Dissection) (label : Label)
    (behind : Dissection) :
    (dissection.join label behind).written put =
      dissection.written put ++ (put label ++ behind.written put) := by
  induction dissection with
  | last literal => rfl
  | before literal other rest ih => simp only [join, written, ih, List.append_assoc]

theorem literals_join (dissection : Dissection) (label : Label) (behind : Dissection) :
    (dissection.join label behind).literals = dissection.literals ++ behind.literals := by
  induction dissection with
  | last literal => rfl
  | before literal other rest ih => simp only [join, literals, ih, List.cons_append]

theorem labels_join (dissection : Dissection) (label : Label) (behind : Dissection) :
    (dissection.join label behind).labels = dissection.labels ++ label :: behind.labels := by
  induction dissection with
  | last literal => rfl
  | before literal other rest ih => simp only [join, labels, ih, List.cons_append]

theorem written_refine (kept : ∀ text, (further text).written put = text)
    (dissection : Dissection) :
    (dissection.refine further).written put = dissection.written put := by
  induction dissection with
  | last literal => exact kept literal
  | before literal label rest ih => rw [refine, written_join, kept, ih, written]

theorem literals_refine (member : literal ∈ (dissection.refine further).literals) :
    ∃ text ∈ dissection.literals, literal ∈ (further text).literals := by
  induction dissection with
  | last text => exact ⟨text, List.mem_singleton_self text, member⟩
  | before text label rest ih =>
      rw [refine, literals_join] at member
      rcases List.mem_append.mp member with here | later
      · exact ⟨text, List.mem_cons_self, here⟩
      · obtain ⟨other, within, found⟩ := ih later
        exact ⟨other, List.mem_cons_of_mem text within, found⟩

theorem labels_refine (member : label ∈ (dissection.refine further).labels) :
    label ∈ dissection.labels ∨ ∃ text ∈ dissection.literals, label ∈ (further text).labels := by
  induction dissection with
  | last text => exact .inr ⟨text, List.mem_singleton_self text, member⟩
  | before text other rest ih =>
      rw [refine, labels_join] at member
      rcases List.mem_append.mp member with here | later
      · exact .inr ⟨text, List.mem_cons_self, here⟩
      · rcases List.mem_cons.mp later with same | behind
        · exact .inl (same ▸ List.mem_cons_self)
        · rcases ih behind with known | ⟨found, within, labelled⟩
          · exact .inl (List.mem_cons_of_mem other known)
          · exact .inr ⟨found, List.mem_cons_of_mem text within, labelled⟩

theorem literal_infix (put : Label → Text) (member : literal ∈ dissection.literals) :
    literal <:+: dissection.written put := by
  induction dissection with
  | last text =>
      rw [List.mem_singleton.mp member]
      exact List.infix_rfl
  | before text label rest ih =>
      rcases List.mem_cons.mp member with same | later
      · rw [same]
        exact (List.prefix_append _ _).isInfix
      · have suffix : rest.written put <:+ text ++ (put label ++ rest.written put) :=
          (List.suffix_append _ _).trans (List.suffix_append _ _)
        exact (ih later).trans suffix.isInfix

/-- By induction on the text: with the name the label gives back what it was found for. -/
theorem spelled_cut (named : label.name ≠ []) (skip : Nat) (text : Text) :
    (cut label skip text).spelled = text.drop skip := by
  induction text generalizing skip with
  | nil =>
      rw [List.drop_nil]
      rfl
  | cons c rest ih =>
      cases skip with
      | succ skip => exact ih skip
      | zero =>
          rw [cut]
          split
          · rename_i starts
            obtain ⟨after, split⟩ := List.isPrefixOf_iff_prefix.mp starts
            obtain ⟨first, others, spelling⟩ := List.exists_cons_of_ne_nil named
            rw [spelling, List.cons_append] at split
            obtain ⟨rfl, rfl⟩ := List.cons.inj split
            change label.name ++ (cut label (label.name.length - 1) (others ++ after)).spelled = _
            rw [ih, spelling, List.length_cons, Nat.add_sub_cancel, List.drop_left]
            rfl
          · rw [spelled, written_push]
            exact congrArg (c :: ·) (ih 0)

theorem resolved_cut (label : Label) (skip : Nat) (text : Text) :
    (cut label skip text).resolved =
      Text.replaceFrom label.name (Text.ofNat label.line) skip text := by
  induction text generalizing skip with
  | nil => rfl
  | cons c rest ih =>
      cases skip with
      | succ skip => exact ih skip
      | zero =>
          rw [cut, Text.replaceFrom]
          split
          · exact congrArg (Text.ofNat label.line ++ ·) (ih _)
          · rw [resolved, written_push]
            exact congrArg (c :: ·) (ih 0)

example : cut ⟨"aa".toList, 7⟩ 0 "aaab".toList =
    before [] ⟨"aa".toList, 7⟩ (last "ab".toList) := rfl

theorem labels_cut {other : Label} {skip : Nat} (member : other ∈ (cut label skip text).labels) :
    other = label := by
  induction text generalizing skip with
  | nil => cases member
  | cons c rest ih =>
      cases skip with
      | succ skip => exact ih member
      | zero =>
          rw [cut] at member
          split at member
          · rcases List.mem_cons.mp member with same | later
            · exact same
            · exact ih later
          · rw [labels_push] at member
            exact ih member

/-- Where one more character comes in front, a name is found that was not found before only if
the whole begins with it. -/
theorem absent_push {c : Char} (elsewhere : ¬name <+: c :: dissection.spelled)
    (absent : ∀ literal ∈ dissection.literals, ¬name <:+: literal) :
    ∀ literal ∈ (dissection.push c).literals, ¬name <:+: literal := by
  have first : ∀ text ∈ dissection.literals, text <+: dissection.spelled →
      ¬name <:+: c :: text := by
    intro text member leads occurs
    rcases List.infix_cons_iff.mp occurs with starts | within
    · exact elsewhere (starts.trans (List.cons_prefix_cons.mpr ⟨rfl, leads⟩))
    · exact absent text member within
  cases dissection with
  | last text =>
      intro literal member
      rw [List.mem_singleton.mp member]
      exact first text (List.mem_singleton_self text) List.prefix_rfl
  | before text label rest =>
      intro literal member
      rcases List.mem_cons.mp member with same | later
      · rw [same]
        exact first text List.mem_cons_self (List.prefix_append _ _)
      · exact absent literal (List.mem_cons_of_mem text later)

/-- By induction on the text: what is left between two occurrences was tried at each of its
places. -/
theorem literals_cut (named : label.name ≠ []) (skip : Nat) (text : Text) :
    ∀ literal ∈ (cut label skip text).literals, ¬label.name <:+: literal := by
  have empty : ¬label.name <:+: [] := fun none => named (List.infix_nil.mp none)
  induction text generalizing skip with
  | nil =>
      intro literal member
      rw [List.mem_singleton.mp member]
      exact empty
  | cons c rest ih =>
      cases skip with
      | succ skip => exact ih skip
      | zero =>
          rw [cut]
          split
          · intro literal member
            rcases List.mem_cons.mp member with same | later
            · rw [same]
              exact empty
            · exact ih _ literal later
          · rename_i unmatched
            rw [List.isPrefixOf_iff_prefix] at unmatched
            have whole : (cut label 0 rest).spelled = rest := spelled_cut named 0 rest
            exact absent_push (by rwa [whole]) (ih 0)

/-- Written with the names of the labels, a dissection is the text again. -/
theorem spelled_dissect (named : [] ∉ Label.names ranking) (text : Text) :
    (dissect ranking text).spelled = text := by
  induction ranking generalizing text with
  | nil => rfl
  | cons label rest ih =>
      obtain ⟨nonempty, later⟩ := Label.named_cons named
      exact (written_refine (ih later) _).trans (spelled_cut nonempty 0 text)

/-- By induction on the ranking: a text without a name has no part with that name. -/
theorem literals_dissect (named : [] ∉ Label.names ranking) (text : Text) :
    ∀ literal ∈ (dissect ranking text).literals, ∀ label ∈ ranking, ¬label.name <:+: literal := by
  induction ranking generalizing text with
  | nil => exact fun literal member label known => absurd known List.not_mem_nil
  | cons first rest ih =>
      obtain ⟨nonempty, later⟩ := Label.named_cons named
      intro literal member label known
      obtain ⟨part, within, found⟩ := literals_refine member
      rcases List.mem_cons.mp known with same | behind
      · rw [same]
        intro occurs
        have inside := literal_infix Label.name found
        rw [← spelled, spelled_dissect later] at inside
        exact literals_cut nonempty 0 text part within (occurs.trans inside)
      · exact ih later part literal found label behind

theorem labels_dissect (member : label ∈ (dissect ranking text).labels) : label ∈ ranking := by
  induction ranking generalizing text with
  | nil => cases member
  | cons first rest ih =>
      rcases labels_refine member with here | ⟨part, within, found⟩
      · rw [labels_cut here]
        exact List.mem_cons_self
      · exact List.mem_cons_of_mem first (ih found)

/-- The indices part what is between them, so each text is rewritten on its own. -/
theorem substitute_resolved (named : [] ∉ Label.names ranking)
    (digits : ∀ c : Char, c.isDigit = true → Label.Apart ranking c)
    (further : ∀ text, (dissect ranking text).resolved = Label.substitute ranking text)
    (dissection : Dissection) :
    (dissection.refine (dissect ranking)).resolved =
      Label.substitute ranking dissection.resolved := by
  induction dissection with
  | last literal => exact further literal
  | before literal label rest ih =>
      have marks : ∀ c ∈ Text.ofNat label.line, Label.Apart ranking c :=
        fun c member => digits c (Text.is_digit_of_mem_of_nat member)
      have apart := Label.substitute_across_marks named marks Nat.toDigits_ne_nil literal
        rest.resolved
      calc
        ((dissect ranking literal).join label (rest.refine (dissect ranking))).resolved =
            (dissect ranking literal).resolved ++
              (Text.ofNat label.line ++ (rest.refine (dissect ranking)).resolved) :=
          written_join _ _ label _
        _ = Label.substitute ranking literal ++
              (Text.ofNat label.line ++ Label.substitute ranking rest.resolved) := by
          rw [further, ih]
        _ = Label.substitute ranking (literal ++ (Text.ofNat label.line ++ rest.resolved)) :=
          apart.symm

theorem resolved_dissect (named : [] ∉ Label.names ranking)
    (digits : ∀ c : Char, c.isDigit = true → Label.Apart ranking c) (text : Text) :
    (dissect ranking text).resolved = Label.substitute ranking text := by
  induction ranking generalizing text with
  | nil => rfl
  | cons label rest ih =>
      obtain ⟨-, later⟩ := Label.named_cons named
      have apart : ∀ c : Char, c.isDigit = true → Label.Apart rest c :=
        fun c digit => (digits c digit).tail
      rw [dissect, substitute_resolved later apart (ih later apart), resolved_cut]
      rfl

/-- A name without digits that is in no text is nowhere: it would have to reach into an index. -/
theorem absent_resolved (undigited : ∀ c ∈ name, c.isDigit = false)
    (absent : ∀ literal ∈ dissection.literals, ¬name <:+: literal) :
    ¬name <:+: dissection.resolved := by
  induction dissection with
  | last literal => exact absent literal (List.mem_singleton_self literal)
  | before literal label rest ih =>
      intro occurs
      have apart : ∀ c ∈ Text.ofNat label.line, c ∉ name := by
        intro c put member
        have digit := Text.is_digit_of_mem_of_nat put
        rw [undigited c member] at digit
        cases digit
      rcases Text.infix_across_marks apart Nat.toDigits_ne_nil occurs with early | late
      · exact absent literal List.mem_cons_self early
      · exact ih (fun text member => absent text (List.mem_cons_of_mem literal member)) late

/-- The dissection takes one text apart at declared labels, with no declared name between them,
and has the other text when the labels give way to the indices of their lines. -/
structure Explains (dissection : Dissection) (source : List Text) (text out : Text) : Prop where
  spelled : dissection.spelled = text
  resolved : dissection.resolved = out
  declared : ∀ label ∈ dissection.labels, Label.Declares source label.line label.name
  literals : ∀ literal ∈ dissection.literals, ∀ (line : Nat) (name : Text),
    Label.Declares source line name → ¬name <:+: literal

end Dissection

namespace Program

variable {source : List Text} {program : Program}

/-- No declared name holds a digit. -/
def Undigited (source : List Text) : Prop :=
  ∀ (line : Nat) (name : Text), Label.Declares source line name → ∀ c ∈ name, c.isDigit = false

theorem line_dissects (resolved : resolve source = .ok program) (undigited : Undigited source)
    {index : Nat} {text : Text} (there : source[index]? = some text)
    (undeclared : Label.declared? text = none) :
    ∃ (out : Text) (dissection : Dissection), program.lines[index]? = some out ∧
      dissection.Explains source text out := by
  have resolves := resolves_of_resolve resolved
  have nameless := (named_of_resolve resolved).2
  let ranking := Label.ranked program.labels
  have declared : ∀ label, label ∈ ranking ↔ Label.Declares source label.line label.name :=
    fun label => Label.mem_ranked.trans (resolves.labels label.name label.line)
  have named : [] ∉ Label.names ranking := fun empty => nameless (Label.mem_names_ranked.mp empty)
  have digits : ∀ c : Char, c.isDigit = true → Label.Apart ranking c := by
    intro c digit label known member
    rw [undigited label.line label.name ((declared label).mp known) c member] at digit
    cases digit
  have out := resolves.substituted index text there (Label.not_declares there undeclared)
  refine ⟨_, Dissection.dissect ranking text, out, ?_⟩
  constructor
  · exact Dissection.spelled_dissect named text
  · exact Dissection.resolved_dissect named digits text
  · exact fun label member => (declared label).mp (Dissection.labels_dissect member)
  · intro literal member line name declares
    exact Dissection.literals_dissect named text literal member ⟨name, line⟩
      ((declared ⟨name, line⟩).mpr declares)

theorem line_without_names (resolved : resolve source = .ok program)
    (undigited : Undigited source) {out name : Text} {line : Nat} (member : out ∈ program.lines)
    (declares : Label.Declares source line name) : ¬name <:+: out := by
  have resolves := resolves_of_resolve resolved
  obtain ⟨index, here⟩ := List.mem_iff_getElem?.mp member
  have within : index < source.length := by
    rw [← resolves.length]
    exact (List.getElem?_eq_some_iff.mp here).1
  have there : source[index]? = some source[index] := List.getElem?_eq_getElem within
  cases declared : Label.declared? source[index] with
  | none =>
      obtain ⟨same, dissection, place, explains⟩ := line_dissects resolved undigited there declared
      rw [here] at place
      cases place
      rw [← explains.resolved]
      exact Dissection.absent_resolved (undigited line name declares)
        fun literal part => explains.literals literal part line name declares
  | some other =>
      have trimmed := Label.declared_eq_some_iff.mp declared
      rw [resolves.emptied index other ⟨_, there, trimmed⟩] at here
      cases here
      intro none
      have known := (resolves.labels name line).mpr declares
      rw [List.infix_nil.mp none] at known
      exact (named_of_resolve resolved).2 (List.mem_map_of_mem known)

/-- Where no declared name has a digit in it, every line that declares nothing is put together
from texts without any declared name and from labels, of which the names give way to the
indices. So no declared name is left in any line. -/
theorem resolve_dissects (resolved : resolve source = .ok program)
    (undigited : Undigited source) :
    (∀ (index : Nat) (text : Text), source[index]? = some text → Label.declared? text = none →
      ∃ (out : Text) (dissection : Dissection), program.lines[index]? = some out ∧
        dissection.Explains source text out) ∧
      ∀ out ∈ program.lines, ∀ (line : Nat) (name : Text), Label.Declares source line name →
        ¬name <:+: out :=
  ⟨fun _ _ there undeclared => line_dissects resolved undigited there undeclared,
    fun _ member _ _ declares => line_without_names resolved undigited member declares⟩

/-- Names within one another, at places where they overlap. -/
def overlappingSource : List Text := [":aa".toList, ":a".toList, "je aaa,0ba # a".toList]

def overlappingLabels : List Label := [⟨"aa".toList, 0⟩, ⟨"a".toList, 1⟩]

theorem resolve_dissects_overlapping :
    ∃ program, resolve overlappingSource = .ok program ∧ Undigited overlappingSource ∧
      overlappingSource[2]? = some "je aaa,0ba # a".toList ∧
      Label.declared? "je aaa,0ba # a".toList = none ∧
      program.lines[2]? = some "je 01,0b1 # 1".toList ∧
      (∃ dissection : Dissection, dissection.Explains overlappingSource "je aaa,0ba # a".toList
        "je 01,0b1 # 1".toList) ∧
      ¬"a".toList <:+: "je 01,0b1 # 1".toList := by
  have collected : Label.collect overlappingSource = .ok overlappingLabels := rfl
  have resolved := resolve_ranked collected (by decide)
  have undigited : Undigited overlappingSource := by
    intro line name declares c member
    have known := ((resolves_of_resolve resolved).labels name line).mpr declares
    have plain : (overlappingLabels.all fun label => label.name.all fun c => !c.isDigit) = true :=
      rfl
    have letters := List.all_eq_true.mp plain _ known
    simpa using List.all_eq_true.mp letters c member
  obtain ⟨dissects, absent⟩ := resolve_dissects resolved undigited
  obtain ⟨out, dissection, here, explains⟩ := dissects 2 _ rfl rfl
  cases here
  exact ⟨_, resolved, undigited, rfl, rfl, rfl, ⟨dissection, explains⟩,
    absent _ (List.mem_of_getElem? (i := 2) rfl) 1 _ ⟨_, rfl, rfl⟩⟩

end Program

end StackMachine
