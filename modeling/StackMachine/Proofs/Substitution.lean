import StackMachine.Label
import StackMachine.Proofs.Occurrences

/-!
# Declarations and substitution

A source whose declared names are distinct and not empty gives exactly its
declarations, each with its line. The names are then put in one after another,
longer ones first. A name reaches its own turn unbroken: what comes before it is not
shorter and not the same, so it cannot occur in it; and what comes after it meets
digits, in which no name occurs.
-/

namespace StackMachine

set_option autoImplicit false

namespace Text

theorem units_append (left right : Text) : units (left ++ right) = units left + units right := by
  induction left with
  | nil => simp [units]
  | cons c rest ih =>
      simp only [List.cons_append, units, ih]
      omega

/-- A name that is not shorter than a text occurs in it only as the whole. -/
theorem eq_of_infix_of_units_le {name text : Text} (occurs : name <:+: text)
    (longer : units text ≤ units name) : name = text := by
  obtain ⟨before, after, rfl⟩ := occurs
  simp only [units_append] at longer
  have noneBefore : before = [] := by
    have fits := length_le_units before
    exact List.length_eq_zero_iff.mp (by omega)
  have noneAfter : after = [] := by
    have fits := length_le_units after
    exact List.length_eq_zero_iff.mp (by omega)
  rw [noneBefore, noneAfter, List.nil_append, List.append_nil]

end Text

namespace Label

/-- What the lines declare, in their order, where the first of them has the given index. -/
def declarationsFrom (line : Nat) : List Text → List Label
  | [] => []
  | text :: rest =>
      match declared? text with
      | some name => ⟨name, line⟩ :: declarationsFrom (line + 1) rest
      | none => declarationsFrom (line + 1) rest

def names (labels : List Label) : List Text := labels.map Label.name

theorem find_eq_none_iff (labels : List Label) (name : Text) :
    find? labels name = none ↔ name ∉ names labels := by
  simp only [find?, Option.map_eq_none_iff, List.find?_eq_none, names, List.mem_map, not_exists,
    not_and, beq_iff_eq]

theorem collect_from_distinct (source : List Text) (line : Nat) (labels : List Label)
    (named : [] ∉ names (declarationsFrom line source))
    (distinct : (names (labels ++ declarationsFrom line source)).Nodup) :
    collectFrom line labels source = .ok (labels ++ declarationsFrom line source) := by
  induction source generalizing line labels with
  | nil => simp [collectFrom, declarationsFrom]
  | cons text rest ih =>
      cases declares : declared? text with
      | none =>
          simp only [declarationsFrom, declares] at named distinct ⊢
          have declared : declare labels text line = .ok labels := by simp only [declare, declares]
          simp only [collectFrom, declared]
          exact ih (line + 1) labels named distinct
      | some name =>
          simp only [declarationsFrom, declares] at named distinct ⊢
          have nonempty : name ≠ [] := by
            rintro rfl
            exact named (List.mem_cons_self ..)
          have fresh : find? labels name = none := by
            rw [find_eq_none_iff]
            intro member
            simp only [names, List.map_append, List.map_cons] at distinct member
            exact (List.nodup_append.mp distinct).2.2 name member name (List.mem_cons_self ..) rfl
          have declared : declare labels text line = .ok (labels ++ [⟨name, line⟩]) := by
            obtain ⟨c, others, rfl⟩ := List.exists_cons_of_ne_nil nonempty
            simp only [declare, declares, fresh]
          simp only [collectFrom, declared]
          have onward := ih (line + 1) (labels ++ [⟨name, line⟩])
            (fun member => named (List.mem_cons_of_mem _ member))
            (by rwa [List.append_assoc, List.singleton_append])
          rw [List.append_assoc, List.singleton_append] at onward
          exact onward

theorem collect_distinct {source : List Text} (named : [] ∉ names (declarationsFrom 0 source))
    (distinct : (names (declarationsFrom 0 source)).Nodup) :
    collect source = .ok (declarationsFrom 0 source) :=
  collect_from_distinct source 0 [] named distinct

theorem mem_ranked {labels : List Label} {label : Label} :
    label ∈ ranked labels ↔ label ∈ labels :=
  List.mem_mergeSort

theorem mem_names_ranked {labels : List Label} {name : Text} :
    name ∈ names (ranked labels) ↔ name ∈ names labels :=
  ((List.mergeSort_perm labels _).map Label.name).mem_iff

/-- A character that stands in no name. -/
def Apart (labels : List Label) (c : Char) : Prop := ∀ label ∈ labels, c ∉ label.name

theorem Apart.tail {label : Label} {rest : List Label} {c : Char}
    (apart : Apart (label :: rest) c) : Apart rest c :=
  fun other member => apart other (List.mem_cons_of_mem label member)

theorem named_cons {label : Label} {rest : List Label} (named : [] ∉ names (label :: rest)) :
    label.name ≠ [] ∧ [] ∉ names rest := by
  simp only [names, List.map_cons, List.mem_cons, not_or] at named
  exact ⟨Ne.symm named.1, named.2⟩

theorem substitute_nil (ranking : List Label) : substitute ranking [] = [] := by
  induction ranking with
  | nil => rfl
  | cons label rest ih => exact ih

theorem substitute_across {ranking : List Label} (named : [] ∉ names ranking) {mark : Char}
    (apart : Apart ranking mark) (before after : Text) :
    substitute ranking (before ++ mark :: after) =
      substitute ranking before ++ mark :: substitute ranking after := by
  induction ranking generalizing before after with
  | nil => rfl
  | cons label rest ih =>
      obtain ⟨nonempty, later⟩ := named_cons named
      have across := Text.replace_all_across nonempty (apart label (List.mem_cons_self ..))
        (Text.ofNat label.line) before after
      simp only [substitute, List.foldl_cons] at ih ⊢
      rw [across]
      exact ih later apart.tail _ _

theorem substitute_cons {ranking : List Label} (named : [] ∉ names ranking) {mark : Char}
    (apart : Apart ranking mark) (after : Text) :
    substitute ranking (mark :: after) = mark :: substitute ranking after := by
  have across := substitute_across named apart [] after
  rwa [substitute_nil, List.nil_append, List.nil_append] at across

/-- Characters that stand in no name pass unchanged. -/
theorem substitute_lead {ranking : List Label} (named : [] ∉ names ranking) {lead : Text}
    (apart : ∀ c ∈ lead, Apart ranking c) (text : Text) :
    substitute ranking (lead ++ text) = lead ++ substitute ranking text := by
  induction lead with
  | nil => rfl
  | cons c rest ih =>
      have passed := ih fun other member => apart other (List.mem_cons_of_mem _ member)
      rw [List.cons_append, substitute_cons named (apart c (List.mem_cons_self ..)), passed]
      rfl

theorem substitute_marks {ranking : List Label} (named : [] ∉ names ranking) {text : Text}
    (apart : ∀ c ∈ text, Apart ranking c) : substitute ranking text = text := by
  have passed := substitute_lead named apart []
  rwa [List.append_nil, substitute_nil, List.append_nil] at passed

/-- A word that ends, or that a character outside of all names ends, is rewritten on its own. -/
theorem substitute_word {ranking : List Label} (named : [] ∉ names ranking) (word : Text)
    {rest : Text} (parted : ∀ c, rest.head? = some c → Apart ranking c) :
    substitute ranking (word ++ rest) = substitute ranking word ++ substitute ranking rest := by
  cases rest with
  | nil => rw [List.append_nil, substitute_nil, List.append_nil]
  | cons mark after =>
      have apart := parted mark rfl
      rw [substitute_across named apart, substitute_cons named apart]

/-- What stands before and behind a run of characters outside of all names is rewritten
apart. -/
theorem substitute_across_marks {ranking : List Label} (named : [] ∉ names ranking) {marks : Text}
    (apart : ∀ c ∈ marks, Apart ranking c) (nonempty : marks ≠ []) (before after : Text) :
    substitute ranking (before ++ (marks ++ after)) =
      substitute ranking before ++ (marks ++ substitute ranking after) := by
  obtain ⟨mark, rest, rfl⟩ := List.exists_cons_of_ne_nil nonempty
  have passed := substitute_lead named
    (fun c member => apart c (List.mem_cons_of_mem mark member)) after
  rw [List.cons_append, substitute_across named (apart mark List.mem_cons_self), passed,
    List.cons_append]

/-- What stands between characters that are in no name is rewritten on its own. -/
theorem substitute_between {ranking : List Label} (named : [] ∉ names ranking)
    {lead trail : Text} (before : ∀ c ∈ lead, Apart ranking c)
    (after : ∀ c ∈ trail, Apart ranking c) (body : Text) :
    substitute ranking (lead ++ (body ++ trail)) =
      lead ++ (substitute ranking body ++ trail) := by
  have parted : ∀ c, trail.head? = some c → Apart ranking c :=
    fun c first => after c (List.mem_of_mem_head? first)
  rw [substitute_lead named before, substitute_word named body parted,
    substitute_marks named after]

/-- Pieces that a character outside of all names separates are rewritten one by one. -/
theorem substitute_intercalate {ranking : List Label} (named : [] ∉ names ranking) {mark : Char}
    (apart : Apart ranking mark) (pieces : List Text) :
    substitute ranking (List.intercalate [mark] pieces) =
      List.intercalate [mark] (pieces.map (substitute ranking)) := by
  induction pieces with
  | nil => exact substitute_nil ranking
  | cons piece rest ih =>
      cases rest with
      | nil => simp only [List.intercalate_singleton, List.map_cons, List.map_nil]
      | cons next others =>
          simp only [List.intercalate_cons_cons, List.map_cons, List.append_assoc,
            List.cons_append, List.nil_append] at ih ⊢
          rw [substitute_across named apart, ih]

theorem substitute_absent {ranking : List Label} {text : Text}
    (absent : ∀ label ∈ ranking, ¬label.name <:+: text) : substitute ranking text = text := by
  induction ranking with
  | nil => rfl
  | cons label rest ih =>
      have kept := Text.replace_all_absent (Text.ofNat label.line)
        (absent label (List.mem_cons_self ..))
      simp only [substitute, List.foldl_cons] at ih ⊢
      rw [kept]
      exact ih fun other member => absent other (List.mem_cons_of_mem _ member)

/-- Nothing comes into a text but digits. -/
theorem mem_substitute {ranking : List Label} {text : Text} {c : Char}
    (member : c ∈ substitute ranking text) : c ∈ text ∨ c.isDigit = true := by
  induction ranking generalizing text with
  | nil => exact .inl member
  | cons label rest ih =>
      rcases ih member with within | digit
      · rcases Text.mem_replace_from within with kept | put
        · exact .inl kept
        · exact .inr (Text.is_digit_of_mem_of_nat put)
      · exact .inr digit

/-- Whatever the names are, only a digit can come before what came first. -/
theorem first_substitute {ranking : List Label} {text : Text} {c : Char}
    (first : Text.first? (substitute ranking text) = some c) :
    Text.first? text = some c ∨ c.isDigit = true := by
  induction ranking generalizing text with
  | nil => exact .inl first
  | cons label rest ih =>
      have digits : ∀ c ∈ Text.ofNat label.line, c.isDigit = true :=
        fun c member => Text.is_digit_of_mem_of_nat member
      have solid : Text.Solid (Text.ofNat label.line) :=
        fun c member => Text.not_blank_of_digit (digits c member)
      rcases ih first with within | digit
      · exact (Text.first_replace_all Nat.toDigits_ne_nil solid within).imp_right (digits c)
      · exact .inr digit

theorem substitute_ne_nil (ranking : List Label) {text : Text} (nonempty : text ≠ []) :
    substitute ranking text ≠ [] := by
  induction ranking generalizing text with
  | nil => exact nonempty
  | cons label rest ih => exact ih (Text.replace_all_ne_nil Nat.toDigits_ne_nil nonempty)

theorem rank_trans (a b c : Label) (first : decide (Text.units b.name ≤ Text.units a.name) = true)
    (second : decide (Text.units c.name ≤ Text.units b.name) = true) :
    decide (Text.units c.name ≤ Text.units a.name) = true := by
  simp only [decide_eq_true_eq] at first second ⊢
  omega

theorem rank_total (a b : Label) : (decide (Text.units b.name ≤ Text.units a.name) ||
    decide (Text.units a.name ≤ Text.units b.name)) = true := by
  simp only [Bool.or_eq_true, decide_eq_true_eq]
  omega

theorem ranked_pairwise (labels : List Label) :
    (ranked labels).Pairwise fun a b => Text.units b.name ≤ Text.units a.name :=
  (List.pairwise_mergeSort rank_trans rank_total labels).imp fun ordered =>
    of_decide_eq_true ordered

/-- Until its turn a name is left as it is, and at its turn it becomes the index of its line.
What comes after it meets those digits. -/
theorem substitute_own_name {labels before after : List Label} {label : Label}
    (distinct : (names labels).Nodup) (split : ranked labels = before ++ label :: after)
    (nonempty : label.name ≠ []) :
    substitute (ranked labels) label.name = substitute after (Text.ofNat label.line) := by
  have sorted := ranked_pairwise labels
  have ordered : (names (ranked labels)).Nodup :=
    ((List.mergeSort_perm labels _).map Label.name).nodup_iff.mpr distinct
  rw [split] at sorted ordered ⊢
  have early : substitute before label.name = label.name := by
    apply substitute_absent
    intro other earlier occurs
    have longer := (List.pairwise_append.mp sorted).2.2 other earlier label (List.mem_cons_self ..)
    have same := Text.eq_of_infix_of_units_le occurs longer
    simp only [names, List.map_append, List.map_cons] at ordered
    exact (List.nodup_append.mp ordered).2.2 other.name (List.mem_map_of_mem earlier) label.name
      (List.mem_cons_self ..) same
  calc
    substitute (before ++ label :: after) label.name =
        substitute after (Text.replaceAll label.name (Text.ofNat label.line)
          (substitute before label.name)) := by
      simp only [substitute, List.foldl_append, List.foldl_cons]
    _ = substitute after (Text.ofNat label.line) := by
      rw [early, Text.replace_all_self nonempty]

/-- The invariant of the whole pass: a name becomes the index of its line, and no later turn
finds anything in those digits. -/
theorem substitute_ranked_name {labels : List Label} (distinct : (names labels).Nodup)
    (digits : ∀ label ∈ labels, ∀ n, ¬label.name <:+: Text.ofNat n)
    {label : Label} (member : label ∈ labels) (nonempty : label.name ≠ []) :
    substitute (ranked labels) label.name = Text.ofNat label.line := by
  obtain ⟨before, after, split⟩ := List.append_of_mem (mem_ranked.mpr member)
  rw [substitute_own_name distinct split nonempty]
  apply substitute_absent
  intro other later
  have known : other ∈ ranked labels := by simp [split, later]
  exact digits other (mem_ranked.mp known) label.line

end Label

end StackMachine
