import StackMachine.Proofs.Changes
import StackMachine.Proofs.Comments
import StackMachine.Proofs.Tracing

/-!
# Indentation

Whoever reads a line trims it, but labels are put into it as it stands. A name ends where its
line was trimmed, so it never reaches into the blanks behind a text; and where it does not
begin with a blank, it does not reach into the blanks before a text either. What is between
is then rewritten on its own, and stays between its blanks. A name that begins with a blank
is found or not found as the indentation has it.
-/

namespace StackMachine

set_option autoImplicit false

namespace Text

variable {name lead trail text line other : Text}

/-- Two spellings of one line, with other blanks at its ends. -/
inductive Respaced : Text → Text → Prop
  | around {lead other_lead trail other_trail : Text} (body : Text) (before : AllBlank lead)
      (other_before : AllBlank other_lead) (after : AllBlank trail)
      (other_after : AllBlank other_trail) :
      Respaced (lead ++ (body ++ trail)) (other_lead ++ (body ++ other_trail))

/-- With other blanks at the end only. -/
inductive Retrailed : Text → Text → Prop
  | behind {trail other_trail : Text} (body : Text) (after : AllBlank trail)
      (other_after : AllBlank other_trail) : Retrailed (body ++ trail) (body ++ other_trail)

theorem Retrailed.respaced (retrailed : Retrailed line other) : Respaced line other := by
  cases retrailed with
  | behind body after other_after =>
      exact .around body all_blank_nil all_blank_nil after other_after

/-- Lines are spellings of one line where there is one trimmed form of both. -/
theorem respaced_iff : Respaced line other ↔ trim other = trim line := by
  constructor
  · intro respaced
    cases respaced with
    | around body before other_before after other_after =>
        have trimmed : ∀ {lead trail : Text}, AllBlank lead → AllBlank trail →
            trim (lead ++ (body ++ trail)) = trim body := by
          intro lead trail leads trails
          rw [← trim_behind trails body, trim, trim_start_blank leads, ← trim]
        rw [trimmed before after, trimmed other_before other_after]
  · intro same
    obtain ⟨lead, trail, before, after, split⟩ := trim_spec line
    obtain ⟨other_lead, other_trail, other_before, other_after, other_split⟩ := trim_spec other
    rw [split, other_split, same]
    exact .around (trim line) before other_before after other_after

instance : Decidable (Respaced line other) := decidable_of_iff _ respaced_iff.symm

/-- A name that begins with a text ends in it as well. -/
theorem prefix_before_trail (solid : EndsSolid name) (blank : AllBlank trail) (body : Text) :
    name <+: body ++ trail ↔ name <+: body := by
  constructor
  · intro starts
    rcases List.prefix_or_prefix_of_prefix starts (List.prefix_append body trail) with
      within | ⟨rest, rfl⟩
    · exact within
    · cases rest with
      | nil => exact ⟨[], by rw [List.append_nil, List.append_nil]⟩
      | cons c more =>
          obtain ⟨last, ends, mark⟩ := solid
          have behind : c :: more <+: trail := (List.prefix_append_right_inj body).mp starts
          have member : last ∈ c :: more := by
            rw [List.getLast?_append_cons] at ends
            exact List.mem_of_getLast? ends
          rw [blank last (behind.subset member)] at mark
          cases mark
  · exact List.prefix_append_of_prefix

/-- By induction on the text: no occurrence begins in it and ends behind it. -/
theorem replace_from_trail (solid : EndsSolid name) (blank : AllBlank trail) (value : Text)
    (skip : Nat) (body : Text) (within : skip ≤ body.length) :
    replaceFrom name value skip (body ++ trail) = replaceFrom name value skip body ++ trail := by
  induction body generalizing skip with
  | nil =>
      have none : ¬name <:+: trail := by
        intro occurs
        exact solid.not_blank fun c member => blank c (occurs.subset member)
      rw [Nat.le_zero.mp within]
      exact replace_all_absent value none
  | cons c rest ih =>
      cases skip with
      | succ skip => exact ih skip (Nat.le_of_succ_le_succ within)
      | zero =>
          have same : name.isPrefixOf (c :: (rest ++ trail)) = name.isPrefixOf (c :: rest) := by
            rw [Bool.eq_iff_iff, List.isPrefixOf_iff_prefix, List.isPrefixOf_iff_prefix]
            exact prefix_before_trail solid blank (c :: rest)
          rw [List.cons_append, replaceFrom, replaceFrom, same]
          by_cases here : name.isPrefixOf (c :: rest) = true
          · have fits := (List.isPrefixOf_iff_prefix.mp here).length_le
            rw [List.length_cons] at fits
            rw [if_pos here, if_pos here, ih (name.length - 1) (by omega), List.append_assoc]
          · rw [if_neg here, if_neg here, ih 0 (Nat.zero_le _), List.cons_append]

theorem replace_all_trail (solid : EndsSolid name) (blank : AllBlank trail) (value body : Text) :
    replaceAll name value (body ++ trail) = replaceAll name value body ++ trail :=
  replace_from_trail solid blank value 0 body (Nat.zero_le _)

theorem replace_all_lead (starts : ¬StartsBlank name) (blank : AllBlank lead) (value body : Text) :
    replaceAll name value (lead ++ body) = lead ++ replaceAll name value body := by
  induction lead with
  | nil => rfl
  | cons c rest ih =>
      have elsewhere : ¬name.isPrefixOf (c :: (rest ++ body)) = true := by
        rw [List.isPrefixOf_iff_prefix]
        intro here
        apply starts
        cases name with
        | nil => exact nofun
        | cons first others =>
            rintro mark ⟨⟩
            rw [(List.cons_prefix_cons.mp here).1]
            exact blank c List.mem_cons_self
      have later := ih fun other member => blank other (List.mem_cons_of_mem c member)
      rw [List.cons_append, replaceAll, replaceFrom, if_neg elsewhere, List.cons_append]
      exact congrArg _ later

end Text

/-- Both fail for one reason, or both succeed with results that are related. -/
inductive Matched {ε α β : Type} (R : α → β → Prop) : Except ε α → Except ε β → Prop
  | error (reason : ε) : Matched R (.error reason) (.error reason)
  | ok {a : α} {b : β} (related : R a b) : Matched R (.ok a) (.ok b)

namespace Matched

variable {ε α β γ δ : Type} {R : α → β → Prop} {S : γ → δ → Prop}

theorem bind {first : Except ε α} {second : Except ε β} {next : α → Except ε γ}
    {other : β → Except ε δ} (matched : Matched R first second)
    (onward : ∀ a b, R a b → Matched S (next a) (other b)) :
    Matched S (first >>= next) (second >>= other) := by
  cases matched with
  | error reason => exact .error reason
  | ok related => exact onward _ _ related

theorem map_error {η : Type} {first : Except ε α} {second : Except ε β} (located : ε → η)
    (matched : Matched R first second) :
    Matched R (first.mapError located) (second.mapError located) := by
  cases matched with
  | error reason => exact .error (located reason)
  | ok related => exact .ok related

end Matched

section Lines

open Text (Respaced Retrailed EndsSolid)

variable {line other : Text} {source others : List Text} {labels : List Label}

namespace Statement

theorem of_line_respaced (respaced : Respaced line other) : ofLine? other = ofLine? line := by
  unfold ofLine? isSkipped
  rw [Text.respaced_iff.mp respaced]

end Statement

theorem Instruction.decode_respaced (respaced : Respaced line other) :
    decode other = decode line := by
  rw [decode, decode, Statement.of_line_respaced respaced]

namespace Label

theorem declared_respaced (respaced : Respaced line other) : declared? other = declared? line := by
  rw [declared?, declared?, Text.respaced_iff.mp respaced]

/-- By induction on the lines: each of them declares the same. -/
theorem collect_from_respaced (respaced : List.Forall₂ Respaced source others) (line : Nat)
    (labels : List Label) : collectFrom line labels others = collectFrom line labels source := by
  induction respaced generalizing line labels with
  | nil => rfl
  | @cons text other rest others first later ih =>
      have same : declare labels other line = declare labels text line := by
        rw [declare, declare, declared_respaced first]
      rw [collectFrom, collectFrom, same]
      exact bind_congr fun after => ih (line + 1) after

theorem collect_respaced (respaced : List.Forall₂ Respaced source others) :
    collect others = collect source :=
  collect_from_respaced respaced 0 []

variable {ranking : List Label} {lead trail : Text}

theorem substitute_trail (solid : ∀ label ∈ ranking, EndsSolid label.name)
    (blank : Text.AllBlank trail) (body : Text) :
    substitute ranking (body ++ trail) = substitute ranking body ++ trail := by
  induction ranking generalizing body with
  | nil => rfl
  | cons label rest ih =>
      have first := Text.replace_all_trail (solid label List.mem_cons_self) blank
        (Text.ofNat label.line) body
      simp only [substitute, List.foldl_cons] at ih ⊢
      rw [first]
      exact ih (fun other member => solid other (List.mem_cons_of_mem label member)) _

theorem substitute_indent (starts : ∀ label ∈ ranking, ¬Text.StartsBlank label.name)
    (blank : Text.AllBlank lead) (body : Text) :
    substitute ranking (lead ++ body) = lead ++ substitute ranking body := by
  induction ranking generalizing body with
  | nil => rfl
  | cons label rest ih =>
      have first := Text.replace_all_lead (starts label List.mem_cons_self) blank
        (Text.ofNat label.line) body
      simp only [substitute, List.foldl_cons] at ih ⊢
      rw [first]
      exact ih (fun other member => starts other (List.mem_cons_of_mem label member)) _

/-- Nothing depends on the blanks in front of a line: no name begins with a blank, or no name
is looked for in the line, or these blanks are the same. -/
inductive Steady (labels : List Label) (line other : Text) : Prop
  | named (starts : ∀ label ∈ labels, ¬Text.StartsBlank label.name)
  | declares (declares : (declared? line).isSome = true)
  | retrailed (retrailed : Retrailed line other)

theorem resolve_line_respaced (solid : ∀ label ∈ labels, EndsSolid label.name)
    (steady : Steady labels line other) (respaced : Respaced line other) :
    Respaced (resolveLine (ranked labels) line) (resolveLine (ranked labels) other) := by
  have solid_ranked : ∀ label ∈ ranked labels, EndsSolid label.name :=
    fun label member => solid label (mem_ranked.mp member)
  rw [resolveLine, resolveLine, declared_respaced respaced]
  cases declares : declared? line with
  | some name => exact Text.respaced_iff.mpr rfl
  | none =>
      cases steady with
      | declares declared =>
          rw [declares] at declared
          cases declared
      | retrailed retrailed =>
          cases retrailed with
          | behind body after other_after =>
              simp only [substitute_trail solid_ranked after,
                substitute_trail solid_ranked other_after]
              exact (Retrailed.behind _ after other_after).respaced
      | named starts =>
          have starts_ranked : ∀ label ∈ ranked labels, ¬Text.StartsBlank label.name :=
            fun label member => starts label (mem_ranked.mp member)
          cases respaced with
          | around body before other_before after other_after =>
              simp only [substitute_indent starts_ranked before,
                substitute_indent starts_ranked other_before,
                substitute_trail solid_ranked after, substitute_trail solid_ranked other_after]
              exact .around _ before other_before after other_after

theorem resolve_respaced (collected : collect source = .ok labels)
    (steady : List.Forall₂ (Steady labels) source others)
    (respaced : List.Forall₂ Respaced source others) :
    List.Forall₂ Respaced (resolve labels source) (resolve labels others) := by
  have solid : ∀ label ∈ labels, EndsSolid label.name :=
    fun label member => ends_solid_of_collect collected member
  clear collected
  induction respaced with
  | nil => exact .nil
  | cons first rest ih =>
      cases steady with
      | cons steady later =>
          exact .cons (resolve_line_respaced solid steady first) (ih later)

end Label

namespace Move

theorem expand_line_respaced (respaced : Respaced line other) :
    Matched Respaced (expandLine line) (expandLine other) := by
  rw [expandLine, expandLine, Statement.of_line_respaced respaced]
  cases Statement.ofLine? line with
  | none => exact .ok respaced
  | some statement =>
      by_cases moves : isMove statement.mnemonic = true
      · simp only [if_pos moves]
        cases expand statement.operands with
        | error defect => exact .error defect
        | ok expanded => exact .ok (Text.respaced_iff.mpr rfl)
      · simp only [if_neg moves]
        exact .ok respaced

theorem expand_from_respaced (respaced : List.Forall₂ Respaced source others) (line : Nat) :
    Matched (List.Forall₂ Respaced) (expandFrom line source) (expandFrom line others) := by
  induction respaced generalizing line with
  | nil => exact .ok .nil
  | cons first rest ih =>
      rw [expandFrom, expandFrom]
      apply ((expand_line_respaced first).map_error (Failure.program line)).bind
      intro here there same
      apply (ih (line + 1)).bind
      intro later others later_same
      exact .ok (.cons same later_same)

end Move

namespace Program

/-- The same labels, and lines that hold the same instruction, or none, or the same defect. -/
structure ReadsAlike (program other : Program) : Prop where
  labels : other.labels = program.labels
  lines : List.Forall₂ (fun line other => Instruction.decode other = Instruction.decode line)
    program.lines other.lines

theorem prepare_respaced (respaced : List.Forall₂ Respaced source others)
    (steady : ∀ labels, Label.collect source = .ok labels →
      List.Forall₂ (Label.Steady labels) source others) :
    Matched ReadsAlike (prepare source) (prepare others) := by
  unfold prepare resolve
  rw [Label.collect_respaced respaced]
  cases collected : Label.collect source with
  | error failure => exact .error failure
  | ok labels =>
      have resolved := Label.resolve_respaced collected (steady labels collected) respaced
      apply (Move.expand_from_respaced resolved 0).bind
      intro lines others same
      exact .ok ⟨rfl, same.imp fun line other => Instruction.decode_respaced⟩

end Program

end Lines

namespace Machine

variable {m : Machine} {q : Program}

def respelt (program : Program) (m : Machine) : Machine := { m with program }

/-- Fetched from one line, to one effect. -/
structure Fetched.ReadsAlike (fetched other : Fetched) : Prop where
  line : other.line = fetched.line
  decoded : other.decoded = fetched.decoded

theorem rel_fetch_from {lines others : List Text}
    (alike : List.Forall₂
      (fun line other => Instruction.decode other = Instruction.decode line) lines others)
    (line : Nat) :
    Option.Rel Fetched.ReadsAlike (fetchFrom line lines) (fetchFrom line others) := by
  induction alike generalizing line with
  | nil => exact .none
  | @cons text other rest others same later ih =>
      simp only [fetchFrom, same]
      cases Instruction.decode text with
      | error defect => exact .some ⟨rfl, rfl⟩
      | ok found =>
          cases found with
          | none => exact ih (line + 1)
          | some instruction => exact .some ⟨rfl, rfl⟩

theorem perform_respelt (length : q.lines.length = m.program.lines.length) (line : Nat)
    (instruction : Instruction) :
    (m.respelt q).perform line instruction = onLeft (respelt q) (m.perform line instruction) := by
  have start : (m.respelt q).staged instruction = m.staged instruction := rfl
  rw [perform_run, perform_run, start]
  cases instruction.opcode.execute (m.staged instruction) with
  | error address stopped => rfl
  | ok value done =>
      simp only [follow, respelt, halted, length]
      split
      · rfl
      · split <;> rfl

/-- Without traces, the text of a line is not looked at once it is decoded. -/
theorem step_respelt (alike : m.program.ReadsAlike q) (plain : m.trace = false) :
    (m.respelt q).step = onLeft (respelt q) m.step := by
  have length := alike.lines.length_eq.symm
  have fetches : Option.Rel Fetched.ReadsAlike m.fetch (m.respelt q).fetch :=
    rel_fetch_from (List.forall₂_drop m.pointer alike.lines) m.pointer
  unfold step
  generalize m.fetch = here at fetches
  generalize (m.respelt q).fetch = there at fetches
  cases fetches with
  | none => simp only [onLeft, finish, respelt, length]
  | @some fetched other reads =>
      simp only [reads.line, reads.decoded]
      cases fetched.decoded with
      | error defect => rfl
      | ok instruction =>
          have here := note_trace_plain (m := { m with pointer := fetched.line }) plain
          have there := note_trace_plain (m := { m.respelt q with pointer := fetched.line }) plain
          simp only [here, there]
          exact perform_respelt (m := { m with pointer := fetched.line }) length _ _

theorem unnoticed_respelt (alike : m.program.ReadsAlike q) :
    Unnoticed (Untraced m) (respelt q) where
  keeps := fun _ => untraced_step
  step := fun before untraced => step_respelt (untraced.program ▸ alike) untraced.trace
  halted := by
    intro before untraced
    have length := (untraced.program ▸ alike : before.program.ReadsAlike q).lines.length_eq
    simp only [halted, respelt, length]
    rfl
  executed := fun _ => rfl

/-- In one state, with programs that read alike, and so for good: calls are answered alike
and leave the machines alike. -/
structure RunsAlike (m other : Machine) : Prop where
  reads : m.program.ReadsAlike other.program
  same : other = m.respelt other.program
  answers : ∀ fuel calls, answers fuel other calls =
    (answers fuel m calls).map (changed (respelt other.program))

theorem runs_alike (alike : m.program.ReadsAlike q) (plain : m.trace = false) :
    RunsAlike m (m.respelt q) where
  reads := alike
  same := rfl
  answers := fun fuel calls => (unnoticed_respelt alike).answers fuel calls (.refl plain)

theorem build_alike {source others : List Text}
    (prepared : Matched Program.ReadsAlike (Program.prepare source) (Program.prepare others))
    (capacity : Double) :
    Matched RunsAlike (build source ⟨false, capacity⟩) (build others ⟨false, capacity⟩) := by
  unfold build
  cases Stack.ofCapacity capacity with
  | error failure => exact .error failure
  | ok stack =>
      apply prepared.bind
      intro program other alike
      exact .ok (runs_alike alike rfl)

/-- Blanks at the ends of lines do not count. They never matter for the table of labels; and
unless blanks are put before or taken from before a line into which a name that begins with
a blank is to be put, they do not matter for what a program is or does. -/
theorem indentation_is_insignificant {source others : List Text}
    (respaced : List.Forall₂ Text.Respaced source others) :
    Label.collect others = Label.collect source ∧
      ((∀ labels, Label.collect source = .ok labels →
          List.Forall₂ (Label.Steady labels) source others) →
        Matched Program.ReadsAlike (Program.prepare source) (Program.prepare others) ∧
          ∀ capacity, Matched RunsAlike (build source ⟨false, capacity⟩)
            (build others ⟨false, capacity⟩)) := by
  refine ⟨Label.collect_respaced respaced, fun steady => ?_⟩
  have prepared := Program.prepare_respaced respaced steady
  exact ⟨prepared, build_alike prepared⟩

/-- A jump behind the end, and the same lines between blanks of several kinds. -/
def flushLines : List Text := ["jmp end".toList, "push 1".toList, ":end".toList]

def shiftedLines : List Text :=
  ["\uFEFFjmp end ".toList, "\t push 1\r".toList, "  :end\u3000".toList]

def flush : Machine :=
  { stray with
    stack := .empty 1
    program := ⟨["jmp 2".toList, "push 1".toList, []], [⟨"end".toList, 2⟩]⟩
    trace := false }

def shiftedProgram : Program :=
  ⟨["\uFEFFjmp 2 ".toList, "\t push 1\r".toList, []], [⟨"end".toList, 2⟩]⟩

theorem indentation_is_insignificant_shifted :
    List.Forall₂ Text.Respaced flushLines shiftedLines ∧
      build flushLines ⟨false, Double.ofInt 1⟩ = .ok flush ∧
      build shiftedLines ⟨false, Double.ofInt 1⟩ = .ok (flush.respelt shiftedProgram) ∧
      RunsAlike flush (flush.respelt shiftedProgram) ∧
      (flush.answer 2 (.run none)).map Prod.fst = some (.ok (.ran ⟨1, true⟩)) := by
  have respaced : List.Forall₂ Text.Respaced flushLines shiftedLines :=
    .cons (by decide) (.cons (by decide) (.cons (by decide) .nil))
  have prepared : Program.prepare flushLines = .ok flush.program :=
    Program.prepare_single rfl rfl
  have prepared_shifted : Program.prepare shiftedLines = .ok shiftedProgram :=
    Program.prepare_single rfl rfl
  have made : build flushLines ⟨false, Double.ofInt 1⟩ = .ok flush := by
    simp only [build, prepared]
    rfl
  have made_shifted : build shiftedLines ⟨false, Double.ofInt 1⟩ =
      .ok (flush.respelt shiftedProgram) := by
    simp only [build, prepared_shifted]
    rfl
  have steady : ∀ labels, Label.collect flushLines = .ok labels →
      List.Forall₂ (Label.Steady labels) flushLines shiftedLines := by
    rintro labels ⟨⟩
    have starts : ∀ label ∈ [(⟨"end".toList, 2⟩ : Label)], ¬Text.StartsBlank label.name := by
      intro label member blank
      cases List.mem_singleton.mp member
      exact absurd (blank 'e' rfl) (by decide)
    exact .cons (.named starts) (.cons (.named starts) (.cons (.named starts) .nil))
  have runs := ((indentation_is_insignificant respaced).2 steady).2 (Double.ofInt 1)
  rw [made, made_shifted] at runs
  cases runs with
  | ok alike => exact ⟨respaced, made, made_shifted, alike, rfl⟩

/-- A label whose name begins with a blank, and a line that its name begins once it is
indented. -/
def hangingLines : List Text := [": push".toList, "push 1".toList]

def indentedLines : List Text := [": push".toList, " push 1".toList]

def hanging : Machine :=
  { stray with
    stack := .empty 1
    program := ⟨[[], "push 1".toList], [⟨" push".toList, 0⟩]⟩
    trace := false }

def indented : Program := ⟨[[], "0 1".toList], [⟨" push".toList, 0⟩]⟩

theorem indented_name_is_replaced :
    List.Forall₂ Text.Respaced hangingLines indentedLines ∧
      build hangingLines ⟨false, Double.ofInt 1⟩ = .ok hanging ∧
      build indentedLines ⟨false, Double.ofInt 1⟩ = .ok (hanging.respelt indented) ∧
      ¬Matched Program.ReadsAlike (Program.prepare hangingLines)
        (Program.prepare indentedLines) ∧
      (hanging.answer 2 (.run none)).map Prod.fst = some (.ok (.ran ⟨1, true⟩)) ∧
      ((hanging.respelt indented).answer 2 (.run none)).map Prod.fst =
        some (.error (.program 1 (.unknownInstruction "0".toList))) := by
  have prepared : Program.prepare hangingLines = .ok hanging.program :=
    Program.prepare_single rfl rfl
  have prepared_indented : Program.prepare indentedLines = .ok indented :=
    Program.prepare_single rfl rfl
  refine ⟨.cons (by decide) (.cons (by decide) .nil), ?_, ?_, ?_, rfl, rfl⟩
  · simp only [build, prepared]
    rfl
  · simp only [build, prepared_indented]
    rfl
  · rw [prepared, prepared_indented]
    intro matched
    cases matched with
    | ok alike =>
        cases alike.lines with
        | cons first later =>
            cases later with
            | cons second rest => cases second

end Machine

end StackMachine
