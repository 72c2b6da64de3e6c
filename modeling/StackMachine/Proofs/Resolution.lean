import StackMachine.Proofs.Spelling
import StackMachine.Proofs.Substitution

/-!
# Resolving symbolic commands

Substitution takes the text of a command to a text of the same command with its
names resolved. Blanks, commas and brackets stand in no name, so every word of the
line is rewritten on its own; the mnemonic holds no name, a number has no letter for
a name to start with, and a reference is the whole of its name.
-/

namespace StackMachine.Symbolic

set_option autoImplicit false

open Text (AllBlank Solid)

def labels (table : Table) : List Label := table.map fun entry => ⟨entry.1, entry.2⟩

theorem names_labels (table : Table) : Label.names (labels table) = table.map Prod.fst := by
  simp [Label.names, labels, Function.comp_def]

abbrev ranking (table : Table) : List Label := Label.ranked (labels table)

def Operand.resolve (table : Table) : Operand → Operand
  | .number literal => .number literal
  | .reference name =>
      match table.lookup name with
      | some line => .number (Literal.ofNat line)
      | none => .reference name

def Argument.resolve (table : Table) : Argument → Argument
  | .bare operand => .bare (operand.resolve table)
  | .bracketed operand => .bracketed (operand.resolve table)

def Transfer.resolve (table : Table) : Transfer → Transfer
  | .toStack source => .toStack (source.resolve table)
  | .fromStack target => .fromStack (target.resolve table)
  | .between source target => .between (source.resolve table) (target.resolve table)

namespace Command

def resolve (table : Table) : Command → Command
  | .operation opcode operands => .operation opcode (operands.map (Operand.resolve table))
  | .move spelling transfer => .move spelling (transfer.resolve table)

theorem mnemonic_resolve (table : Table) (command : Command) :
    (command.resolve table).mnemonic = command.mnemonic := by
  cases command <;> rfl

theorem opcode_resolve (table : Table) (command : Command) :
    (command.resolve table).opcode = command.opcode := by
  cases command with
  | operation opcode operands => rfl
  | move spelling transfer => cases transfer <;> rfl

theorem operands_resolve (table : Table) (command : Command) :
    (command.resolve table).operands = command.operands.map (Operand.resolve table) := by
  cases command with
  | operation opcode operands => rfl
  | move spelling transfer => cases transfer <;> rfl

theorem arguments_resolve (table : Table) (command : Command) :
    (command.resolve table).arguments = command.arguments.map (Argument.resolve table) := by
  cases command with
  | operation opcode operands =>
      simp only [resolve, arguments, List.map_map]
      rfl
  | move spelling transfer => cases transfer <;> rfl

end Command

theorem lookup_declared {table : Table} {name : Text} (declared : name ∈ table.map Prod.fst) :
    ∃ line, table.lookup name = some line ∧ (name, line) ∈ table := by
  induction table with
  | nil => exact absurd declared List.not_mem_nil
  | cons entry rest ih =>
      obtain ⟨first, line⟩ := entry
      by_cases same : name = first
      · subst same
        exact ⟨line, List.lookup_cons_self, List.mem_cons_self ..⟩
      · have later : name ∈ rest.map Prod.fst := by
          rcases List.mem_cons.mp declared with here | there
          · exact absurd here same
          · exact there
        obtain ⟨line, found, member⟩ := ih later
        have distinct : (name == first) = false := by simpa using same
        refine ⟨line, ?_, List.mem_cons_of_mem _ member⟩
        rw [List.lookup_cons, distinct]
        exact found

section Substitution

variable {table : Table} (sound : Sound table)

include sound

theorem names_nonempty : [] ∉ Label.names (ranking table) := by
  intro member
  rw [Label.mem_names_ranked, names_labels] at member
  exact (clean_of_identifier (sound.identifiers _ member)).nonempty rfl

theorem identifier_of_ranked {label : Label} (known : label ∈ ranking table) :
    Identifier label.name := by
  apply sound.identifiers
  rw [← names_labels]
  exact List.mem_map_of_mem (Label.mem_ranked.mp known)

theorem apart_of_not_word {c : Char} (mark : isWord c = false) :
    Label.Apart (ranking table) c := by
  intro label known member
  have word := (identifier_of_ranked sound known).word c member
  rw [mark] at word
  contradiction

theorem apart_of_blank {c : Char} (blank : Text.isBlank c = true) :
    Label.Apart (ranking table) c := by
  apply apart_of_not_word sound
  rw [Bool.eq_false_iff]
  intro word
  rw [not_blank_of_word word] at blank
  contradiction

theorem apart_of_all_blank {text : Text} (blank : AllBlank text) :
    ∀ c ∈ text, Label.Apart (ranking table) c :=
  fun c member => apart_of_blank sound (blank c member)

theorem apart_of_starts_blank {text : Text} (starts : Text.StartsBlank text) :
    ∀ c, text.head? = some c → Label.Apart (ranking table) c :=
  fun c first => apart_of_blank sound (starts c first)

/-- A name starts with a letter, so it stands in no text without one. -/
theorem absent_without_letters {text : Text} (unlettered : ∀ c ∈ text, isLetter c = false)
    {label : Label} (known : label ∈ ranking table) : ¬label.name <:+: text := by
  intro occurs
  obtain ⟨c, first, letter⟩ := (identifier_of_ranked sound known).starts
  rw [unlettered c (occurs.subset (List.mem_of_mem_head? first))] at letter
  contradiction

theorem substitute_literal (literal : Literal) :
    Label.substitute (ranking table) literal.text = literal.text := by
  apply Label.substitute_absent
  intro label known
  apply absent_without_letters sound _ known
  intro c member
  rcases sign_or_digit member with plus | minus | digit
  · rw [plus]
    decide
  · rw [minus]
    decide
  · exact unlettered_of_digit digit

theorem substitute_reference {name : Text} {line : Nat} (member : (name, line) ∈ table) :
    Label.substitute (ranking table) name = Text.ofNat line := by
  have distinct : (Label.names (labels table)).Nodup := by
    rw [names_labels]
    exact sound.distinct
  have known : (⟨name, line⟩ : Label) ∈ labels table := List.mem_map.mpr ⟨_, member, rfl⟩
  have digits : ∀ label ∈ labels table, ∀ n, ¬label.name <:+: Text.ofNat n := by
    intro label declared n
    apply absent_without_letters sound _ (Label.mem_ranked.mpr declared)
    intro c member
    exact unlettered_of_digit (Text.is_digit_of_mem_of_nat member)
  have nonempty := (clean_of_identifier
    (identifier_of_ranked sound (Label.mem_ranked.mpr known))).nonempty
  exact Label.substitute_ranked_name distinct digits known nonempty

theorem substitute_operand {operand : Operand} (legal : operand.Legal table) :
    Label.substitute (ranking table) operand.text = (operand.resolve table).text := by
  cases operand with
  | number literal => exact substitute_literal sound literal
  | reference name =>
      obtain ⟨line, found, member⟩ := lookup_declared legal
      simp only [Operand.resolve, found]
      exact substitute_reference sound member

theorem substitute_padded {core text : Text} (padded : Padded core text) :
    Padded (Label.substitute (ranking table) core)
      (Label.substitute (ranking table) text) := by
  obtain ⟨before, after, blankBefore, blankAfter, rfl⟩ := padded
  have lead := apart_of_all_blank sound blankBefore
  have trail := apart_of_all_blank sound blankAfter
  exact ⟨before, after, blankBefore, blankAfter,
    Label.substitute_between (names_nonempty sound) lead trail core⟩

theorem substitute_argument {argument : Argument} {piece : Text}
    (legal : argument.operand.Legal table) (written : argument.Written piece) :
    (argument.resolve table).Written (Label.substitute (ranking table) piece) := by
  have named := names_nonempty sound
  have opening : Label.Apart (ranking table) '[' :=
    apart_of_not_word sound (by decide)
  have closing : Label.Apart (ranking table) ']' :=
    apart_of_not_word sound (by decide)
  cases argument with
  | bare operand =>
      have core : Label.substitute (ranking table) operand.text = (operand.resolve table).text :=
        substitute_operand sound legal
      have moved := substitute_padded sound written
      rw [core] at moved
      exact moved
  | bracketed operand =>
      obtain ⟨inner, within, around⟩ := written
      have resolved : Label.substitute (ranking table) operand.text =
          (operand.resolve table).text := substitute_operand sound legal
      have moved := substitute_padded sound within
      rw [resolved] at moved
      refine ⟨_, moved, ?_⟩
      have core := substitute_padded sound around
      rw [Label.substitute_cons named opening, Label.substitute_across named closing,
        Label.substitute_nil] at core
      exact core

theorem substitute_arguments {arguments : List Argument} {pieces : List Text}
    (legal : ∀ argument ∈ arguments, argument.operand.Legal table)
    (written : List.Forall₂ Argument.Written arguments pieces) :
    List.Forall₂ Argument.Written (arguments.map (Argument.resolve table))
      (pieces.map (Label.substitute (ranking table))) := by
  induction written with
  | nil => exact List.Forall₂.nil
  | cons first rest ih =>
      exact List.Forall₂.cons (substitute_argument sound (legal _ (List.mem_cons_self ..)) first)
        (ih fun argument member => legal argument (List.mem_cons_of_mem _ member))

theorem substitute_joined (pieces : List Text) {trail : Text} (blank : AllBlank trail) :
    Label.substitute (ranking table) (List.intercalate [','] pieces ++ trail) =
      List.intercalate [','] (pieces.map (Label.substitute (ranking table))) ++
        trail := by
  have named := names_nonempty sound
  have comma : Label.Apart (ranking table) ',' :=
    apart_of_not_word sound (by decide)
  have apart := apart_of_all_blank sound blank
  have parted := apart_of_starts_blank sound blank.starts_blank
  rw [Label.substitute_word named _ parted, Label.substitute_marks named apart,
    Label.substitute_intercalate named comma]

omit sound in
theorem substitute_mnemonic {command : Command} (legal : command.Legal table) :
    Label.substitute (ranking table) command.mnemonic = command.mnemonic := by
  apply Label.substitute_absent
  intro label known
  apply legal.apart
  rw [← names_labels]
  exact List.mem_map_of_mem (Label.mem_ranked.mp known)

/-- What stands behind a mnemonic starts with a blank, so the two are rewritten apart. -/
theorem substitute_command {command : Command} (legal : command.Legal table) {lead rest : Text}
    (before : AllBlank lead) (parted : Text.StartsBlank rest) :
    Label.substitute (ranking table) (lead ++ (command.mnemonic ++ rest)) =
      lead ++ (command.mnemonic ++ Label.substitute (ranking table) rest) := by
  have named := names_nonempty sound
  rw [Label.substitute_lead named (apart_of_all_blank sound before),
    Label.substitute_word named command.mnemonic (apart_of_starts_blank sound parted),
    substitute_mnemonic legal]

theorem substitute_written {text : Text} {command : Command} (legal : command.Legal table)
    (written : Written text (.performs command)) :
    Written (Label.substitute (ranking table) text)
      (.performs (command.resolve table)) := by
  have named := names_nonempty sound
  cases written with
  | @bare lead trail _ before after alone =>
      rw [substitute_command sound legal before after.starts_blank,
        Label.substitute_marks named (apart_of_all_blank sound after),
        ← Command.mnemonic_resolve table command]
      apply Written.bare before after
      rw [Command.arguments_resolve, alone, List.map_nil]
  | @full lead gap trail pieces _ before between parted after given written =>
      have spaced := between.starts_blank_append parted (List.intercalate [','] pieces ++ trail)
      have legalArguments : ∀ argument ∈ command.arguments, argument.operand.Legal table := by
        intro argument member
        apply legal.operands
        rw [← operands_of_arguments]
        exact List.mem_map_of_mem member
      rw [substitute_command sound legal before spaced,
        Label.substitute_lead named (apart_of_all_blank sound between),
        substitute_joined sound pieces after, ← Command.mnemonic_resolve table command]
      apply Written.full before between parted after
      · rw [Command.arguments_resolve]
        simpa using given
      · rw [Command.arguments_resolve]
        exact substitute_arguments sound legalArguments written

end Substitution

end StackMachine.Symbolic
