import StackMachine.Proofs.Decoding
import StackMachine.Proofs.Preparing
import StackMachine.Proofs.Resolution

/-!
# Assembling symbolic programs

Preparing a text and decoding its lines gives the instructions that the reference
assembler finds in the table of declarations. A reference stands for the index of a
line, and an index past the greatest 32-bit integer cannot be an operand; but only a
program with more lines than a cell can count has one.
-/

namespace StackMachine

set_option autoImplicit false

open Text (AllBlank Solid)

namespace Label

theorem declared_around {lead : Text} (blank : AllBlank lead) {c : Char} {after : Text}
    (solid : Solid (c :: after)) (rest : Text) :
    declared? (lead ++ (c :: after ++ rest)) =
      if c = mark then some (after ++ Text.trimEnd rest) else none := by
  rw [declared?, Text.trim_around blank solid (List.cons_ne_nil _ _)]
  rfl

end Label

namespace Symbolic

def Line.declares? : Line → Option Text
  | .declaration name => some name
  | _ => none

theorem declared_command {lead : Text} (before : AllBlank lead) (command : Command) (rest : Text) :
    Label.declared? (lead ++ (command.mnemonic ++ rest)) = none := by
  have word := word_of_command command
  have nonempty := (mnemonic_of_command command).nonempty
  obtain ⟨c, after, spelled⟩ := List.exists_cons_of_ne_nil nonempty
  rw [spelled] at word ⊢
  rw [Label.declared_around before (solid_of_word word)]
  have unmarked : c ≠ Label.mark := by
    rintro rfl
    exact absurd (word _ (List.mem_cons_self ..)) (by decide)
  rw [if_neg unmarked]

theorem declared_written {text : Text} {line : Line} (written : Written text line)
    (identifiers : ∀ name, line.declares? = some name → Identifier name) :
    Label.declared? text = line.declares? := by
  cases written with
  | blank blank =>
      rw [Label.declared?, Text.trim_all_blank blank]
      rfl
  | comment before rest =>
      have solid : Solid ['#'] := Text.solid_nil.cons (by decide)
      exact Label.declared_around before solid rest
  | @declaration lead trail before name after =>
      have clean := clean_of_identifier (identifiers name rfl)
      have solid : Solid (':' :: name) := clean.solid.cons (by decide)
      have gone := Text.trim_end_all_blank after
      have declared := Label.declared_around before solid trail
      rw [gone, List.append_nil] at declared
      exact declared
  | bare before after alone => exact declared_command before _ _
  | full before between parted after given written => exact declared_command before _ _

theorem table_from_cons (index : Nat) (line : Line) (rest : List Line) :
    tableFrom index (line :: rest) =
      (line.declares?.map fun name => (name, index)).toList ++ tableFrom (index + 1) rest := by
  cases line <;> rfl

theorem declarations_from_cons (index : Nat) (text : Text) (rest : List Text) :
    Label.declarationsFrom index (text :: rest) =
      ((Label.declared? text).map fun name => ⟨name, index⟩).toList ++
        Label.declarationsFrom (index + 1) rest := by
  cases declares : Label.declared? text <;> simp [Label.declarationsFrom, declares]

theorem declarations_written {source : List Text} {lines : List Line}
    (written : List.Forall₂ Written source lines) (index : Nat)
    (identifiers : ∀ name ∈ (tableFrom index lines).map Prod.fst, Identifier name) :
    Label.declarationsFrom index source = labels (tableFrom index lines) := by
  induction written generalizing index with
  | nil => rfl
  | @cons text line source lines first rest ih =>
      rw [table_from_cons] at identifiers
      have here : Label.declared? text = line.declares? := by
        apply declared_written first
        intro name declares
        apply identifiers
        simp [declares]
      have onward := ih (index + 1) fun name member => identifiers name (by
        rw [List.map_append]
        exact List.mem_append_right _ member)
      rw [declarations_from_cons, table_from_cons, here, onward]
      cases line.declares? <;> rfl

theorem lt_of_mem_table_from {lines : List Line} {index : Nat} {entry : Text × Nat}
    (member : entry ∈ tableFrom index lines) : entry.2 < index + lines.length := by
  induction lines generalizing index with
  | nil => exact absurd member List.not_mem_nil
  | cons line rest ih =>
      rw [table_from_cons] at member
      rw [List.length_cons]
      rcases List.mem_append.mp member with here | later
      · cases declares : line.declares? with
        | none => simp [declares] at here
        | some name =>
            simp only [declares, Option.map_some, Option.toList_some, List.mem_singleton] at here
            rw [here]
            omega
      · have bound := ih later
        omega

theorem value_of_nat (n : Nat) : (Literal.ofNat n).value = n := by
  change Int.ofNat (Nat.ofDigitChars 10 (Nat.toDigits 10 n) 0) = n
  rw [Nat.ofDigitChars_ten_toDigits]
  rfl

theorem operand_of_literal (literal : Literal) :
    Instruction.operand? literal.text = Operand.checked literal.text literal.value := by
  rw [Instruction.operand?, integer_of_literal]
  rfl

theorem operand_assembles {table : Table} {operand : Operand} (legal : operand.Legal table) :
    Instruction.operand? (operand.resolve table).text = operand.assemble table := by
  cases operand with
  | number literal => exact operand_of_literal literal
  | reference name =>
      obtain ⟨line, found, -⟩ := lookup_declared legal
      simp only [Operand.assemble, Operand.resolve, found, Operand.text]
      rw [operand_of_literal, value_of_nat]
      rfl

theorem operands_assemble {table : Table} {operands : List Operand}
    (legal : ∀ operand ∈ operands, operand.Legal table) :
    ((operands.map (Operand.resolve table)).map Operand.text).mapM Instruction.operand? =
      operands.mapM (Operand.assemble table) := by
  induction operands with
  | nil => rfl
  | cons operand rest ih =>
      have first := operand_assembles (legal operand List.mem_cons_self)
      have others := ih fun other member => legal other (List.mem_cons_of_mem operand member)
      rw [List.map_cons, List.map_cons, List.mapM_cons, List.mapM_cons, first, others]

/-- A reference is refused only for the index of a line that no cell can hold. -/
theorem operand_assembles_ok {table : Table} {count : Nat}
    (inside : ∀ entry ∈ table, entry.2 < count) (short : (count : Int) ≤ Instruction.greatest + 1)
    {operand : Operand} (legal : operand.Legal table) :
    ∃ value, operand.assemble table = .ok value := by
  cases operand with
  | number literal =>
      have fits : Instruction.least ≤ literal.value ∧ literal.value ≤ Instruction.greatest := legal
      refine ⟨literal.value, ?_⟩
      rw [Operand.assemble, Operand.checked, if_pos fits]
  | reference name =>
      obtain ⟨line, found, member⟩ := lookup_declared legal
      have below : line < count := inside _ member
      have fits : Instruction.least ≤ (line : Int) ∧ (line : Int) ≤ Instruction.greatest := by
        simp only [Instruction.least, Instruction.greatest] at short ⊢
        omega
      refine ⟨line, ?_⟩
      simp only [Operand.assemble, found]
      rw [Operand.checked, if_pos fits]

theorem operands_assemble_ok {table : Table} {count : Nat}
    (inside : ∀ entry ∈ table, entry.2 < count) (short : (count : Int) ≤ Instruction.greatest + 1)
    {operands : List Operand} (legal : ∀ operand ∈ operands, operand.Legal table) :
    ∃ values, operands.mapM (Operand.assemble table) = .ok values := by
  induction operands with
  | nil => exact ⟨[], rfl⟩
  | cons operand rest ih =>
      obtain ⟨value, first⟩ := operand_assembles_ok inside short (legal operand List.mem_cons_self)
      obtain ⟨values, others⟩ := ih fun other member =>
        legal other (List.mem_cons_of_mem operand member)
      refine ⟨value :: values, ?_⟩
      rw [List.mapM_cons, first, others]
      rfl

def Line.Assembles (table : Table) : Line → Text → Prop
  | .performs command, text => Instruction.decode text = (command.assemble table).map some
  | _, text => Instruction.decode text = .ok none

theorem expand_of_skipped {text : Text} (skipped : Statement.isSkipped text = true) :
    Move.expandLine text = .ok text := by
  simp only [Move.expandLine, (Statement.of_line_eq_none_iff text).mpr skipped]

theorem assembles_command {table : Table} {command : Command} (legal : command.Legal table)
    {text : Text} (read : Statement.ofLine? text = some (command.resolve table).statement) :
    (Line.performs command).Assembles table text := by
  have few : ¬Register.arguments.length < (command.resolve table).statement.operands.length := by
    have bound := legal.few
    simp only [Command.statement, Command.operands_resolve, List.length_map]
    change ¬4 < command.operands.length
    omega
  rw [Line.Assembles, Instruction.decode_of_line read]
  simp only [Instruction.ofStatement, few, if_false]
  simp only [Command.statement, Opcode.of_mnemonic_mnemonic, Command.opcode_resolve,
    Command.operands_resolve, operands_assemble legal.operands, Command.assemble]

theorem clean_of_resolved {table : Table} {operand : Operand} (legal : operand.Legal table) :
    Clean (operand.resolve table).text := by
  cases operand with
  | number literal => exact clean_of_literal literal
  | reference name =>
      obtain ⟨line, found, -⟩ := lookup_declared legal
      simp only [Operand.resolve, found]
      exact clean_of_literal _

/-- Names may occur in a comment, but nothing can be put before its mark. -/
theorem skipped_idle {table : Table} (sound : Sound table) {text : Text}
    (written : Written text .idle) :
    Statement.isSkipped (Label.substitute (ranking table) text) = true := by
  have named := names_nonempty sound
  cases written with
  | blank blank =>
      rw [Label.substitute_marks named (apart_of_all_blank sound blank)]
      exact Statement.skipped_of_all_blank blank
  | comment before rest =>
      have apart : Label.Apart (ranking table) '#' := apart_of_not_word sound (by decide)
      rw [Label.substitute_lead named (apart_of_all_blank sound before),
        Label.substitute_cons named apart]
      exact Statement.skipped_of_comment before _

theorem assembles_line {table : Table} (sound : Sound table) {text : Text} {line : Line}
    (written : Written text line)
    (identifiers : ∀ name, line.declares? = some name → Identifier name)
    (legal : ∀ command, line = .performs command → command.Legal table) :
    ∃ expanded, Move.expandLine (Label.resolveLine (ranking table) text) = .ok expanded ∧
      line.Assembles table expanded := by
  have declared := declared_written written identifiers
  cases line with
  | idle =>
      have skipped := skipped_idle sound written
      simp only [Label.resolveLine, declared, Line.declares?]
      exact ⟨_, expand_of_skipped skipped, (Instruction.decode_eq_none_iff _).mpr skipped⟩
  | declaration name =>
      have skipped := Statement.skipped_of_all_blank Text.all_blank_nil
      simp only [Label.resolveLine, declared, Line.declares?]
      exact ⟨_, expand_of_skipped skipped, (Instruction.decode_eq_none_iff _).mpr skipped⟩
  | performs command =>
      have legal := legal command rfl
      have clean : ∀ operand ∈ (command.resolve table).operands, Clean operand.text := by
        intro operand member
        rw [Command.operands_resolve] at member
        obtain ⟨given, within, rfl⟩ := List.mem_map.mp member
        exact clean_of_resolved (legal.operands given within)
      simp only [Label.resolveLine, declared, Line.declares?]
      obtain ⟨expanded, expands, read⟩ := expand_written (substitute_written sound legal written) clean
      exact ⟨expanded, expands, assembles_command legal read⟩

theorem assembles_lines {table : Table} (sound : Sound table) {source : List Text}
    {lines : List Line} (written : List.Forall₂ Written source lines)
    (identifiers : ∀ line ∈ lines, ∀ name, line.declares? = some name → Identifier name)
    (legal : ∀ command, .performs command ∈ lines → command.Legal table) :
    ∃ expanded,
      List.Forall₂ (fun text out => Move.expandLine text = .ok out)
        (source.map (Label.resolveLine (ranking table))) expanded ∧
      List.Forall₂ (Line.Assembles table) lines expanded := by
  induction written with
  | nil => exact ⟨[], .nil, .nil⟩
  | @cons text line source lines first rest ih =>
      obtain ⟨here, expands, assembles⟩ := assembles_line sound first
        (identifiers line (List.mem_cons_self ..))
        (fun command same => legal command (by rw [same]; exact List.mem_cons_self ..))
      obtain ⟨others, expandOthers, assembleOthers⟩ := ih
        (fun other member => identifiers other (List.mem_cons_of_mem _ member))
        (fun command member => legal command (List.mem_cons_of_mem _ member))
      exact ⟨here :: others, .cons expands expandOthers, .cons assembles assembleOthers⟩

theorem declared_in_table {lines : List Line} {name : Text} {index : Nat} {line : Line}
    (member : line ∈ lines) (declares : line.declares? = some name) :
    name ∈ (tableFrom index lines).map Prod.fst := by
  induction lines generalizing index with
  | nil => exact absurd member List.not_mem_nil
  | cons first rest ih =>
      rw [table_from_cons, List.map_append]
      rcases List.mem_cons.mp member with rfl | later
      · simp [declares]
      · exact List.mem_append_right _ (ih later)

theorem prepare_of_lines {source : List Text} {lines : List Line}
    (written : List.Forall₂ Written source lines) (legal : Legal lines) {expanded : List Text}
    (expands : List.Forall₂ (fun text out => Move.expandLine text = .ok out)
      (source.map (Label.resolveLine (ranking (table lines)))) expanded) :
    Program.prepare source = .ok ⟨expanded, labels (table lines)⟩ := by
  have declarations : Label.declarationsFrom 0 source = labels (table lines) :=
    declarations_written written 0 legal.identifiers
  have named : [] ∉ Label.names (Label.declarationsFrom 0 source) := by
    rw [declarations, names_labels]
    intro empty
    exact (clean_of_identifier (legal.identifiers [] empty)).nonempty rfl
  have distinct : (Label.names (Label.declarationsFrom 0 source)).Nodup := by
    rw [declarations, names_labels]
    exact legal.distinct
  have collected := Label.collect_distinct named distinct
  rw [declarations] at collected
  have all : Move.expandAll (Label.resolve (labels (table lines)) source) = .ok expanded :=
    Move.expand_from_ok_iff.mpr expands
  simp only [Program.prepare, Program.resolve, collected, bind, Except.bind, pure, Except.pure, all]

/-- Preparing a written program succeeds, and every line then decodes to what the reference
assembler makes of it: an instruction, unless a line that is referred to has an index
past the greatest integer of a cell. -/
theorem prepare_assembles {source : List Text} {lines : List Line}
    (written : List.Forall₂ Written source lines) (legal : Legal lines) :
    ∃ program, Program.prepare source = .ok program ∧ program.lines.length = source.length ∧
      (∀ (index : Nat) (line : Line), lines[index]? = some line →
        ∃ text, program.lines[index]? = some text ∧ line.Assembles (table lines) text) ∧
      ((source.length : Int) ≤ Instruction.greatest + 1 →
        ∀ command, .performs command ∈ lines →
          ∃ instruction, command.assemble (table lines) = .ok instruction) := by
  have inside : ∀ entry ∈ table lines, entry.2 < source.length := by
    intro entry member
    have bound := lt_of_mem_table_from member
    rw [Nat.zero_add, ← written.length_eq] at bound
    exact bound
  have identifiers : ∀ line ∈ lines, ∀ name, line.declares? = some name → Identifier name :=
    fun line member name declares => legal.identifiers name (declared_in_table member declares)
  obtain ⟨expanded, expands, assembles⟩ :=
    assembles_lines legal.toSound written identifiers legal.commands
  refine ⟨_, prepare_of_lines written legal expands, ?_, ?_, ?_⟩
  · rw [← assembles.length_eq, written.length_eq]
  · intro index line found
    obtain ⟨bound, rfl⟩ := List.getElem?_eq_some_iff.mp found
    have fits : index < expanded.length := by
      rw [← assembles.length_eq]
      exact bound
    exact ⟨expanded[index], List.getElem?_eq_getElem fits, assembles.get bound fits⟩
  · intro short command member
    have operands := (legal.commands command member).operands
    obtain ⟨values, assembled⟩ := operands_assemble_ok inside short operands
    refine ⟨⟨command.opcode, values⟩, ?_⟩
    rw [Command.assemble, assembled]
    rfl

def sampleJump : Command :=
  .operation .jumpEqual
    [.reference "loop2".toList, .number ⟨.minus, ['5'], List.cons_ne_nil _ _, rfl⟩]

def sampleMove : Command := .move .short (.fromStack (.reference "loop".toList))

/-- Two names of which one begins with the other, a comment that holds both, and a move. -/
def sampleSource : List Text :=
  ["# loop, loop2".toList, ":loop".toList, "\t:loop2 ".toList, "je loop2 , -5".toList,
    "mov [ loop ]".toList]

def sampleLines : List Line :=
  [.idle, .declaration "loop".toList, .declaration "loop2".toList, .performs sampleJump,
    .performs sampleMove]

theorem sample_written : List.Forall₂ Written sampleSource sampleLines := by
  refine .cons ?_ (.cons ?_ (.cons ?_ (.cons ?_ (.cons ?_ .nil))))
  · exact Written.comment Text.all_blank_nil _
  · exact Written.declaration Text.all_blank_nil "loop".toList Text.all_blank_nil
  · exact @Written.declaration ['\t'] [' '] (by decide) "loop2".toList (by decide)
  · have first : Padded "loop2".toList "loop2 ".toList := ⟨[], [' '], by decide, by decide, rfl⟩
    have second : Padded "-5".toList " -5".toList := ⟨[' '], [], by decide, by decide, rfl⟩
    exact @Written.full [] [' '] [] ["loop2 ".toList, " -5".toList] sampleJump (by decide) (by decide)
      (by decide) (by decide) (List.cons_ne_nil _ _) (.cons first (.cons second .nil))
  · have inner : Padded "loop".toList " loop ".toList := ⟨[' '], [' '], by decide, by decide, rfl⟩
    have around : Padded "[ loop ]".toList "[ loop ]".toList := ⟨[], [], by decide, by decide, rfl⟩
    exact @Written.full [] [' '] [] ["[ loop ]".toList] sampleMove (by decide) (by decide) (by decide)
      (by decide) (List.cons_ne_nil _ _) (.cons ⟨_, inner, around⟩ .nil)

theorem sample_legal : Legal sampleLines where
  identifiers := by
    intro name member
    rcases List.mem_cons.mp member with rfl | later
    · exact ⟨⟨'l', rfl, rfl⟩, List.all_eq_true.mp rfl⟩
    · rw [List.mem_singleton.mp later]
      exact ⟨⟨'l', rfl, rfl⟩, List.all_eq_true.mp rfl⟩
  distinct := by decide
  commands := by
    intro command member
    simp only [sampleLines, List.mem_cons, reduceCtorEq, Line.performs.injEq, List.not_mem_nil,
      false_or, or_false] at member
    rcases member with rfl | rfl
    · refine ⟨by decide, by decide, ?_⟩
      intro operand given
      rcases List.mem_cons.mp given with rfl | later
      · exact List.mem_cons_of_mem _ (List.mem_cons_self ..)
      · rw [List.mem_singleton.mp later]
        constructor <;> decide
    · refine ⟨by decide, by decide, ?_⟩
      intro operand given
      rw [List.mem_singleton.mp given]
      exact List.mem_cons_self ..

theorem prepare_assembles_sample :
    List.Forall₂ Written sampleSource sampleLines ∧ Legal sampleLines ∧
      ∃ program, Program.prepare sampleSource = .ok program ∧ program.lines.length = 5 ∧
        (∀ (index : Nat) (line : Line), sampleLines[index]? = some line →
          ∃ text, program.lines[index]? = some text ∧
            line.Assembles (table sampleLines) text) ∧
        ((5 : Int) ≤ Instruction.greatest + 1 →
          ∀ command, .performs command ∈ sampleLines →
            ∃ instruction, command.assemble (table sampleLines) = .ok instruction) :=
  ⟨sample_written, sample_legal, prepare_assembles sample_written sample_legal⟩

end Symbolic

end StackMachine
