import StackMachine.Program
import StackMachine.Proofs.Reading
import StackMachine.Proofs.Symbolic

/-!
# Reading what a symbolic line is written as

The blanks of a written command are lost on reading and nothing else is. A move then
gives way to the operation it stands for, with the same operands, and reads back as
that operation.
-/

namespace StackMachine.Symbolic

set_option autoImplicit false

open Text (AllBlank Solid)

theorem upper_iff (c : Char) : c.isUpper = true ↔ 65 ≤ c.toNat ∧ c.toNat ≤ 90 := by
  change decide (c.val ≥ 65 ∧ c.val ≤ 90) = true ↔ _
  rw [decide_eq_true_eq, ge_iff_le, UInt32.le_iff_toNat_le, UInt32.le_iff_toNat_le]
  rfl

theorem lower_iff (c : Char) : c.isLower = true ↔ 97 ≤ c.toNat ∧ c.toNat ≤ 122 := by
  change (decide (c.val ≥ 97) && decide (c.val ≤ 122)) = true ↔ _
  rw [Bool.and_eq_true, decide_eq_true_eq, decide_eq_true_eq, ge_iff_le,
    UInt32.le_iff_toNat_le, UInt32.le_iff_toNat_le]
  rfl

theorem digit_iff (c : Char) : c.isDigit = true ↔ 48 ≤ c.toNat ∧ c.toNat ≤ 57 :=
  Char.isDigit_iff_toNat

/-- Letters stand in three places of the ASCII table, none of them that of the digits. -/
theorem places_of_letter {c : Char} (letter : isLetter c = true) :
    (65 ≤ c.toNat ∧ c.toNat ≤ 90) ∨ (97 ≤ c.toNat ∧ c.toNat ≤ 122) ∨ c.toNat = 95 := by
  have alpha : c.isAlpha = (c.isUpper || c.isLower) := rfl
  simp only [isLetter, alpha, Bool.or_eq_true, beq_iff_eq] at letter
  rcases letter with (upper | lower) | underscore
  · exact .inl ((upper_iff c).mp upper)
  · exact .inr (.inl ((lower_iff c).mp lower))
  · rw [underscore]
    exact .inr (.inr rfl)

/-- Word characters are plain ASCII. -/
theorem bounds_of_word {c : Char} (word : isWord c = true) : 48 ≤ c.toNat ∧ c.toNat ≤ 122 := by
  rw [isWord, Bool.or_eq_true] at word
  rcases word with letter | digit
  · have places := places_of_letter letter
    omega
  · have place := (digit_iff c).mp digit
    omega

theorem not_blank_of_word {c : Char} (word : isWord c = true) : Text.isBlank c = false := by
  have bounds := bounds_of_word word
  exact Text.not_blank_of_ascii (by omega) (by omega)

theorem not_digit_of_letter {c : Char} (letter : isLetter c = true) : c.isDigit = false := by
  have places := places_of_letter letter
  rw [Bool.eq_false_iff, ne_eq, digit_iff]
  omega

theorem unlettered_of_digit {c : Char} (digit : c.isDigit = true) : isLetter c = false := by
  rw [Bool.eq_false_iff]
  intro letter
  rw [not_digit_of_letter letter] at digit
  contradiction

theorem word_of_digit {c : Char} (digit : c.isDigit = true) : isWord c = true := by
  simp [isWord, digit]

theorem solid_of_word {text : Text} (word : ∀ c ∈ text, isWord c = true) : Solid text :=
  fun c member => not_blank_of_word (word c member)

theorem mnemonic_of_word {text : Text} (nonempty : text ≠ []) (word : ∀ c ∈ text, isWord c = true) :
    Statement.Mnemonic text where
  nonempty := nonempty
  solid := solid_of_word word
  plain := by
    intro first
    have marked := word _ (List.mem_of_mem_head? first)
    exact absurd marked (by decide)

theorem word_of_opcode (opcode : Opcode) : ∀ c ∈ opcode.mnemonic, isWord c = true := by
  rw [← List.all_eq_true]
  cases opcode <;> decide

theorem opcode_is_no_move (opcode : Opcode) : Move.isMove opcode.mnemonic = false := by
  cases opcode <;> decide

theorem opcode_nonempty (opcode : Opcode) : opcode.mnemonic ≠ [] := by
  cases opcode <;> decide

theorem mnemonic_of_opcode (opcode : Opcode) : Statement.Mnemonic opcode.mnemonic :=
  mnemonic_of_word (opcode_nonempty opcode) (word_of_opcode opcode)

theorem word_of_command (command : Command) : ∀ c ∈ command.mnemonic, isWord c = true := by
  cases command with
  | operation opcode operands => exact word_of_opcode opcode
  | move spelling transfer =>
      rw [← List.all_eq_true]
      change spelling.text.all isWord = true
      cases spelling <;> decide

theorem mnemonic_of_command (command : Command) : Statement.Mnemonic command.mnemonic := by
  apply mnemonic_of_word _ (word_of_command command)
  cases command with
  | operation opcode operands => exact opcode_nonempty opcode
  | move spelling transfer => cases spelling <;> exact List.cons_ne_nil _ _

/-- A text made of word characters and signs. -/
structure Clean (text : Text) : Prop where
  nonempty : text ≠ []
  plain : ∀ c ∈ text, isWord c = true ∨ c = '+' ∨ c = '-'

namespace Clean

theorem solid {text : Text} (clean : Clean text) : Solid text := by
  intro c member
  rcases clean.plain c member with word | rfl | rfl
  · exact not_blank_of_word word
  · decide
  · decide

theorem lacks {text : Text} (clean : Clean text) {mark : Char} (special : isWord mark = false)
    (unsigned : mark ≠ '+' ∧ mark ≠ '-') : mark ∉ text := by
  intro member
  rcases clean.plain mark member with word | plus | minus
  · rw [special] at word
    contradiction
  · exact unsigned.1 plus
  · exact unsigned.2 minus

theorem operand {text : Text} (clean : Clean text) : Statement.Operand text where
  nonempty := clean.nonempty
  solid := clean.solid
  whole := clean.lacks (by decide) (by decide)

theorem is_no_stack_operand {text : Text} (clean : Clean text) :
    Move.isStackOperand text = false := by
  have unbracketed : '[' ∉ text := clean.lacks (by decide) (by decide)
  rw [Move.isStackOperand, beq_eq_false_iff_ne]
  exact fun first => unbracketed (List.mem_of_mem_head? first)

theorem bracketed {text : Text} (clean : Clean text) :
    Statement.Operand ('[' :: (text ++ [']'])) where
  nonempty := List.cons_ne_nil _ _
  solid := by
    apply Solid.cons (by decide)
    intro c member
    rcases List.mem_append.mp member with within | last
    · exact clean.solid c within
    · rw [List.mem_singleton.mp last]
      decide
  whole := by
    have inside : ',' ∉ text := clean.lacks (by decide) (by decide)
    simp [inside]

theorem inner_bracketed {text : Text} (clean : Clean text) :
    Move.inner? ('[' :: (text ++ [']'])) = some text := by
  simp [Move.inner?, clean.nonempty]

end Clean

theorem clean_of_identifier {name : Text} (identifier : Identifier name) : Clean name where
  nonempty := by
    rintro rfl
    obtain ⟨c, first, -⟩ := identifier.starts
    cases first
  plain := fun c member => .inl (identifier.word c member)

theorem sign_or_digit {literal : Literal} {c : Char} (member : c ∈ literal.text) :
    c = '+' ∨ c = '-' ∨ c.isDigit = true := by
  rcases List.mem_append.mp member with sign | digit
  · cases kind : literal.sign with
    | none =>
        rw [kind] at sign
        exact absurd sign List.not_mem_nil
    | plus =>
        rw [kind] at sign
        exact .inl (List.mem_singleton.mp sign)
    | minus =>
        rw [kind] at sign
        exact .inr (.inl (List.mem_singleton.mp sign))
  · exact .inr (.inr (List.all_eq_true.mp literal.decimal c digit))

theorem clean_of_literal (literal : Literal) : Clean literal.text where
  nonempty := by
    simp [Literal.text, literal.nonempty]
  plain := by
    intro c member
    rcases sign_or_digit member with plus | minus | digit
    · exact .inr (.inl plus)
    · exact .inr (.inr minus)
    · exact .inl (word_of_digit digit)

theorem natural_of_literal (literal : Literal) :
    Text.natural? literal.digits = some (Nat.ofDigitChars 10 literal.digits 0) := by
  simp only [Text.natural?, literal.nonempty, literal.decimal, ne_eq, not_false_eq_true,
    and_self, if_true]

theorem integer_of_literal (literal : Literal) :
    Text.integer? literal.text = some literal.value := by
  have read := natural_of_literal literal
  cases kind : literal.sign with
  | plus =>
      simp only [Literal.text, Literal.value, kind, Sign.text, Sign.apply, List.singleton_append,
        Text.integer?, read, Option.map_some]
  | minus =>
      simp only [Literal.text, Literal.value, kind, Sign.text, Sign.apply, List.singleton_append,
        Text.integer?, read, Option.map_some]
  | none =>
      obtain ⟨c, rest, spelled⟩ := List.exists_cons_of_ne_nil literal.nonempty
      have digit : c.isDigit = true := by
        apply List.all_eq_true.mp literal.decimal
        rw [spelled]
        exact List.mem_cons_self ..
      have unsigned : literal.text = literal.digits := by simp [Literal.text, kind, Sign.text]
      rw [spelled] at read
      rw [unsigned, Literal.value, kind, spelled]
      unfold Text.integer?
      split
      · rename_i same
        obtain ⟨rfl, -⟩ := List.cons.inj same
        exact absurd digit (by decide)
      · rename_i same
        obtain ⟨rfl, -⟩ := List.cons.inj same
        exact absurd digit (by decide)
      · rw [read]
        rfl

def Argument.text : Argument → Text
  | .bare operand => operand.text
  | .bracketed operand => '[' :: (operand.text ++ [']'])

def Argument.operand : Argument → Operand
  | .bare operand => operand
  | .bracketed operand => operand

theorem operands_of_arguments (command : Command) :
    command.arguments.map Argument.operand = command.operands := by
  cases command with
  | operation opcode operands =>
      simp only [Command.arguments, Command.operands, List.map_map]
      exact List.map_id _
  | move spelling transfer => cases transfer <;> rfl

theorem drop_blanks_padded {core text : Text} (padded : Padded core text) :
    Text.dropBlanks text = Text.dropBlanks core := by
  obtain ⟨before, after, blankBefore, blankAfter, rfl⟩ := padded
  simp [Text.drop_blanks_append, Text.drop_blanks_blank blankBefore,
    Text.drop_blanks_blank blankAfter]

theorem drop_blanks_argument {argument : Argument} {piece : Text}
    (clean : Clean argument.operand.text) (written : argument.Written piece) :
    Text.dropBlanks piece = argument.text := by
  cases argument with
  | bare operand =>
      rw [drop_blanks_padded written]
      exact Text.drop_blanks_solid clean.solid
  | bracketed operand =>
      obtain ⟨inner, within, around⟩ := written
      have inside : Text.dropBlanks inner = operand.text := by
        rw [drop_blanks_padded within]
        exact Text.drop_blanks_solid clean.solid
      rw [drop_blanks_padded around]
      have opened : Text.dropBlanks ['['] = ['['] := by decide
      have closed : Text.dropBlanks [']'] = [']'] := by decide
      rw [← List.singleton_append, Text.drop_blanks_append, Text.drop_blanks_append, opened,
        closed, inside]
      rfl

theorem drop_blanks_arguments {arguments : List Argument} {pieces : List Text}
    (clean : ∀ argument ∈ arguments, Clean argument.operand.text)
    (written : List.Forall₂ Argument.Written arguments pieces) :
    pieces.map Text.dropBlanks = arguments.map Argument.text := by
  induction written with
  | nil => rfl
  | cons first rest ih =>
      rw [List.map_cons, List.map_cons, drop_blanks_argument (clean _ (List.mem_cons_self ..)) first,
        ih fun argument member => clean argument (List.mem_cons_of_mem _ member)]

theorem operand_of_argument {argument : Argument} (clean : Clean argument.operand.text) :
    Statement.Operand argument.text := by
  cases argument with
  | bare operand => exact clean.operand
  | bracketed operand => exact clean.bracketed

theorem of_line_written {text : Text} {command : Command} (written : Written text (.performs command))
    (clean : ∀ operand ∈ command.operands, Clean operand.text) :
    Statement.ofLine? text = some ⟨command.mnemonic, command.arguments.map Argument.text⟩ := by
  have cleanArguments : ∀ argument ∈ command.arguments, Clean argument.operand.text := by
    intro argument member
    apply clean
    rw [← operands_of_arguments]
    exact List.mem_map_of_mem member
  have named := mnemonic_of_command command
  cases written with
  | bare before after alone => rw [Statement.of_line_bare before named after, alone, List.map_nil]
  | @full _ gap trail pieces _ before between parted after given written =>
      have spaced := between.starts_blank_append parted (List.intercalate [','] pieces ++ trail)
      have joined : Text.dropBlanks (gap ++ (List.intercalate [','] pieces ++ trail)) =
          List.intercalate [','] (command.arguments.map Argument.text) := by
        have comma : Text.dropBlanks [','] = [','] := by decide
        rw [Text.drop_blanks_append, Text.drop_blanks_append, Text.drop_blanks_blank between,
          Text.drop_blanks_blank after, List.nil_append, List.append_nil,
          Text.drop_blanks_intercalate, comma, drop_blanks_arguments cleanArguments written]
      have readable : Statement.Readable
          ⟨command.mnemonic, command.arguments.map Argument.text⟩ := by
        apply Statement.readable_of_operands named
        intro operand member
        obtain ⟨argument, given, rfl⟩ := List.mem_map.mp member
        exact operand_of_argument (cleanArguments argument given)
      exact Statement.of_line_joined before readable spaced (by simpa using given) joined

def Command.statement (command : Command) : Statement :=
  ⟨command.opcode.mnemonic, command.operands.map Operand.text⟩

theorem of_line_statement {command : Command}
    (clean : ∀ operand ∈ command.operands, Clean operand.text) :
    Statement.ofLine? command.statement.toLine = some command.statement := by
  apply Statement.of_line_to_line
  apply Statement.readable_of_operands
  · exact mnemonic_of_opcode _
  · intro text member
    obtain ⟨operand, given, rfl⟩ := List.mem_map.mp member
    exact (clean operand given).operand

theorem move_is_move (spelling : Spelling) : Move.isMove spelling.text = true := by
  cases spelling <;> decide

theorem expand_transfer {transfer : Transfer} (spelling : Spelling)
    (clean : ∀ operand ∈ (Command.move spelling transfer).operands, Clean operand.text) :
    Move.expand ((Command.move spelling transfer).arguments.map Argument.text) =
      .ok (Command.move spelling transfer).statement := by
  cases transfer with
  | toStack source =>
      have unbracketed := (clean source (List.mem_cons_self ..)).is_no_stack_operand
      simp [Command.arguments, Argument.text, Move.expand, unbracketed, Command.statement,
        Command.opcode, Command.operands]
  | fromStack target =>
      have inner := (clean target (List.mem_cons_self ..)).inner_bracketed
      have bracketed : Move.isStackOperand ('[' :: (target.text ++ [']'])) = true := rfl
      simp [Command.arguments, Argument.text, Move.expand, bracketed, inner, Command.statement,
        Command.opcode, Command.operands]
  | between source target =>
      have first := (clean source (List.mem_cons_self ..)).is_no_stack_operand
      have second := (clean target (by simp [Command.operands])).is_no_stack_operand
      simp [Command.arguments, Argument.text, Move.expand, first, second, Command.statement,
        Command.opcode, Command.operands]

/-- Expansion leaves a concrete operation as it is, and puts a move's operation in its place. -/
theorem expand_written {text : Text} {command : Command} (written : Written text (.performs command))
    (clean : ∀ operand ∈ command.operands, Clean operand.text) :
    ∃ expanded, Move.expandLine text = .ok expanded ∧
      Statement.ofLine? expanded = some command.statement := by
  have read := of_line_written written clean
  cases command with
  | operation opcode operands =>
      refine ⟨text, ?_, ?_⟩
      · have plain : Move.isMove (Command.operation opcode operands).mnemonic = false :=
          opcode_is_no_move opcode
        simp only [Move.expandLine, read, plain, Bool.false_eq_true, if_false]
      · rw [read]
        simp only [Command.statement, Command.mnemonic, Command.opcode, Command.arguments,
          Command.operands, List.map_map]
        rfl
  | move spelling transfer =>
      refine ⟨(Command.move spelling transfer).statement.toLine, ?_, of_line_statement clean⟩
      have moves : Move.isMove (Command.move spelling transfer).mnemonic = true :=
        move_is_move spelling
      simp only [Move.expandLine, read, moves, if_true, expand_transfer spelling clean]
      rfl

end StackMachine.Symbolic
