import StackMachine.Instruction
import StackMachine.Proofs.Trimming
import Mathlib.Data.List.Forall2

/-!
# Symbolic programs

A program as its author means it: lines that do nothing, declarations, and commands
whose operands are numbers or names. `Written` tells which texts stand for such a
line, with blanks wherever they may stand. The reference assembler takes every name
from the table of declarations and never looks at any text.
-/

namespace StackMachine.Symbolic

set_option autoImplicit false

open Text (AllBlank)

def isLetter (c : Char) : Bool := c.isAlpha || c == '_'

def isWord (c : Char) : Bool := isLetter c || c.isDigit

structure Identifier (name : Text) : Prop where
  starts : ∃ c, name.head? = some c ∧ isLetter c = true
  word : ∀ c ∈ name, isWord c = true

inductive Sign where
  | none
  | plus
  | minus

def Sign.text : Sign → Text
  | .none => []
  | .plus => ['+']
  | .minus => ['-']

def Sign.apply : Sign → Nat → Int
  | .minus, n => -Int.ofNat n
  | _, n => Int.ofNat n

/-- A decimal number as it is written, perhaps with leading zeros. -/
structure Literal where
  sign : Sign
  digits : Text
  nonempty : digits ≠ []
  decimal : digits.all Char.isDigit = true

namespace Literal

def text (literal : Literal) : Text := literal.sign.text ++ literal.digits

def value (literal : Literal) : Int := literal.sign.apply (Nat.ofDigitChars 10 literal.digits 0)

def ofNat (n : Nat) : Literal where
  sign := .none
  digits := Text.ofNat n
  nonempty := Nat.toDigits_ne_nil
  decimal := List.all_eq_true.mpr fun _ member => Text.is_digit_of_mem_of_nat member

end Literal

inductive Operand where
  | number (literal : Literal)
  | reference (name : Text)

/-- The declared names, each with the index of its line. -/
abbrev Table := List (Text × Nat)

namespace Operand

def text : Operand → Text
  | .number literal => literal.text
  | .reference name => name

/-- A value that a cell can hold, and otherwise a refusal of its text. -/
def checked (text : Text) (value : Int) : Except Defect Int :=
  if Instruction.least ≤ value ∧ value ≤ Instruction.greatest then .ok value
  else .error (.tooWide text)

/-- A number stands for its value, and a name for the index of the line that declares it. -/
def assemble (table : Table) : Operand → Except Defect Int
  | .number literal => checked literal.text literal.value
  | .reference name =>
      match table.lookup name with
      | some line => checked (Text.ofNat line) line
      | none => .error (.notAnInteger name)

/-- A number that a cell can hold, or a name that some line declares. -/
def Legal (table : Table) : Operand → Prop
  | .number literal => Instruction.least ≤ literal.value ∧ literal.value ≤ Instruction.greatest
  | .reference name => name ∈ table.map Prod.fst

end Operand

/-- An operand as it stands in a line. -/
inductive Argument where
  | bare (operand : Operand)
  | bracketed (operand : Operand)

inductive Spelling where
  | short
  | long

def Spelling.text : Spelling → Text
  | .short => ['m', 'o', 'v']
  | .long => ['m', 'o', 'v', 'e']

inductive Transfer where
  | toStack (source : Operand)
  | fromStack (target : Operand)
  | between (source target : Operand)

inductive Command where
  | operation (opcode : Opcode) (operands : List Operand)
  | move (spelling : Spelling) (transfer : Transfer)

namespace Command

def mnemonic : Command → Text
  | .operation opcode _ => opcode.mnemonic
  | .move spelling _ => spelling.text

def opcode : Command → Opcode
  | .operation opcode _ => opcode
  | .move _ (.toStack _) => .registerToStack
  | .move _ (.fromStack _) => .stackToRegister
  | .move _ (.between _ _) => .registerToRegister

def operands : Command → List Operand
  | .operation _ operands => operands
  | .move _ (.toStack source) => [source]
  | .move _ (.fromStack target) => [target]
  | .move _ (.between source target) => [source, target]

def arguments : Command → List Argument
  | .operation _ operands => operands.map .bare
  | .move _ (.toStack source) => [.bare source]
  | .move _ (.fromStack target) => [.bracketed target]
  | .move _ (.between source target) => [.bare source, .bare target]

/-- The reference assembler: the operation, and the value of every operand in order. -/
def assemble (table : Table) (command : Command) : Except Defect Instruction :=
  (command.operands.mapM (Operand.assemble table)).map (Instruction.mk command.opcode)

structure Legal (table : Table) (command : Command) : Prop where
  apart : ∀ name ∈ table.map Prod.fst, ¬name <:+: command.mnemonic
  few : command.operands.length ≤ 4
  operands : ∀ operand ∈ command.operands, operand.Legal table

end Command

inductive Line where
  | idle
  | declaration (name : Text)
  | performs (command : Command)

def tableFrom (line : Nat) : List Line → Table
  | [] => []
  | .declaration name :: rest => (name, line) :: tableFrom (line + 1) rest
  | _ :: rest => tableFrom (line + 1) rest

def table (lines : List Line) : Table := tableFrom 0 lines

/-- Every name is declared once, and is an identifier. -/
structure Sound (table : Table) : Prop where
  identifiers : ∀ name ∈ table.map Prod.fst, Identifier name
  distinct : (table.map Prod.fst).Nodup

structure Legal (lines : List Line) : Prop extends Sound (table lines) where
  commands : ∀ command, .performs command ∈ lines → command.Legal (table lines)

def Padded (core text : Text) : Prop :=
  ∃ before after, AllBlank before ∧ AllBlank after ∧ text = before ++ (core ++ after)

def Argument.Written : Argument → Text → Prop
  | .bare operand, text => Padded operand.text text
  | .bracketed operand, text =>
      ∃ inner, Padded operand.text inner ∧ Padded ('[' :: (inner ++ [']'])) text

/-- The texts that stand for a line. -/
inductive Written : Text → Line → Prop where
  | blank {text : Text} (blank : AllBlank text) : Written text .idle
  | comment {lead : Text} (before : AllBlank lead) (rest : Text) :
      Written (lead ++ '#' :: rest) .idle
  | declaration {lead trail : Text} (before : AllBlank lead) (name : Text)
      (after : AllBlank trail) : Written (lead ++ ':' :: (name ++ trail)) (.declaration name)
  | bare {lead trail : Text} {command : Command} (before : AllBlank lead)
      (after : AllBlank trail) (alone : command.arguments = []) :
      Written (lead ++ (command.mnemonic ++ trail)) (.performs command)
  | full {lead gap trail : Text} {pieces : List Text} {command : Command}
      (before : AllBlank lead) (between : AllBlank gap) (parted : gap ≠ [])
      (after : AllBlank trail) (given : command.arguments ≠ [])
      (written : List.Forall₂ Argument.Written command.arguments pieces) :
      Written (lead ++ (command.mnemonic ++ (gap ++ (List.intercalate [','] pieces ++ trail))))
        (.performs command)

end StackMachine.Symbolic
