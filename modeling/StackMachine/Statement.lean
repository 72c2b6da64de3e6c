import StackMachine.Text.Blank

/-!
# Statements

A line of program text is blank, a comment, or a statement: a mnemonic, then
operands separated by commas. Blanks around and inside the operands do not
count, so writing a statement and reading it back loses nothing else.
-/

namespace StackMachine

set_option autoImplicit false

structure Statement where
  mnemonic : Text
  operands : List Text
deriving DecidableEq

namespace Statement

def commentMark : Char := '#'

/-- Operands as they are written behind a mnemonic. -/
def operandList (operands : List Text) : Text := List.intercalate [',', ' '] operands

/-- Blank lines and comments hold no statement. -/
def isSkipped (line : Text) : Bool :=
  match Text.trim line with
  | [] => true
  | first :: _ => first == commentMark

def ofLine? (line : Text) : Option Statement :=
  if isSkipped line then none
  else
    let trimmed := Text.trim line
    let mnemonic := trimmed.takeWhile fun c => !Text.isBlank c
    match trimmed.dropWhile fun c => !Text.isBlank c with
    | [] => some ⟨mnemonic, []⟩
    | rest => some ⟨mnemonic, (Text.dropBlanks rest).splitOn ','⟩

def toLine (statement : Statement) : Text :=
  match statement.operands with
  | [] => statement.mnemonic
  | operands => statement.mnemonic ++ ' ' :: operandList operands

end Statement

end StackMachine
