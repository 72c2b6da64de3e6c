import StackMachine.Opcode

/-!
# Instructions

An instruction is an operation with at most one operand for each argument
register, every operand a 32-bit integer. A statement is refused for its
mnemonic first, then for the number of its operands, then for the first operand
that is not such an integer.
-/

namespace StackMachine

set_option autoImplicit false

structure Instruction where
  opcode : Opcode
  operands : List Int
deriving DecidableEq

namespace Instruction

/-- The bounds of the integers that a cell can hold. -/
def least : Int := -2147483648

def greatest : Int := 2147483647

def operand? (text : Text) : Except Defect Int :=
  match Text.integer? text with
  | none => .error (.notAnInteger text)
  | some value =>
      if least ≤ value ∧ value ≤ greatest then .ok value else .error (.tooWide text)

def ofStatement (statement : Statement) : Except Defect Instruction :=
  match Opcode.ofMnemonic? statement.mnemonic with
  | none => .error (.unknownInstruction statement.mnemonic)
  | some opcode =>
      if Register.arguments.length < statement.operands.length then
        .error (.tooManyOperands statement.mnemonic statement.operands.length)
      else (statement.operands.mapM operand?).map (Instruction.mk opcode)

/-- The instruction on a line, if the line holds a statement at all. -/
def decode (line : Text) : Except Defect (Option Instruction) :=
  match Statement.ofLine? line with
  | none => .ok none
  | some statement => (ofStatement statement).map some

/-- Writes the operands into the leading argument registers. -/
def stage (operands : List Int) (registers : Registers) : Registers :=
  (Register.arguments.zip operands).foldl
    (fun staged pair => staged.set pair.1 (Cell.ofInt pair.2)) registers

end Instruction

end StackMachine
