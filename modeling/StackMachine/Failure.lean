import StackMachine.Registers
import StackMachine.Statement

/-!
# Failures

Everything that can stop a program from being built or run, by its cause. A full
or an empty stack is not among them: it is reported and the program goes on.
-/

namespace StackMachine

set_option autoImplicit false

/-- What is wrong with a line of program text. -/
inductive Defect where
  | unnamedLabel
  | reusedLabel (name : Text) (first : Nat)
  | malformedStackOperand (operand : Text)
  | stackOperandInPair (operands : List Text)
  | moveArity (count : Nat)
  | unknownInstruction (mnemonic : Text)
  | tooManyOperands (mnemonic : Text) (count : Nat)
  | notAnInteger (operand : Text)
  | tooWide (operand : Text)
  | negativeJump (target : Int)
deriving DecidableEq

def Defect.message : Defect → String
  | .unnamedLabel => "Label declaration without a name"
  | .reusedLabel name first =>
      "Label with name " ++ String.ofList name ++ " has been reused (first declared at line " ++
        Text.decimal first ++ "), invalid program"
  | .malformedStackOperand operand => "Malformed stack operand " ++ String.ofList operand
  | .stackOperandInPair operands =>
      "mov with two operands takes registers only, got " ++
        String.ofList (Statement.operandList operands)
  | .moveArity count => "mov takes one or two operands, got " ++ Text.decimal count
  | .unknownInstruction mnemonic => "Unknown instruction '" ++ String.ofList mnemonic ++ "'"
  | .tooManyOperands mnemonic count =>
      String.ofList mnemonic ++ " has " ++ Text.decimal count ++
        " operands, at most 4 are allowed"
  | .notAnInteger operand => "Operand '" ++ String.ofList operand ++ "' is not an integer"
  | .tooWide operand => "Operand " ++ String.ofList operand ++ " does not fit in 32 bits"
  | .negativeJump target =>
      "Jump target " ++ Text.decimal target ++ " is before the start of the program"

inductive Failure where
  | capacity (requested : Double)
  | tooLong
  | program (line : Int) (defect : Defect)
  | address (line : Option Int) (address : Address)
  | opcode (name : Text)
deriving DecidableEq

namespace Failure

def line? : Failure → Option Int
  | .program line _ => some line
  | .address line _ => line
  | _ => none

def cause : Failure → String
  | .capacity requested =>
      "Stack capacity must be a positive integer, got " ++
        String.ofList (Numeral.write requested)
  | .tooLong => "Invalid array length"
  | .program _ defect => defect.message
  | .address _ given => "Register address " ++ given.text ++ " out of range (0-15)"
  | .opcode name => "Unhandled opcode: " ++ String.ofList name

/-- The cause, behind the line it arose on where there is one. -/
def message (failure : Failure) : String :=
  match failure.line? with
  | some line => "Line " ++ Text.decimal line ++ ": " ++ failure.cause
  | none => failure.cause

end Failure

end StackMachine
