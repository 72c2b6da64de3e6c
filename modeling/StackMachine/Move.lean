import StackMachine.Opcode

/-!
# The move shorthand

One mnemonic, in two spellings, stands for three operations, and the shape of
its operands tells which: two registers, a register alone, or a register in
square brackets for the bottom of the stack.
-/

namespace StackMachine.Move

set_option autoImplicit false

def mnemonics : List String := ["mov", "move"]

def isMove (mnemonic : Text) : Bool := mnemonics.any fun name => name.toList == mnemonic

def isStackOperand (operand : Text) : Bool := operand.head? == some '['

/-- What stands between square brackets, if anything does. -/
def inner? (operand : Text) : Option Text :=
  match operand with
  | '[' :: rest =>
      if rest.getLast? = some ']' ∧ rest.dropLast ≠ [] then some rest.dropLast else none
  | _ => none

def expand (operands : List Text) : Except Defect Statement :=
  match operands with
  | [operand] =>
      if isStackOperand operand then
        match inner? operand with
        | some register => .ok ⟨Opcode.stackToRegister.mnemonic, [register]⟩
        | none => .error (.malformedStackOperand operand)
      else .ok ⟨Opcode.registerToStack.mnemonic, [operand]⟩
  | [source, target] =>
      if isStackOperand source || isStackOperand target then
        .error (.stackOperandInPair [source, target])
      else .ok ⟨Opcode.registerToRegister.mnemonic, [source, target]⟩
  | other => .error (.moveArity other.length)

/-- Lines without the shorthand are left exactly as they are. -/
def expandLine (line : Text) : Except Defect Text :=
  match Statement.ofLine? line with
  | none => .ok line
  | some statement =>
      if isMove statement.mnemonic then (expand statement.operands).map Statement.toLine
      else .ok line

def expandFrom (line : Nat) : List Text → Except Failure (List Text)
  | [] => .ok []
  | text :: rest => do
      let expanded ← (expandLine text).mapError (Failure.program line)
      return expanded :: (← expandFrom (line + 1) rest)

def expandAll (source : List Text) : Except Failure (List Text) := expandFrom 0 source

end StackMachine.Move
