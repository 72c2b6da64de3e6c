import StackMachine.State

/-!
# Operations

The concrete instructions and what each of them does. Operands have been staged
into the argument registers before an operation runs, so an operation reads
them there, and reads what was left there where an operand was not given.
-/

namespace StackMachine

set_option autoImplicit false

inductive Opcode where
  | push
  | pop
  | dump
  | print
  | add
  | sub
  | mul
  | set
  | decrement
  | increment
  | swap
  | registerToStack
  | stackToRegister
  | registerToRegister
  | jump
  | jumpZero
  | jumpNonzero
  | jumpEqual
  | jumpDifferent
  | shiftRight
  | shiftLeft
  | flipBit
  | setBit
  | clearBit
deriving DecidableEq

namespace Opcode

def all : List Opcode :=
  [.push, .pop, .dump, .print, .add, .sub, .mul, .set, .decrement, .increment, .swap,
    .registerToStack, .stackToRegister, .registerToRegister, .jump, .jumpZero, .jumpNonzero,
    .jumpEqual, .jumpDifferent, .shiftRight, .shiftLeft, .flipBit, .setBit, .clearBit]

def name : Opcode → String
  | .push => "push"
  | .pop => "pop"
  | .dump => "dmp"
  | .print => "prt"
  | .add => "add"
  | .sub => "sub"
  | .mul => "mul"
  | .set => "set"
  | .decrement => "dec"
  | .increment => "inc"
  | .swap => "swp"
  | .registerToStack => "mov_r2s"
  | .stackToRegister => "mov_s2r"
  | .registerToRegister => "mov_r2r"
  | .jump => "jmp"
  | .jumpZero => "jz"
  | .jumpNonzero => "jnz"
  | .jumpEqual => "je"
  | .jumpDifferent => "jne"
  | .shiftRight => "shr"
  | .shiftLeft => "shl"
  | .flipBit => "not"
  | .setBit => "stb"
  | .clearBit => "clr"

def mnemonic (opcode : Opcode) : Text := opcode.name.toList

def ofMnemonic? (text : Text) : Option Opcode :=
  all.find? fun opcode => opcode.mnemonic == text

theorem of_mnemonic_mnemonic (opcode : Opcode) : ofMnemonic? opcode.mnemonic = some opcode := by
  cases opcode <;> decide

theorem mnemonic_of_of_mnemonic {text : Text} {opcode : Opcode}
    (found : ofMnemonic? text = some opcode) : opcode.mnemonic = text := by
  have named := List.find?_some found
  exact eq_of_beq named

open StackMachine.Action

/-- Pops the top cell into the first argument register and the next into the second. -/
def popPair : Action Unit := do
  write .arg0 (← Action.pop)
  write .arg1 (← Action.pop)

def combine (f : Cell → Cell → Cell) : Action Unit := do
  popPair
  let _ ← Action.push (f (← read .arg0) (← read .arg1))

/-- Replaces the register that the first argument register addresses. -/
def update (f : Cell → Cell → Cell) : Action Unit := do
  let r ← target .arg0
  write r (f (← read r) (← read .arg1))

def jumpIf (condition : Bool) : Action Unit := do
  if condition then write .jump (← read .arg0)

/-- Compares the second argument with the bottom cell, which is left in the third. -/
def matchesBottom : Action Bool := do
  write .arg2 (← bottom)
  return (← read .arg1) == (← read .arg2)

/-- Leaves the bottom cell in the second argument register. -/
def bottomIsZero : Action Bool := do
  write .arg1 (← bottom)
  return (← read .arg1).isZero

def dumpLines (s : State) : List String :=
  ["STACKPTR: " ++ Text.decimal s.stack.top, "DUMP:",
    " ".intercalate (s.stack.toList.map Cell.text), "REGISTERS:"] ++
  Register.all.map fun r => r.name ++ ": " ++ (s.registers.get r).text

def execute : Opcode → Action Unit
  | .push => do
      let _ ← Action.push (← read .arg0)
  | .pop => do
      let _ ← Action.pop
  | .dump => do
      for line in dumpLines (← get) do
        Action.print line
  | .print => do
      Action.print (← bottom).text
  | .add => combine Cell.add
  | .sub => combine Cell.sub
  | .mul => combine Cell.mul
  | .set => do
      writeAt (.int (← read .arg0).int) (← read .arg1)
  | .decrement => update fun c _ => c.decrement
  | .increment => update fun c _ => c.increment
  | .swap => do
      popPair
      let _ ← Action.push (← read .arg0)
      let _ ← Action.push (← read .arg1)
  | .registerToStack => do
      let _ ← Action.push (← read (← target .arg0))
  | .stackToRegister => do
      write .arg1 (← bottom)
      write (← target .arg0) (← read .arg1)
  | .registerToRegister => do
      let c ← read (← target .arg0)
      write (← target .arg1) c
  | .jump => jumpIf true
  | .jumpZero => do
      jumpIf (← bottomIsZero)
  | .jumpNonzero => do
      jumpIf (!(← bottomIsZero))
  | .jumpEqual => do
      jumpIf (← matchesBottom)
  | .jumpDifferent => do
      jumpIf (!(← matchesBottom))
  | .shiftRight => update Cell.shiftRight
  | .shiftLeft => update Cell.shiftLeft
  | .flipBit => update Cell.flipBit
  | .setBit => update Cell.setBit
  | .clearBit => update Cell.clearBit

/-- Runs the operation of a given name, which may be no operation at all. -/
def executeNamed (name : Text) : EStateM Failure State Unit :=
  match ofMnemonic? name with
  | none => throw (.opcode name)
  | some opcode => EStateM.adaptExcept (Failure.address none) opcode.execute

end Opcode

end StackMachine
