import StackMachine.Instruction
import StackMachine.Program

/-!
# The machine

A machine holds a prepared program, its state, a pointer to the next line, and
the number of instructions it has executed. A step passes over blank lines and
comments, stages the operands of the next instruction, executes it, and then
follows the jump register. A failure leaves the machine where it arose, with
what was done before it.
-/

namespace StackMachine

set_option autoImplicit false

structure Machine extends State where
  program : Program
  trace : Bool
  pointer : Nat
  executed : Nat

namespace Machine

/-- How a machine is set up. -/
structure Setup where
  trace : Bool := false
  capacity : Double := Double.ofInt Stack.defaultCapacity

abbrev Outcome (α : Type) := EStateM.Result Failure Machine α

/-- The capacity is checked before the program is looked at. -/
def build (source : List Text) (setup : Setup) : Except Failure Machine := do
  let stack ← Stack.ofCapacity setup.capacity
  let program ← Program.prepare source
  return {
    registers := .zero, stack, log := #[], program, trace := setup.trace,
    pointer := 0, executed := 0 }

def halted (m : Machine) : Bool := m.program.lines.length ≤ m.pointer

/-- A line that is not skipped, by its index, and what it decodes to. -/
structure Fetched where
  line : Nat
  text : Text
  decoded : Except Defect Instruction

/-- The first of the lines that holds a statement. -/
def fetchFrom (line : Nat) : List Text → Option Fetched
  | [] => none
  | text :: rest =>
      match Instruction.decode text with
      | .ok none => fetchFrom (line + 1) rest
      | .ok (some instruction) => some ⟨line, text, .ok instruction⟩
      | .error defect => some ⟨line, text, .error defect⟩

def fetch (m : Machine) : Option Fetched :=
  fetchFrom m.pointer (m.program.lines.drop m.pointer)

/-- Past the end of the program, or where the pointer already was if that is further. -/
def finish (m : Machine) : Machine :=
  { m with pointer := max m.pointer m.program.lines.length }

/-- Moves the pointer once an instruction is done. A jump register that is not zero is
cleared and gives the next line; so a jump to line zero is no jump. -/
def follow (m : Machine) (line : Nat) : Outcome Bool :=
  let target := (m.registers.get .jump).int
  if target = 0 then
    let next := { m with pointer := line + 1 }
    .ok (!next.halted) next
  else
    let cleared := { m with registers := m.registers.set .jump .zero }
    if target < 0 then .error (.program line (.negativeJump target)) cleared
    else
      let next := { cleared with pointer := target.toNat }
      .ok (!next.halted) next

/-- Carries out an action, which need not belong to the program. -/
def act {α : Type} (m : Machine) (line : Option Int) (action : Action α) : Outcome α :=
  match action m.toState with
  | .ok result state => .ok result { m with toState := state }
  | .error address state => .error (.address line address) { m with toState := state }

/-- Executes an instruction that the pointer has reached. -/
def perform (m : Machine) (line : Nat) (instruction : Instruction) : Outcome Bool :=
  let registers := Instruction.stage instruction.operands m.registers
  match act { m with registers } (some line) instruction.opcode.execute with
  | .ok _ done => follow { done with executed := done.executed + 1 } line
  | .error failure stopped => .error failure stopped

def noteTrace (m : Machine) (line : Nat) (text : Text) : Machine :=
  if m.trace then { m with log := m.log.push (.traced line text) } else m

/-- Executes the next instruction, if one is left. The answer tells whether the program
goes on. -/
def step (m : Machine) : Outcome Bool :=
  match m.fetch with
  | none => .ok false m.finish
  | some fetched =>
      let reached := { m with pointer := fetched.line }
      match fetched.decoded with
      | .error defect => .error (.program fetched.line defect) reached
      | .ok instruction =>
          perform (reached.noteTrace fetched.line fetched.text) fetched.line instruction

end Machine

end StackMachine
