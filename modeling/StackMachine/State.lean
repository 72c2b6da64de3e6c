import StackMachine.Stack

/-!
# State and actions

An action works on the registers, the stack and the log of what became visible.
It fails at an address that names no register, and what it did before that
stays done.
-/

namespace StackMachine

set_option autoImplicit false

/-- Something that shows outside the machine. -/
inductive Event where
  | printed (text : String)
  | fault (fault : Fault)
  | traced (line : Nat) (text : Text)
deriving DecidableEq

/-- A line of output, on the channel it belongs to. -/
inductive Message where
  | print (text : String)
  | warn (text : String)
deriving DecidableEq

def Fault.text : Fault → String
  | .overflow refused => "STACK OVERFLOW, tried to push " ++ refused.text
  | .underflow => "STACK UNDERFLOW, tried to pop"

def Event.message : Event → Message
  | .printed text => .print text
  | .fault cause => .warn cause.text
  | .traced line text =>
      .warn ("[Machine] " ++ Text.decimal line ++ ": " ++ String.ofList text)

structure State where
  registers : Registers
  stack : Stack
  log : Array Event

abbrev Action := EStateM Address State

namespace Action

def emit (event : Event) : Action Unit :=
  modify fun s => { s with log := s.log.push event }

def print (text : String) : Action Unit := emit (.printed text)

def report : Option Fault → Action Unit
  | some fault => emit (.fault fault)
  | none => pure ()

def read (r : Register) : Action Cell := do
  return (← get).registers.get r

def write (r : Register) (c : Cell) : Action Unit :=
  modify fun s => { s with registers := s.registers.set r c }

def locate (address : Address) : Action Register :=
  match address.register? with
  | some r => pure r
  | none => throw address

def readAt (address : Address) : Action Cell := do
  read (← locate address)

def writeAt (address : Address) (c : Cell) : Action Unit := do
  write (← locate address) c

/-- The register that the integer view of another one addresses. -/
def target (r : Register) : Action Register := do
  locate (.int (← read r).int)

/-- Tells whether the cell was accepted. -/
def push (c : Cell) : Action Bool := do
  let (fault, stack) := (← get).stack.push c
  modify fun s => { s with stack := stack }
  report fault
  return fault.isNone

def pop : Action Cell := do
  let (c, fault, stack) := (← get).stack.pop
  modify fun s => { s with stack := stack }
  report fault
  return c

def bottom : Action Cell := do
  return (← get).stack.bottom

@[simp] theorem emit_run (event : Event) (s : State) :
    emit event s = .ok () { s with log := s.log.push event } := rfl

@[simp] theorem read_run (r : Register) (s : State) :
    read r s = .ok (s.registers.get r) s := rfl

@[simp] theorem write_run (r : Register) (c : Cell) (s : State) :
    write r c s = .ok () { s with registers := s.registers.set r c } := rfl

@[simp] theorem bottom_run (s : State) : bottom s = .ok s.stack.bottom s := rfl

theorem locate_of_register {address : Address} {r : Register}
    (names : address.register? = some r) (s : State) : locate address s = .ok r s := by
  simp only [locate, names]
  rfl

theorem locate_of_no_register {address : Address} (none : address.register? = none)
    (s : State) : locate address s = .error address s := by
  simp only [locate, none]
  rfl

/-- A report adds its fault to the log and changes nothing else. -/
theorem report_run (fault : Option Fault) (s : State) :
    report fault s =
      .ok () { s with log := s.log ++ (fault.map Event.fault).toArray } := by
  cases fault with
  | none =>
      change EStateM.Result.ok () s = _
      simp
  | some cause =>
      change EStateM.Result.ok () { s with log := s.log.push (.fault cause) } = _
      simp

end Action

end StackMachine
