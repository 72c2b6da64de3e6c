import StackMachine.FileTree
import StackMachine.Run
import StackMachine.Text.Lines
import StackMachine.Text.Utf8

/-!
# Running a program file

A launch reads a program file, builds a machine from its lines, and runs it. It
reports what went to either channel, in order, and an exit status: zero for a
program that ran to its end, and one, behind a single warning, for all else.
-/

namespace StackMachine

set_option autoImplicit false

namespace Launch

def defaultProgram : String := "code.txt"

structure Options where
  listing : Bool := false
  trace : Bool := false
  maxSteps : Option Double := none

/-- The variables of the surroundings that switch something on. -/
structure Environment where
  debug : Option String := none
  debugTrace : Option String := none

/-- A variable is on unless it is unset or empty. -/
def isOn (setting : Option String) : Bool :=
  match setting with
  | none => false
  | some value => !value.isEmpty

/-- The output so far, and the exit status once there is one. -/
structure Report where
  messages : List Message
  status : Option Nat

/-- Stands for the chain of calls behind an error. -/
def callChain : Message := .warn "<stack>"

def complaint (text : String) : Message := .warn ("Error: " ++ text)

/-- What an error adds to the output. Debugging adds the chain of calls. -/
def errorMessages (environment : Environment) (text : String) : List Message :=
  complaint text :: if isOn environment.debug then [callChain] else []

def limitText (steps pointer : Nat) : String :=
  "Step limit reached after " ++ Text.decimal steps ++ " instructions (line " ++
    Text.decimal pointer ++ ")"

/-- What a machine has shown. -/
def shown (m : Machine) : List Message := m.log.toList.map Event.message

def runMachine (options : Options) (environment : Environment) (fuel : Nat)
    (machine : Machine) : Report :=
  let listing := if options.listing then machine.program.listing.map Message.print else []
  match machine.run options.maxSteps fuel with
  | .running m => ⟨listing ++ shown m, none⟩
  | .ended (.error failure m) =>
      ⟨listing ++ shown m ++ errorMessages environment failure.message, some 1⟩
  | .ended (.ok summary m) =>
      if summary.halted then ⟨listing ++ shown m, some 0⟩
      else ⟨listing ++ shown m ++ [complaint (limitText summary.steps m.pointer)], some 1⟩

/-- Runs what was read from a path. -/
def runReading (path : Text) (reading : Reading) (options : Options)
    (environment : Environment) (fuel : Nat) : Report :=
  match reading with
  | .missing => ⟨[complaint ("Program file not found: " ++ String.ofList path)], some 1⟩
  | .unreadable reason => ⟨errorMessages environment reason, some 1⟩
  | .contents octets =>
      let trace := options.trace || isOn environment.debugTrace
      match Machine.build (Text.lines (Utf8.decode octets)) { trace } with
      | .error failure => ⟨errorMessages environment failure.message, some 1⟩
      | .ok machine => runMachine options environment fuel machine

/-- Runs a program file of a tree. -/
def runFile (tree : FileTree) (path : Text) (options : Options)
    (environment : Environment) (fuel : Nat) : Report :=
  runReading path (tree.read path) options environment fuel

end Launch

end StackMachine
