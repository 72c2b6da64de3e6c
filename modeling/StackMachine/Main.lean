import StackMachine.CommandLine

/-!
# The command

Reads the arguments, the environment and the program file, and writes what the
command line answers. A program that does not end is run with more and more
fuel; what it has shown before is not written again.
-/

namespace StackMachine

set_option autoImplicit false

namespace CommandLine

/-- The system's code for reading a directory as a file. -/
def directoryCode : UInt32 := 21

/-- A path below a plain file leads nowhere, like one that does not exist. -/
def readProgram (path : Text) : IO Reading := do
  try
    let octets ← IO.FS.readBinFile (String.ofList (Path.ofText path).toText)
    return .contents octets.toList
  catch error =>
    match error with
    | .noFileOrDirectory .. => return .missing
    | .inappropriateType _ code _ =>
        return if code = directoryCode then .directory else .missing
    | _ => return .unreadable (toString error)

def emit (message : Message) : IO Unit :=
  match message with
  | .print text => IO.println text
  | .warn text => IO.eprintln text

partial def drive (written fuel : Nat) (report : Nat → Launch.Report) : IO UInt32 := do
  let current := report fuel
  for message in current.messages.drop written do
    emit message
  match current.status with
  | some status => return UInt32.ofNat status
  | none => drive current.messages.length (8 * fuel) report

end CommandLine

end StackMachine

open StackMachine CommandLine in
def main (arguments : List String) : IO UInt32 := do
  let environment : Launch.Environment :=
    { debug := ← IO.getEnv "DEBUG", debugTrace := ← IO.getEnv "DEBUG_VM" }
  let command := parse (arguments.map String.toList)
  let reading ← match command with
    | .run path _ => readProgram path
    | _ => pure .missing
  drive 0 1024 (respond command (fun _ => reading) environment)
