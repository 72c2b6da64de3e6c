import StackMachine.Launch

/-!
# The command line

Arguments are read from left to right. Options may stand anywhere before a
double dash, short ones may be combined, and a step limit may be joined to its
option. A request for the version and a malformed limit are answered as soon as
they are met; an unknown option is kept until all arguments have been read, and
everything behind it that is no option of the program is kept with it.
-/

namespace StackMachine.CommandLine

set_option autoImplicit false

/-- What the arguments ask for. -/
inductive Command where
  | run (path : Text) (options : Launch.Options)
  | showVersion
  | showHelp
  | refuse (reason : String)

def version : String := "0.1.0"

def helpLines : List String :=
  ["Usage: linevm [options] [program]",
    "",
    "Run a line-oriented stack machine program",
    "",
    "Arguments:",
    "  program                  Program file (default: \"code.txt\")",
    "",
    "Options:",
    "  -V, --version            output the version number",
    "  -l, --listing            Print the preprocessed program before running",
    "                           (default: false)",
    "  --trace                  Trace every executed line on stderr (default: false)",
    "  -n, --max-steps <count>  Stop after this many instructions",
    "  -h, --help               display help for command"]

def limitOption : String := "option '-n, --max-steps <count>' argument"

def missingLimit : Command := .refuse ("error: " ++ limitOption ++ " missing")

def invalidLimit (value : Text) : Command :=
  .refuse ("error: " ++ limitOption ++ " '" ++ String.ofList value ++
    "' is invalid. Must be a positive integer.")

def unknownOption (option : Text) : Command :=
  .refuse ("error: unknown option '" ++ String.ofList option ++ "'")

/-- A step limit has to be a positive integer, in any form a numeral has. -/
def limit? (value : Text) : Option Double :=
  (Numeral.read? value).filter fun x =>
    match x.whole? with
    | some count => 0 < count
    | none => false

/-- What one argument is. A limit is joined to its option or is the next argument. -/
inductive Token where
  | endOfOptions
  | version
  | listing
  | trace
  | limit (joined : Option Text)
  | unknown
  | operand

def limitMark : Text := "--max-steps=".toList

def looksLikeOption : Text → Bool
  | '-' :: _ :: _ => true
  | _ => false

/-- Whole options come first, then a short option with more behind it. -/
def tokenOf (argument : Text) : Token :=
  if argument = "--".toList then .endOfOptions
  else if argument = "-V".toList ∨ argument = "--version".toList then .version
  else if argument = "-l".toList ∨ argument = "--listing".toList then .listing
  else if argument = "--trace".toList then .trace
  else if argument = "-n".toList ∨ argument = "--max-steps".toList then .limit none
  else
    match argument with
    | '-' :: 'V' :: _ => .version
    | '-' :: 'n' :: value => .limit (some value)
    | _ =>
        if limitMark.isPrefixOf argument then .limit (some (argument.drop limitMark.length))
        else if looksLikeOption argument then .unknown
        else .operand

/-- Takes the listing flags off a group of short options, and tells whether there were
any. What is left is an argument of its own, whatever it looks like. -/
def unbundle : Text → Bool × Text
  | 'l' :: next :: rest => (true, (unbundle (next :: rest)).2)
  | letters => (false, letters)

def splitFlags (argument : Text) : Bool × Text :=
  match argument with
  | '-' :: letters =>
      let (listing, rest) := unbundle letters
      (listing, '-' :: rest)
  | _ => (false, argument)

/-- What has been read so far. Arguments behind an unknown option are kept with it. -/
structure Scan where
  options : Launch.Options
  operands : List Text
  unknown : List Text

namespace Scan

def empty : Scan := ⟨{}, [], []⟩

def withListing (scan : Scan) : Scan :=
  { scan with options := { scan.options with listing := true } }

def withTrace (scan : Scan) : Scan :=
  { scan with options := { scan.options with trace := true } }

def withLimit (scan : Scan) (count : Double) : Scan :=
  { scan with options := { scan.options with maxSteps := some count } }

def keepUnknown (scan : Scan) (arguments : List Text) : Scan :=
  { scan with unknown := scan.unknown ++ arguments }

def keepOperands (scan : Scan) (arguments : List Text) : Scan :=
  if scan.unknown = [] then { scan with operands := scan.operands ++ arguments }
  else scan.keepUnknown arguments

/-- A double dash ends the options. It is kept itself only behind an unknown option. -/
def close (scan : Scan) (arguments : List Text) : Scan :=
  if scan.unknown = [] then scan.keepOperands arguments
  else scan.keepUnknown ("--".toList :: arguments)

/-- What is asked for once all arguments are read. Help comes before an unknown option,
and operands after the first do not count. -/
def command (scan : Scan) : Command :=
  if scan.unknown.any fun option => option = "-h".toList ∨ option = "--help".toList then
    .showHelp
  else
    match scan.unknown with
    | option :: _ => unknownOption option
    | [] => .run (scan.operands.headD Launch.defaultProgram.toList) scan.options

end Scan

def parseFrom (scan : Scan) : List Text → Command
  | [] => scan.command
  | argument :: rest =>
      let (listing, argument) := splitFlags argument
      let scan := if listing then scan.withListing else scan
      match tokenOf argument with
      | .endOfOptions => (scan.close rest).command
      | .version => .showVersion
      | .listing => parseFrom scan.withListing rest
      | .trace => parseFrom scan.withTrace rest
      | .limit (some value) =>
          match limit? value with
          | some count => parseFrom (scan.withLimit count) rest
          | none => invalidLimit value
      | .limit none =>
          match rest with
          | [] => missingLimit
          | value :: others =>
              match limit? value with
              | some count => parseFrom (scan.withLimit count) others
              | none => invalidLimit value
      | .unknown => parseFrom (scan.keepUnknown [argument]) rest
      | .operand => parseFrom (scan.keepOperands [argument]) rest

def parse (arguments : List Text) : Command := parseFrom .empty arguments

/-- Carries out a command, given a way to read the program file it names. -/
def respond (command : Command) (read : Text → Reading) (environment : Launch.Environment)
    (fuel : Nat) : Launch.Report :=
  match command with
  | .run path options => Launch.runReading path (read path) options environment fuel
  | .showVersion => ⟨[.print version], some 0⟩
  | .showHelp => ⟨helpLines.map .print, some 0⟩
  | .refuse reason => ⟨[.warn reason], some 1⟩

/-- Runs the command line in a file tree. -/
def runIn (tree : FileTree) (arguments : List Text) (environment : Launch.Environment)
    (fuel : Nat) : Launch.Report :=
  respond (parse arguments) tree.read environment fuel

/-- The lines of one channel, each ended by a line feed. -/
def channel (select : Message → Option String) (messages : List Message) : String :=
  String.join ((messages.filterMap select).map (· ++ "\n"))

def printed? : Message → Option String
  | .print text => some text
  | .warn _ => none

def warned? : Message → Option String
  | .warn text => some text
  | .print _ => none

end StackMachine.CommandLine
