import StackMachine.Text.Blank

/-!
# Paths

A path is read by its text alone: empty names and single dots count for nothing,
and a double dot takes back the name before it, whatever that name stands for.
What cannot be taken back leads above the starting directory, and nowhere from
the root.
-/

namespace StackMachine

set_option autoImplicit false

structure Path where
  absolute : Bool
  above : Nat
  names : List Text
deriving DecidableEq

namespace Path

/-- Goes one name further. -/
def enter (path : Path) (name : Text) : Path :=
  if name = [] ∨ name = ['.'] then path
  else if name = ['.', '.'] then
    match path.names with
    | [] => if path.absolute then path else { path with above := path.above + 1 }
    | names => { path with names := names.dropLast }
  else { path with names := path.names ++ [name] }

def ofText (text : Text) : Path :=
  (text.splitOn '/').foldl enter ⟨text.head? == some '/', 0, []⟩

def toText (path : Path) : Text :=
  let steps := List.replicate path.above ['.', '.'] ++ path.names
  let joined := List.intercalate ['/'] steps
  if path.absolute then '/' :: joined
  else if joined = [] then ['.']
  else joined

/-- Tells whether the path stays within the starting directory. -/
def isInside (path : Path) : Bool := !path.absolute && path.above == 0

end Path

end StackMachine
