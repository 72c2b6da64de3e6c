import StackMachine.Path

/-!
# File trees

The files under one directory, by path. Every directory on the way to a file is
there too, and so are those above the starting one; nothing else outside of it
is known.
-/

namespace StackMachine

set_option autoImplicit false

structure FileTree where
  files : List (List Text × List UInt8)
  directories : List (List Text)

/-- What reading a path gives. -/
inductive Reading where
  | missing
  | unreadable (reason : String)
  | contents (octets : List UInt8)

namespace Reading

def directory : Reading := .unreadable "EISDIR: illegal operation on a directory, read"

end Reading

namespace FileTree

def empty : FileTree := ⟨[], []⟩

/-- Adds an entry under its name. A name that ends with a slash is a directory, and its
contents do not count. -/
def insert (tree : FileTree) (name : Text) (octets : List UInt8) : FileTree :=
  let names := (Path.ofText name).names
  if name.getLast? = some '/' then { tree with directories := names :: tree.directories }
  else { tree with files := (names, octets) :: tree.files }

def isDirectory (tree : FileTree) (names : List Text) : Bool :=
  names.isEmpty || tree.directories.any names.isPrefixOf ||
    tree.files.any fun file => names.isPrefixOf file.1

def read (tree : FileTree) (path : Text) : Reading :=
  let path := Path.ofText path
  if path.isInside then
    match tree.files.lookup path.names with
    | some octets => .contents octets
    | none => if tree.isDirectory path.names then .directory else .missing
  else if path.names.isEmpty then .directory
  else .missing

end FileTree

end StackMachine
