import StackMachine.Failure
import StackMachine.Text.Replace
import StackMachine.Text.Units

/-!
# Labels

A declaration names the line it stands on. Every occurrence of the name in the
other lines gives way to the index of that line, longer names first, so that a
name within another one never breaks it up. Declaring lines are left empty.
-/

namespace StackMachine

set_option autoImplicit false

structure Label where
  name : Text
  line : Nat
deriving DecidableEq

namespace Label

def mark : Char := ':'

/-- The name that a line declares, perhaps an empty one. -/
def declared? (line : Text) : Option Text :=
  match Text.trim line with
  | [] => none
  | first :: name => if first = mark then some name else none

def find? (labels : List Label) (name : Text) : Option Nat :=
  (labels.find? fun label => label.name == name).map Label.line

/-- Adds what a line declares to the labels declared before it. -/
def declare (labels : List Label) (text : Text) (line : Nat) : Except Failure (List Label) :=
  match declared? text with
  | none => .ok labels
  | some [] => .error (.program line .unnamedLabel)
  | some name =>
      match find? labels name with
      | some first => .error (.program line (.reusedLabel name first))
      | none => .ok (labels ++ [⟨name, line⟩])

def collectFrom (line : Nat) (labels : List Label) : List Text → Except Failure (List Label)
  | [] => .ok labels
  | text :: rest => do collectFrom (line + 1) (← declare labels text line) rest

/-- The labels of a program, in the order of their declarations. -/
def collect (source : List Text) : Except Failure (List Label) := collectFrom 0 [] source

/-- Longer names first; names of one length keep the order of their declarations. -/
def ranked (labels : List Label) : List Label :=
  labels.mergeSort fun a b => Text.units b.name ≤ Text.units a.name

def substitute (ranking : List Label) (line : Text) : Text :=
  ranking.foldl
    (fun text label => Text.replaceAll label.name (Text.ofNat label.line) text) line

def resolveLine (ranking : List Label) (line : Text) : Text :=
  match declared? line with
  | some _ => []
  | none => substitute ranking line

def resolve (labels : List Label) (source : List Text) : List Text :=
  let ranking := ranked labels
  source.map (resolveLine ranking)

end Label

end StackMachine
