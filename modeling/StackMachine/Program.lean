import StackMachine.Label
import StackMachine.Move

/-!
# Programs

A program is ready to run once its labels are resolved and its moves expanded.
Both passes keep the number of lines, so an index means the same line before
and after them. A fault in the labels is found before any fault in a move.
-/

namespace StackMachine

set_option autoImplicit false

structure Program where
  lines : List Text
  labels : List Label

namespace Program

/-- Replaces the labels only. -/
def resolve (source : List Text) : Except Failure Program := do
  let labels ← Label.collect source
  return ⟨Label.resolve labels source, labels⟩

def prepare (source : List Text) : Except Failure Program := do
  let resolved ← resolve source
  return ⟨← Move.expandAll resolved.lines, resolved.labels⟩

/-- Every line behind its index. -/
def listing (program : Program) : List String :=
  program.lines.mapIdx fun index line => Text.decimal index ++ ": " ++ String.ofList line

end Program

end StackMachine
