import StackMachine.Text.Blank

/-!
# Lines

A line ends at a line feed, and one carriage return right before that line feed
belongs to the ending. The text behind the last line feed is a line too, kept
as it stands: nothing follows it that could end it.
-/

namespace StackMachine.Text

set_option autoImplicit false

/-- Drops one carriage return from the end. -/
def dropReturn (line : Text) : Text :=
  if line.getLast? = some '\r' then line.dropLast else line

def lines (text : Text) : List Text :=
  let pieces := text.splitOn '\n'
  pieces.dropLast.map dropReturn ++ pieces.getLast?.toList

end StackMachine.Text
