import StackMachine.Text.Blank

/-!
# Replacing every occurrence

Occurrences are taken from left to right and never overlap: the scan resumes
behind the occurrence it has just replaced, and never looks into the value that
was put in its place.
-/

namespace StackMachine.Text

set_option autoImplicit false

/-- Replaces the occurrences of `name` that begin after the first `skip` characters,
which belong to an occurrence already replaced and are dropped. -/
def replaceFrom (name value : Text) : Nat → Text → Text
  | _, [] => []
  | skip + 1, _ :: rest => replaceFrom name value skip rest
  | 0, c :: rest =>
      if name.isPrefixOf (c :: rest) then
        value ++ replaceFrom name value (name.length - 1) rest
      else c :: replaceFrom name value 0 rest

/-- Replaces every occurrence of a non-empty name. -/
def replaceAll (name value text : Text) : Text := replaceFrom name value 0 text

end StackMachine.Text
