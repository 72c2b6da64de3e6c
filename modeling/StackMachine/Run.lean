import StackMachine.Machine

/-!
# Runs

A run steps until the program ends, an instruction fails, or a limit on the
number of instructions is reached. A run without a limit may never end; it is
given fuel, and is still running where the fuel does not last to the end.
-/

namespace StackMachine

set_option autoImplicit false

/-- The number of instructions a limit allows, or none for a limit that never binds.
A limit that is not a whole number is reached by the next whole one. -/
def budget? : Option Double → Option Nat
  | none => none
  | some limit =>
      if limit.isNaN || limit.negative then some 0
      else if limit.isFinite then some limit.size.ceiling
      else none

namespace Machine

/-- What a run that did not fail reports. -/
structure Summary where
  steps : Nat
  halted : Bool
deriving DecidableEq

/-- Executes at most `count` instructions. -/
def advance : Nat → Machine → Outcome Unit
  | 0, m => .ok () m
  | count + 1, m =>
      if m.halted then .ok () m
      else
        match m.step with
        | .ok _ next => advance count next
        | .error failure stopped => .error failure stopped

def runFor (budget : Nat) (m : Machine) : Outcome Summary :=
  match advance budget m with
  | .ok _ final => .ok ⟨final.executed - m.executed, final.halted⟩ final
  | .error failure stopped => .error failure stopped

/-- Where a run has got to. -/
inductive Progress where
  | ended (outcome : Outcome Summary)
  | running (machine : Machine)

/-- Runs within a limit or, where none binds, for as long as the fuel lasts. -/
def run (limit : Option Double) (fuel : Nat) (m : Machine) : Progress :=
  match budget? limit with
  | some budget => .ended (runFor budget m)
  | none =>
      match runFor fuel m with
      | .ok summary final =>
          if summary.halted then .ended (.ok summary final) else .running final
      | .error failure stopped => .ended (.error failure stopped)

end Machine

end StackMachine
