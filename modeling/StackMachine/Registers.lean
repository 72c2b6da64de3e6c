import StackMachine.Cell

/-!
# Registers

Sixteen cells, addressed by number. The first four receive the operands of every
instruction, and the jump register moves the machine's pointer when it is not
zero; all others have no role of their own. An address may be any number, and
only the whole numbers from zero to fifteen name a register.
-/

namespace StackMachine

set_option autoImplicit false

abbrev Register := Fin 16

namespace Register

def arg0 : Register := 0
def arg1 : Register := 1
def arg2 : Register := 2
def jump : Register := 7

def names : Vector String 16 := #v[
  "arg0", "arg1", "arg2", "arg3", "reg4", "reg5", "reg6", "jmp",
  "loop", "reg9", "regA", "regB", "regC", "regD", "regE", "regF"]

def name (r : Register) : String := names[r]

def all : List Register := List.finRange 16

/-- The registers that operands are staged into. -/
def arguments : List Register := all.take 4

def ofInt? (i : Int) : Option Register :=
  if bounds : 0 ≤ i ∧ i.toNat < 16 then some ⟨i.toNat, bounds.2⟩ else none

end Register

inductive Address where
  | int (value : Int)
  | number (value : Double)
deriving DecidableEq

namespace Address

def register? : Address → Option Register
  | .int i => Register.ofInt? i
  | .number x => x.whole?.bind Register.ofInt?

def text : Address → String
  | .int i => Text.decimal i
  | .number x => String.ofList (Numeral.write x)

end Address

structure Registers where
  cells : Vector Cell 16

namespace Registers

def zero : Registers := ⟨Vector.replicate 16 .zero⟩

def get (registers : Registers) (r : Register) : Cell := registers.cells[r]

def set (registers : Registers) (r : Register) (c : Cell) : Registers :=
  ⟨registers.cells.set r c⟩

def toList (registers : Registers) : List Cell := registers.cells.toList

theorem get_set_same (registers : Registers) (r : Register) (c : Cell) :
    (registers.set r c).get r = c := by
  simp [get, set]

theorem get_set_other (registers : Registers) (r other : Register) (c : Cell)
    (distinct : r ≠ other) : (registers.set r c).get other = registers.get other := by
  have places : (r : Nat) ≠ other := fun same => distinct (Fin.ext same)
  simp [get, set, Vector.getElem_set_ne, places]

end Registers

end StackMachine
