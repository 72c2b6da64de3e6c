import StackMachine.Proofs.Blocks

/-!
# Counting down

A loop that counts one register down to zero counts another one up, and shows the first one at
the bottom of the stack for the jump to look at. Each turn is a block of five instructions. The
jump comes after the counting, so the loop is left after one turn at the least, and only once the
register has come to zero by counting: from zero or below, all the way around.
-/

namespace StackMachine.Countdown

set_option autoImplicit false

open Machine (Block)

/-- The loop as it is written, with the text of the value to count down from. -/
def source (start : Text) : List Text :=
  ["set 8,".toList ++ start, "mov 8".toList, ":loop".toList, "pop".toList, "inc 9".toList,
    "dec 8".toList, "mov 8".toList, "jnz loop".toList]

def program (start : Text) : Program where
  lines := ["set 8,".toList ++ start, "mov_r2s 8".toList, [], "pop".toList, "inc 9".toList,
    "dec 8".toList, "mov_r2s 8".toList, "jnz 2".toList]
  labels := [⟨"loop".toList, 2⟩]

variable {start : Text} {n : Int}

theorem written_set (given : Instruction.Given start n) :
    Instruction.Written ("set 8,".toList ++ start) ⟨.set, [8, n]⟩ := by
  have few : ["8".toList, start].length ≤ 4 := by
    rw [List.length_cons, List.length_singleton]
    decide
  have eight : Instruction.Given "8".toList 8 := Instruction.operand_ok_iff.mp rfl
  have written := Instruction.written_joined .set (List.cons_ne_nil _ _) few
    (.cons eight (.cons given .nil))
  rw [List.intercalate_cons_cons, List.intercalate_singleton] at written
  exact written

/-- The name of the label is made of letters, and behind the comma there is none. -/
theorem loop_absent (given : Instruction.Given start n) :
    ¬"loop".toList <:+: "set 8,".toList ++ start := by
  intro occurs
  have apart : ',' ∉ "loop".toList := by decide
  rcases @Text.infix_across_mark _ ',' apart "set 8".toList start occurs with early | late
  · revert early
    decide
  · obtain ⟨⟨literal, rfl, -⟩, -⟩ := given
    have member : 'l' ∈ literal.text := late.subset List.mem_cons_self
    rcases Symbolic.sign_or_digit member with plus | minus | digit
    · cases plus
    · cases minus
    · cases digit

theorem prepare_source (given : Instruction.Given start n) :
    Program.prepare (source start) = .ok (program start) := by
  have written := written_set given
  have collected : Label.collect (source start) = .ok [⟨"loop".toList, 2⟩] := by
    simp only [source, Label.collect, Label.collectFrom, Label.declare,
      written.settled.undeclared]
    rfl
  have resolved : Label.resolveLine [⟨"loop".toList, 2⟩] ("set 8,".toList ++ start) =
      "set 8,".toList ++ start := by
    simp only [Label.resolveLine, written.settled.undeclared]
    apply Label.substitute_absent
    intro label member
    rw [List.mem_singleton.mp member]
    exact loop_absent given
  have others : Move.expandFrom 1 ["mov 8".toList, [], "pop".toList, "inc 9".toList, "dec 8".toList,
      "mov 8".toList, "jnz 2".toList] = .ok (program start).lines.tail := rfl
  apply Program.prepare_single collected
  rw [source, List.map_cons, resolved]
  apply Move.expand_from_ok_iff.mpr
  exact .cons (Move.expand_line_other written.settled.plain) (Move.expand_from_ok_iff.mp others)

/-- What every turn finds and leaves: a register that is counted down, one that is counted up, and
no jump that is pending. -/
structure Counting (registers : Register → Cell) (left done : Cell) : Prop where
  left : registers 8 = left
  done : registers 9 = done
  clear : registers .jump = .zero

variable {registers : Register → Cell} {left done : Cell} {size : Nat} {cells : List Cell}

/-- Operands are staged below the registers that are counted. -/
theorem Counting.staged (counting : Counting registers left done) (operand : Int) :
    Counting (Sheet.staged [operand] ⟨registers, size, cells, []⟩).registers left done :=
  ⟨counting.left, counting.done, counting.clear⟩

theorem Counting.down (counting : Counting registers left done) (c : Cell) :
    Counting (Function.update registers 8 c) c done where
  left := Function.update_self ..
  done := counting.done
  clear := counting.clear

theorem Counting.up (counting : Counting registers left done) (c : Cell) :
    Counting (Function.update registers 9 c) left c where
  left := counting.left
  done := Function.update_self ..
  clear := counting.clear

theorem Counting.loaded (counting : Counting registers left done) (c : Cell) :
    Counting (Function.update registers .arg1 c) left done :=
  ⟨counting.left, counting.done, counting.clear⟩

theorem Counting.landed (counting : Counting registers left done) (c : Cell) :
    Counting (Function.update (Function.update registers .jump c) .jump .zero) left done where
  left := counting.left
  done := counting.done
  clear := Function.update_self ..

section Instructions

variable {line here : Nat}

theorem block_up (counting : Counting registers left done)
    (fetches : (program start).Fetches line here ⟨.increment, [9]⟩) :
    ∃ after, Counting after left done.increment ∧
      Block (program start) 1 line ⟨registers, size, cells, []⟩ (here + 1)
        ⟨after, size, cells, []⟩ := by
  let found : Sheet := Sheet.staged [9] ⟨registers, size, cells, []⟩
  have staged : Counting found.registers left done := counting.staged 9
  have quietly := @Sheet.quietly_update found 9 (fun c _ => c.increment) rfl
  rw [staged.done] at quietly
  have after := staged.up done.increment
  exact ⟨_, after, Machine.block_plain fetches quietly after.clear⟩

theorem block_down (counting : Counting registers left done)
    (fetches : (program start).Fetches line here ⟨.decrement, [8]⟩) :
    ∃ after, Counting after left.decrement done ∧
      Block (program start) 1 line ⟨registers, size, cells, []⟩ (here + 1)
        ⟨after, size, cells, []⟩ := by
  let found : Sheet := Sheet.staged [8] ⟨registers, size, cells, []⟩
  have staged : Counting found.registers left done := counting.staged 8
  have quietly := @Sheet.quietly_update found 8 (fun c _ => c.decrement) rfl
  rw [staged.left] at quietly
  have after := staged.down left.decrement
  exact ⟨_, after, Machine.block_plain fetches quietly after.clear⟩

theorem block_show (counting : Counting registers left done) (room : 0 < size)
    (fetches : (program start).Fetches line here ⟨.registerToStack, [8]⟩) :
    ∃ after, Counting after left done ∧
      Block (program start) 1 line ⟨registers, size, [], []⟩ (here + 1)
        ⟨after, size, [left], []⟩ := by
  let found : Sheet := Sheet.staged [8] ⟨registers, size, [], []⟩
  have staged : Counting found.registers left done := counting.staged 8
  have quietly := @Sheet.quietly_to_stack found 8 rfl room
  rw [staged.left] at quietly
  exact ⟨_, staged, Machine.block_plain fetches quietly staged.clear⟩

/-- The last instruction of a turn begins the next one, unless the cell it looks at is zero. -/
theorem block_jump (counting : Counting registers left done)
    (fetches : (program start).Fetches line here ⟨.jumpNonzero, [2]⟩) :
    ∃ after, Counting after left done ∧
      Block (program start) 1 line ⟨registers, size, [left], []⟩
        (if left.int = 0 then here + 1 else 2) ⟨after, size, [left], []⟩ := by
  let found : Sheet := Sheet.staged [2] ⟨registers, size, [left], []⟩
  have staged : Counting found.registers left done := counting.staged 2
  have loaded := staged.loaded left
  have quietly := @Sheet.quietly_jump_nonzero found
  have bottom : found.cells.headD .zero = left := rfl
  rw [bottom] at quietly
  by_cases zero : left.int = 0
  · rw [if_pos zero] at quietly ⊢
    exact ⟨_, loaded, Machine.block_plain fetches quietly loaded.clear⟩
  · rw [if_neg zero] at quietly ⊢
    exact ⟨_, loaded.landed (.ofInt 2), Machine.block_leap fetches quietly rfl (Nat.succ_ne_zero 1)⟩

end Instructions

/-- One turn, from the line of the label on: the label stands on a line that is passed over. -/
theorem block_turn (counting : Counting registers left done) (room : 0 < size) :
    ∃ after, Counting after left.decrement done.increment ∧
      Block (program start) 5 2 ⟨registers, size, [left], []⟩
        (if left.decrement.int = 0 then 8 else 2) ⟨after, size, [left.decrement], []⟩ := by
  have fetches_pop : (program start).Fetches 2 3 ⟨.pop, []⟩ :=
    Program.fetches_behind rfl rfl (Program.fetches_here rfl rfl)
  have fetches_up : (program start).Fetches 4 4 ⟨.increment, [9]⟩ := Program.fetches_here rfl rfl
  have fetches_down : (program start).Fetches 5 5 ⟨.decrement, [8]⟩ :=
    Program.fetches_here rfl rfl
  have fetches_show : (program start).Fetches 6 6 ⟨.registerToStack, [8]⟩ :=
    Program.fetches_here rfl rfl
  have fetches_jump : (program start).Fetches 7 7 ⟨.jumpNonzero, [2]⟩ :=
    Program.fetches_here rfl rfl
  let found : Sheet := Sheet.staged [] ⟨registers, size, [left], []⟩
  have popped := Machine.block_plain fetches_pop (@Sheet.quietly_discard found [] left rfl)
    counting.clear
  obtain ⟨second, counting_second, up⟩ := block_up counting fetches_up
  obtain ⟨third, counting_third, down⟩ := block_down counting_second fetches_down
  obtain ⟨fourth, counting_fourth, shown⟩ := block_show counting_third room fetches_show
  obtain ⟨fifth, counting_fifth, jumped⟩ := block_jump counting_fourth fetches_jump
  exact ⟨fifth, counting_fifth, (((popped.trans up).trans down).trans shown).trans jumped⟩

/-- A register that is counted down is not clear before all turns are made. -/
theorem turns_left {turns : Nat} (some : 0 < turns) (last : turns < 2 ^ 32) :
    (Cell.ofInt turns).int ≠ 0 := by
  intro clear
  have congruent := (Cell.residue_of_int turns).congruent
  rw [clear] at congruent
  have none : (0 : Int) % 2 ^ 32 = turns % 2 ^ 32 := congruent
  omega

/-- The whole loop, by induction on the turns that are left. -/
theorem block_turns {turns : Nat} {i : Int} (first : 1 ≤ turns) (last : turns ≤ 2 ^ 32)
    (counting : Counting registers (.ofInt turns) (.ofInt i)) (room : 0 < size) :
    ∃ after, Counting after .zero (.ofInt (i + turns)) ∧
      Block (program start) (5 * turns) 2 ⟨registers, size, [.ofInt turns], []⟩ 8
        ⟨after, size, [.zero], []⟩ := by
  induction turns generalizing registers i with
  | zero => omega
  | succ turns ih =>
      obtain ⟨after, counting_after, turn⟩ := @block_turn start _ _ _ _ counting room
      have left : (Cell.ofInt (turns + 1 : Nat)).decrement = .ofInt turns := by
        rw [Cell.decrement_of_int, Int.natCast_succ, Int.add_sub_cancel]
      rw [left] at counting_after turn
      rw [Cell.increment_of_int] at counting_after
      -- The last turn leaves the loop, and every other one begins the next.
      rcases Nat.eq_zero_or_pos turns with rfl | more
      · exact ⟨after, counting_after, turn⟩
      · rw [if_neg (turns_left more last)] at turn
        obtain ⟨final, counting_final, rest⟩ := ih more (Nat.le_of_lt last) counting_after
        have sum : i + 1 + turns = i + (turns + 1 : Nat) := by omega
        have total : 5 + 5 * turns = 5 * (turns + 1) := by omega
        rw [sum] at counting_final
        have both := turn.trans rest
        rw [total] at both
        exact ⟨final, counting_final, both⟩

/-- The two instructions before the loop. -/
theorem block_start (given : Instruction.Given start n) (room : 0 < size) :
    ∃ after, Counting after (.ofInt n) .zero ∧
      Block (program start) 2 0 (.blank size) 2 ⟨after, size, [.ofInt n], []⟩ := by
  have fetches_set : (program start).Fetches 0 0 ⟨.set, [8, n]⟩ :=
    Program.fetches_here rfl (written_set given).decodes
  have fetches_show : (program start).Fetches 1 1 ⟨.registerToStack, [8]⟩ :=
    Program.fetches_here rfl rfl
  let found : Sheet := Sheet.staged [8, n] (.blank size)
  have fresh : Counting found.registers .zero .zero := ⟨rfl, rfl, rfl⟩
  have counting := fresh.down (.ofInt n)
  have quietly := @Sheet.quietly_set found 8 rfl
  have block := Machine.block_plain fetches_set quietly counting.clear
  obtain ⟨after, counting_after, shown⟩ := block_show counting room fetches_show
  exact ⟨after, counting_after, block.trans shown⟩

/-- How many turns are made from a value on. -/
structure Turns (n : Int) (turns : Nat) : Prop where
  first : 1 ≤ turns
  last : turns ≤ 2 ^ 32
  congruent : turns ≡ n [ZMOD 2 ^ 32]

theorem Turns.unique {turns other : Nat} (one : Turns n turns) (another : Turns n other) :
    other = turns := by
  have same : (other : Int) % 2 ^ 32 = turns % 2 ^ 32 := another.congruent.trans one.congruent.symm
  have first := one.first
  have last := one.last
  have first_other := another.first
  have last_other := another.last
  omega

theorem exists_turns (n : Int) : ∃ turns, Turns n turns := by
  refine ⟨((n - 1) % 2 ^ 32).toNat + 1, by omega, by omega, ?_⟩
  change ((((n - 1) % 2 ^ 32).toNat + 1 : Nat) : Int) % 2 ^ 32 = n % 2 ^ 32
  omega

theorem Turns.of_pos {turns : Nat} (one : Turns n turns) (fits : Instruction.Fits n)
    (positive : 0 < n) : (turns : Int) = n := by
  have same : (turns : Int) % 2 ^ 32 = n % 2 ^ 32 := one.congruent
  have first := one.first
  have last := one.last
  have low := fits.1
  have high := fits.2
  omega

/-- The loop is left after as many turns as there are from its start value down to zero, with that
value counted up again in another register and zero on the stack. Nothing is shown but the traces
that have been asked for. -/
theorem countdown_comes_to_zero (given : Instruction.Given start n) (setup : Machine.Setup)
    (size : Nat) (whole : setup.capacity.whole? = some (size : Int)) (room : 1 ≤ size)
    (fits : size ≤ 4294967295) :
    ∃ turns, Turns n turns ∧ (∀ other, Turns n other → other = turns) ∧
      (0 < n → (turns : Int) = n) ∧
      ∃ m final, Machine.build (source start) setup = .ok m ∧
        (∀ fuel, 2 + 5 * turns ≤ fuel →
          m.run none fuel = .ended (.ok ⟨2 + 5 * turns, true⟩ final)) ∧
        (final.registers.get 8).int = 0 ∧ (final.registers.get 9).int = n ∧
        (final.registers.get .jump).int = 0 ∧ final.stack.toList.map Cell.int = [0] ∧
        (∀ event ∈ final.log.toList, event.isTrace = true) ∧
        (setup.trace = false → final.log = #[]) := by
  obtain ⟨turns, one⟩ := exists_turns n
  have same : Cell.ofInt n = .ofInt turns := Cell.of_int_eq_of_modeq one.congruent.symm
  obtain ⟨m, built, traced, fresh⟩ :=
    Machine.standing_of_build (prepare_source given) whole room fits
  obtain ⟨before, counting, start_block⟩ := block_start given room
  rw [same] at counting start_block
  obtain ⟨after, counted, loop_block⟩ := @block_turns start _ _ _ 0 one.first one.last counting room
  rw [Int.zero_add, ← same] at counted
  obtain ⟨final, left, trace, runs⟩ := (start_block.trans loop_block).run (Nat.le_refl 8) fresh
  have registers : final.registers.get = after := left.registers
  have cells : final.stack.toList = [.zero] := left.cells
  refine ⟨turns, one, fun other another => one.unique another, one.of_pos given.2, m, final, built,
    runs, ?_, ?_, ?_, ?_, fun event member => (left.quiet event member).2, ?_⟩
  · rw [registers, counted.left]
    rfl
  · rw [registers, counted.done, Instruction.int_of_fits given.2]
  · rw [registers, counted.clear]
    rfl
  · rw [cells]
    rfl
  · intro untraced
    exact left.untraced ((trace.trans traced).trans untraced)

/-- From zero the register goes all the way around. -/
theorem countdown_comes_to_zero_around :
    Instruction.Given "-0".toList 0 ∧ (Double.ofInt 1).whole? = some 1 ∧ Turns 0 4294967296 ∧
      ∃ m final, Machine.build (source "-0".toList) ⟨false, Double.ofInt 1⟩ = .ok m ∧
        m.run none 21474836482 = .ended (.ok ⟨21474836482, true⟩ final) ∧
        (final.registers.get 8).int = 0 ∧ (final.registers.get 9).int = 0 ∧
        (final.registers.get .jump).int = 0 ∧ final.stack.toList.map Cell.int = [0] ∧
        final.log = #[] := by
  have given : Instruction.Given "-0".toList 0 := Instruction.operand_ok_iff.mp rfl
  have whole : (Double.ofInt 1).whole? = some ((1 : Nat) : Int) := rfl
  have around : Turns 0 4294967296 := ⟨by decide, by decide, by decide⟩
  obtain ⟨turns, one, unique, -, m, final, built, runs, down, up, clear, cells, -, silent⟩ :=
    countdown_comes_to_zero given ⟨false, Double.ofInt 1⟩ 1 whole (Nat.le_refl 1) (by decide)
  have all : 4294967296 = turns := unique _ around
  have count : 2 + 5 * turns = 21474836482 := by omega
  rw [count] at runs
  exact ⟨given, whole, around, m, final, built, runs _ (Nat.le_refl _), down, up, clear, cells,
    silent rfl⟩

end StackMachine.Countdown
