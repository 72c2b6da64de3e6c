import StackMachine.Launch
import StackMachine.Proofs.Pieces
import StackMachine.Proofs.Preparing

/-!
# Limits that are large enough

A run that ends by itself ends in the same way under every limit above the number of
its instructions. A limit of exactly that number lets it execute all of them too, but
the run then stops where it stands: blank lines and comments behind the last instruction
are not passed over any more, and with any of them left the machine has not halted.
-/

namespace StackMachine

set_option autoImplicit false

/-- The program file at a path, set up as the options and the surroundings say, gives
the machine. -/
def Launch.Loads (tree : FileTree) (path : Text) (options : Options) (environment : Environment)
    (machine : Machine) : Prop :=
  ∃ octets, tree.read path = .contents octets ∧
    Machine.build (Text.lines (Utf8.decode octets))
      { trace := options.trace || isOn environment.debugTrace } = .ok machine

namespace Machine

variable {m final : Machine}

/-- A machine behind its last instruction, and the same one when it has run to its end:
there are only blank lines and comments between the two. -/
structure Finishes (stopped final : Machine) : Prop where
  idle : ∀ index text, stopped.pointer ≤ index →
    stopped.program.lines[index]? = some text → Statement.isSkipped text = true
  halted : final.halted = true
  pointer : final.pointer = max stopped.pointer stopped.program.lines.length
  registers : final.registers = stopped.registers
  stack : final.stack = stopped.stack
  log : final.log = stopped.log
  program : final.program = stopped.program
  executed : final.executed = stopped.executed
  alone : stopped.halted = true → final = stopped

theorem finishes_finish (nothing : m.fetch = none) : Finishes m m.finish where
  idle := skipped_of_fetch nothing
  halted := halted_finish m
  pointer := rfl
  registers := rfl
  stack := rfl
  log := rfl
  program := rfl
  executed := rfl
  alone := finish_of_halted

theorem finishes_of_halted (halts : m.halted = true) : Finishes m m := by
  have finishes := finishes_finish (fetch_halted halts)
  rwa [finish_of_halted halts] at finishes

/-- By induction on the steps made: all but the last of them execute an instruction, and
the last one may only pass over what is left. -/
theorem advance_of_ended {fuel steps : Nat} (advanced : advance fuel m = .ok () final)
    (halts : final.halted = true) (counted : final.executed = m.executed + steps) :
    ∃ stopped, Finishes stopped final ∧ advance steps m = .ok () stopped ∧
      ∀ more, steps < more → advance more m = .ok () final := by
  induction fuel generalizing m steps with
  | zero =>
      cases advanced
      have none : steps = 0 := by omega
      rw [none]
      exact ⟨_, finishes_of_halted halts, rfl, fun more _ => advance_halted halts more⟩
  | succ fuel ih =>
      cases going : m.halted with
      | true =>
          rw [advance_halted going] at advanced
          cases advanced
          have none : steps = 0 := by omega
          rw [none]
          exact ⟨_, finishes_of_halted halts, rfl, fun more _ => advance_halted halts more⟩
      | false =>
          rw [advance_going going] at advanced
          cases taken : m.step with
          | error failure stopped =>
              rw [taken] at advanced
              cases advanced
          | ok continues next =>
              rw [taken] at advanced
              simp only at advanced
              rcases executed_of_stepped (stepped_of_step taken).1 with ⟨nothing, last⟩ | one
              · rw [last, advance_halted (halted_finish m)] at advanced
                cases advanced
                have none : steps = 0 := by
                  have same : m.finish.executed = m.executed := rfl
                  omega
                rw [none]
                refine ⟨m, finishes_finish nothing, rfl, ?_⟩
                intro more some
                obtain ⟨rest, large⟩ := Nat.exists_eq_succ_of_ne_zero (Nat.ne_of_gt some)
                rw [large, advance_going going, taken, last]
                exact advance_halted (halted_finish m) rest
              · have behind := executed_le_of_advance advanced
                obtain ⟨others, left⟩ : ∃ others, steps = others + 1 := ⟨steps - 1, by omega⟩
                obtain ⟨stopped, finishes, exact_steps, more_steps⟩ :=
                  ih advanced (by omega : final.executed = next.executed + others)
                refine ⟨stopped, finishes, ?_, ?_⟩
                · rw [left, advance_going going, taken]
                  exact exact_steps
                · intro more larger
                  obtain ⟨rest, large⟩ : ∃ rest, more = rest + 1 := ⟨more - 1, by omega⟩
                  rw [large, advance_going going, taken]
                  exact more_steps rest (by omega)

theorem ended_of_run {fuel steps : Nat}
    (ended : m.run none fuel = .ended (.ok ⟨steps, true⟩ final)) :
    advance fuel m = .ok () final ∧ final.halted = true ∧
      final.executed = m.executed + steps := by
  have ran := ((run_none_iff fuel).mp ended).1
  rw [runFor] at ran
  cases advanced : advance fuel m with
  | error failure stopped =>
      rw [advanced] at ran
      cases ran
  | ok value last =>
      have behind := executed_le_of_advance advanced
      simp only [advanced, EStateM.Result.ok.injEq, Summary.mk.injEq] at ran
      obtain ⟨⟨counted, halts⟩, rfl⟩ := ran
      exact ⟨rfl, halts.symm, by omega⟩

/-- Launching a file is running the machine that is loaded from it. -/
theorem run_file_of_loads {tree : FileTree} {path : Text} {options : Launch.Options}
    {environment : Launch.Environment} (loads : Launch.Loads tree path options environment m)
    (maxSteps : Option Double) (fuel : Nat) :
    Launch.runFile tree path { options with maxSteps } environment fuel =
      Launch.runMachine { options with maxSteps } environment fuel m := by
  obtain ⟨octets, read, built⟩ := loads
  rw [Launch.runFile, read]
  unfold Launch.runReading
  simp only [built]

/-- A run that ends by itself, and the same run under a limit that its instructions do
not exceed. The limit makes no difference if it is larger; if it is exact, the run stops
behind the last instruction, and has halted there unless lines without a statement follow. -/
theorem limit_suffices {fuel steps : Nat}
    (ended : m.run none fuel = .ended (.ok ⟨steps, true⟩ final))
    {limit : Double} {allowed : Nat} (whole : limit.whole? = some (allowed : Int))
    (enough : steps ≤ allowed) :
    ∃ stopped, Finishes stopped final ∧ (steps < allowed → stopped = final) ∧
      (∀ more, m.run (some limit) more = .ended (.ok ⟨steps, stopped.halted⟩ stopped)) ∧
      ∀ tree path options environment, Launch.Loads tree path options environment m →
        ∃ shown,
          Launch.runFile tree path { options with maxSteps := none } environment fuel =
            ⟨shown, some 0⟩ ∧
          ∀ more,
            Launch.runFile tree path { options with maxSteps := some limit } environment more =
              if stopped.halted then ⟨shown, some 0⟩
              else ⟨shown ++ [.warn ("Error: " ++ ("Step limit reached after " ++
                Text.decimal steps ++ " instructions (line " ++ Text.decimal stopped.pointer ++
                ")"))], some 1⟩ := by
  obtain ⟨advanced, halts, counted⟩ := ended_of_run ended
  obtain ⟨behind, finishes, exact_steps, more_steps⟩ := advance_of_ended advanced halts counted
  obtain ⟨stopped, reached, ends, larger⟩ : ∃ stopped, advance allowed m = .ok () stopped ∧
      Finishes stopped final ∧ (steps < allowed → stopped = final) := by
    rcases Nat.lt_or_eq_of_le enough with larger | same
    · exact ⟨final, more_steps allowed larger, finishes_of_halted halts, fun _ => rfl⟩
    · rw [← same]
      exact ⟨behind, exact_steps, finishes, fun smaller => absurd smaller (Nat.lt_irrefl _)⟩
  have steps_eq : stopped.executed - m.executed = steps := by
    rw [← ends.executed]
    omega
  have ran : ∀ more, m.run (some limit) more = .ended (.ok ⟨steps, stopped.halted⟩ stopped) := by
    intro more
    simp only [run, budget_of_whole whole, runFor, reached, steps_eq]
  refine ⟨stopped, ends, larger, ran, ?_⟩
  intro tree path options environment loads
  let listing := if options.listing then m.program.listing.map Message.print else []
  refine ⟨listing ++ Launch.shown final, ?_, ?_⟩
  · rw [run_file_of_loads loads]
    simp only [Launch.runMachine, ended, if_true, listing]
  · intro more
    rw [run_file_of_loads loads]
    simp only [Launch.runMachine, ran, Launch.shown, ends.log, listing]
    rfl

/-- One instruction, and the empty line that a last line feed leaves behind it. -/
def endedLines : List Text := ["set 9,1".toList, []]

def endedFile : FileTree :=
  FileTree.empty.insert "code.txt".toList (Utf8.encode "set 9,1\n".toList)

def unended : Machine := { stray with program := ⟨endedLines, []⟩, trace := false }

theorem build_unended : build endedLines {} = .ok unended := by
  have prepared : Program.prepare endedLines = .ok ⟨endedLines, []⟩ :=
    Program.prepare_undeclared (by decide) rfl
  simp only [build, prepared]
  rfl

theorem loads_unended : Launch.Loads endedFile "code.txt".toList {} {} unended := by
  refine ⟨Utf8.encode "set 9,1\n".toList, rfl, ?_⟩
  have lines : Text.lines (Utf8.decode (Utf8.encode "set 9,1\n".toList)) = endedLines := rfl
  rw [lines]
  exact build_unended

theorem limit_suffices_unended :
    ∃ final, unended.run none 2 = .ended (.ok ⟨1, true⟩ final) ∧
      (Double.ofInt 2).whole? = some ((2 : Nat) : Int) ∧
      unended.run (some (Double.ofInt 2)) 0 = .ended (.ok ⟨1, true⟩ final) ∧
      (Launch.runFile endedFile "code.txt".toList { maxSteps := some (Double.ofInt 2) } {} 0).status =
        some 0 := by
  obtain ⟨final, ended⟩ : ∃ final, unended.run none 2 = .ended (.ok ⟨1, true⟩ final) := ⟨_, rfl⟩
  have whole : (Double.ofInt 2).whole? = some ((2 : Nat) : Int) := rfl
  obtain ⟨stopped, ends, larger, ran, launched⟩ :=
    limit_suffices ended whole (by decide)
  have same : stopped = final := larger (by decide)
  rw [same, ends.halted] at ran
  obtain ⟨shown, -, limited⟩ := launched _ _ {} {} loads_unended
  refine ⟨final, ended, whole, ran 0, ?_⟩
  rw [limited 0, same, if_pos ends.halted]

/-- A limit of exactly the instructions that a program takes can fall short of its end. -/
theorem exact_limit_falls_short :
    unended.Driven ∧ Launch.Loads endedFile "code.txt".toList {} {} unended ∧
      (∃ final, unended.run none 2 = .ended (.ok ⟨1, true⟩ final)) ∧
      (Launch.runFile endedFile "code.txt".toList {} {} 2).status = some 0 ∧
      (Double.ofInt 1).whole? = some ((1 : Nat) : Int) ∧
      (∃ stopped, unended.run (some (Double.ofInt 1)) 0 = .ended (.ok ⟨1, false⟩ stopped)) ∧
      (Launch.runFile endedFile "code.txt".toList { maxSteps := some (Double.ofInt 1) } {} 0).status =
        some 1 := by
  have driven : unended.Driven := .built build_unended
  have whole : (Double.ofInt 1).whole? = some ((1 : Nat) : Int) := rfl
  obtain ⟨final, ended⟩ : ∃ final, unended.run none 2 = .ended (.ok ⟨1, true⟩ final) := ⟨_, rfl⟩
  obtain ⟨stopped, short⟩ : ∃ stopped,
      unended.run (some (Double.ofInt 1)) 0 = .ended (.ok ⟨1, false⟩ stopped) := by
    refine ⟨after (runFor 1 unended), ?_⟩
    simp only [run, budget_of_whole whole]
    rfl
  refine ⟨driven, loads_unended, ⟨final, ended⟩, ?_, whole, ⟨stopped, short⟩, ?_⟩
  · have launched := run_file_of_loads loads_unended none 2
    rw [launched, Launch.runMachine, ended]
    rfl
  · have launched := run_file_of_loads loads_unended (some (Double.ofInt 1)) 0
    rw [launched, Launch.runMachine, short]
    rfl

end Machine

end StackMachine
