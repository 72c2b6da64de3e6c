import StackMachine.Stack

/-!
# Requests to a stack

A pile is a list of cells that never outgrows its capacity. A push goes to its end or is
refused, a pop takes from its end or misses, and its bottom cell is its first one. A stack
answers every sequence of requests as the pile does that starts empty, although it has only
a row of slots and a depth to answer from.
-/

namespace StackMachine

set_option autoImplicit false

namespace Stack

inductive Request where
  | push (c : Cell)
  | pop
  | bottom
  | list

inductive Reply where
  | accepted (whether : Bool)
  | cell (c : Cell)
  | cells (cells : List Cell)
deriving DecidableEq

/-- What a request gives back and reports, and what can be seen of the stack afterwards. -/
structure Answer where
  reply : Reply
  fault : Option Fault
  top : Int
  depth : Nat
deriving DecidableEq

def serve (stack : Stack) : Request → Reply × Option Fault × Stack
  | .push c => (.accepted (stack.push c).1.isNone, stack.push c)
  | .pop => (.cell stack.pop.1, stack.pop.2)
  | .bottom => (.cell stack.bottom, none, stack)
  | .list => (.cells stack.toList, none, stack)

def answers : Stack → List Request → List Answer
  | _, [] => []
  | stack, request :: rest =>
      let (reply, fault, next) := stack.serve request
      ⟨reply, fault, next.top, next.depth⟩ :: answers next rest

def left (stack : Stack) (requests : List Request) : Stack :=
  requests.foldl (fun stack request => (stack.serve request).2.2) stack

end Stack

structure Pile (capacity : Nat) where
  cells : List Cell
  fits : cells.length ≤ capacity

namespace Pile

open Stack (Request Reply Answer)

variable {capacity : Nat}

def empty (capacity : Nat) : Pile capacity := ⟨[], Nat.zero_le capacity⟩

def add (pile : Pile capacity) (room : pile.cells.length < capacity) (c : Cell) :
    Pile capacity :=
  ⟨pile.cells ++ [c], by rw [List.length_append]; exact room⟩

def push (pile : Pile capacity) (c : Cell) : Reply × Option Fault × Pile capacity :=
  if room : pile.cells.length < capacity then (.accepted true, none, pile.add room c)
  else (.accepted false, some (.overflow c), pile)

def dropLast (pile : Pile capacity) : Pile capacity :=
  ⟨pile.cells.dropLast, Nat.le_trans (by simp) pile.fits⟩

def pop (pile : Pile capacity) : Reply × Option Fault × Pile capacity :=
  match pile.cells.getLast? with
  | some c => (.cell c, none, pile.dropLast)
  | none => (.cell .zero, some .underflow, pile)

def serve (pile : Pile capacity) : Request → Reply × Option Fault × Pile capacity
  | .push c => pile.push c
  | .pop => pile.pop
  | .bottom => (.cell (pile.cells.headD .zero), none, pile)
  | .list => (.cells pile.cells, none, pile)

def answers : Pile capacity → List Request → List Answer
  | _, [] => []
  | pile, request :: rest =>
      let (reply, fault, next) := pile.serve request
      ⟨reply, fault, (next.cells.length : Int) - 1, next.cells.length⟩ :: answers next rest

def left (pile : Pile capacity) (requests : List Request) : Pile capacity :=
  requests.foldl (fun pile request => (pile.serve request).2.2) pile

theorem push_room {pile : Pile capacity} (room : pile.cells.length < capacity) (c : Cell) :
    pile.push c = (.accepted true, none, pile.add room c) := by
  rw [push, dif_pos room]

theorem push_full {pile : Pile capacity} (full : ¬pile.cells.length < capacity) (c : Cell) :
    pile.push c = (.accepted false, some (.overflow c), pile) := by
  rw [push, dif_neg full]

theorem pop_live {pile rest : Pile capacity} {c : Cell} (live : pile.cells = rest.cells ++ [c]) :
    pile.pop = (.cell c, none, rest) := by
  have last : pile.cells.getLast? = some c := by rw [live, List.getLast?_concat]
  have others : pile.dropLast = rest := by
    cases rest
    simp only [dropLast, live, List.dropLast_concat]
  simp only [pop, last, others]

theorem pop_empty {pile : Pile capacity} (none_left : pile.cells = []) :
    pile.pop = (.cell .zero, some .underflow, pile) := by
  have last : pile.cells.getLast? = none := by rw [none_left, List.getLast?_nil]
  simp only [pop, last]

theorem answers_append (pile : Pile capacity) (first second : List Request) :
    pile.answers (first ++ second) = pile.answers first ++ (pile.left first).answers second := by
  induction first generalizing pile with
  | nil => rfl
  | cons request rest ih => exact congrArg (List.cons _) (ih _)

theorem left_append (pile : Pile capacity) (first second : List Request) :
    pile.left (first ++ second) = (pile.left first).left second := List.foldl_append

/-- Pushes, and then a pop for each of them. -/
def inAndOut (cells : List Cell) : List Request :=
  cells.map Request.push ++ List.replicate cells.length .pop

theorem in_and_out_cons (c : Cell) (cells : List Cell) :
    inAndOut (c :: cells) = .push c :: (inAndOut cells ++ [.pop]) := by
  simp only [inAndOut, List.map_cons, List.length_cons, List.replicate_succ', List.cons_append,
    List.append_assoc]

def granted : Reply := .accepted true

/-- By induction on the cells: the first one goes in first, and it comes out last, because
everything above it has come out before and the pile is as the first push has left it. -/
theorem in_and_out (pile : Pile capacity) (cells : List Cell)
    (accepted : ∀ answer ∈ pile.answers (cells.map .push), answer.reply = granted) :
    (pile.answers (inAndOut cells)).map (fun answer => (answer.reply, answer.fault)) =
        cells.map (fun _ => (granted, none)) ++ cells.reverse.map (fun c => (.cell c, none)) ∧
      pile.left (inAndOut cells) = pile := by
  induction cells generalizing pile with
  | nil => exact ⟨rfl, rfl⟩
  | cons c rest ih =>
      have room : pile.cells.length < capacity := by
        by_cases room : pile.cells.length < capacity
        · exact room
        · have first : (pile.push c).1 = granted := accepted _ (List.mem_cons_self ..)
          rw [push_full room] at first
          cases first
      let higher := pile.add room c
      have pushed : pile.serve (.push c) = (granted, none, higher) := push_room room c
      have popped : higher.serve .pop = (.cell c, none, pile) := pop_live rfl
      obtain ⟨answered, back⟩ := ih higher (by
        intro answer member
        apply accepted
        simp only [List.map_cons, answers, pushed]
        exact List.mem_cons_of_mem _ member)
      constructor
      · rw [in_and_out_cons]
        simp only [answers, pushed, answers_append, back, popped, List.map_cons, List.map_append,
          answered, List.reverse_cons, List.map_nil, List.append_assoc, List.cons_append]
      · have onward : pile.left (inAndOut (c :: rest)) = higher.left (inAndOut rest ++ [.pop]) := by
          rw [in_and_out_cons]
          simp only [left, List.foldl_cons, pushed]
        rw [onward, left_append, back]
        exact congrArg (fun served => served.2.2) popped

end Pile

namespace Stack

variable {capacity : Nat} {stack : Stack} {pile : Pile capacity}

/-- The live cells of the stack are those of the pile, and its row has as many slots as the
pile has room. -/
structure Holds (stack : Stack) (pile : Pile capacity) : Prop where
  formed : stack.WellFormed
  capacity_eq : stack.capacity = capacity
  cells_eq : stack.toList = pile.cells

theorem holds_empty (capacity : Nat) : Holds (empty capacity) (Pile.empty capacity) where
  formed := well_formed_empty capacity
  capacity_eq := by simp [empty, Stack.capacity]
  cells_eq := to_list_empty capacity

namespace Holds

theorem depth_eq (holds : Holds stack pile) : stack.depth = pile.cells.length := by
  rw [← length_to_list holds.formed, holds.cells_eq]

/-- One request is answered alike, and what is left is held again. -/
theorem serve (holds : Holds stack pile) (request : Request) :
    ∃ next, stack.serve request =
        ((pile.serve request).1, (pile.serve request).2.1, next) ∧
      Holds next (pile.serve request).2.2 := by
  have depth := holds.depth_eq
  have capacity_eq := holds.capacity_eq
  cases request with
  | push c =>
      by_cases room : pile.cells.length < capacity
      · have within : stack.depth < stack.capacity := by omega
        have accepted : (stack.push c).1 = none := by rw [push, if_neg (by omega)]
        refine ⟨(stack.push c).2, ?_, ?_⟩
        · simp only [Stack.serve, Pile.serve, Pile.push_room room, accepted, Option.isNone_none]
          rw [← accepted]
        · simp only [Pile.serve, Pile.push_room room]
          refine ⟨well_formed_push holds.formed c, (capacity_push stack c).trans capacity_eq, ?_⟩
          rw [to_list_push within, holds.cells_eq]
          rfl
      · have full : stack.depth = stack.capacity := by
          have fits := holds.formed.fits
          omega
        refine ⟨stack, ?_, ?_⟩
        · simp only [Stack.serve, Pile.serve, Pile.push_full room, push_full full,
            Option.isNone_some]
        · simp only [Pile.serve, Pile.push_full room]
          exact holds
  | pop =>
      by_cases live : 0 < stack.depth
      · have last := to_list_pop holds.formed live
        have found : stack.pop.2.1 = none := by
          rw [pop]
          split
          · omega
          · rfl
        let rest : Pile capacity := ⟨stack.pop.2.2.toList, by
          have fits := pile.fits
          rw [← holds.cells_eq, last, List.length_append] at fits
          omega⟩
        have popped : pile.pop = (.cell stack.pop.1, none, rest) := by
          apply Pile.pop_live
          rw [← holds.cells_eq, last]
        refine ⟨stack.pop.2.2, ?_, ?_⟩
        · simp only [Stack.serve, Pile.serve, popped]
          rw [← found]
        · simp only [Pile.serve, popped]
          exact ⟨well_formed_pop holds.formed, (capacity_pop stack).trans capacity_eq, rfl⟩
      · have nothing : stack.depth = 0 := by omega
        have none_left : pile.cells = [] := List.length_eq_zero_iff.mp (by omega)
        refine ⟨stack, ?_, ?_⟩
        · simp only [Stack.serve, Pile.serve, Pile.pop_empty none_left, pop, nothing]
        · simp only [Pile.serve, Pile.pop_empty none_left]
          exact holds
  | bottom =>
      refine ⟨stack, ?_, holds⟩
      simp only [Stack.serve, Pile.serve, bottom_eq holds.formed, holds.cells_eq]
  | list =>
      refine ⟨stack, ?_, holds⟩
      simp only [Stack.serve, Pile.serve, holds.cells_eq]

theorem answers_eq (holds : Holds stack pile) (requests : List Request) :
    stack.answers requests = pile.answers requests := by
  induction requests generalizing stack pile with
  | nil => rfl
  | cons request rest ih =>
      obtain ⟨next, served, held⟩ := holds.serve request
      simp only [answers, Pile.answers, served, ih held, top, held.depth_eq]

theorem left (holds : Holds stack pile) (requests : List Request) :
    Holds (stack.left requests) (pile.left requests) := by
  induction requests generalizing stack pile with
  | nil => exact holds
  | cons request rest ih =>
      obtain ⟨next, served, held⟩ := holds.serve request
      have onward : stack.left (request :: rest) = next.left rest := by
        simp only [Stack.left, List.foldl_cons, served]
      rw [onward]
      exact ih held

end Holds

/-- A stack of any positive capacity that a row can have is a list of at most that length: it
gives the answers of the list, with the same faults, top and depth, to every sequence of
requests. So at any time cells that are accepted come out again in reverse, and nothing is
reported. -/
theorem answers_of_bounded_list {requested : Double} {size : Int}
    (whole : requested.whole? = some size) (positive : 0 < size) (fits : size ≤ 4294967295) :
    ∃ stack, ofCapacity requested = .ok stack ∧ stack.capacity = size.toNat ∧
      (∀ requests, stack.answers requests = (Pile.empty size.toNat).answers requests) ∧
      ∀ (earlier : List Request) (cells : List Cell),
        (∀ answer ∈ (stack.left earlier).answers (cells.map .push),
          answer.reply = .accepted true) →
        ((stack.left earlier).answers
            (cells.map .push ++ List.replicate cells.length .pop)).map
              (fun answer => (answer.reply, answer.fault)) =
          cells.map (fun _ => (.accepted true, none)) ++
            cells.reverse.map fun c => (.cell c, none) := by
  have holds := holds_empty size.toNat
  refine ⟨empty size.toNat, ?_, holds.capacity_eq, holds.answers_eq, ?_⟩
  · refine of_capacity_ok_iff.mpr ⟨size.toNat, ?_, by omega, ?_, rfl⟩
    · rw [whole, Int.toNat_of_nonneg (Int.le_of_lt positive)]
    · rw [longest]
      omega
  · intro earlier cells accepted
    have held := holds.left earlier
    rw [held.answers_eq] at accepted ⊢
    exact (Pile.in_and_out _ cells accepted).1

/-- Two slots, and more pushes and pops than they can serve. -/
def crowding : List Request := [.pop, .push ⟨1⟩, .push ⟨2⟩, .push ⟨3⟩, .pop, .pop, .pop, .bottom]

theorem answers_of_bounded_list_crowded :
    (Double.ofInt 2).whole? = some 2 ∧ (0 : Int) < 2 ∧ (2 : Int) ≤ 4294967295 ∧
      ∃ stack, ofCapacity (Double.ofInt 2) = .ok stack ∧
        (stack.answers crowding).map (fun answer => (answer.reply, answer.fault)) =
          [(.cell .zero, some .underflow), (.accepted true, none), (.accepted true, none),
            (.accepted false, some (.overflow ⟨3⟩)), (.cell ⟨2⟩, none), (.cell ⟨1⟩, none),
            (.cell .zero, some .underflow), (.cell .zero, none)] ∧
        (∀ answer ∈ (stack.left [.pop]).answers ([⟨1⟩, ⟨2⟩].map .push),
          answer.reply = .accepted true) ∧
        ((stack.left [.pop]).answers ([⟨1⟩, ⟨2⟩].map .push ++ List.replicate 2 .pop)).map
            (fun answer => (answer.reply, answer.fault)) =
          [(.accepted true, none), (.accepted true, none), (.cell ⟨2⟩, none), (.cell ⟨1⟩, none)] := by
  have whole : (Double.ofInt 2).whole? = some 2 := rfl
  obtain ⟨stack, made, -, same, back⟩ := answers_of_bounded_list whole (by decide) (by decide)
  have fresh : stack = empty 2 := by
    have other : ofCapacity (Double.ofInt 2) = .ok (empty 2) := rfl
    rw [other] at made
    cases made
    rfl
  have accepted : ∀ answer ∈ (stack.left [.pop]).answers ([⟨1⟩, ⟨2⟩].map .push),
      answer.reply = .accepted true := by
    rw [fresh]
    decide
  refine ⟨whole, by decide, by decide, stack, made, ?_, accepted, back [.pop] [⟨1⟩, ⟨2⟩] accepted⟩
  rw [same crowding]
  rfl

end Stack

end StackMachine
