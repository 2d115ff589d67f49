import Dinamite.Instrument.ControlFlow

/-!
# The search for a long path

`Util.cpp`: the lines of a function, and the depth-first search that keeps one
set of lines for each block it has visited.
-/

namespace Dinamite.Util

open Dinamite.Instrument

/-! ## Lines -/

/-- `curline`; -1 without debug information. -/
def curline : Option DebugLoc → Int
  | some loc => loc.line
  | none => -1

def insertLine
    (lineSet : Finset Int) (debugLoc : Option DebugLoc) : Finset Int :=
  if curline debugLoc ≠ -1 then
    insert (curline debugLoc) lineSet
  else
    lineSet

/-- The debug information of the instructions, the terminator included. -/
def debugLocs (block : Block) : List (Option DebugLoc) :=
  block.insts.map Inst.debugLoc ++ [block.terminator.debugLoc]

def calculateBlock (block : Block) : Finset Int :=
  (debugLocs block).foldl insertLine ∅

def getFunctionLOCSize (function : Function) : Nat :=
  ((function.blocks.flatMap debugLocs).foldl insertLine ∅).card

/-- Whether LLVM's `FindFunctionBackedges` finds an edge. -/
def checkFunctionLoops
    (findFunctionBackedges : Function → List (Nat × Nat))
    (function : Function) : Bool :=
  if function.blocks = [] then
    false
  else
    (findFunctionBackedges function).length ≠ 0

/-- The lines of the block at a position. -/
def blockLines (function : Function) (block : Nat) : Finset Int :=
  match function.blocks[block]? with
  | some found => calculateBlock found
  | none => ∅

/-- The lines of the blocks of a path. -/
def pathLines (function : Function) : List Nat → Finset Int
  | [] => ∅
  | block :: path => blockLines function block ∪ pathLines function path

/-! ## The search -/

/-- `map<BasicBlock *, set<int> >` -/
abbrev Visits := Nat → Option (Finset Int)

/-- One round of the loop over the successors: `visits` and `maxLineSet`. -/
def exploreSuccessor
    (explore : Visits → Nat → Option Visits)
    (currentBlockLineSet : Finset Int)
    (state : Visits × Finset Int) (successor : Nat) :
    Option (Visits × Finset Int) :=
  (explore state.1 successor).map fun visits =>
    let pLineSet := (visits successor).getD ∅ ∪ currentBlockLineSet
    (visits,
      if state.2.card < pLineSet.card then pLineSet else state.2)

/-- The fuel bounds the depth of the recursion. -/
def explorePath (function : Function) :
    Nat → Visits → Nat → Option Visits
  | 0, _, _ => none
  | fuel + 1, visits, current =>
      if (visits current).isSome then
        some visits
      else
        match function.blocks[current]? with
        | none => none
        | some block =>
            let currentBlockLineSet := calculateBlock block
            let visits :=
              Function.update visits current (some currentBlockLineSet)
            if block.terminator.op = .ret then
              some visits
            else
              (block.terminator.op.successors.foldlM
                (exploreSuccessor (explorePath function fuel)
                  currentBlockLineSet)
                (visits, ∅)).map fun state =>
                  Function.update state.1 current (some state.2)

/-- No map entry yet. -/
def noVisits : Visits :=
  fun _ => none

/-- A chain of unvisited blocks is no longer than the function. -/
def longestPathSize (function : Function) : Nat :=
  if function.blocks = [] then
    0
  else
    match explorePath function (function.blocks.length + 1) noVisits 0 with
    | some visits => ((visits 0).getD ∅).card
    | none => 0

/-! ## What a call does -/

/-- The block ends in a `ReturnInst`. -/
def Returns (function : Function) (block : Nat) : Prop :=
  ∃ found, function.blocks[block]? = some found ∧
    found.terminator.op = .ret

/-- The loop over the successors, started with the own lines in `visits`. -/
def exploreSuccessors
    (function : Function) (fuel : Nat) (visits : Visits) (current : Nat) :
    Option (Visits × Finset Int) :=
  (function.successors current).foldlM
    (exploreSuccessor (explorePath function fuel)
      (blockLines function current))
    (Function.update visits current (some (blockLines function current)), ∅)

/-- Every way a call can go. -/
inductive Explored
    (function : Function) (fuel : Nat) (visits : Visits) (current : Nat) :
    Visits → Prop
  | visited (before : (visits current).isSome = true) :
      Explored function fuel visits current visits
  | leaf (unvisited : visits current = none)
      (present : current < function.blocks.length)
      (returns : Returns function current) :
      Explored function fuel visits current
        (Function.update visits current
          (some (blockLines function current)))
  | node {state : Visits × Finset Int}
      (unvisited : visits current = none)
      (present : current < function.blocks.length)
      (continues : ¬ Returns function current)
      (loop :
        exploreSuccessors function fuel visits current = some state) :
      Explored function fuel visits current
        (Function.update state.1 current (some state.2))

theorem explored_of_explorePath
    {function : Function} {fuel : Nat} {visits result : Visits}
    {current : Nat}
    (explored :
      explorePath function (fuel + 1) visits current = some result) :
    Explored function fuel visits current result := by
  rw [explorePath] at explored
  split at explored
  case isTrue before =>
    obtain rfl := Option.some.inj explored
    exact .visited before
  case isFalse unvisited =>
    have fresh : visits current = none := by simpa using unvisited
    split at explored
    · cases explored
    · rename_i block found
      rcases List.getElem?_eq_some_iff.mp found with ⟨present, _⟩
      have lines : calculateBlock block = blockLines function current := by
        simp only [blockLines, found]
      rw [lines] at explored
      by_cases returns : block.terminator.op = .ret
      · rw [if_pos returns] at explored
        obtain rfl := Option.some.inj explored
        exact .leaf fresh present ⟨block, found, returns⟩
      · rw [if_neg returns] at explored
        rcases Option.map_eq_some_iff.mp explored with ⟨state, loop, rfl⟩
        refine .node fresh present ?_ ?_
        · intro finished
          rcases finished with ⟨other, otherFound, otherReturns⟩
          obtain rfl := Option.some.inj (found.symm.trans otherFound)
          exact returns otherReturns
        · simpa only [exploreSuccessors, Function.successors, found]
            using loop

/-- A call comes to an end when its loop over the successors does. -/
theorem exists_explorePath
    {function : Function} {fuel : Nat} {visits : Visits} {current : Nat}
    (present : current < function.blocks.length)
    (terminates : visits current = none →
      ∃ state, exploreSuccessors function fuel visits current = some state) :
    ∃ result,
      explorePath function (fuel + 1) visits current = some result := by
  have found := List.getElem?_eq_getElem present
  rw [explorePath]
  by_cases before : (visits current).isSome = true
  · exact ⟨visits, if_pos before⟩
  · rw [if_neg before, found]
    rcases terminates (by simpa using before) with ⟨state, loop⟩
    simp only [exploreSuccessors, Function.successors, blockLines, found]
      at loop
    by_cases returns : function.blocks[current].terminator.op = .ret
    · exact ⟨_, if_pos returns⟩
    · dsimp only
      rw [if_neg returns, loop]
      exact ⟨_, rfl⟩

/-- A loop keeps what every round keeps; the motive sees the elements already
done. -/
theorem foldlM_induction
    {State Item : Type} {round : State → Item → Option State}
    (Motive : List Item → State → Prop)
    {initial final : State} {items : List Item}
    (start : Motive [] initial)
    (extend : ∀ done item state next, item ∈ items →
      round state item = some next →
        Motive done state → Motive (done ++ [item]) next)
    (loop : items.foldlM round initial = some final) :
    Motive items final := by
  induction items using List.reverseRecOn generalizing final with
  | nil =>
      obtain rfl : initial = final := Option.some.inj loop
      exact start
  | append_singleton items item inductionHypothesis =>
      rw [List.foldlM_append] at loop
      rcases Option.bind_eq_some_iff.mp loop with ⟨state, earlier, last⟩
      have stepped : round state item = some final := by
        simpa using last
      refine extend items item state final (by simp) stepped ?_
      exact inductionHypothesis
        (fun done other state next member =>
          extend done other state next (by simp [member]))
        earlier

/-- Entries are never taken back or changed. -/
def Extends (before after : Visits) : Prop :=
  ∀ block lines, before block = some lines → after block = some lines

theorem Extends.refl (visits : Visits) : Extends visits visits :=
  fun _ _ found => found

theorem Extends.trans
    {first second third : Visits}
    (earlier : Extends first second) (later : Extends second third) :
    Extends first third :=
  fun block lines found => later block lines (earlier block lines found)

theorem Extends.update
    {before after : Visits} {block : Nat} (kept : Extends before after)
    (unvisited : before block = none) (lines : Finset Int) :
    Extends before (Function.update after block (some lines)) := by
  intro other otherLines found
  have different : other ≠ block := by
    intro same
    subst same
    rw [unvisited] at found
    cases found
  rw [Function.update_of_ne different]
  exact kept other otherLines found

theorem exploreSuccessor_eq_some
    {explore : Visits → Nat → Option Visits} {own : Finset Int}
    {state next : Visits × Finset Int} {successor : Nat}
    (stepped : exploreSuccessor explore own state successor = some next) :
    explore state.1 successor = some next.1 ∧
      next.2 =
        if state.2.card < ((next.1 successor).getD ∅ ∪ own).card then
          (next.1 successor).getD ∅ ∪ own
        else
          state.2 := by
  rcases Option.map_eq_some_iff.mp stepped with ⟨visits, explored, rfl⟩
  exact ⟨explored, rfl⟩

/-- The loop extends what it started with when every call does. -/
theorem extends_of_loop
    {function : Function} {fuel : Nat} {visits : Visits} {current : Nat}
    {state : Visits × Finset Int}
    (callsExtend : ∀ before target after,
      explorePath function fuel before target = some after →
        Extends before after)
    (loop : exploreSuccessors function fuel visits current = some state) :
    Extends
      (Function.update visits current (some (blockLines function current)))
      state.1 := by
  refine foldlM_induction
    (fun _ state => Extends (Function.update visits current
      (some (blockLines function current))) state.1)
    (Extends.refl _) ?_ loop
  intro done successor state next _ stepped extended
  exact extended.trans
    (callsExtend _ _ _ (exploreSuccessor_eq_some stepped).1)

theorem extends_of_explorePath
    {function : Function} {fuel : Nat} {visits result : Visits}
    {current : Nat}
    (explored : explorePath function fuel visits current = some result) :
    Extends visits result := by
  induction fuel generalizing visits result current with
  | zero => cases explored
  | succ fuel inductionHypothesis =>
      cases explored_of_explorePath explored with
      | visited before => exact Extends.refl visits
      | leaf unvisited present returns =>
          exact (Extends.refl visits).update unvisited _
      | node unvisited present continues loop =>
          have marked :=
            (Extends.refl visits).update unvisited
              (blockLines function current)
          have extended :=
            extends_of_loop
              (fun _ _ _ deeper => inductionHypothesis deeper) loop
          exact (marked.trans extended).update unvisited _

/-- A call leaves an entry for its block. -/
theorem visited_of_explorePath
    {function : Function} {fuel : Nat} {visits result : Visits}
    {current : Nat}
    (explored : explorePath function fuel visits current = some result) :
    ∃ lines, result current = some lines := by
  cases fuel with
  | zero => cases explored
  | succ fuel =>
      cases explored_of_explorePath explored with
      | visited before => exact Option.isSome_iff_exists.mp before
      | leaf => exact ⟨_, Function.update_self _ _ _⟩
      | node => exact ⟨_, Function.update_self _ _ _⟩

/-! ## Termination -/

/-- How many blocks have no entry yet. -/
def unvisited (function : Function) (visits : Visits) : Nat :=
  ((Finset.range function.blocks.length).filter fun block =>
    visits block = none).card

theorem Extends.unvisited_le
    {function : Function} {before after : Visits}
    (extended : Extends before after) :
    unvisited function after ≤ unvisited function before := by
  apply Finset.card_le_card
  intro block member
  rcases Finset.mem_filter.mp member with ⟨present, later⟩
  refine Finset.mem_filter.mpr ⟨present, ?_⟩
  cases entry : before block with
  | none => rfl
  | some lines =>
      rw [extended block lines entry] at later
      cases later

theorem unvisited_update_lt
    {function : Function} {visits : Visits} {block : Nat}
    (fresh : visits block = none)
    (present : block < function.blocks.length) (lines : Finset Int) :
    unvisited function (Function.update visits block (some lines)) <
      unvisited function visits := by
  apply Finset.card_lt_card
  refine ⟨?_, ?_⟩
  · intro other member
    rcases Finset.mem_filter.mp member with ⟨inRange, later⟩
    refine Finset.mem_filter.mpr ⟨inRange, ?_⟩
    by_cases same : other = block
    · rw [same, fresh]
    · rwa [Function.update_of_ne same] at later
  · intro kept
    have isCounted :
        block ∈ (Finset.range function.blocks.length).filter fun other =>
          visits other = none :=
      Finset.mem_filter.mpr ⟨Finset.mem_range.mpr present, fresh⟩
    rcases Finset.mem_filter.mp (kept isCounted) with ⟨_, later⟩
    rw [Function.update_self] at later
    cases later

theorem exists_foldlM
    {State Item : Type} {round : State → Item → Option State}
    (Keeps : State → Prop) {items : List Item}
    (proceeds : ∀ item state, item ∈ items → Keeps state →
      ∃ next, round state item = some next ∧ Keeps next)
    {initial : State} (start : Keeps initial) :
    ∃ final, items.foldlM round initial = some final := by
  induction items generalizing initial with
  | nil => exact ⟨initial, rfl⟩
  | cons item items inductionHypothesis =>
      rcases proceeds item initial List.mem_cons_self start with
        ⟨next, stepped, kept⟩
      rcases inductionHypothesis
          (fun other state member =>
            proceeds other state (List.mem_cons_of_mem _ member))
          kept with
        ⟨final, loop⟩
      refine ⟨final, ?_⟩
      rw [List.foldlM_cons, stepped]
      exact loop

/-- The recursion is no deeper than the number of blocks without an entry. -/
theorem explorePath_terminates
    (code : Definition) {fuel : Nat} {visits : Visits} {current : Nat}
    (present : current < code.function.blocks.length)
    (enough : unvisited code.function visits < fuel) :
    ∃ result, explorePath code.function fuel visits current = some result := by
  induction fuel generalizing visits current with
  | zero => cases enough
  | succ fuel inductionHypothesis =>
      apply exists_explorePath present
      intro fresh
      have fewer :
          unvisited code.function
              (Function.update visits current
                (some (blockLines code.function current))) < fuel :=
        (unvisited_update_lt fresh present _).trans_le
          (Nat.lt_succ_iff.mp enough)
      apply exists_foldlM fun state =>
        unvisited code.function state.1 < fuel
      · intro successor state member fewerLeft
        have successorPresent :=
          code.edge_present member
        rcases inductionHypothesis successorPresent fewerLeft with
          ⟨result, explored⟩
        refine ⟨_, Option.map_eq_some_iff.mpr ⟨result, explored, rfl⟩, ?_⟩
        exact (extends_of_explorePath explored).unvisited_le.trans_lt
          fewerLeft
      · exact fewer

theorem foldlM_mono
    {State Item : Type} {round larger : State → Item → Option State}
    (agree : ∀ state item next,
      round state item = some next → larger state item = some next)
    {initial final : State} {items : List Item}
    (loop : items.foldlM round initial = some final) :
    items.foldlM larger initial = some final := by
  induction items generalizing initial with
  | nil => exact loop
  | cons item items inductionHypothesis =>
      rw [List.foldlM_cons] at loop ⊢
      rcases Option.bind_eq_some_iff.mp loop with ⟨next, stepped, continued⟩
      rw [agree _ _ _ stepped]
      exact inductionHypothesis continued

/-- More fuel changes nothing. -/
theorem explorePath_succ
    {function : Function} {fuel : Nat} {visits result : Visits}
    {current : Nat}
    (explored : explorePath function fuel visits current = some result) :
    explorePath function (fuel + 1) visits current = some result := by
  induction fuel generalizing visits result current with
  | zero => cases explored
  | succ fuel inductionHypothesis =>
      have agree :
          ∀ own state successor next,
            exploreSuccessor (explorePath function fuel) own state
                successor = some next →
              exploreSuccessor (explorePath function (fuel + 1)) own state
                successor = some next := by
        intro own state successor next stepped
        rcases Option.map_eq_some_iff.mp stepped with ⟨visits, deeper, rfl⟩
        exact Option.map_eq_some_iff.mpr
          ⟨visits, inductionHypothesis deeper, rfl⟩
      rw [explorePath] at explored ⊢
      split at explored
      case isTrue before =>
        rw [if_pos before]
        exact explored
      case isFalse notBefore =>
        rw [if_neg notBefore]
        split at explored
        · cases explored
        · dsimp only
          split at explored
          case isTrue returns =>
            rw [if_pos returns]
            exact explored
          case isFalse continues =>
            rw [if_neg continues]
            rcases Option.map_eq_some_iff.mp explored with ⟨state, loop, rfl⟩
            exact Option.map_eq_some_iff.mpr
              ⟨state, foldlM_mono (agree _) loop, rfl⟩

theorem explorePath_mono
    {function : Function} {fuel more : Nat} {visits result : Visits}
    {current : Nat} (enough : fuel ≤ more)
    (explored : explorePath function fuel visits current = some result) :
    explorePath function more visits current = some result := by
  induction more, enough using Nat.le_induction with
  | base => exact explored
  | succ more _ inductionHypothesis =>
      exact explorePath_succ inductionHypothesis

end Dinamite.Util
