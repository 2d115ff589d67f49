import Dinamite.Util.LongestPath

/-!
# The own lines of a block

The entry of a block is written twice, and the second time from its successors
alone.  A block that neither returns nor goes on to another one, as after a
call of `exit`, loses its lines that way.
-/

namespace Dinamite.Util

open Dinamite.Instrument

/-! ## The blocks that are visited -/

/-- What is visited in between can be reached from the block. -/
def Reaches
    (function : Function) (current : Nat) (before after : Visits) : Prop :=
  ∀ block lines, after block = some lines →
    (∃ earlier, before block = some earlier) ∨
      Relation.ReflTransGen function.Edge current block

/-- The successors of what is visited in between are visited. -/
def Closes (function : Function) (before after : Visits) : Prop :=
  ∀ block lines, after block = some lines → before block = none →
    ∀ successor, function.Edge block successor →
      ∃ others, after successor = some others

section Visited

variable {function : Function} {fuel : Nat}
variable {first second third visits result : Visits} {current : Nat}

theorem Reaches.refl : Reaches function current visits visits :=
  fun _ lines found => Or.inl ⟨lines, found⟩

theorem Reaches.update
    (reaches : Reaches function current first second)
    (lines : Finset Int) :
    Reaches function current first
      (Function.update second current (some lines)) := by
  intro block entry found
  by_cases isCurrent : block = current
  · rw [isCurrent]
    exact Or.inr .refl
  · rw [Function.update_of_ne isCurrent] at found
    exact reaches block entry found

theorem Reaches.step
    {successor : Nat} (reaches : Reaches function current first second)
    (edge : function.Edge current successor)
    (deeper : Reaches function successor second third) :
    Reaches function current first third := by
  intro block lines found
  rcases deeper block lines found with ⟨earlier, before⟩ | path
  · exact reaches block earlier before
  · exact Or.inr (.head edge path)

/-- What a call visits can be reached from its block. -/
theorem reaches_of_explorePath
    (explored : explorePath function fuel visits current = some result) :
    Reaches function current visits result := by
  induction fuel generalizing visits result current with
  | zero => cases explored
  | succ fuel inductionHypothesis =>
      cases explored_of_explorePath explored with
      | visited before => exact Reaches.refl
      | leaf unvisited present returns => exact Reaches.refl.update _
      | node unvisited present continues loop =>
          apply Reaches.update
          refine foldlM_induction
            (fun _ state => Reaches function current visits state.1)
            (Reaches.refl.update _) ?_ loop
          intro done successor state next edge stepped reaches
          exact reaches.step edge
            (inductionHypothesis (exploreSuccessor_eq_some stepped).1)

theorem Closes.refl : Closes function visits visits := by
  intro block lines found unvisited
  rw [unvisited] at found
  cases found

theorem Closes.trans
    (earlier : Closes function first second)
    (later : Closes function second third)
    (extended : Extends second third) : Closes function first third := by
  intro block lines found unvisited successor edge
  cases between : second block with
  | none => exact later block lines found between successor edge
  | some entry =>
      rcases earlier block entry between unvisited successor edge with
        ⟨others, known⟩
      exact ⟨others, extended successor others known⟩

/-- A block whose successors are visited is closed with its entry. -/
theorem Closes.update
    {own : Finset Int}
    (closes :
      Closes function (Function.update first current (some own)) second)
    (successors :
      ∀ successor, function.Edge current successor →
        ∃ others, second successor = some others)
    (lines : Finset Int) :
    Closes function first
      (Function.update second current (some lines)) := by
  intro block entry found unvisited successor edge
  have known : ∃ others, second successor = some others := by
    by_cases isCurrent : block = current
    · rw [isCurrent] at edge
      exact successors successor edge
    · rw [Function.update_of_ne isCurrent] at found
      apply closes block entry found _ successor edge
      rw [Function.update_of_ne isCurrent]
      exact unvisited
  by_cases isCurrent : successor = current
  · rw [isCurrent]
    exact ⟨lines, Function.update_self _ _ _⟩
  · rw [Function.update_of_ne isCurrent]
    exact known

/-- The loop visits every successor. -/
theorem visited_of_loop
    {state : Visits × Finset Int}
    (loop : exploreSuccessors function fuel visits current = some state)
    {successor : Nat} (edge : function.Edge current successor) :
    ∃ others, state.1 successor = some others := by
  refine foldlM_induction
    (fun targets state => ∀ target ∈ targets,
      ∃ others, state.1 target = some others)
    nofun ?_ loop successor edge
  intro done target state next _ stepped before other member
  have deeper := (exploreSuccessor_eq_some stepped).1
  rcases List.mem_append.mp member with earlier | last
  · rcases before other earlier with ⟨others, entry⟩
    exact ⟨others, extends_of_explorePath deeper other others entry⟩
  · rw [List.mem_singleton.mp last]
    exact visited_of_explorePath deeper

/-- The successors of what a call visits are visited when it returns. -/
theorem closes_of_explorePath
    (explored : explorePath function fuel visits current = some result) :
    Closes function visits result := by
  induction fuel generalizing visits result current with
  | zero => cases explored
  | succ fuel inductionHypothesis =>
      cases explored_of_explorePath explored with
      | visited before => exact Closes.refl
      | leaf unvisited present returns =>
          intro block lines found fresh successor edge
          by_cases isCurrent : block = current
          · rw [isCurrent] at edge
            exact absurd edge returns.not_edge
          · rw [Function.update_of_ne isCurrent, fresh] at found
            cases found
      | @node state unvisited present continues loop =>
          have closed :
              Closes function
                (Function.update visits current
                  (some (blockLines function current))) state.1 := by
            refine foldlM_induction
              (fun _ state => Closes function
                (Function.update visits current
                  (some (blockLines function current))) state.1)
              Closes.refl ?_ loop
            intro done successor state next _ stepped closes
            have deeper := (exploreSuccessor_eq_some stepped).1
            exact closes.trans (inductionHypothesis deeper)
              (extends_of_explorePath deeper)
          exact closed.update (fun _ edge => visited_of_loop loop edge) _

/-- The search visits what can be reached. -/
theorem visited_iff_reached
    (explored :
      explorePath function fuel noVisits current = some result)
    {block : Nat} :
    (∃ lines, result block = some lines) ↔
      Relation.ReflTransGen function.Edge current block := by
  constructor
  · intro visited
    rcases visited with ⟨lines, found⟩
    rcases reaches_of_explorePath explored block lines found with
      ⟨before, impossible⟩ | path
    · cases impossible
    · exact path
  · intro path
    induction path with
    | refl => exact visited_of_explorePath explored
    | tail _ edge inductionHypothesis =>
        rcases inductionHypothesis with ⟨lines, found⟩
        exact closes_of_explorePath explored _ lines found rfl _ edge

end Visited

/-! ## Own lines -/

/-- The block has no lines, returns, or goes on to another block. -/
def KeepsOwnLines (function : Function) (block : Nat) : Prop :=
  blockLines function block = ∅ ∨ Returns function block ∨
    function.successors block ≠ []

/-- The entry of a block has its own lines, or nothing if the block does not
keep them. -/
structure OwnEntry
    (function : Function) (block : Nat) (lines : Finset Int) : Prop where
  kept :
    KeepsOwnLines function block → blockLines function block ⊆ lines
  lost : ¬ KeepsOwnLines function block → lines = ∅

theorem OwnEntry.subset_iff
    {function : Function} {block : Nat} {lines : Finset Int}
    (own : OwnEntry function block lines) :
    blockLines function block ⊆ lines ↔ KeepsOwnLines function block := by
  constructor
  · intro subset
    by_contra notKept
    rw [own.lost notKept, Finset.subset_empty] at subset
    exact notKept (Or.inl subset)
  · exact own.kept

/-- The loop over the successors adds the own lines to each of theirs. -/
theorem ownEntry_of_chosen
    {function : Function} {Holds : Set Nat → Nat → Finset Int → Prop}
    {finished : Set Nat} {block : Nat} {best : Finset Int}
    (continues : ¬ Returns function block)
    (chosen : Chosen function Holds finished block best) :
    OwnEntry function block best := by
  by_cases goesOn : ∃ successor, function.Edge block successor
  · rcases chosen_successor goesOn chosen with
      ⟨successor, lines, edge, _, rfl⟩
    refine ⟨fun _ => Finset.subset_union_right, fun notKept => ?_⟩
    exact absurd (Or.inr (Or.inr (List.ne_nil_of_mem edge))) notKept
  · have noSuccessor : function.successors block = [] :=
      List.eq_nil_iff_forall_not_mem.mpr (not_exists.mp goesOn)
    have nothing : best = ∅ := by
      rcases chosen.chosen with empty | ⟨successor, _, edge, _⟩
      · exact empty
      · exact absurd ⟨successor, edge⟩ goesOn
    refine ⟨?_, fun _ => nothing⟩
    intro kept
    rcases kept with noLines | returns | someSuccessor
    · rw [noLines]
      exact Finset.empty_subset best
    · exact absurd returns continues
    · exact absurd noSuccessor someSuccessor

def ownLinesRule (function : Function) : SearchRule function where
  Holds := fun _ => OwnEntry function
  mono := fun _ own => own
  leaf := by
    intro _ block _ returns
    refine ⟨fun _ => Finset.Subset.refl _, fun notKept => ?_⟩
    exact absurd (Or.inr (Or.inl returns)) notKept
  node := fun _ _ _ _ continues _ chosen =>
    ownEntry_of_chosen continues chosen

/-- Every visited block has its own lines in `visits`, and the metric is no
less than the number of lines of the entry block. -/
structure OwnLinesKept (function : Function) : Prop where
  kept :
    ∃ visits,
      (∀ fuel, function.blocks.length < fuel →
        explorePath function fuel noVisits 0 = some visits) ∧
        ∀ block lines, visits block = some lines →
          blockLines function block ⊆ lines
  entry : (blockLines function 0).card ≤ longestPathSize function

/-- The metric counts the lines of the entry just if the entry keeps them. -/
theorem entry_counted_iff (code : Definition) :
    (blockLines code.function 0).card ≤ longestPathSize code.function ↔
      KeepsOwnLines code.function 0 := by
  rcases exists_visits code with ⟨visits, explored⟩
  have ended := explored _ (Nat.lt_succ_self _)
  rcases (ownLinesRule code.function).holds ended with ⟨lines, found, own⟩
  rw [longestPathSize_eq code ended found]
  constructor
  · intro counted
    by_contra notKept
    rw [OwnEntry.lost own notKept, Finset.card_empty, Nat.le_zero,
      Finset.card_eq_zero] at counted
    exact notKept (Or.inl counted)
  · intro kept
    exact Finset.card_le_card (OwnEntry.kept own kept)

/-- The own lines are kept just if every block that can be reached and has
lines returns or goes on to another one. -/
theorem own_lines_kept_iff (code : Definition) :
    OwnLinesKept code.function ↔
      ∀ block, Relation.ReflTransGen code.function.Edge 0 block →
        KeepsOwnLines code.function block := by
  rcases exists_visits code with ⟨visits, explored⟩
  have ended := explored _ (Nat.lt_succ_self _)
  have entries := (ownLinesRule code.function).searching ended
  have own (block : Nat) (lines : Finset Int)
      (found : visits block = some lines) :
      OwnEntry code.function block lines :=
    entries.finished block lines found (Set.notMem_empty block)
  constructor
  · intro all block reached
    rcases all.kept with ⟨others, othersExplored, kept⟩
    obtain rfl : visits = others :=
      Option.some.inj
        (ended.symm.trans (othersExplored _ (Nat.lt_succ_self _)))
    rcases (visited_iff_reached ended).mpr reached with ⟨lines, found⟩
    exact (own block lines found).subset_iff.mp (kept block lines found)
  · intro keeps
    refine ⟨⟨visits, explored, ?_⟩,
      (entry_counted_iff code).mpr (keeps 0 .refl)⟩
    intro block lines found
    have reached := (visited_iff_reached ended).mp ⟨lines, found⟩
    exact (own block lines found).kept (keeps block reached)

/-- A call of `exit` in line 1, and nothing behind it. -/
def exitingCode : Definition where
  function := ⟨"exiting", [], [linesBlock [1] .unreachable]⟩
  entry := by decide
  successors_present := by decide

/-- The line of the call is not counted. -/
theorem exitingCode_loses_lines :
    ¬ ∀ code : Definition, OwnLinesKept code.function := by
  intro always
  have counted := (always exitingCode).entry
  have lost : longestPathSize exitingCode.function = 0 := by
    decide +kernel
  have own : (blockLines exitingCode.function 0).card = 1 := by
    decide +kernel
  rw [lost, own] at counted
  exact absurd counted (by decide)

end Dinamite.Util
