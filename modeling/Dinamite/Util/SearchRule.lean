import Dinamite.Util.ExplorePath

/-!
# A rule for the search

While the search runs, a visited block is either on the stack of calls, with
its own lines as its entry, or the search is done with it.  A property of the
entries is proved by saying what a block gets from its successors in either
case.
-/

namespace Dinamite.Util

open Dinamite.Instrument

/-- The visited blocks whose call has returned. -/
def Finished (stack : Set Nat) (visits : Visits) : Set Nat :=
  {block | (∃ lines, visits block = some lines) ∧ block ∉ stack}

/-- What the loop of `current` finds in the entry of a successor. -/
inductive Known
    (function : Function)
    (Holds : Set Nat → Nat → Finset Int → Prop)
    (finished : Set Nat) (current successor : Nat) (lines : Finset Int) :
    Prop
  | active (notFinished : successor ∉ finished)
      (back : Relation.ReflTransGen function.Edge successor current)
      (own : lines = blockLines function successor)
  | done (isFinished : successor ∈ finished)
      (holds : Holds finished successor lines)

/-- The entry a block leaves its loop with. -/
structure Chosen
    (function : Function)
    (Holds : Set Nat → Nat → Finset Int → Prop)
    (finished : Set Nat) (current : Nat) (best : Finset Int) : Prop where
  chosen :
    best = ∅ ∨
      ∃ successor lines, function.Edge current successor ∧
        Known function Holds finished current successor lines ∧
        best = lines ∪ blockLines function current
  largest :
    ∀ successor, function.Edge current successor →
      ∃ lines, Known function Holds finished current successor lines ∧
        (lines ∪ blockLines function current).card ≤ best.card

/-- A property of finished entries, given the finished blocks. -/
structure SearchRule (function : Function) where
  Holds : Set Nat → Nat → Finset Int → Prop
  mono :
    ∀ {finished more : Set Nat} {block : Nat} {lines : Finset Int},
      finished ⊆ more → Holds finished block lines →
        Holds more block lines
  leaf :
    ∀ (finished : Set Nat) (block : Nat),
      block < function.blocks.length → Returns function block →
        Holds (insert block finished) block (blockLines function block)
  node :
    ∀ (finished : Set Nat) (block : Nat) (best : Finset Int),
      block < function.blocks.length → ¬ Returns function block →
        block ∉ finished → Chosen function Holds finished block best →
          Holds (insert block finished) block best

/-- The invariant of the search. -/
structure Searching
    {function : Function} (rule : SearchRule function) (stack : Set Nat)
    (visits : Visits) : Prop where
  active :
    ∀ block ∈ stack, visits block = some (blockLines function block)
  finished :
    ∀ block lines, visits block = some lines → block ∉ stack →
      rule.Holds (Finished stack visits) block lines

section Steps

variable {function : Function} {rule : SearchRule function}
variable {stack : Set Nat} {visits : Visits} {current : Nat}

theorem Searching.not_mem_stack
    (searching : Searching rule stack visits)
    (unvisited : visits current = none) : current ∉ stack := by
  intro onStack
  rw [searching.active current onStack] at unvisited
  cases unvisited

/-- A call whose block joins the finished ones. -/
theorem searching_finish
    {lines : Finset Int}
    (outside : current ∉ stack)
    (active :
      ∀ block ∈ stack, visits block = some (blockLines function block))
    {before : Set Nat}
    (earlier :
      ∀ block, block ∈ before ↔
        block ≠ current ∧ block ∈ Finished stack visits)
    (kept :
      ∀ block lines, visits block = some lines → block ∈ before →
        rule.Holds before block lines)
    (own : rule.Holds (insert current before) current lines) :
    Searching rule stack
      (Function.update visits current (some lines)) := by
  have grown :
      insert current before =
        Finished stack (Function.update visits current (some lines)) := by
    ext block
    rw [Set.mem_insert_iff, earlier]
    by_cases same : block = current
    · subst same
      simp [Finished, outside]
    · simp [Finished, same]
  refine ⟨?_, ?_⟩
  · intro block onStack
    have different : block ≠ current := by
      intro same
      subst same
      exact outside onStack
    rw [Function.update_of_ne different]
    exact active block onStack
  · intro block entry found notOnStack
    rw [← grown]
    by_cases same : block = current
    · subst same
      rw [Function.update_self] at found
      obtain rfl := Option.some.inj found
      exact own
    · rw [Function.update_of_ne same] at found
      have isEarlier : block ∈ before :=
        (earlier block).mpr ⟨same, ⟨entry, found⟩, notOnStack⟩
      exact rule.mono (Set.subset_insert _ _)
        (kept block entry found isEarlier)

/-- A new call puts its block on the stack. -/
theorem searching_enter
    (searching : Searching rule stack visits)
    (unvisited : visits current = none) :
    Searching rule (insert current stack)
      (Function.update visits current
        (some (blockLines function current))) := by
  have same :
      Finished (insert current stack)
          (Function.update visits current
            (some (blockLines function current))) =
        Finished stack visits := by
    ext block
    by_cases isCurrent : block = current
    · subst isCurrent
      simp [Finished, unvisited]
    · simp [Finished, isCurrent]
  refine ⟨?_, ?_⟩
  · intro block onStack
    by_cases isCurrent : block = current
    · subst isCurrent
      exact Function.update_self _ _ _
    · rw [Function.update_of_ne isCurrent]
      exact searching.active block
        (Set.mem_of_mem_insert_of_ne onStack isCurrent)
  · intro block lines found outside
    rw [Set.mem_insert_iff, not_or] at outside
    rw [Function.update_of_ne outside.1] at found
    rw [same]
    exact searching.finished block lines found outside.2

end Steps

/-! ## The loop -/

/-- The best of the successors done so far, in terms of their entries. -/
structure Best
    (visits : Visits) (own : Finset Int) (targets : List Nat)
    (best : Finset Int) : Prop where
  chosen :
    best = ∅ ∨
      ∃ successor ∈ targets, ∃ lines,
        visits successor = some lines ∧ best = lines ∪ own
  largest :
    ∀ successor ∈ targets, ∃ lines,
      visits successor = some lines ∧ (lines ∪ own).card ≤ best.card

theorem best_nil (visits : Visits) (own : Finset Int) :
    Best visits own [] ∅ :=
  ⟨Or.inl rfl, nofun⟩

/-- One round of the loop. -/
theorem Best.extend
    {before after : Visits} {own : Finset Int} {targets : List Nat}
    {best : Finset Int} (isBest : Best before own targets best)
    (extended : Extends before after)
    {successor : Nat} {lines : Finset Int}
    (found : after successor = some lines) :
    Best after own (targets ++ [successor])
      (if best.card < (lines ∪ own).card then lines ∪ own else best) := by
  split
  case isTrue improved =>
    refine ⟨Or.inr ⟨successor, by simp, lines, found, rfl⟩, ?_⟩
    intro other member
    rcases List.mem_append.mp member with earlier | last
    · rcases isBest.largest other earlier with ⟨otherLines, entry, bounded⟩
      exact ⟨otherLines, extended _ _ entry,
        bounded.trans (Nat.le_of_lt improved)⟩
    · obtain rfl := List.mem_singleton.mp last
      exact ⟨lines, found, le_refl _⟩
  case isFalse kept =>
    refine ⟨?_, ?_⟩
    · rcases isBest.chosen with empty | ⟨other, member, otherLines, entry, eq⟩
      · exact Or.inl empty
      · exact Or.inr ⟨other, List.mem_append_left _ member, otherLines,
          extended _ _ entry, eq⟩
    · intro other member
      rcases List.mem_append.mp member with earlier | last
      · rcases isBest.largest other earlier with ⟨otherLines, entry, bounded⟩
        exact ⟨otherLines, extended _ _ entry, bounded⟩
      · obtain rfl := List.mem_singleton.mp last
        exact ⟨lines, found, Nat.le_of_not_lt kept⟩

section Loop

variable {function : Function} {rule : SearchRule function}
variable {stack : Set Nat} {visits : Visits} {current fuel : Nat}

theorem searching_loop
    (searching : Searching rule stack visits)
    (calls : ∀ before target after,
      explorePath function fuel before target = some after →
        function.Edge current target → Searching rule stack before →
          Searching rule stack after)
    {state : Visits × Finset Int}
    (loop :
      (function.successors current).foldlM
        (exploreSuccessor (explorePath function fuel)
          (blockLines function current)) (visits, ∅) = some state) :
    Searching rule stack state.1 ∧
      Best state.1 (blockLines function current)
        (function.successors current) state.2 := by
  refine foldlM_induction
    (fun targets state => Searching rule stack state.1 ∧
      Best state.1 (blockLines function current) targets state.2)
    ⟨searching, best_nil _ _⟩ ?_ loop
  intro targets successor state next member stepped ⟨before, isBest⟩
  rcases exploreSuccessor_eq_some stepped with ⟨explored, updated⟩
  rcases visited_of_explorePath explored with ⟨lines, found⟩
  refine ⟨calls _ _ _ explored member before, ?_⟩
  rw [updated, found, Option.getD_some]
  exact isBest.extend (extends_of_explorePath explored) found

/-- The entries the loop has read, by where their blocks stand. -/
theorem chosen_of_best
    (searching : Searching rule stack visits)
    (back : ∀ block ∈ stack,
      Relation.ReflTransGen function.Edge block current)
    {best : Finset Int}
    (isBest : Best visits (blockLines function current)
      (function.successors current) best) :
    Chosen function rule.Holds (Finished stack visits) current best := by
  have known :
      ∀ successor lines, visits successor = some lines →
        Known function rule.Holds (Finished stack visits) current
          successor lines := by
    intro successor lines found
    by_cases onStack : successor ∈ stack
    · refine .active (fun finished => finished.2 onStack)
        (back successor onStack) ?_
      rw [searching.active successor onStack] at found
      exact (Option.some.inj found).symm
    · exact .done ⟨⟨lines, found⟩, onStack⟩
        (searching.finished successor lines found onStack)
  refine ⟨?_, ?_⟩
  · rcases isBest.chosen with empty | ⟨successor, edge, lines, found, eq⟩
    · exact Or.inl empty
    · exact Or.inr ⟨successor, lines, edge, known _ _ found, eq⟩
  · intro successor edge
    rcases isBest.largest successor edge with ⟨lines, found, bounded⟩
    exact ⟨lines, known _ _ found, bounded⟩

end Loop

/-- A call keeps the invariant; every block on the stack leads to the block it
is called for. -/
theorem searching_of_explorePath
    {function : Function} {rule : SearchRule function}
    {stack : Set Nat} {visits result : Visits} {current fuel : Nat}
    (explored : explorePath function fuel visits current = some result)
    (searching : Searching rule stack visits)
    (back : ∀ block ∈ stack,
      Relation.ReflTransGen function.Edge block current) :
    Searching rule stack result := by
  induction fuel generalizing stack visits result current with
  | zero => cases explored
  | succ fuel inductionHypothesis =>
      cases explored_of_explorePath explored with
      | visited before => exact searching
      | leaf unvisited present returns =>
          have outside := searching.not_mem_stack unvisited
          refine searching_finish outside searching.active ?_
            (fun block lines found finished =>
              searching.finished block lines found finished.2)
            (rule.leaf _ current present returns)
          intro block
          refine ⟨fun finished => ⟨?_, finished⟩, And.right⟩
          intro same
          subst same
          rcases finished with ⟨⟨lines, found⟩, _⟩
          rw [unvisited] at found
          cases found
      | @node state unvisited present continues loop =>
          have outside := searching.not_mem_stack unvisited
          have backCurrent :
              ∀ block ∈ insert current stack,
                Relation.ReflTransGen function.Edge block current := by
            intro block onStack
            rcases Set.mem_insert_iff.mp onStack with rfl | below
            · exact .refl
            · exact back block below
          rcases searching_loop (searching_enter searching unvisited)
              (fun _ _ _ deeper edge before =>
                inductionHypothesis deeper before fun block onStack =>
                  (backCurrent block onStack).tail edge)
              loop with
            ⟨after, isBest⟩
          have finished : current ∉ Finished (insert current stack) state.1 :=
            fun member => member.2 (Set.mem_insert _ _)
          refine searching_finish outside
            (fun block onStack =>
              after.active block (Set.mem_insert_of_mem _ onStack))
            ?_
            (fun block lines found member =>
              after.finished block lines found member.2)
            (rule.node _ current state.2 present continues finished
              (chosen_of_best after backCurrent isBest))
          intro block
          simp only [Finished, Set.mem_ofPred_eq, Set.mem_insert_iff, not_or]
          tauto

/-- When the search is over, the rule holds of every entry. -/
theorem SearchRule.searching
    {function : Function} (rule : SearchRule function)
    {fuel start : Nat} {result : Visits}
    (explored : explorePath function fuel noVisits start = some result) :
    Searching rule ∅ result := by
  have fresh : Searching rule ∅ noVisits := by
    refine ⟨?_, ?_⟩
    · intro block impossible
      cases impossible
    · intro block lines found
      cases found
  apply searching_of_explorePath explored fresh
  intro block impossible
  cases impossible

/-- The rule holds of the entry block when the search is over. -/
theorem SearchRule.holds
    {function : Function} (rule : SearchRule function)
    {fuel start : Nat} {result : Visits}
    (explored : explorePath function fuel noVisits start = some result) :
    ∃ lines, result start = some lines ∧
      rule.Holds (Finished ∅ result) start lines := by
  have searching := rule.searching explored
  rcases visited_of_explorePath explored with ⟨lines, found⟩
  exact ⟨lines, found,
    searching.finished start lines found (Set.notMem_empty start)⟩

end Dinamite.Util
