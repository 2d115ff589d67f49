import Mathlib

/-!
# Loops over a list that grows

A cursor walks a list from front to back, and the visit of an item may insert
new items right before it and right after it.  What is inserted behind the
cursor is never visited, what is inserted ahead of it is.  The loop ends, and
visits just the items of the original list, when the visit of every item
inserted ahead does nothing.
-/

namespace Dinamite.CursorLoop

universe u v

/-- What a visit inserts around its item, and the state it leaves. -/
structure Visit (State : Type u) (Item : Type v) where
  before : List Item
  after : List Item
  state : State

/-- An item with what its visit inserted. -/
structure Segment (Item : Type v) where
  before : List Item
  item : Item
  after : List Item

def Segment.items {Item : Type v} (segment : Segment Item) : List Item :=
  segment.before ++ segment.item :: segment.after

section Loop

variable {State : Type u} {Item : Type v}
variable (visit : State → Item → Option Item → Option (Visit State Item))

/-- The items behind the cursor are `done`.  A visit sees its item and the one
after it; there is no result if a visit has none or the fuel runs out. -/
def loop :
    Nat → State → List Item → List Item → Option (List Item × State)
  | _, state, done, [] => some (done, state)
  | 0, _, _, _ :: _ => none
  | fuel + 1, state, done, item :: rest =>
      (visit state item rest.head?).bind fun made =>
        loop fuel made.state (done ++ made.before ++ [item])
          (made.after ++ rest)

/-- The visit of the item does nothing. -/
def Inert (item : Item) : Prop :=
  ∀ state next, visit state item next = some ⟨[], [], state⟩

/-- The visits of the items of a list, one after the other, where nothing that
is inserted ahead of the cursor needs a visit. -/
inductive Traversal :
    State → List Item → List (Segment Item) → State → Prop
  | nil (state : State) : Traversal state [] [] state
  | cons {state final : State} {item : Item} {rest : List Item}
      {made : Visit State Item} {segments : List (Segment Item)}
      (visited : visit state item rest.head? = some made)
      (inert : ∀ new ∈ made.after, Inert visit new)
      (continued : Traversal made.state rest segments final) :
      Traversal state (item :: rest)
        (⟨made.before, item, made.after⟩ :: segments) final

/-- How many visits the loop makes. -/
def visits (segments : List (Segment Item)) : Nat :=
  (segments.map fun segment => segment.after.length + 1).sum

variable {visit}

/-- Inert items are passed over. -/
theorem loop_inert
    {items : List Item} (inert : ∀ item ∈ items, Inert visit item)
    (fuel : Nat) (state : State) (done rest : List Item) :
    loop visit (items.length + fuel) state done (items ++ rest) =
      loop visit fuel state (done ++ items) rest := by
  induction items generalizing done with
  | nil =>
      simp
  | cons item items inductionHypothesis =>
      have itemInert := inert item List.mem_cons_self
      have restInert : ∀ other ∈ items, Inert visit other :=
        fun other member => inert other (List.mem_cons_of_mem item member)
      have oneMore :
          (item :: items).length + fuel = items.length + fuel + 1 := by
        simp only [List.length_cons]
        omega
      rw [oneMore, List.cons_append, loop, itemInert, Option.bind_some]
      simpa using inductionHypothesis restInert (done ++ [item])

/-- A traversal is a run of the loop. -/
theorem loop_of_traversal
    {state final : State} {items : List Item}
    {segments : List (Segment Item)}
    (traversal : Traversal visit state items segments final)
    {fuel : Nat} (enough : visits segments ≤ fuel) (done : List Item) :
    loop visit fuel state done items =
      some (done ++ segments.flatMap Segment.items, final) := by
  induction traversal generalizing fuel done with
  | nil state =>
      simp [loop]
  | @cons state final item rest made segments visited inert continued
      inductionHypothesis =>
      have split :
          visits (⟨made.before, item, made.after⟩ :: segments) =
            made.after.length + 1 + visits segments := by
        simp [visits]
      rw [split] at enough
      obtain ⟨spare, rfl⟩ :
          ∃ spare, fuel = made.after.length + spare + 1 :=
        ⟨fuel - made.after.length - 1, by omega⟩
      rw [loop, visited, Option.bind_some, loop_inert inert,
        inductionHypothesis (by omega)]
      simp [Segment.items]

theorem Traversal.map_item
    {state final : State} {items : List Item}
    {segments : List (Segment Item)}
    (traversal : Traversal visit state items segments final) :
    segments.map Segment.item = items := by
  induction traversal with
  | nil state => rfl
  | cons visited inert continued inductionHypothesis =>
      rw [List.map_cons, inductionHypothesis]

/-- The invariant rule.  `Invariant` relates the state to the items that are
still ahead, and `Good` is what every visit achieves. -/
theorem exists_traversal
    (Invariant : State → List Item → Prop) (Good : Segment Item → Prop)
    (step : ∀ state item rest, Invariant state (item :: rest) →
      ∃ made,
        visit state item rest.head? = some made ∧
          (∀ new ∈ made.after, Inert visit new) ∧
            Good ⟨made.before, item, made.after⟩ ∧
              Invariant made.state rest)
    {state : State} {items : List Item} (holds : Invariant state items) :
    ∃ segments final,
      Traversal visit state items segments final ∧
        (∀ segment ∈ segments, Good segment) ∧ Invariant final [] := by
  induction items generalizing state with
  | nil =>
      exact ⟨[], state, .nil state, List.forall_mem_nil _, holds⟩
  | cons item rest inductionHypothesis =>
      rcases step state item rest holds with ⟨made, visited, inert, good, kept⟩
      rcases inductionHypothesis kept with
        ⟨segments, final, continued, allGood, finalKept⟩
      refine ⟨⟨made.before, item, made.after⟩ :: segments, final,
        .cons visited inert continued, ?_, finalKept⟩
      intro segment member
      rcases List.mem_cons.mp member with rfl | later
      · exact good
      · exact allGood segment later

/-- What every round keeps holds of the result.  The invariant sees the items
behind the cursor and the ones ahead. -/
theorem loop_invariant
    (Invariant : State → List Item → List Item → Prop)
    (step : ∀ state done item rest made,
      visit state item rest.head? = some made →
        Invariant state done (item :: rest) →
          Invariant made.state (done ++ made.before ++ [item])
            (made.after ++ rest))
    {fuel : Nat} {state final : State} {done items result : List Item}
    (ran : loop visit fuel state done items = some (result, final))
    (holds : Invariant state done items) :
    Invariant final result [] := by
  induction fuel generalizing state done items with
  | zero =>
      cases items with
      | nil =>
          rcases Prod.mk.inj (Option.some.inj ran) with ⟨rfl, rfl⟩
          exact holds
      | cons item rest => cases ran
  | succ fuel inductionHypothesis =>
      cases items with
      | nil =>
          rcases Prod.mk.inj (Option.some.inj ran) with ⟨rfl, rfl⟩
          exact holds
      | cons item rest =>
          rcases Option.bind_eq_some_iff.mp ran with ⟨made, visited, continued⟩
          exact inductionHypothesis continued
            (step state done item rest made visited holds)

/-- What is behind the cursor stays. -/
theorem prefix_of_loop
    {fuel : Nat} {state final : State} {done items result : List Item}
    (ran : loop visit fuel state done items = some (result, final)) :
    done <+: result := by
  have kept :=
    loop_invariant (fun _ behind _ => done <+: behind)
      (fun _ _ _ _ _ _ reached =>
        reached.trans
          ((List.prefix_append _ _).trans (List.prefix_append _ _)))
      ran List.prefix_rfl
  exact kept

/-- A run past inert items. -/
theorem loop_after_inert
    {items : List Item} (inert : ∀ item ∈ items, Inert visit item)
    {fuel : Nat} {state final : State} {done rest result : List Item}
    (ran :
      loop visit fuel state done (items ++ rest) =
        some (result, final)) :
    ∃ fewer,
      loop visit fewer state (done ++ items) rest =
        some (result, final) := by
  induction items generalizing fuel done with
  | nil => exact ⟨fuel, by rwa [List.append_nil]⟩
  | cons item items inductionHypothesis =>
      cases fuel with
      | zero => cases ran
      | succ fuel =>
          have later : ∀ other ∈ items, Inert visit other :=
            fun other member =>
              inert other (List.mem_cons_of_mem item member)
          rw [List.cons_append, loop, inert item List.mem_cons_self,
            Option.bind_some] at ran
          rcases inductionHypothesis later ran with ⟨fewer, continued⟩
          refine ⟨fewer, ?_⟩
          simpa using continued

/-- A run past one item, where nothing that its visit inserts ahead of the
cursor needs a visit. -/
theorem loop_past_item
    {fuel : Nat} {state final : State} {done rest result : List Item}
    {item : Item}
    (inert : ∀ made,
      visit state item rest.head? = some made →
        ∀ new ∈ made.after, Inert visit new)
    (ran :
      loop visit fuel state done (item :: rest) = some (result, final)) :
    ∃ fewer made,
      visit state item rest.head? = some made ∧
        loop visit fewer made.state
            (done ++ (made.before ++ item :: made.after)) rest =
          some (result, final) := by
  cases fuel with
  | zero => cases ran
  | succ fuel =>
      rcases Option.bind_eq_some_iff.mp ran with ⟨made, visited, continued⟩
      rcases loop_after_inert (inert made visited) continued with
        ⟨fewer, later⟩
      refine ⟨fewer, made, visited, ?_⟩
      simpa using later

/-- A loop that has ended ends for every fuel that is enough for its items and
for what the visits may insert ahead of the cursor. -/
theorem loop_of_short
    {most : Nat}
    (short : ∀ state item next made,
      visit state item next = some made → made.after.length ≤ most)
    (inert : ∀ state item next made,
      visit state item next = some made →
        ∀ new ∈ made.after, Inert visit new)
    {fuel : Nat} {state : State} {done items : List Item}
    {result : List Item × State}
    (ran : loop visit fuel state done items = some result)
    {enough : Nat} (more : (most + 1) * items.length ≤ enough) :
    loop visit enough state done items = some result := by
  induction items generalizing fuel state done enough with
  | nil =>
      cases fuel <;> cases enough <;> exact ran
  | cons item rest inductionHypothesis =>
      cases fuel with
      | zero => cases ran
      | succ fuel =>
          rcases Option.bind_eq_some_iff.mp ran with
            ⟨made, visited, continued⟩
          have afterShort := short _ _ _ _ visited
          have afterInert := inert _ _ _ _ visited
          rcases loop_after_inert afterInert continued with ⟨fewer, later⟩
          have split :
              (most + 1) * (item :: rest).length =
                (most + 1) * rest.length + (most + 1) := by
            rw [List.length_cons, Nat.mul_succ]
          rw [split] at more
          obtain ⟨spare, rfl⟩ :
              ∃ spare, enough = made.after.length + spare + 1 :=
            ⟨enough - made.after.length - 1, by omega⟩
          rw [loop, visited, Option.bind_some, loop_inert afterInert]
          exact inductionHypothesis later (by omega)

/-- A run comes to every item of the list, in a state that has what all visits
keep, and what follows the item is what followed it in the list. -/
theorem loop_reaches
    {Kept : State → Prop}
    (step : ∀ state item next made,
      visit state item next = some made → Kept state → Kept made.state)
    {fuel : Nat} {state final : State}
    {done front back result : List Item} {item : Item}
    (ran :
      loop visit fuel state done (front ++ item :: back) =
        some (result, final))
    (holds : Kept state) :
    ∃ fewer reached behind made,
      Kept reached ∧ visit reached item back.head? = some made ∧
        loop visit fewer made.state (behind ++ [item])
          (made.after ++ back) = some (result, final) := by
  induction fuel generalizing state done front with
  | zero =>
      cases front with
      | nil => cases ran
      | cons first front => cases ran
  | succ fuel inductionHypothesis =>
      cases front with
      | nil =>
          rcases Option.bind_eq_some_iff.mp ran with
            ⟨made, visited, continued⟩
          exact ⟨fuel, state, _, made, holds, visited, continued⟩
      | cons first front =>
          rcases Option.bind_eq_some_iff.mp ran with
            ⟨made, visited, continued⟩
          have kept := step _ _ _ _ visited holds
          have ahead :
              made.after ++ (first :: front ++ item :: back).tail =
                made.after ++ front ++ item :: back := by
            rw [List.cons_append, List.tail_cons, List.append_assoc]
          exact inductionHypothesis (ahead ▸ continued) kept

/-- Two loops whose visits differ only in what they insert behind the cursor
leave the same state, and end on the same inputs. -/
theorem loop_state_eq
    {other : State → Item → Option Item → Option (Visit State Item)}
    (agree : ∀ state item next,
      (visit state item next).map (fun made => (made.after, made.state)) =
        (other state item next).map fun made => (made.after, made.state))
    (fuel : Nat) (state : State) (done otherDone items : List Item) :
    (loop visit fuel state done items).map Prod.snd =
      (loop other fuel state otherDone items).map Prod.snd := by
  induction fuel generalizing state done otherDone items with
  | zero =>
      cases items with
      | nil => rfl
      | cons item rest => rfl
  | succ fuel inductionHypothesis =>
      cases items with
      | nil => rfl
      | cons item rest =>
          have same := agree state item rest.head?
          simp only [loop]
          cases made : visit state item rest.head? with
          | none =>
              rw [made, Option.map_none] at same
              rw [Option.map_eq_none_iff.mp same.symm]
              rfl
          | some one =>
              rw [made, Option.map_some] at same
              rcases Option.map_eq_some_iff.mp same.symm with
                ⟨two, otherMade, equal⟩
              rcases Prod.mk.inj equal with ⟨afterEq, stateEq⟩
              rw [otherMade, Option.bind_some, Option.bind_some, afterEq,
                stateEq]
              exact inductionHypothesis _ _ _ _

end Loop

/-- An item keeps its place when a visit inserts: what comes in front of it or
behind it was there before or is new. -/
theorem split_insert
    {Item : Type v} {done before after rest front back : List Item}
    {item mark : Item}
    (same : done ++ item :: rest = front ++ mark :: back) :
    ∃ newFront newBack,
      done ++ before ++ [item] ++ (after ++ rest) =
          newFront ++ mark :: newBack ∧
        (∀ other ∈ newFront, other ∈ front ∨ other ∈ before ++ after) ∧
        ∀ other ∈ newBack, other ∈ back ∨ other ∈ before ++ after := by
  rcases List.append_eq_append_iff.mp same with
    ⟨between, isFront, isRest⟩ | ⟨between, isDone, isBack⟩
  · cases between with
    | nil =>
        rcases List.cons.inj isRest with ⟨rfl, rfl⟩
        refine ⟨done ++ before, after ++ rest, by simp, ?_, ?_⟩
        · rw [isFront]
          intro other member
          simp only [List.mem_append, List.append_nil] at member ⊢
          tauto
        · intro other member
          simp only [List.mem_append] at member ⊢
          tauto
    | cons first between =>
        rcases List.cons.inj isRest with ⟨rfl, rfl⟩
        refine ⟨done ++ before ++ [item] ++ after ++ between, back,
          by simp, ?_, fun other member => Or.inl member⟩
        rw [isFront]
        intro other member
        simp only [List.mem_append, List.mem_cons, List.not_mem_nil,
          or_false] at member ⊢
        tauto
  · cases between with
    | nil =>
        rcases List.cons.inj isBack with ⟨rfl, rfl⟩
        refine ⟨done ++ before, after ++ back, by simp, ?_, ?_⟩
        · rw [isDone]
          intro other member
          simp only [List.mem_append, List.append_nil] at member ⊢
          tauto
        · intro other member
          simp only [List.mem_append] at member ⊢
          tauto
    | cons first between =>
        rcases List.cons.inj isBack with ⟨rfl, isRest⟩
        refine ⟨front, between ++ before ++ [item] ++ (after ++ rest),
          by simp [isDone], fun other member => Or.inl member, ?_⟩
        rw [show back = between ++ item :: rest from isRest]
        intro other member
        simp only [List.mem_append, List.mem_cons, List.not_mem_nil,
          or_false] at member ⊢
        tauto

section Erase

variable {Item : Type v} {keep : Item → Bool}

/-- Erasing what the visits inserted leaves the items visited. -/
theorem filter_items
    {segments : List (Segment Item)}
    (inserted :
      ∀ segment ∈ segments, ∀ item ∈ segment.before ++ segment.after,
        keep item = false) :
    (segments.flatMap Segment.items).filter keep =
      (segments.map Segment.item).filter keep := by
  induction segments with
  | nil => rfl
  | cons segment segments inductionHypothesis =>
      have here := inserted segment List.mem_cons_self
      have later :
          ∀ other ∈ segments, ∀ item ∈ other.before ++ other.after,
            keep item = false :=
        fun other member => inserted other (List.mem_cons_of_mem _ member)
      have beforeErased : segment.before.filter keep = [] :=
        List.filter_eq_nil_iff.mpr fun item member => by
          simp [here item (List.mem_append_left _ member)]
      have afterErased : segment.after.filter keep = [] :=
        List.filter_eq_nil_iff.mpr fun item member => by
          simp [here item (List.mem_append_right _ member)]
      rw [List.flatMap_cons, List.filter_append, inductionHypothesis later,
        Segment.items, List.filter_append, List.filter_cons, beforeErased,
        afterErased, List.map_cons, List.filter_cons]
      split <;> simp

end Erase

end Dinamite.CursorLoop
