import Mathlib

/-!
# Depth-first search with a visitor

A search that marks a node, lets a visitor change a state, and then goes on to
the children in order.  The nodes are visited in an order that does not depend
on the visitor, each one once, and they are those that can be reached.
-/

namespace Dinamite.DepthFirst

universe u v

variable {Node : Type u} {State : Type v}

section Search

variable [DecidableEq Node]
variable (children : Node → List Node) (visit : State → Node → State)

/-- The search from one node.  The fuel bounds the depth. -/
def explore :
    Nat → Finset Node × State → Node → Option (Finset Node × State)
  | 0, _, _ => none
  | fuel + 1, search, node =>
      if node ∈ search.1 then
        some search
      else
        (children node).foldlM (explore fuel)
          (insert node search.1, visit search.2 node)

/-- The searches from several nodes, one after the other. -/
def exploreAll
    (fuel : Nat) (search : Finset Node × State) (roots : List Node) :
    Option (Finset Node × State) :=
  roots.foldlM (explore children visit fuel) search

theorem exploreAll_cons
    (fuel : Nat) (search : Finset Node × State) (root : Node)
    (roots : List Node) :
    exploreAll children visit fuel search (root :: roots) =
      (explore children visit fuel search root).bind fun next =>
        exploreAll children visit fuel next roots := by
  rw [exploreAll, List.foldlM_cons]
  rfl

theorem exploreAll_append
    (fuel : Nat) (search : Finset Node × State) (front back : List Node) :
    exploreAll children visit fuel search (front ++ back) =
      (exploreAll children visit fuel search front).bind fun next =>
        exploreAll children visit fuel next back := by
  rw [exploreAll, List.foldlM_append]
  rfl

variable {children} {visit}

theorem explore_visited
    {search : Finset Node × State} {node : Node}
    (visited : node ∈ search.1) (fuel : Nat) :
    explore children visit (fuel + 1) search node = some search := by
  rw [explore, if_pos visited]

theorem explore_fresh
    {search : Finset Node × State} {node : Node}
    (fresh : node ∉ search.1) (fuel : Nat) :
    explore children visit (fuel + 1) search node =
      exploreAll children visit fuel
        (insert node search.1, visit search.2 node) (children node) := by
  rw [explore, if_neg fresh]
  rfl

/-- The induction rule: what holds where a node is passed over, what a visited
node takes over from its children, and what runs in sequence. -/
theorem explore_induction
    (Motive :
      Finset Node × State → List Node → Finset Node × State → Prop)
    (done : ∀ search, Motive search [] search)
    (visited : ∀ search node, node ∈ search.1 →
      Motive search [node] search)
    (fresh : ∀ search node result, node ∉ search.1 →
      Motive (insert node search.1, visit search.2 node) (children node)
        result →
        Motive search [node] result)
    (sequence : ∀ search middle result root roots,
      Motive search [root] middle → Motive middle roots result →
        Motive search (root :: roots) result)
    {fuel : Nat} {search result : Finset Node × State}
    {roots : List Node}
    (ran : exploreAll children visit fuel search roots = some result) :
    Motive search roots result := by
  induction fuel generalizing search result roots with
  | zero =>
      cases roots with
      | nil =>
          obtain rfl := Option.some.inj ran
          exact done search
      | cons root roots =>
          rw [exploreAll_cons] at ran
          cases ran
  | succ fuel deeper =>
      induction roots generalizing search with
      | nil =>
          obtain rfl := Option.some.inj ran
          exact done search
      | cons root roots later =>
          rw [exploreAll_cons] at ran
          rcases Option.bind_eq_some_iff.mp ran with
            ⟨middle, first, continued⟩
          apply sequence search middle result root roots _ (later continued)
          by_cases present : root ∈ search.1
          · rw [explore_visited present] at first
            obtain rfl := Option.some.inj first
            exact visited search root present
          · rw [explore_fresh present] at first
            exact fresh search root middle present (deeper first)

/-- A map of the states that the visitors respect carries one search over to
the other. -/
theorem exploreAll_map
    {Other : Type*} {visitOther : Other → Node → Other}
    {carry : State → Other}
    (respects : ∀ state node,
      carry (visit state node) = visitOther (carry state) node)
    (fuel : Nat) (search : Finset Node × State) (roots : List Node) :
    exploreAll children visitOther fuel (search.1, carry search.2) roots =
      (exploreAll children visit fuel search roots).map fun result =>
        (result.1, carry result.2) := by
  induction fuel generalizing search roots with
  | zero =>
      cases roots with
      | nil => rfl
      | cons root roots =>
          rw [exploreAll_cons, exploreAll_cons]
          rfl
  | succ fuel deeper =>
      induction roots generalizing search with
      | nil => rfl
      | cons root roots later =>
          have first :
              explore children visitOther (fuel + 1)
                  (search.1, carry search.2) root =
                (explore children visit (fuel + 1) search root).map
                  fun result => (result.1, carry result.2) := by
            by_cases present : root ∈ search.1
            · have marked : root ∈ (search.1, carry search.2).1 := present
              rw [explore_visited present fuel]
              exact explore_visited marked fuel
            · have unmarked : root ∉ (search.1, carry search.2).1 := present
              rw [explore_fresh present fuel]
              calc
                explore children visitOther (fuel + 1)
                    (search.1, carry search.2) root =
                    exploreAll children visitOther fuel
                      (insert root search.1,
                        visitOther (carry search.2) root)
                      (children root) :=
                  explore_fresh unmarked fuel
                _ = _ := by
                  rw [← respects]
                  exact deeper
                    (insert root search.1, visit search.2 root)
                    (children root)
          rw [exploreAll_cons, exploreAll_cons, first, Option.bind_map,
            Option.map_bind]
          congr 1
          funext middle
          exact later middle

/-- The visitor that writes the nodes down. -/
def record (nodes : List Node) (node : Node) : List Node :=
  nodes ++ [node]

/-- The nodes a search visits, in order. -/
def order
    (children : Node → List Node) (fuel : Nat) (roots : List Node) :
    Option (List Node) :=
  (exploreAll children record fuel (∅, []) roots).map Prod.snd

/-- Every visitor sees the nodes in this order. -/
theorem state_of_order
    (fuel : Nat) (start : State) (roots : List Node) :
    (exploreAll children visit fuel (∅, start) roots).map Prod.snd =
      (order children fuel roots).map fun nodes =>
        nodes.foldl visit start := by
  have respects :
      ∀ nodes node,
        (record nodes node).foldl visit start =
          visit (nodes.foldl visit start) node := by
    intro nodes node
    rw [record, List.foldl_append, List.foldl_cons, List.foldl_nil]
  have carried :=
    @exploreAll_map _ _ _ children _ _ _ _ respects fuel (∅, []) roots
  rw [show (∅, start) = ((∅ : Finset Node), List.foldl visit start []) from
    rfl, carried, order, Option.map_map, Option.map_map]
  rfl

end Search

/-! ## What a search visits -/

section Visits

variable {children : Node → List Node} {visit : State → Node → State}

def Edge (children : Node → List Node) (source target : Node) : Prop :=
  target ∈ children source

/-- A node can be reached from one of the roots. -/
def Reachable
    (children : Node → List Node) (roots : List Node) (node : Node) : Prop :=
  ∃ root ∈ roots, Relation.ReflTransGen (Edge children) root node

/-- The search has visited these nodes in this order. -/
structure Explores
    (children : Node → List Node) (visit : State → Node → State)
    (search : Finset Node × State) (roots : List Node)
    (result : Finset Node × State) (visits : List Node) : Prop where
  nodup : visits.Nodup
  fresh : ∀ node ∈ visits, node ∉ search.1
  visited : ∀ node, node ∈ result.1 ↔ node ∈ search.1 ∨ node ∈ visits
  state : result.2 = visits.foldl visit search.2
  reachable : ∀ node ∈ visits, Reachable children roots node
  roots : ∀ root ∈ roots, root ∈ result.1
  closed : ∀ node ∈ visits, ∀ child ∈ children node, child ∈ result.1

variable {search middle result : Finset Node × State}
variable {visits : List Node} {node : Node}

theorem explores_nil (search : Finset Node × State) :
    Explores children visit search [] search [] where
  nodup := List.nodup_nil
  fresh := List.forall_mem_nil _
  visited := fun node => by simp
  state := rfl
  reachable := List.forall_mem_nil _
  roots := List.forall_mem_nil _
  closed := List.forall_mem_nil _

theorem explores_visited (visited : node ∈ search.1) :
    Explores children visit search [node] search [] where
  nodup := List.nodup_nil
  fresh := List.forall_mem_nil _
  visited := fun node => by simp
  state := rfl
  reachable := List.forall_mem_nil _
  roots := fun root member => by
    rw [List.mem_singleton.mp member]
    exact visited
  closed := List.forall_mem_nil _

theorem Explores.fresh_node
    [DecidableEq Node] (fresh : node ∉ search.1)
    (explores :
      Explores children visit
        (insert node search.1, visit search.2 node) (children node) result
        visits) :
    Explores children visit search [node] result (node :: visits) where
  nodup := by
    apply List.nodup_cons.mpr
    refine ⟨fun member => ?_, explores.nodup⟩
    exact explores.fresh node member (Finset.mem_insert_self _ _)
  fresh := by
    intro other member
    rcases List.mem_cons.mp member with same | later
    · rw [same]
      exact fresh
    · have notMarked := explores.fresh other later
      exact fun old => notMarked (Finset.mem_insert_of_mem old)
  visited := by
    intro other
    rw [explores.visited, Finset.mem_insert, List.mem_cons]
    tauto
  state := by
    rw [explores.state, List.foldl_cons]
  reachable := by
    intro other member
    rcases List.mem_cons.mp member with same | later
    · rw [same]
      exact ⟨node, List.mem_singleton_self _, .refl⟩
    · rcases explores.reachable other later with ⟨child, isChild, path⟩
      exact ⟨node, List.mem_singleton_self _, .head isChild path⟩
  roots := by
    intro root member
    rw [List.mem_singleton.mp member, explores.visited]
    exact Or.inl (Finset.mem_insert_self _ _)
  closed := by
    intro other member child isChild
    rcases List.mem_cons.mp member with same | later
    · rw [same] at isChild
      exact explores.roots child isChild
    · exact explores.closed other later child isChild

theorem Explores.append
    {front back : List Node} {frontVisits backVisits : List Node}
    (first : Explores children visit search front middle frontVisits)
    (second : Explores children visit middle back result backVisits) :
    Explores children visit search (front ++ back) result
      (frontVisits ++ backVisits) where
  nodup := by
    apply List.nodup_append.mpr
    refine ⟨first.nodup, second.nodup, ?_⟩
    intro one inFront other inBack same
    apply second.fresh other inBack
    rw [first.visited, ← same]
    exact Or.inr inFront
  fresh := by
    intro other member
    rcases List.mem_append.mp member with inFront | inBack
    · exact first.fresh other inFront
    · have notMarked := second.fresh other inBack
      exact fun old => notMarked ((first.visited other).mpr (Or.inl old))
  visited := by
    intro other
    rw [second.visited, first.visited, List.mem_append, or_assoc]
  state := by
    rw [second.state, first.state, List.foldl_append]
  reachable := by
    intro other member
    rcases List.mem_append.mp member with inFront | inBack
    · rcases first.reachable other inFront with ⟨root, isRoot, path⟩
      exact ⟨root, List.mem_append_left _ isRoot, path⟩
    · rcases second.reachable other inBack with ⟨root, isRoot, path⟩
      exact ⟨root, List.mem_append_right _ isRoot, path⟩
  roots := by
    intro root member
    rcases List.mem_append.mp member with inFront | inBack
    · exact (second.visited root).mpr (Or.inl (first.roots root inFront))
    · exact second.roots root inBack
  closed := by
    intro other member child isChild
    rcases List.mem_append.mp member with inFront | inBack
    · exact (second.visited child).mpr
        (Or.inl (first.closed other inFront child isChild))
    · exact second.closed other inBack child isChild

/-- A search that ends has visited nodes in some order. -/
theorem explores_of_exploreAll
    [DecidableEq Node] {fuel : Nat} {roots : List Node}
    (ran : exploreAll children visit fuel search roots = some result) :
    ∃ visits, Explores children visit search roots result visits := by
  apply explore_induction
    (fun search roots result =>
      ∃ visits, Explores children visit search roots result visits)
    _ _ _ _ ran
  · exact fun search => ⟨[], explores_nil search⟩
  · exact fun search node visited => ⟨[], explores_visited visited⟩
  · intro search node result fresh explored
    rcases explored with ⟨visits, explores⟩
    exact ⟨node :: visits, explores.fresh_node fresh⟩
  · intro search middle result root roots first second
    rcases first with ⟨frontVisits, frontExplores⟩
    rcases second with ⟨backVisits, backExplores⟩
    exact ⟨frontVisits ++ backVisits, frontExplores.append backExplores⟩

/-- From the start, the nodes visited are those that can be reached. -/
theorem Explores.mem_iff
    {roots : List Node} (explores :
      Explores children visit search roots result visits)
    (start : search.1 = ∅) :
    node ∈ visits ↔ Reachable children roots node := by
  have inVisits (other : Node) (marked : other ∈ result.1) :
      other ∈ visits := by
    rw [explores.visited, start] at marked
    exact marked.resolve_left (Finset.notMem_empty other)
  constructor
  · exact explores.reachable node
  · intro reachable
    rcases reachable with ⟨root, isRoot, path⟩
    induction path with
    | refl => exact inVisits root (explores.roots root isRoot)
    | tail _ edge inductionHypothesis =>
        exact inVisits _ (explores.closed _ inductionHypothesis _ edge)

theorem foldl_record (nodes visits : List Node) :
    visits.foldl record nodes = nodes ++ visits := by
  induction visits generalizing nodes with
  | nil => rw [List.foldl_nil, List.append_nil]
  | cons node visits inductionHypothesis =>
      rw [List.foldl_cons, inductionHypothesis, record, List.append_assoc,
        List.singleton_append]

/-- The order has every node that can be reached, and each of them once. -/
theorem nodup_and_mem_of_order
    [DecidableEq Node] {fuel : Nat} {roots nodes : List Node}
    (ordered : order children fuel roots = some nodes) :
    nodes.Nodup ∧ ∀ node, node ∈ nodes ↔ Reachable children roots node := by
  rcases Option.map_eq_some_iff.mp ordered with ⟨result, ran, isState⟩
  rcases explores_of_exploreAll ran with ⟨visits, explores⟩
  have same : nodes = visits := by
    rw [← isState, explores.state, foldl_record, List.nil_append]
  rw [same]
  exact ⟨explores.nodup, fun node => explores.mem_iff rfl⟩

end Visits

/-! ## Enough fuel -/

section Fuel

variable [DecidableEq Node]
variable {children : Node → List Node} {visit : State → Node → State}

/-- The search ends with more fuel than there are nodes left. -/
theorem exists_exploreAll
    {nodes : Finset Node}
    (closed : ∀ node ∈ nodes, ∀ child ∈ children node, child ∈ nodes)
    {fuel : Nat} {search : Finset Node × State} {roots : List Node}
    (inside : ∀ root ∈ roots, root ∈ nodes)
    (enough : (nodes \ search.1).card < fuel) :
    ∃ result, exploreAll children visit fuel search roots = some result := by
  induction fuel generalizing search roots with
  | zero => exact absurd enough (Nat.not_lt_zero _)
  | succ fuel deeper =>
      induction roots generalizing search with
      | nil => exact ⟨search, rfl⟩
      | cons root roots later =>
          have first :
              ∃ middle,
                explore children visit (fuel + 1) search root =
                  some middle := by
            by_cases present : root ∈ search.1
            · exact ⟨search, explore_visited present fuel⟩
            · rw [explore_fresh present]
              have isNode := inside root List.mem_cons_self
              apply deeper (closed root isNode)
              have fewer :
                  nodes \ insert root search.1 ⊂ nodes \ search.1 := by
                rw [Finset.sdiff_insert]
                apply Finset.erase_ssubset
                exact Finset.mem_sdiff.mpr ⟨isNode, present⟩
              exact lt_of_lt_of_le (Finset.card_lt_card fewer)
                (Nat.lt_succ_iff.mp enough)
          rcases first with ⟨middle, firstRan⟩
          have single :
              exploreAll children visit (fuel + 1) search [root] =
                some middle := by
            rw [exploreAll_cons, firstRan]
            rfl
          rcases explores_of_exploreAll single with ⟨visits, explores⟩
          have noMore : nodes \ middle.1 ⊆ nodes \ search.1 := by
            apply Finset.sdiff_subset_sdiff (Finset.Subset.refl nodes)
            intro node old
            exact (explores.visited node).mpr (Or.inl old)
          rcases later
              (fun other member =>
                inside other (List.mem_cons_of_mem _ member))
              (lt_of_le_of_lt (Finset.card_le_card noMore) enough) with
            ⟨result, ran⟩
          refine ⟨result, ?_⟩
          rw [exploreAll_cons, firstRan, Option.bind_some, ran]

theorem exploreAll_succ
    {fuel : Nat} {search result : Finset Node × State} {roots : List Node}
    (ran : exploreAll children visit fuel search roots = some result) :
    exploreAll children visit (fuel + 1) search roots = some result := by
  induction fuel generalizing search result roots with
  | zero =>
      cases roots with
      | nil => exact ran
      | cons root roots =>
          rw [exploreAll_cons] at ran
          cases ran
  | succ fuel deeper =>
      induction roots generalizing search with
      | nil => exact ran
      | cons root roots later =>
          rw [exploreAll_cons] at ran ⊢
          rcases Option.bind_eq_some_iff.mp ran with
            ⟨middle, first, continued⟩
          have firstAgain :
              explore children visit (fuel + 1 + 1) search root =
                some middle := by
            by_cases present : root ∈ search.1
            · rw [explore_visited present] at first ⊢
              exact first
            · rw [explore_fresh present] at first ⊢
              exact deeper first
          rw [firstAgain, Option.bind_some]
          exact later continued

/-- More fuel changes nothing. -/
theorem exploreAll_mono
    {fuel more : Nat} (enough : fuel ≤ more)
    {search result : Finset Node × State} {roots : List Node}
    (ran : exploreAll children visit fuel search roots = some result) :
    exploreAll children visit more search roots = some result := by
  induction more, enough using Nat.le_induction with
  | base => exact ran
  | succ more _ inductionHypothesis =>
      exact exploreAll_succ inductionHypothesis

end Fuel

end Dinamite.DepthFirst
