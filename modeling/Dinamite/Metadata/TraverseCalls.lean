import Dinamite.Metadata.Tables

/-!
# The calls of `traverse`

The passes of the crawler with a note of every call of `traverse`.  Each of
the two traversals is called once on every node that can be reached from a
root, first the one for typedefs and then the one for field names.
-/

namespace Dinamite.Metadata

open Dinamite.DepthFirst

universe u

variable {Node : Type u}

/-! ## Roots -/

/-- A node the crawler starts from. -/
inductive Module.IsRoot (module : Module Node) (node : Node) : Prop
  | unit {units : List (Option Node)}
      (named : module.compileUnits = some units)
      (isUnit : some node ∈ units) : module.IsRoot node
  | operand {instruction : Instruction Node} {name : String}
      {operands : List (Option Node)}
      (member : instruction ∈ module.instructions)
      (calls : instruction.call = some (name, operands))
      (isLlvm : "llvm.".toList <+: name.toList)
      (isOperand : some node ∈ operands) : module.IsRoot node
  | attached {instruction : Instruction Node}
      (member : instruction ∈ module.instructions)
      (isAttached : node ∈ instruction.attached) : module.IsRoot node

/-- The node can be reached from one the crawler starts from. -/
def Module.FromRoot (module : Module Node) (node : Node) : Prop :=
  ∃ root, module.IsRoot root ∧
    Relation.ReflTransGen (Edge module.graph.children) root node

theorem mem_roots_iff {module : Module Node} {node : Node} :
    node ∈ module.roots ↔ module.IsRoot node := by
  rw [Module.roots, List.mem_append, Module.unitRoots,
    Module.instructionRoots, List.mem_flatMap]
  constructor
  · intro either
    rcases either with isUnit | ⟨instruction, member, isRoot⟩
    · cases named : module.compileUnits with
      | none =>
          rw [named] at isUnit
          cases isUnit
      | some units =>
          rw [named, Option.getD_some, List.reduceOption_mem_iff] at isUnit
          exact .unit named isUnit
    · rcases List.mem_append.mp isRoot with isOperand | isAttached
      · split at isOperand
        · rename_i name operands calls
          split at isOperand
          · rename_i isLlvm
            exact .operand member calls isLlvm
              (List.reduceOption_mem_iff.mp isOperand)
          · cases isOperand
        · cases isOperand
      · exact .attached member isAttached
  · intro isRoot
    cases isRoot with
    | unit named isUnit =>
        rw [named]
        exact Or.inl (List.reduceOption_mem_iff.mpr isUnit)
    | @operand instruction name operands member calls isLlvm isOperand =>
        refine Or.inr ⟨instruction, member, List.mem_append_left _ ?_⟩
        simp only [calls, if_pos isLlvm]
        exact List.reduceOption_mem_iff.mpr isOperand
    | @attached instruction member isAttached =>
        exact Or.inr ⟨instruction, member,
          List.mem_append_right _ isAttached⟩

theorem reachable_iff_fromRoot {module : Module Node} {node : Node} :
    module.Reachable node ↔ module.FromRoot node := by
  simp only [Module.Reachable, DepthFirst.Reachable, mem_roots_iff,
    Module.FromRoot]

/-! ## The crawl with its calls -/

/-- A call of `traverse`, by the object it is called on. -/
inductive TraverseCall (Node : Type u) where
  | typedefTraversal (node : Node)
  | fieldNameTraversal (node : Node)
  deriving DecidableEq, Repr

/-- The tables, and the calls of `traverse` so far. -/
abbrev Noted (Node : Type u) :=
  Tables Node × List (TraverseCall Node)

/-- `traverse`, with a note that it was called. -/
def note
    (call : Node → TraverseCall Node)
    (traversal : Tables Node → Node → Tables Node)
    (noted : Noted Node) (node : Node) : Noted Node :=
  (traversal noted.1 node, noted.2 ++ [call node])

theorem foldl_note
    (call : Node → TraverseCall Node)
    (traversal : Tables Node → Node → Tables Node)
    (visits : List Node) (noted : Noted Node) :
    visits.foldl (note call traversal) noted =
      (visits.foldl traversal noted.1, noted.2 ++ visits.map call) := by
  induction visits generalizing noted with
  | nil => rw [List.foldl_nil, List.foldl_nil, List.map_nil, List.append_nil]
  | cons node visits inductionHypothesis =>
      rw [List.foldl_cons, inductionHypothesis, note, List.append_assoc]
      rfl

section Noted

variable [DecidableEq Node] (module : Module Node)

/-- The passes of `crawlModule`, with the calls of `traverse` written down. -/
def crawlModuleNoted
    (environment : Environment) (fuel : Nat)
    (crawler : Finset Node × Noted Node) :
    Option (Finset Node × Noted Node) :=
  crawlWith module
    (note .typedefTraversal (traverseTypedef module.graph))
    (note .fieldNameTraversal (traverseFieldName environment module.graph))
    fuel crawler

/-- The crawler without the notes. -/
def eraseCalls (crawler : Finset Node × Noted Node) : MetadataCrawler Node :=
  (crawler.1, crawler.2.1)

variable {module} {environment : Environment} {fuel : Nat}
variable {call : Node → TraverseCall Node}
variable {traversal : Tables Node → Node → Tables Node}

/-- The notes change nothing. -/
theorem crawl_erase (crawler : Finset Node × Noted Node) :
    crawl module traversal fuel (eraseCalls crawler) =
      (crawl module (note call traversal) fuel crawler).map eraseCalls := by
  rw [crawl_eq, crawl_eq]
  have respects :
      ∀ noted node,
        Prod.fst (note call traversal noted node) =
          traversal (Prod.fst noted) node :=
    fun _ _ => rfl
  exact exploreAll_map respects fuel crawler module.roots

theorem crawlModule_erase (crawler : Finset Node × Noted Node) :
    crawlModule module environment fuel (eraseCalls crawler) =
      (crawlModuleNoted module environment fuel crawler).map
        eraseCalls := by
  rw [crawlModule, crawlModuleNoted, crawlWith, crawlWith,
    @crawl_erase _ _ _ _ .typedefTraversal, Option.bind_map,
    Option.map_bind]
  congr 1
  funext middle
  exact crawl_erase (∅, middle.2)

/-- More fuel changes nothing. -/
theorem crawlModuleNoted_mono
    {more : Nat} (enough : fuel ≤ more)
    {crawler result : Finset Node × Noted Node}
    (ran : crawlModuleNoted module environment fuel crawler = some result) :
    crawlModuleNoted module environment more crawler = some result := by
  rw [crawlModuleNoted, crawlWith] at ran ⊢
  rcases Option.bind_eq_some_iff.mp ran with ⟨middle, first, second⟩
  rw [crawl_eq] at first second
  rw [crawl_eq, exploreAll_mono enough first, Option.bind_some, crawl_eq]
  exact exploreAll_mono enough second

/-- A pass calls `traverse` on the visited nodes, in order. -/
theorem noted_of_crawl
    {noted : Noted Node} {result : Finset Node × Noted Node}
    (ran :
      crawl module (note call traversal) fuel (∅, noted) = some result) :
    ∃ visits, module.visits fuel = some visits ∧
      result.2.2 = noted.2 ++ visits.map call := by
  rw [crawl_eq] at ran
  have states :=
    @state_of_order _ _ _ module.graph.children (note call traversal) fuel
      noted module.roots
  rw [ran, Option.map_some] at states
  rcases Option.map_eq_some_iff.mp states.symm with
    ⟨visits, ordered, isState⟩
  refine ⟨visits, ordered, ?_⟩
  rw [← isState, foldl_note]

/-- Both passes call `traverse` on the same nodes. -/
theorem calls_of_crawlModuleNoted
    {tables : Tables Node} {result : Finset Node × Noted Node}
    (ran :
      crawlModuleNoted module environment fuel (∅, tables, []) =
        some result) :
    ∃ visits, module.visits fuel = some visits ∧
      result.2.2 =
        visits.map .typedefTraversal ++ visits.map .fieldNameTraversal := by
  rcases Option.bind_eq_some_iff.mp ran with ⟨middle, first, second⟩
  rcases noted_of_crawl first with ⟨visits, ordered, typedefs⟩
  rcases noted_of_crawl second with ⟨again, orderedAgain, all⟩
  obtain rfl := Option.some.inj (ordered.symm.trans orderedAgain)
  refine ⟨visits, ordered, ?_⟩
  rw [all, typedefs, List.nil_append]

end Noted

/-! ## Every node once -/

/-- Each traversal is called once on each node that can be reached from a root
and on no other one, and the one for typedefs is done before the other one
starts. -/
structure TraversesOnce
    [DecidableEq Node] (module : Module Node)
    (calls : List (TraverseCall Node)) : Prop where
  typedefOnce :
    ∀ node, module.FromRoot node →
      calls.count (.typedefTraversal node) = 1
  fieldNameOnce :
    ∀ node, module.FromRoot node →
      calls.count (.fieldNameTraversal node) = 1
  noOther :
    ∀ node, ¬ module.FromRoot node →
      .typedefTraversal node ∉ calls ∧ .fieldNameTraversal node ∉ calls
  typedefsFirst :
    ∃ typedefs fieldNames : List Node,
      calls =
        typedefs.map .typedefTraversal ++
          fieldNames.map .fieldNameTraversal

section Once

variable [DecidableEq Node] {module : Module Node} {visits : List Node}

theorem traversesOnce_of_visits
    (nodup : visits.Nodup)
    (reached : ∀ node, node ∈ visits ↔ module.FromRoot node) :
    TraversesOnce module
      (visits.map .typedefTraversal ++
        visits.map .fieldNameTraversal) where
  typedefOnce := by
    intro node fromRoot
    have isOnce :
        (visits.map TraverseCall.typedefTraversal).count
            (.typedefTraversal node) = 1 := by
      rw [List.count_map_of_injective _ _
        (fun _ _ => TraverseCall.typedefTraversal.inj)]
      exact List.count_eq_one_of_mem nodup ((reached node).mpr fromRoot)
    have isNotLater :
        (visits.map TraverseCall.fieldNameTraversal).count
            (.typedefTraversal node) = 0 := by
      apply List.count_eq_zero_of_not_mem
      simp
    rw [List.count_append, isOnce, isNotLater]
  fieldNameOnce := by
    intro node fromRoot
    have isNotEarlier :
        (visits.map TraverseCall.typedefTraversal).count
            (.fieldNameTraversal node) = 0 := by
      apply List.count_eq_zero_of_not_mem
      simp
    have isOnce :
        (visits.map TraverseCall.fieldNameTraversal).count
            (.fieldNameTraversal node) = 1 := by
      rw [List.count_map_of_injective _ _
        (fun _ _ => TraverseCall.fieldNameTraversal.inj)]
      exact List.count_eq_one_of_mem nodup ((reached node).mpr fromRoot)
    rw [List.count_append, isNotEarlier, isOnce]
  noOther := by
    intro node notReached
    rw [← reached] at notReached
    constructor
    · simpa using notReached
    · simpa using notReached
  typedefsFirst := ⟨visits, visits, rfl⟩

/-- A crawl by a fresh crawler ends, and calls each traversal once on each node
that can be reached. -/
theorem crawlModule_traverses_once
    [Fintype Node] (module : Module Node) (environment : Environment) :
    ∃ visited tables calls,
      (∀ fuel, Fintype.card Node < fuel →
        crawlModule module environment fuel (∅, .fresh) =
            some (visited, tables) ∧
          crawlModuleNoted module environment fuel (∅, .fresh, []) =
            some (visited, tables, calls)) ∧
        TraversesOnce module calls := by
  have ends (fuel : Nat) :
      crawlModule module environment fuel (∅, .fresh) =
        (crawlModuleNoted module environment fuel (∅, .fresh, [])).map
          eraseCalls :=
    crawlModule_erase (∅, .fresh, [])
  rcases exists_crawlModule environment module
      (Nat.lt_succ_self (Fintype.card Node)) (∅, .fresh) with
    ⟨result, returns⟩
  rw [ends] at returns
  rcases Option.map_eq_some_iff.mp returns with
    ⟨⟨visited, tables, calls⟩, ran, _⟩
  refine ⟨visited, tables, calls, ?_, ?_⟩
  · intro fuel enough
    have again := crawlModuleNoted_mono (Nat.succ_le_of_lt enough) ran
    exact ⟨by rw [ends, again]; rfl, again⟩
  · rcases calls_of_crawlModuleNoted ran with ⟨visits, ordered, isCalls⟩
    rcases nodup_and_mem_of_order ordered with ⟨nodup, reached⟩
    rw [show calls = _ from isCalls]
    exact traversesOnce_of_visits nodup
      fun node => (reached node).trans reachable_iff_fromRoot

end Once

end Dinamite.Metadata
