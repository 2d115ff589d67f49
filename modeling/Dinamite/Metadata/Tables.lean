import Dinamite.Metadata.Crawler

/-!
# What a crawl leaves in the tables

Both passes visit the same nodes in the same order.  The typedef table has the
name from the first node that gives one, and the field table has under each
name the fields of all nodes with that name, one after the other.
-/

namespace Dinamite.Metadata

open Dinamite.DepthFirst

universe u v

variable {Node : Type u}

/-! ## The order of the visits -/

namespace Module

variable (module : Module Node)

def roots : List Node :=
  module.unitRoots ++ module.instructionRoots

/-- The node can be reached from a root. -/
def Reachable (node : Node) : Prop :=
  DepthFirst.Reachable module.graph.children module.roots node

/-- The nodes a pass visits, in order. -/
def visits [DecidableEq Node] (fuel : Nat) : Option (List Node) :=
  order module.graph.children fuel module.roots

end Module

theorem crawl_eq
    [DecidableEq Node] {State : Type v} (module : Module Node)
    (traversal : State → Node → State) (fuel : Nat)
    (crawler : Finset Node × State) :
    crawl module traversal fuel crawler =
      exploreAll module.graph.children traversal fuel crawler
        module.roots := by
  rw [Module.roots, exploreAll_append]
  rfl

theorem crawl_fresh
    [DecidableEq Node] (module : Module Node)
    (traversal : Tables Node → Node → Tables Node) (fuel : Nat)
    (tables : Tables Node) :
    (crawl module traversal fuel (∅, tables)).map Prod.snd =
      (module.visits fuel).map fun visits =>
        visits.foldl traversal tables := by
  rw [crawl_eq]
  exact state_of_order fuel tables module.roots

/-- A crawl of the module by a fresh crawler: the order of each pass, and the
tables it leaves. -/
structure Crawled
    [DecidableEq Node] (environment : Environment) (module : Module Node)
    (visits : List Node) (tables : Tables Node) : Prop where
  ran :
    ∃ fuel visited,
      module.visits fuel = some visits ∧
        crawlModule module environment fuel (∅, .fresh) =
          some (visited, tables)

section Crawled

variable [DecidableEq Node] {environment : Environment}
variable {module : Module Node} {visits : List Node} {tables : Tables Node}

theorem Crawled.nodup (crawled : Crawled environment module visits tables) :
    visits.Nodup := by
  rcases crawled.ran with ⟨fuel, visited, ordered, _⟩
  exact (nodup_and_mem_of_order ordered).1

/-- The tables are those of the two traversals, over the same nodes. -/
theorem Crawled.tables_eq
    (crawled : Crawled environment module visits tables) :
    tables =
      visits.foldl (traverseFieldName environment module.graph)
        (visits.foldl (traverseTypedef module.graph) .fresh) := by
  rcases crawled.ran with ⟨fuel, visited, ordered, ran⟩
  rcases Option.bind_eq_some_iff.mp ran with ⟨crawler, first, second⟩
  have typedefs := crawl_fresh module (traverseTypedef module.graph) fuel
    .fresh
  rw [first, ordered] at typedefs
  have fields :=
    crawl_fresh module (traverseFieldName environment module.graph) fuel
      crawler.2
  rw [second, ordered] at fields
  rw [show crawler.2 = _ from Option.some.inj typedefs] at fields
  exact Option.some.inj fields

/-- A pass over finitely many nodes ends. -/
theorem exists_crawl
    [Fintype Node] (module : Module Node)
    (traversal : Tables Node → Node → Tables Node)
    {fuel : Nat} (enough : Fintype.card Node < fuel)
    (crawler : MetadataCrawler Node) :
    ∃ result, crawl module traversal fuel crawler = some result := by
  rw [crawl_eq]
  have closed :
      ∀ node ∈ (Finset.univ : Finset Node),
        ∀ child ∈ module.graph.children node, child ∈ Finset.univ :=
    fun _ _ child _ => Finset.mem_univ child
  apply exists_exploreAll closed
  · exact fun root _ => Finset.mem_univ root
  · exact lt_of_le_of_lt (Finset.card_le_univ _) enough

theorem exists_crawlModule
    [Fintype Node] (environment : Environment) (module : Module Node)
    {fuel : Nat} (enough : Fintype.card Node < fuel)
    (crawler : MetadataCrawler Node) :
    ∃ result, crawlModule module environment fuel crawler = some result := by
  rcases exists_crawl module (traverseTypedef module.graph) enough
      crawler with ⟨typedefs, first⟩
  rcases exists_crawl module (traverseFieldName environment module.graph)
      enough (∅, typedefs.2) with ⟨result, second⟩
  refine ⟨result, ?_⟩
  rw [crawlModule, crawlWith, first]
  exact second

/-- Every module over finitely many nodes is crawled. -/
theorem exists_crawled
    [Fintype Node] (environment : Environment) (module : Module Node) :
    ∃ visits tables, Crawled environment module visits tables := by
  rcases exists_crawlModule environment module
      (Nat.lt_succ_self (Fintype.card Node)) (∅, .fresh) with
    ⟨⟨visited, tables⟩, ran⟩
  rcases Option.bind_eq_some_iff.mp ran with ⟨typedefs, first, _⟩
  have ordered :=
    crawl_fresh module (traverseTypedef module.graph)
      (Fintype.card Node + 1) .fresh
  rw [first, Option.map_some] at ordered
  rcases Option.map_eq_some_iff.mp ordered.symm with ⟨visits, isOrder, _⟩
  exact ⟨visits, tables, ⟨_, visited, isOrder, ran⟩⟩

end Crawled

/-! ## The typedef table -/

section Typedefs

variable (graph : Graph Node)

/-- A node that the typedef traversal takes for a typedef: its base and the
name it gives. -/
structure Binds (node base : Node) (name : String) : Prop where
  tagged :
    ∃ tag, graph.tag node = some tag ∧ checkTag tag dwTagTypedef = true
  base : graph.nodeOperand node 9 = some base
  name :
    graph.getOperand node 3 = some (.string name) ∨
      (∀ text, graph.getOperand node 3 ≠ some (.string text)) ∧ name = ""

variable {graph}

/-- A node operand is within the operands. -/
theorem lt_numOperands_of_nodeOperand
    {node child : Node} {index : Nat}
    (isChild : graph.nodeOperand node index = some child) :
    index < graph.numOperands node := by
  by_contra outside
  have missing : (graph.operands node)[index]? = none :=
    List.getElem?_eq_none_iff.mpr (not_lt.mp outside)
  rw [Graph.nodeOperand, Graph.getOperand, missing] at isChild
  cases isChild

variable [DecidableEq Node]

/-- The name that the first node to bind the base gives. -/
def FirstBinds
    (graph : Graph Node) (visits : List Node) (base : Node) (name : String) :
    Prop :=
  ∃ front node back, visits = front ++ node :: back ∧
    Binds graph node base name ∧
    ∀ earlier ∈ front, ∀ other, ¬ Binds graph earlier base other

/-- The name a node gives to the base. -/
def givenName (graph : Graph Node) (base node : Node) : Option String :=
  match graph.tag node with
  | some tag =>
      if checkTag tag dwTagTypedef = true ∧
          graph.nodeOperand node 9 = some base then
        match graph.getOperand node 3 with
        | some (.string name) => some name
        | _ => some ""
      else
        none
  | none => none

/-- The name that the first visited node to bind the base gives to it. -/
def typedefName
    (graph : Graph Node) (visits : List Node) (base : Node) :
    Option String :=
  visits.findSome? (givenName graph base)

theorem givenName_eq_some_iff {node base : Node} {name : String} :
    givenName graph base node = some name ↔ Binds graph node base name := by
  constructor
  · intro given
    unfold givenName at given
    split at given
    · rename_i tag isTag
      split at given
      · rename_i both
        refine ⟨⟨tag, isTag, both.1⟩, both.2, ?_⟩
        split at given
        · rename_i text isText
          rw [isText, Option.some.inj given]
          exact Or.inl rfl
        · rename_i noText
          exact Or.inr ⟨noText, (Option.some.inj given).symm⟩
      · cases given
    · cases given
  · intro binds
    rcases binds.tagged with ⟨tag, isTag, passes⟩
    unfold givenName
    simp only [isTag, if_pos (And.intro passes binds.base)]
    rcases binds.name with isName | ⟨noName, isEmpty⟩
    · rw [isName]
    · rw [isEmpty]
      split
      · rename_i text isText
        exact absurd isText (noName text)
      · rfl

theorem typedefName_eq_some_iff
    {visits : List Node} {base : Node} {name : String} :
    typedefName graph visits base = some name ↔
      FirstBinds graph visits base name := by
  have gives (node : Node) :
      givenName graph base node = none ↔
        ∀ other, ¬ Binds graph node base other := by
    rw [Option.eq_none_iff_forall_ne_some]
    simp only [Ne, givenName_eq_some_iff]
  unfold typedefName FirstBinds
  simp only [List.findSome?_eq_some_iff, givenName_eq_some_iff, gives]

theorem bindTypedef_typedefMap
    (tables : Tables Node) (structptr : Option Node) (name : String)
    (base : Node) :
    (bindTypedef tables structptr name).typedefMap base =
      (tables.typedefMap base).or
        (if structptr = some base then some name else none) := by
  unfold bindTypedef
  cases structptr with
  | none => simp
  | some node =>
      by_cases same : node = base
      · rw [same]
        cases free : tables.typedefMap base with
        | none => simp [free]
        | some other => simp [free]
      · dsimp only
        split
        · simp [Function.update_of_ne (Ne.symm same), same]
        · simp [same]

/-- What is in the table stays; otherwise the node gives a name. -/
theorem traverseTypedef_typedefMap
    (tables : Tables Node) (node base : Node) :
    (traverseTypedef graph tables node).typedefMap base =
      (tables.typedefMap base).or (givenName graph base node) := by
  unfold traverseTypedef givenName
  cases graph.tag node with
  | none => simp
  | some tag =>
      by_cases passes : checkTag tag dwTagTypedef = true
      · by_cases many : graph.numOperands node > 9
        · simp only [passes, many, if_true, true_and]
          cases graph.getOperand node 3 with
          | none => exact bindTypedef_typedefMap tables _ "" base
          | some operand =>
              cases operand with
              | string name => exact bindTypedef_typedefMap tables _ name base
              | node => exact bindTypedef_typedefMap tables _ "" base
              | constantInt => exact bindTypedef_typedefMap tables _ "" base
              | value => exact bindTypedef_typedefMap tables _ "" base
        · have noBase : graph.nodeOperand node 9 ≠ some base :=
            fun isBase => many (lt_numOperands_of_nodeOperand isBase)
          simp [passes, many, noBase]
      · simp [passes]

theorem typedefMap_foldl
    (visits : List Node) (tables : Tables Node) (base : Node) :
    (visits.foldl (traverseTypedef graph) tables).typedefMap base =
      (tables.typedefMap base).or (typedefName graph visits base) := by
  induction visits generalizing tables with
  | nil => simp [typedefName]
  | cons node visits inductionHypothesis =>
      rw [List.foldl_cons, inductionHypothesis, traverseTypedef_typedefMap,
        Option.or_assoc]
      congr 1
      unfold typedefName
      rw [List.findSome?_cons]
      cases givenName graph base node with
      | none => rfl
      | some name => rfl

theorem fieldMap_foldl_typedef
    (visits : List Node) (tables : Tables Node) :
    (visits.foldl (traverseTypedef graph) tables).fieldMap =
      tables.fieldMap := by
  have one (node : Node) (tables : Tables Node) :
      (traverseTypedef graph tables node).fieldMap = tables.fieldMap := by
    have bound (structptr : Option Node) (name : String) :
        (bindTypedef tables structptr name).fieldMap =
          tables.fieldMap := by
      unfold bindTypedef
      split
      · split
        · rfl
        · rfl
      · rfl
    unfold traverseTypedef
    split
    · split
      · split
        · split
          · exact bound _ _
          · exact bound _ _
        · rfl
      · rfl
    · rfl
  induction visits generalizing tables with
  | nil => rfl
  | cons node visits inductionHypothesis =>
      rw [List.foldl_cons, inductionHypothesis, one]

end Typedefs

/-! ## The field table -/

section Fields

variable {environment : Environment} {graph : Graph Node}

/-- A node that the field traversal takes for a class or struct: the name it is
kept under, and the node with its members. -/
structure Contributes
    (environment : Environment) (graph : Graph Node)
    (typedefMap : Node → Option String) (node : Node) (key : String)
    (fields : Node) : Prop where
  tagged :
    ∃ tag, graph.tag node = some tag ∧
      (checkTag tag dwTagClassType || checkTag tag dwTagStructureType) = true
  key :
    ∃ operand, graph.getOperand node 3 = some operand ∧
      className environment graph typedefMap node operand = key
  fields : graph.nodeOperand node 10 = some fields

/-- The names of the members a node adds under a key. -/
def contribution
    (environment : Environment) (graph : Graph Node)
    (typedefMap : Node → Option String) (key : String) (node : Node) :
    List String :=
  match graph.tag node, graph.getOperand node 3,
      graph.nodeOperand node 10 with
  | some tag, some operand, some fields =>
      if (checkTag tag dwTagClassType || checkTag tag dwTagStructureType) ∧
          className environment graph typedefMap node operand = key then
        (graph.children fields).map (fieldName graph)
      else
        []
  | _, _, _ => []

theorem contribution_of_contributes
    {typedefMap : Node → Option String} {node fields : Node} {key : String}
    (contributes :
      Contributes environment graph typedefMap node key fields) :
    contribution environment graph typedefMap key node =
      (graph.children fields).map (fieldName graph) := by
  rcases contributes.tagged with ⟨tag, isTag, passes⟩
  rcases contributes.key with ⟨operand, isOperand, isKey⟩
  simp only [contribution, isTag, isOperand, contributes.fields, passes,
    isKey, and_self, if_true]

/-- A list of names at the end of a table entry; no entry is made for none. -/
def appendNames (entry : Option (List String)) (names : List String) :
    Option (List String) :=
  if names = [] then entry else some (entry.getD [] ++ names)

theorem appendNames_nil (entry : Option (List String)) :
    appendNames entry [] = entry :=
  if_pos rfl

theorem appendNames_append
    (entry : Option (List String)) (front back : List String) :
    appendNames (appendNames entry front) back =
      appendNames entry (front ++ back) := by
  by_cases noFront : front = []
  · simp [appendNames, noFront]
  · by_cases noBack : back = []
    · simp [appendNames, noBack]
    · simp [appendNames, noFront, noBack]

theorem getFields_fieldMap
    (tables : Tables Node) (name : String) (fields : Node) (key : String) :
    (getFields graph tables name fields).fieldMap key =
      if name = key then
        appendNames (tables.fieldMap key)
          ((graph.children fields).map (fieldName graph))
      else
        tables.fieldMap key := by
  unfold getFields
  generalize (graph.children fields).map (fieldName graph) = names
  induction names generalizing tables with
  | nil => simp [appendNames_nil]
  | cons first names inductionHypothesis =>
      rw [List.foldl_cons, inductionHypothesis]
      by_cases isKey : name = key
      · rw [if_pos isKey, if_pos isKey, ← List.singleton_append,
          ← appendNames_append, isKey]
        simp [pushField, appendNames]
      · rw [if_neg isKey, if_neg isKey]
        exact Function.update_of_ne (Ne.symm isKey) _ _

theorem getFields_typedefMap
    (tables : Tables Node) (name : String) (fields : Node) :
    (getFields graph tables name fields).typedefMap = tables.typedefMap := by
  unfold getFields
  generalize (graph.children fields).map (fieldName graph) = names
  induction names generalizing tables with
  | nil => rfl
  | cons first names inductionHypothesis =>
      rw [List.foldl_cons, inductionHypothesis]
      rfl

theorem traverseFieldName_typedefMap (tables : Tables Node) (node : Node) :
    (traverseFieldName environment graph tables node).typedefMap =
      tables.typedefMap := by
  unfold traverseFieldName
  split
  · split
    · split
      · split
        · exact getFields_typedefMap _ _ _
        · rfl
      · rfl
    · rfl
  · rfl

theorem traverseFieldName_fieldMap
    (tables : Tables Node) (node : Node) (key : String) :
    (traverseFieldName environment graph tables node).fieldMap key =
      appendNames (tables.fieldMap key)
        (contribution environment graph tables.typedefMap key node) := by
  unfold traverseFieldName contribution
  cases graph.tag node with
  | none => rw [appendNames_nil]
  | some tag =>
      cases graph.getOperand node 3 with
      | none => simp [appendNames_nil]
      | some operand =>
          cases graph.nodeOperand node 10 with
          | none => simp [appendNames_nil]
          | some fields =>
              by_cases passes :
                  (checkTag tag dwTagClassType ||
                    checkTag tag dwTagStructureType) = true
              · simp only [passes, if_true, true_and]
                rw [getFields_fieldMap]
                split
                · rfl
                · rw [appendNames_nil]
              · simp [passes, appendNames_nil]

/-- The table has what all visited nodes add, in order. -/
theorem fieldMap_foldl
    (visits : List Node) (tables : Tables Node) (key : String) :
    (visits.foldl (traverseFieldName environment graph) tables).fieldMap
        key =
      appendNames (tables.fieldMap key)
        (visits.flatMap
          (contribution environment graph tables.typedefMap key)) := by
  induction visits generalizing tables with
  | nil => rw [List.foldl_nil, List.flatMap_nil, appendNames_nil]
  | cons node visits inductionHypothesis =>
      rw [List.foldl_cons, inductionHypothesis, List.flatMap_cons,
        traverseFieldName_typedefMap, traverseFieldName_fieldMap,
        appendNames_append]

theorem typedefMap_foldl_field
    (visits : List Node) (tables : Tables Node) :
    (visits.foldl (traverseFieldName environment graph) tables).typedefMap =
      tables.typedefMap := by
  induction visits generalizing tables with
  | nil => rfl
  | cons node visits inductionHypothesis =>
      rw [List.foldl_cons, inductionHypothesis,
        traverseFieldName_typedefMap]

end Fields

/-! ## After a crawl -/

section Result

variable [DecidableEq Node] {environment : Environment}
variable {module : Module Node} {visits : List Node} {tables : Tables Node}

theorem Crawled.typedefMap_eq
    (crawled : Crawled environment module visits tables) :
    tables.typedefMap = typedefName module.graph visits := by
  funext base
  rw [crawled.tables_eq, typedefMap_foldl_field, typedefMap_foldl]
  rfl

theorem Crawled.typedefMap_iff
    (crawled : Crawled environment module visits tables)
    (base : Node) (name : String) :
    tables.typedefMap base = some name ↔
      FirstBinds module.graph visits base name := by
  rw [crawled.typedefMap_eq, typedefName_eq_some_iff]

/-- The names of the fields that a node adds under a key in a crawl. -/
def addedFields
    (environment : Environment) (graph : Graph Node) (visits : List Node)
    (key : String) (node : Node) : List String :=
  contribution environment graph (typedefName graph visits) key node

/-- Under a key are the fields that all visited nodes add, in order. -/
theorem Crawled.fieldMap_eq
    (crawled : Crawled environment module visits tables) (key : String) :
    tables.fieldMap key =
      appendNames none
        (visits.flatMap
          (addedFields environment module.graph visits key)) := by
  have typedefs :
      (visits.foldl (traverseTypedef module.graph) .fresh).typedefMap =
        typedefName module.graph visits := by
    rw [← crawled.typedefMap_eq, crawled.tables_eq, typedefMap_foldl_field]
  rw [crawled.tables_eq, fieldMap_foldl, fieldMap_foldl_typedef, typedefs]
  rfl

end Result

end Dinamite.Metadata
