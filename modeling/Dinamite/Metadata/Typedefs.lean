import Dinamite.Metadata.Tables

/-!
# The names of typedefs

The traversal takes a node for a typedef if its tag has the bits of
`DW_TAG_typedef`, and binds the base even if it has no name to give.
-/

namespace Dinamite.Metadata

universe u

variable {Node : Type u}

/-! ## Typedefs -/

/-- The DWARF tag; the upper half of the operand is a version. -/
def Graph.dwarfTag (graph : Graph Node) (node : Node) : Option Nat :=
  (graph.tag node).map (· % 2 ^ 16)

theorem checkTag_of_dwarfTag
    {graph : Graph Node} {node : Node} {tag : Nat}
    (isTag : graph.dwarfTag node = some tag) :
    ∃ operand, graph.tag node = some operand ∧
      checkTag operand tag = true := by
  rcases Option.map_eq_some_iff.mp isTag with ⟨operand, isOperand, lower⟩
  refine ⟨operand, isOperand, ?_⟩
  rw [checkTag, decide_eq_true_iff]
  have small : tag < 2 ^ 16 := by
    rw [← lower]
    exact Nat.mod_lt _ (by decide)
  calc
    operand &&& tag = (operand &&& tag) % 2 ^ 16 :=
      (Nat.mod_eq_of_lt (lt_of_le_of_lt Nat.and_le_right small)).symm
    _ = operand % 2 ^ 16 &&& tag % 2 ^ 16 := Nat.and_mod_two_pow
    _ = tag := by
      rw [lower, Nat.mod_eq_of_lt small, Nat.and_self]

/-- The node is a typedef of the base, with this text for a name. -/
structure TypedefOf
    (graph : Graph Node) (node base : Node) (name : String) : Prop where
  tag : graph.dwarfTag node = some dwTagTypedef
  base : graph.nodeOperand node 9 = some base
  name : graph.getOperand node 3 = some (.string name)

instance
    [DecidableEq Node] (graph : Graph Node) (node base : Node)
    (name : String) : Decidable (TypedefOf graph node base name) :=
  decidable_of_iff
    (graph.dwarfTag node = some dwTagTypedef ∧
      graph.nodeOperand node 9 = some base ∧
        graph.getOperand node 3 = some (.string name))
    ⟨fun all => ⟨all.1, all.2.1, all.2.2⟩,
      fun isTypedef => ⟨isTypedef.tag, isTypedef.base, isTypedef.name⟩⟩

theorem TypedefOf.binds
    {graph : Graph Node} {node base : Node} {name : String}
    (isTypedef : TypedefOf graph node base name) :
    Binds graph node base name :=
  ⟨checkTag_of_dwarfTag isTypedef.tag, isTypedef.base, Or.inl isTypedef.name⟩

section Recorded

variable (graph : Graph Node) (visits : List Node) (base : Node)

/-- Some visited typedef of the base has this name. -/
def Named (name : String) : Prop :=
  ∃ node ∈ visits, TypedefOf graph node base name

/-- Some visited typedef of the base has a name that is not empty. -/
def HasTypedef : Prop :=
  ∃ name, Named graph visits base name ∧ name ≠ ""

/-- A base is only bound to the name of one of its typedefs, and it is bound if
there is a typedef with a name. -/
structure TypedefRecorded (typedefMap : Node → Option String) : Prop where
  sound :
    ∀ name, typedefMap base = some name → Named graph visits base name
  complete :
    HasTypedef graph visits base →
      ∃ name, typedefMap base = some name ∧ name ≠ "" ∧
        Named graph visits base name

end Recorded

section Exact

variable {graph : Graph Node} {visits : List Node} {base : Node}
variable [DecidableEq Node] {environment : Environment}
variable {module : Module Node} {tables : Tables Node}

theorem exists_firstBinds
    (binds : ∃ node ∈ visits, ∃ name, Binds graph node base name) :
    ∃ name, FirstBinds graph visits base name := by
  rcases binds with ⟨node, visited, name, binds⟩
  cases first : typedefName graph visits base with
  | none =>
      have given := givenName_eq_some_iff.mpr binds
      rw [List.findSome?_eq_none_iff.mp first node visited] at given
      cases given
  | some other => exact ⟨other, typedefName_eq_some_iff.mp first⟩

/-- A base is recorded as it is to be just if the first visited node that the
traversal takes for a typedef of it gives a name that a typedef of it has, and
no empty one where a typedef has a name. -/
theorem typedef_recorded_iff
    (crawled : Crawled environment module visits tables) (base : Node) :
    TypedefRecorded module.graph visits base tables.typedefMap ↔
      ∀ name, FirstBinds module.graph visits base name →
        Named module.graph visits base name ∧
          (HasTypedef module.graph visits base → name ≠ "") := by
  constructor
  · intro recorded name first
    have bound := (crawled.typedefMap_iff base name).mpr first
    refine ⟨recorded.sound name bound, ?_⟩
    intro hasTypedef
    rcases recorded.complete hasTypedef with ⟨other, isOther, notEmpty, _⟩
    rw [Option.some.inj (bound.symm.trans isOther)]
    exact notEmpty
  · intro firstNamed
    constructor
    · intro name bound
      exact (firstNamed name
        ((crawled.typedefMap_iff base name).mp bound)).1
    · intro hasTypedef
      rcases hasTypedef with ⟨other, ⟨node, visited, isTypedef⟩, notEmpty⟩
      rcases exists_firstBinds ⟨node, visited, other, isTypedef.binds⟩ with
        ⟨name, first⟩
      rcases firstNamed name first with ⟨named, someName⟩
      exact ⟨name, (crawled.typedefMap_iff base name).mpr first,
        someName ⟨other, ⟨node, visited, isTypedef⟩, notEmpty⟩, named⟩

end Exact

/-! ## A restricted pointer -/

/-- The operands of a type: its tag, name, base and members. -/
def typeOperands
    (tag : Int) (name : String) (base members : Option Node) :
    List (Option (Operand Node)) :=
  [some (.constantInt (0xc0000 + tag)), none, none, some (.string name),
    none, none, none, none, none, base.map .node, members.map .node]

/-- A compile unit, a `restrict` qualified pointer type, a typedef of that
pointer type, and the pointer type. -/
def restrictGraph : Graph (Fin 4) where
  operands := fun node =>
    match node with
    | 0 => [some (.node 1), some (.node 2)]
    | 1 => typeOperands 0x37 "" (some 3) none
    | 2 => typeOperands 0x16 "ip" (some 3) none
    | 3 => typeOperands 0x0f "" none none

def restrictModule : Module (Fin 4) where
  graph := restrictGraph
  compileUnits := some [some 0]
  instructions := []

def identityEnvironment : Environment where
  demangle := id
  dangling := id

theorem restrictModule_visits :
    ∃ tables,
      Crawled identityEnvironment restrictModule [0, 1, 3, 2] tables := by
  have ordered : restrictModule.visits 5 = some [0, 1, 3, 2] := by
    decide +kernel
  have returns :
      (crawlModule restrictModule identityEnvironment 5
        (∅, .fresh)).isSome := by
    decide +kernel
  rcases Option.isSome_iff_exists.mp returns with ⟨⟨visited, tables⟩, ran⟩
  exact ⟨tables, ⟨5, visited, ordered, ran⟩⟩

theorem restrictModule_recorded_iff :
    ∃ tables,
      Crawled identityEnvironment restrictModule [0, 1, 3, 2] tables ∧
        (TypedefRecorded restrictGraph [0, 1, 3, 2] 3 tables.typedefMap ↔
          ∀ name, FirstBinds restrictGraph [0, 1, 3, 2] 3 name →
            Named restrictGraph [0, 1, 3, 2] 3 name ∧
              (HasTypedef restrictGraph [0, 1, 3, 2] 3 → name ≠ "")) := by
  rcases restrictModule_visits with ⟨tables, crawled⟩
  exact ⟨tables, crawled, typedef_recorded_iff crawled 3⟩

/-- The qualified type is visited first, and the name of the typedef is
lost. -/
theorem typedefMap_misses_name :
    ¬ ∀ (Node : Type) [DecidableEq Node] (environment : Environment)
        (module : Module Node) (visits : List Node) (tables : Tables Node)
        (base : Node),
      Crawled environment module visits tables →
        TypedefRecorded module.graph visits base tables.typedefMap := by
  intro always
  rcases restrictModule_visits with ⟨tables, crawled⟩
  have recorded :=
    always (Fin 4) identityEnvironment restrictModule [0, 1, 3, 2] tables 3
      crawled
  have first : FirstBinds restrictGraph [0, 1, 3, 2] 3 "" := by
    refine ⟨[0], 1, [3, 2], rfl, ⟨⟨0xc0037, rfl, by decide⟩, rfl, .inl rfl⟩,
      ?_⟩
    intro earlier member other binds
    rw [List.mem_singleton.mp member] at binds
    rcases binds.tagged with ⟨tag, isTag, _⟩
    cases isTag
  have bound := (crawled.typedefMap_iff 3 "").mpr first
  rcases recorded.sound "" bound with ⟨node, _, isTypedef⟩
  have noTypedef : ∀ node, ¬ TypedefOf restrictGraph node 3 "" := by
    decide +kernel
  exact noTypedef node isTypedef

end Dinamite.Metadata
