import Dinamite.Metadata.Typedefs

/-!
# The names of fields

The fields of every node whose tag has the bits of a class or struct are kept
under its unqualified name.  The fields of one struct are found if no other
node adds any, apart from ones that have the name an index beyond the fields is
answered with.
-/

namespace Dinamite.Metadata

universe u

variable {Node : Type u}

/-! ## Lists that agree with a part of them -/

section Lists

variable {α : Type u} {other : α} {front names back : List α}

theorem getD_of_forall_eq
    (all : ∀ name ∈ names, name = other) (index : Nat) :
    names.getD index other = other := by
  by_cases inside : index < names.length
  · rw [List.getD_eq_getElem _ _ inside]
    exact all _ (List.getElem_mem inside)
  · exact List.getD_eq_default _ _ (not_lt.mp inside)

theorem forall_eq_of_getD
    (all : ∀ index, names.getD index other = other) :
    ∀ name ∈ names, name = other := by
  intro name member
  rcases List.mem_iff_getElem.mp member with ⟨index, inside, isName⟩
  rw [← isName, ← List.getD_eq_getElem _ other inside]
  exact all index

theorem getD_behind (index : Nat) :
    (front ++ names).getD (front.length + index) other =
      names.getD index other := by
  rw [List.getD_append_right _ _ _ _ (Nat.le_add_right _ _),
    Nat.add_sub_cancel_left]

/-- Where something stands in front of the names, each of them is the same as
one further on. -/
theorem names_eq_of_agree
    (agree : ∀ index,
      (front ++ names ++ back).getD index other = names.getD index other)
    (someFront : front ≠ []) (index : Nat) :
    names.getD index other = other := by
  have positive : 0 < front.length := List.length_pos_iff.mpr someFront
  by_cases inside : index < names.length
  · calc
      names.getD index other =
          (front ++ names).getD (front.length + index) other :=
        getD_behind index |>.symm
      _ = (front ++ names ++ back).getD (front.length + index) other := by
        refine (List.getD_append _ _ _ _ ?_).symm
        rw [List.length_append]
        omega
      _ = names.getD (front.length + index) other := agree _
      _ = other := names_eq_of_agree agree someFront (front.length + index)
  · exact List.getD_eq_default _ _ (not_lt.mp inside)
termination_by names.length - index

theorem agree_iff :
    (∀ index,
        (front ++ names ++ back).getD index other =
          names.getD index other) ↔
      (front = [] ∧ ∀ name ∈ back, name = other) ∨
        ∀ name ∈ front ++ names ++ back, name = other := by
  constructor
  · intro agree
    by_cases noFront : front = []
    · refine Or.inl ⟨noFront, forall_eq_of_getD fun index => ?_⟩
      have behind := agree (names.length + index)
      rw [noFront, List.nil_append, getD_behind] at behind
      rw [behind]
      exact List.getD_eq_default _ _ (Nat.le_add_right _ _)
    · refine Or.inr (forall_eq_of_getD fun index => ?_)
      rw [agree]
      exact names_eq_of_agree agree noFront index
  · intro either index
    rcases either with ⟨noFront, backSame⟩ | allSame
    · rw [noFront, List.nil_append]
      by_cases inside : index < names.length
      · exact List.getD_append _ _ _ _ inside
      · rw [List.getD_append_right _ _ _ _ (not_lt.mp inside),
          getD_of_forall_eq backSame,
          List.getD_eq_default _ _ (not_lt.mp inside)]
    · have namesSame : ∀ name ∈ names, name = other := by
        intro name member
        apply allSame
        simp [member]
      rw [getD_of_forall_eq allSame, getD_of_forall_eq namesSame]

end Lists

/-! ## Structs -/

/-- A class or struct with a name and a list of members. -/
structure IsRecord
    (graph : Graph Node) (node : Node) (key : String) (fields : Node) :
    Prop where
  tag :
    graph.dwarfTag node = some dwTagClassType ∨
      graph.dwarfTag node = some dwTagStructureType
  name : graph.getOperand node 3 = some (.string key)
  named : key ≠ ""
  fields : graph.nodeOperand node 10 = some fields

/-- The names of the members, in order. -/
def memberNames (graph : Graph Node) (fields : Node) : List String :=
  (graph.children fields).map (fieldName graph)

theorem IsRecord.contributes
    {graph : Graph Node} {node fields : Node} {name : String}
    (isRecord : IsRecord graph node name fields)
    (environment : Environment) (typedefMap : Node → Option String) :
    Contributes environment graph typedefMap node name fields where
  tagged := by
    rcases isRecord.tag with isClass | isStruct
    · rcases checkTag_of_dwarfTag isClass with ⟨tag, isTag, passes⟩
      exact ⟨tag, isTag, by rw [passes, Bool.true_or]⟩
    · rcases checkTag_of_dwarfTag isStruct with ⟨tag, isTag, passes⟩
      exact ⟨tag, isTag, by rw [passes, Bool.or_true]⟩
  key := by
    refine ⟨_, isRecord.name, ?_⟩
    rw [className, Operand.getName, if_neg isRecord.named]
  fields := isRecord.fields

/-- Every index of a member gives its name, and every other one "unknown". -/
structure FieldsFound
    (tables : Tables Node) (key : String) (names : List String) :
    Prop where
  found :
    ∀ (index : Nat) (name : String), names[index]? = some name →
      tables.getFieldName key index = name
  beyond :
    ∀ index : Int, index < 0 ∨ names.length ≤ index →
      tables.getFieldName key index = "unknown"

section Lookup

variable {tables : Tables Node} {key : String} {entries names : List String}

theorem getFieldName_of_entries
    (present : tables.fieldMap key = some entries) (index : Nat) :
    tables.getFieldName key index = entries.getD index "unknown" := by
  simp only [Tables.getFieldName, present]
  by_cases inside : index < entries.length
  · rw [if_neg (by omega), Int.toNat_natCast,
      List.getD_eq_getElem _ _ inside, List.getD_eq_getElem _ _ inside]
  · rw [if_pos (by omega), List.getD_eq_default _ _ (not_lt.mp inside)]

theorem getFieldName_of_neg
    (present : tables.fieldMap key = some entries) {index : Int}
    (negative : index < 0) :
    tables.getFieldName key index = "unknown" := by
  simp only [Tables.getFieldName, present]
  rw [if_pos (Or.inl negative)]

theorem fieldsFound_iff :
    FieldsFound tables key names ↔
      ∃ entries, tables.fieldMap key = some entries ∧
        ∀ index : Nat,
          entries.getD index "unknown" = names.getD index "unknown" := by
  constructor
  · intro fieldsFound
    cases present : tables.fieldMap key with
    | none =>
        have unknown := fieldsFound.beyond (-1) (Or.inl (by decide))
        simp only [Tables.getFieldName, present] at unknown
        exact absurd unknown (by decide)
    | some entries =>
        refine ⟨entries, rfl, fun index => ?_⟩
        rw [← getFieldName_of_entries present]
        by_cases inside : index < names.length
        · rw [List.getD_eq_getElem _ _ inside]
          exact fieldsFound.found index _ (List.getElem?_eq_getElem inside)
        · rw [List.getD_eq_default _ _ (not_lt.mp inside)]
          exact fieldsFound.beyond index (Or.inr (by omega))
  · intro agreeing
    rcases agreeing with ⟨entries, present, agree⟩
    constructor
    · intro index name isName
      rw [getFieldName_of_entries present, agree, List.getD_eq_getElem?_getD,
        isName, Option.getD_some]
    · intro index outside
      rcases outside with negative | large
      · exact getFieldName_of_neg present negative
      · have isNat : index = index.toNat := by omega
        rw [isNat, getFieldName_of_entries present, agree]
        exact List.getD_eq_default _ _ (by omega)

end Lookup

/-! ## Structs in a crawl -/

section Exact

variable [DecidableEq Node] {environment : Environment}
variable {module : Module Node} {visits front back : List Node}
variable {tables : Tables Node} {node fields : Node} {name : String}

theorem IsRecord.addedFields_eq
    (isRecord : IsRecord module.graph node name fields) :
    addedFields environment module.graph visits name node =
      memberNames module.graph fields :=
  contribution_of_contributes
    (isRecord.contributes environment (typedefName module.graph visits))

/-- Under the name of a struct are its fields, between those of the nodes
visited earlier and later. -/
theorem flatMap_addedFields
    (split : visits = front ++ node :: back)
    (isRecord : IsRecord module.graph node name fields) :
    visits.flatMap (addedFields environment module.graph visits name) =
      front.flatMap (addedFields environment module.graph visits name) ++
          memberNames module.graph fields ++
        back.flatMap (addedFields environment module.graph visits name) := by
  have own :
      addedFields environment module.graph visits name node =
        memberNames module.graph fields :=
    isRecord.addedFields_eq
  generalize addedFields environment module.graph visits name = added
    at own ⊢
  rw [split, List.flatMap_append, List.flatMap_cons, own, List.append_assoc]

/-- The fields of a struct are found just if there is a field under its name at
all, and either no node visited earlier adds one and all that later ones add
are called "unknown", or all of them are called so. -/
theorem fields_found_iff
    (crawled : Crawled environment module visits tables)
    (split : visits = front ++ node :: back)
    (isRecord : IsRecord module.graph node name fields) :
    FieldsFound tables name (memberNames module.graph fields) ↔
      (∃ other ∈ visits,
          addedFields environment module.graph visits name other ≠ []) ∧
        (((∀ other ∈ front,
              addedFields environment module.graph visits name other =
                []) ∧
            ∀ other ∈ back,
              ∀ field ∈
                addedFields environment module.graph visits name other,
              field = "unknown") ∨
          ∀ other ∈ visits,
            ∀ field ∈
              addedFields environment module.graph visits name other,
            field = "unknown") := by
  have whole :=
    @flatMap_addedFields _ _ environment _ _ _ _ _ _ _ split isRecord
  have entries := crawled.fieldMap_eq name
  generalize addedFields environment module.graph visits name = added
    at whole entries ⊢
  have someEntry :
      (∃ list, tables.fieldMap name = some list ∧
          ∀ index : Nat,
            list.getD index "unknown" =
              (memberNames module.graph fields).getD index "unknown") ↔
        visits.flatMap added ≠ [] ∧
          ∀ index : Nat,
            (visits.flatMap added).getD index "unknown" =
              (memberNames module.graph fields).getD index "unknown" := by
    rw [entries, appendNames]
    by_cases none : visits.flatMap added = []
    · simp [none]
    · simp [none]
  rw [fieldsFound_iff, someEntry, whole, agree_iff, ← whole]
  apply and_congr
  · rw [Ne, List.flatMap_eq_nil_iff, not_forall]
    simp only [not_forall, exists_prop]
  · apply or_congr
    · apply and_congr
      · exact List.flatMap_eq_nil_iff
      · simp only [List.mem_flatMap]
        exact ⟨fun all other member field inside =>
            all field ⟨other, member, inside⟩,
          fun all field inside => by
            rcases inside with ⟨other, member, isField⟩
            exact all other member field isField⟩
    · simp only [List.mem_flatMap]
      exact ⟨fun all other member field inside =>
          all field ⟨other, member, inside⟩,
        fun all field inside => by
          rcases inside with ⟨other, member, isField⟩
          exact all other member field isField⟩

theorem fieldMap_of_isRecord
    (crawled : Crawled environment module visits tables)
    (split : visits = front ++ node :: back)
    (isRecord : IsRecord module.graph node name fields)
    (some : memberNames module.graph fields ≠ []) :
    tables.fieldMap name =
      .some
        (front.flatMap (addedFields environment module.graph visits name) ++
            memberNames module.graph fields ++
          back.flatMap
            (addedFields environment module.graph visits name)) := by
  rw [crawled.fieldMap_eq, flatMap_addedFields split isRecord, appendNames,
    if_neg]
  · rfl
  · intro none
    exact some (List.append_eq_nil_iff.mp
      (List.append_eq_nil_iff.mp none).1).2

/-- Every index of a member gives its name just if the fields of the struct
come first under its name. -/
theorem members_resolve_iff
    (crawled : Crawled environment module visits tables)
    (split : visits = front ++ node :: back)
    (isRecord : IsRecord module.graph node name fields) :
    (∀ (index : Nat) (field : String),
        (memberNames module.graph fields)[index]? = some field →
          tables.getFieldName name index = field) ↔
      memberNames module.graph fields <+:
        front.flatMap (addedFields environment module.graph visits name) ++
          memberNames module.graph fields := by
  have fieldMap := fieldMap_of_isRecord crawled split isRecord
  generalize memberNames module.graph fields = names at fieldMap ⊢
  generalize
    front.flatMap (addedFields environment module.graph visits name) =
      before at fieldMap ⊢
  generalize
    back.flatMap (addedFields environment module.graph visits name) =
      after at fieldMap
  have found {index : Nat} (inside : index < names.length) :
      tables.getFieldName name index =
        (before ++ names).getD index "unknown" := by
    have present := fieldMap (List.ne_nil_of_length_pos (by omega))
    have within : index < (before ++ names).length := by
      rw [List.length_append]
      omega
    rw [getFieldName_of_entries present, List.getD_append _ _ _ _ within]
  rw [List.prefix_iff_getElem?]
  constructor
  · intro resolves index inside
    have isField :=
      resolves index _ (List.getElem?_eq_getElem inside)
    have within : index < (before ++ names).length := by
      rw [List.length_append]
      omega
    rw [found inside, List.getD_eq_getElem _ _ within] at isField
    rw [List.getElem?_eq_getElem within, isField]
  · intro isPrefix index field isField
    rcases List.getElem?_eq_some_iff.mp isField with ⟨inside, isAt⟩
    rw [found inside, List.getD_eq_getElem?_getD, isPrefix index inside,
      isAt, Option.getD_some]

end Exact

/-! ## Two structs of one name -/

/-- A compile unit, two structs of different namespaces, their lists of
members, and a member in each. -/
def namesakeGraph : Graph (Fin 7) where
  operands := fun node =>
    match node with
    | 0 => [some (.node 1), some (.node 2)]
    | 1 => typeOperands 0x13 "P" none (some 3)
    | 2 => typeOperands 0x13 "P" none (some 4)
    | 3 => [some (.node 5)]
    | 4 => [some (.node 6)]
    | 5 => typeOperands 0x0d "x" none none
    | 6 => typeOperands 0x0d "y" none none

def namesakeModule : Module (Fin 7) where
  graph := namesakeGraph
  compileUnits := some [some 0]
  instructions := []

/-- Each struct in turn, with its members. -/
def namesakeVisits : List (Fin 7) :=
  [0, 1, 3, 5, 2, 4, 6]

theorem namesakeModule_ordered :
    namesakeModule.visits 8 = some namesakeVisits := by
  decide +kernel

theorem namesakeModule_visits :
    ∃ tables,
      Crawled identityEnvironment namesakeModule namesakeVisits tables := by
  have returns :
      (crawlModule namesakeModule identityEnvironment 8
        (∅, .fresh)).isSome := by
    decide +kernel
  rcases Option.isSome_iff_exists.mp returns with ⟨⟨visited, tables⟩, ran⟩
  exact ⟨tables, ⟨8, visited, namesakeModule_ordered, ran⟩⟩

theorem namesakeGraph_isRecord : IsRecord namesakeGraph 1 "P" 3 :=
  ⟨Or.inr rfl, rfl, by decide, rfl⟩

theorem namesake_fields_found_iff :
    ∃ tables : Tables (Fin 7),
      FieldsFound tables "P" (memberNames namesakeGraph 3) ↔
        (∃ other ∈ namesakeVisits,
            addedFields identityEnvironment namesakeGraph namesakeVisits "P"
              other ≠ []) ∧
          (((∀ other ∈ [0],
                addedFields identityEnvironment namesakeGraph namesakeVisits
                  "P" other = []) ∧
              ∀ other ∈ [3, 5, 2, 4, 6],
                ∀ field ∈
                  addedFields identityEnvironment namesakeGraph
                    namesakeVisits "P" other,
                field = "unknown") ∨
            ∀ other ∈ namesakeVisits,
              ∀ field ∈
                addedFields identityEnvironment namesakeGraph namesakeVisits
                  "P" other,
              field = "unknown") := by
  rcases namesakeModule_visits with ⟨tables, crawled⟩
  exact ⟨tables, fields_found_iff crawled rfl namesakeGraph_isRecord⟩

/-- The member of the second struct is found behind that of the first. -/
theorem getFieldName_finds_namesake :
    ¬ ∀ (Node : Type) [DecidableEq Node] (environment : Environment)
        (module : Module Node) (visits : List Node) (tables : Tables Node)
        (node fields : Node) (name : String),
      Crawled environment module visits tables → node ∈ visits →
        IsRecord module.graph node name fields →
          FieldsFound tables name (memberNames module.graph fields) := by
  intro always
  have returns :
      ((crawlModule namesakeModule identityEnvironment 8
          (∅, .fresh)).map fun crawler =>
        crawler.2.getFieldName "P" 1) = some "y" := by
    decide +kernel
  rcases Option.map_eq_some_iff.mp returns with
    ⟨⟨visited, tables⟩, ran, isY⟩
  have fieldsFound :=
    always (Fin 7) identityEnvironment namesakeModule namesakeVisits tables
      1 3 "P" ⟨8, visited, namesakeModule_ordered, ran⟩ (by decide)
      namesakeGraph_isRecord
  have unknown := fieldsFound.beyond 1 (Or.inr (by decide))
  rw [isY] at unknown
  exact absurd unknown (by decide)

end Dinamite.Metadata
