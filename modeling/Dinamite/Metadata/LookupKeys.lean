import Dinamite.Instrument.Names
import Dinamite.Metadata.FieldNames

/-!
# The key of a field access

The pass looks fields up under the name of the struct type with its prefix and
everything up to the first `::` taken off.  The table is kept under the
unqualified name.
-/

namespace Dinamite.Metadata

open Dinamite.Instrument

universe u

/-! ## Occurrences -/

/-- The text of the pattern stands behind the front. -/
def OccursBehind (pattern text front back : List Char) : Prop :=
  text = front ++ pattern ++ back

theorem findText_eq_none
    {pattern text : List Char} (none : findText pattern text = .none)
    (front back : List Char) : ¬ OccursBehind pattern text front back := by
  induction text generalizing front with
  | nil =>
      intro occurs
      have parts := List.append_eq_nil_iff.mp occurs.symm
      have noPattern := (List.append_eq_nil_iff.mp parts.1).2
      rw [noPattern] at none
      cases none
  | cons head rest inductionHypothesis =>
      intro occurs
      unfold findText at none
      split at none
      · cases none
      · rename_i notHere
        cases front with
        | nil =>
            apply notHere
            rw [List.isPrefixOf_iff_prefix, occurs]
            exact List.prefix_append pattern back
        | cons first front =>
            have later : findText pattern rest = .none :=
              Option.map_eq_none_iff.mp none
            exact inductionHypothesis later front (List.cons.inj occurs).2

/-- The place found is the first one. -/
theorem findText_eq_some
    {pattern text : List Char} {position : Nat}
    (found : findText pattern text = some position) :
    OccursBehind pattern text (text.take position)
        (text.drop (position + pattern.length)) ∧
      ∀ front back, OccursBehind pattern text front back →
        position ≤ front.length := by
  induction text generalizing position with
  | nil =>
      unfold findText at found
      split at found
      · rename_i empty
        obtain rfl := Option.some.inj found
        rw [List.isEmpty_iff.mp empty]
        exact ⟨rfl, fun _ _ _ => Nat.zero_le _⟩
      · cases found
  | cons head rest inductionHypothesis =>
      unfold findText at found
      split at found
      · rename_i here
        obtain rfl := Option.some.inj found
        rcases List.isPrefixOf_iff_prefix.mp here with ⟨back, isText⟩
        refine ⟨?_, fun _ _ _ => Nat.zero_le _⟩
        rw [← isText, OccursBehind, List.take_zero, List.nil_append,
          Nat.zero_add, List.drop_left]
      · rename_i notHere
        rcases Option.map_eq_some_iff.mp found with ⟨later, isLater, rfl⟩
        rcases inductionHypothesis isLater with ⟨occurs, first⟩
        constructor
        · rw [OccursBehind, List.take_succ_cons, Nat.add_right_comm,
            List.drop_succ_cons, List.cons_append, List.cons_append,
            ← show rest = _ from occurs]
        · intro front back other
          cases front with
          | nil =>
              refine absurd ?_ notHere
              rw [List.isPrefixOf_iff_prefix, other]
              exact List.prefix_append pattern back
          | cons start front =>
              exact Nat.succ_le_succ
                (first front back (List.cons.inj other).2)

/-! ## Keys -/

/-- The key `getGEPVarName` looks the fields up under. -/
def lookupKey (gep : GetElementPtr) : List Char :=
  let parent :=
    erasePrefix "struct.".toList
      (erasePrefix "class.".toList (Naming.parentStruct gep).toList)
  match findText "::".toList parent with
  | some dblcolon => parent.drop (dblcolon + 2)
  | none => parent

theorem gepVarText_eq (naming : Naming) (site : Nat) (gep : GetElementPtr) :
    naming.gepVarText site gep =
      String.ofList
        (eraseAddr
          (lookupKey gep ++
            '.' :: (naming.getFieldName (String.ofList (lookupKey gep))
              (if gep.numOperands < 3 then -1
                else gep.fieldIndex.getD (naming.unassigned site))).toList)) :=
  rfl

/-- Up to the first `::` the text is taken off. -/
def unqualified (text : List Char) : List Char :=
  match findText "::".toList text with
  | some dblcolon => text.drop (dblcolon + 2)
  | none => text

/-- Nothing, or something that ends with `::`. -/
def IsScope (scope : List Char) : Prop :=
  scope = [] ∨ ∃ front, scope = front ++ "::".toList

/-- There is no `::` but the one right in front of the identifier. -/
def QualifiedOnce (text name : List Char) : Prop :=
  ∀ front back, OccursBehind "::".toList text front back → back = name

section Unqualified

variable {scope name : List Char}

/-- The colons stand in front of the identifier. -/
theorem length_le_of_occurs
    (noColon : ':' ∉ name) {front back : List Char}
    (occurs : OccursBehind "::".toList (scope ++ name) front back) :
    front.length + 2 ≤ scope.length := by
  by_contra inside
  have second : front.length + 1 - front.length = 1 := by omega
  have colon : (scope ++ name)[front.length + 1]? = some ':' := by
    rw [show scope ++ name = _ from occurs, List.append_assoc,
      List.getElem?_append_right (Nat.le_succ _), second]
    rfl
  rw [List.getElem?_append_right (by omega)] at colon
  exact noColon (List.mem_of_getElem? colon)

theorem unqualified_eq_iff
    (someName : name ≠ []) (noColon : ':' ∉ name)
    (isScope : IsScope scope) :
    unqualified (scope ++ name) = name ↔
      QualifiedOnce (scope ++ name) name := by
  unfold unqualified
  cases found : findText "::".toList (scope ++ name) with
  | none =>
      have nowhere := findText_eq_none found
      refine iff_of_true ?_
        fun front back occurs => absurd occurs (nowhere front back)
      rcases isScope with unscoped | ⟨front, ends⟩
      · exact congrArg (· ++ name) unscoped
      · refine absurd ?_ (nowhere front name)
        rw [OccursBehind, ends]
  | some position =>
      rcases findText_eq_some found with ⟨here, first⟩
      constructor
      · intro same front back occurs
        have lengths : (scope ++ name).length - (position + 2) =
            name.length := by
          rw [← List.length_drop]
          exact congrArg List.length same
        have fits := length_le_of_occurs noColon occurs
        have notEarlier := first front back occurs
        rw [List.length_append] at lengths
        have place : (front ++ "::".toList).length = scope.length := by
          have := List.length_pos_iff.mpr someName
          rw [List.length_append, show "::".toList.length = 2 from rfl]
          omega
        calc
          back =
              (scope ++ name).drop (front ++ "::".toList).length := by
            rw [show scope ++ name = _ from occurs, List.drop_left]
          _ = name := by rw [place, List.drop_left]
      · intro once
        exact once _ _ here

/-- A text without colons in front does not count. -/
theorem qualifiedOnce_append_iff
    {lead text : List Char} (noColon : ':' ∉ lead) :
    QualifiedOnce (lead ++ text) name ↔ QualifiedOnce text name := by
  constructor
  · intro once front back occurs
    apply once (lead ++ front) back
    rw [OccursBehind, show text = _ from occurs]
    simp only [List.append_assoc]
  · intro once front back occurs
    rw [OccursBehind, List.append_assoc] at occurs
    rcases List.append_eq_append_iff.mp occurs with
      ⟨between, _, isText⟩ | ⟨between, isLead, isRest⟩
    · apply once between back
      rw [OccursBehind, isText, List.append_assoc]
    · cases between with
      | nil =>
          apply once [] back
          exact isRest.symm
      | cons head between =>
          have isColon : ':' = head := (List.cons.inj isRest).1
          refine absurd ?_ noColon
          rw [isLead, isColon]
          exact List.mem_append_right front List.mem_cons_self

theorem IsScope.of_append
    {lead : List Char} (isScope : IsScope (lead ++ scope))
    (noColon : ':' ∉ lead) : IsScope scope := by
  rcases isScope with none | ⟨front, ends⟩
  · exact Or.inl (List.append_eq_nil_iff.mp none).2
  · rcases List.append_eq_append_iff.mp ends with
      ⟨between, _, isRest⟩ | ⟨between, isLead, isRest⟩
    · exact Or.inr ⟨between, isRest⟩
    · cases between with
      | nil => exact Or.inr ⟨[], isRest.symm⟩
      | cons head between =>
          have isColon : ':' = head := (List.cons.inj isRest).1
          refine absurd ?_ noColon
          rw [isLead, isColon]
          exact List.mem_append_right front List.mem_cons_self

end Unqualified

/-! ## The names of struct types -/

/-- The name of a struct type: a prefix, qualifiers, and an identifier. -/
structure QualifiedType where
  kind : List Char
  qualifiers : List (List Char)
  name : List Char
  isKind : kind = "class.".toList ∨ kind = "struct.".toList
  someName : name ≠ []
  noColon : ':' ∉ name
  noDot : '.' ∉ name

theorem erasePrefix_append (pattern text : List Char) :
    erasePrefix pattern (pattern ++ text) = text := by
  rw [erasePrefix, if_pos, List.drop_left]
  rw [List.isPrefixOf_iff_prefix]
  exact List.prefix_append pattern text

namespace QualifiedType

variable (type : QualifiedType)

/-- What stands in front of the identifier. -/
def qualification : List Char :=
  type.qualifiers.flatMap fun qualifier => qualifier ++ "::".toList

def qualifiedName : List Char :=
  type.qualification ++ type.name

def llvmName : String :=
  String.ofList (type.kind ++ type.qualifiedName)

variable {type}

theorem isScope_qualification : IsScope type.qualification := by
  unfold qualification
  rcases List.eq_nil_or_concat' type.qualifiers with
    none | ⟨qualifiers, last, isConcat⟩
  · rw [none]
    exact Or.inl rfl
  · refine Or.inr
      ⟨(qualifiers.flatMap fun qualifier => qualifier ++ "::".toList) ++
        last, ?_⟩
    rw [isConcat, List.flatMap_append, List.flatMap_singleton,
      List.append_assoc]

/-- A first qualifier that starts like a struct loses that. -/
theorem erasePrefix_qualifiedName :
    ∃ lead scope,
      type.qualification = lead ++ scope ∧ ':' ∉ lead ∧
        erasePrefix "struct.".toList type.qualifiedName =
          scope ++ type.name := by
  by_cases starts : "struct.".toList <+: type.qualifiedName
  · rcases starts with ⟨rest, isName⟩
    rw [← isName, erasePrefix_append]
    rcases List.append_eq_append_iff.mp isName with
      ⟨scope, isQualification, isRest⟩ | ⟨between, isLead, isTail⟩
    · exact ⟨_, scope, isQualification, by decide, isRest⟩
    · -- the identifier has no dot, so nothing of the prefix lies in it
      have noDot : '.' ∉ between := by
        intro member
        apply type.noDot
        rw [isTail]
        exact List.mem_append_left rest member
      have noRest : between = [] := by
        by_contra some
        have last := List.getLast?_append_of_ne_nil type.qualification some
        rw [← isLead] at last
        exact noDot (List.mem_of_getLast? last.symm)
      rw [noRest, List.append_nil] at isLead
      rw [noRest, List.nil_append] at isTail
      exact ⟨"struct.".toList, [],
        isLead.symm.trans (List.append_nil _).symm, by decide, isTail.symm⟩
  · refine ⟨[], type.qualification, rfl, List.not_mem_nil, ?_⟩
    rw [erasePrefix, if_neg]
    · rfl
    · rwa [List.isPrefixOf_iff_prefix]

/-- The prefix of the type is taken off. -/
theorem exists_parent :
    ∃ lead scope,
      type.qualification = lead ++ scope ∧ ':' ∉ lead ∧
        erasePrefix "struct.".toList
            (erasePrefix "class.".toList
              (type.kind ++ type.qualifiedName)) =
          scope ++ type.name := by
  rcases type.isKind with isClass | isStruct
  · rw [isClass, erasePrefix_append]
    exact erasePrefix_qualifiedName
  · have noClass :
        erasePrefix "class.".toList
            ("struct.".toList ++ type.qualifiedName) =
          "struct.".toList ++ type.qualifiedName := by
      rw [erasePrefix, if_neg]
      intro isPrefix
      exact absurd isPrefix (by simp [List.isPrefixOf])
    rw [isStruct, noClass, erasePrefix_append]
    exact ⟨[], _, rfl, List.not_mem_nil, rfl⟩

/-- The key is the identifier just if there is at most one `::`. -/
theorem lookupKey_eq_name_iff
    {gep : GetElementPtr}
    (source : gep.sourceType = .pointer (.struct type.llvmName)) :
    lookupKey gep = type.name ↔
      QualifiedOnce type.qualifiedName type.name := by
  rcases @exists_parent type with
    ⟨lead, scope, isQualification, noColon, isParent⟩
  have isScope : IsScope scope := by
    apply IsScope.of_append _ noColon
    rw [← isQualification]
    exact isScope_qualification
  have structName : Naming.parentStruct gep = type.llvmName := by
    simp only [Naming.parentStruct, source]
  have isKey : lookupKey gep = unqualified (scope ++ type.name) := by
    rw [← isParent, ← String.toList_ofList (l := type.kind ++ _),
      ← llvmName, ← structName]
    rfl
  rw [isKey, unqualified_eq_iff type.someName type.noColon isScope,
    qualifiedName, isQualification, List.append_assoc,
    qualifiedOnce_append_iff noColon]

/-- For qualifiers without colons the number of them decides. -/
theorem qualifiedOnce_iff_length_le_one
    (plain : ∀ qualifier ∈ type.qualifiers, ':' ∉ qualifier) :
    QualifiedOnce type.qualifiedName type.name ↔
      type.qualifiers.length ≤ 1 := by
  unfold qualifiedName qualification
  rcases isQualifiers : type.qualifiers with
    _ | ⟨first, _ | ⟨second, qualifiers⟩⟩
  · refine iff_of_true ?_ (Nat.zero_le 1)
    intro front back occurs
    have fits := length_le_of_occurs type.noColon occurs
    exact absurd fits (Nat.not_succ_le_zero _)
  · refine iff_of_true ?_ le_rfl
    rw [isQualifiers] at plain
    rw [List.flatMap_singleton, List.append_assoc,
      qualifiedOnce_append_iff (plain first List.mem_cons_self)]
    intro front back occurs
    have fits := length_le_of_occurs type.noColon occurs
    have noFront : front = [] := by
      apply List.eq_nil_of_length_eq_zero
      exact Nat.le_zero.mp (Nat.le_of_add_le_add_right fits)
    rw [OccursBehind, noFront] at occurs
    exact (List.append_cancel_left occurs).symm
  · have many : ¬ (first :: second :: qualifiers).length ≤ 1 := by simp
    refine iff_of_false ?_ many
    intro once
    have same :=
      once first
        (second ++ "::".toList ++
          qualifiers.flatMap (fun qualifier => qualifier ++ "::".toList) ++
          type.name)
        (by simp [OccursBehind])
    have lengths := congrArg List.length same
    simp at lengths
    omega

end QualifiedType

/-! ## Field accesses -/

/-- The key of an access is the identifier of the type, the fields of the node
are kept under it, and the text built for an access to one of them names it. -/
structure KeyAgrees
    {Node : Type u} (environment : Environment) (graph : Graph Node)
    (tables : Tables Node) (node : Node) (names : List String)
    (key : List Char) (gep : GetElementPtr) : Prop where
  same : lookupKey gep = key
  kept :
    ∀ before : Tables Node,
      (traverseFieldName environment graph before node).fieldMap
          (String.ofList (lookupKey gep)) =
        appendNames (before.fieldMap (String.ofList (lookupKey gep))) names
  present :
    names ≠ [] →
      (tables.fieldMap (String.ofList (lookupKey gep))).isSome
  resolves :
    ∀ (index : Nat) (field : String), names[index]? = some field →
      tables.getFieldName (String.ofList (lookupKey gep)) index = field
  named :
    ∀ (naming : Naming) (site index : Nat) (field : String),
      naming.getFieldName = tables.getFieldName →
        3 ≤ gep.numOperands → gep.fieldIndex = some (index : Int) →
          names[index]? = some field →
            naming.gepVarText site gep =
              String.ofList (eraseAddr (key ++ '.' :: field.toList))

section Exact

variable {Node : Type u} [DecidableEq Node] {environment : Environment}
variable {module : Module Node} {visits front back : List Node}
variable {tables : Tables Node} {node fields : Node} {gep : GetElementPtr}
variable {type : QualifiedType}

/-- The keys agree and give the fields just if there is at most one `::` in the
name, and the fields of the type come first under it. -/
theorem key_agrees_iff
    (crawled : Crawled environment module visits tables)
    (split : visits = front ++ node :: back)
    (isRecord :
      IsRecord module.graph node (String.ofList type.name) fields)
    (source : gep.sourceType = .pointer (.struct type.llvmName)) :
    KeyAgrees environment module.graph tables node
        (memberNames module.graph fields) type.name gep ↔
      QualifiedOnce type.qualifiedName type.name ∧
        memberNames module.graph fields <+:
          front.flatMap
              (addedFields environment module.graph visits
                (String.ofList type.name)) ++
            memberNames module.graph fields := by
  rw [← QualifiedType.lookupKey_eq_name_iff source,
    ← members_resolve_iff crawled split isRecord]
  constructor
  · intro agrees
    have resolves := agrees.resolves
    rw [agrees.same] at resolves
    exact ⟨agrees.same, resolves⟩
  · intro both
    rcases both with ⟨same, resolves⟩
    constructor
    · exact same
    · intro before
      rw [same, traverseFieldName_fieldMap,
        contribution_of_contributes (isRecord.contributes _ _)]
      rfl
    · intro some
      rw [same, fieldMap_of_isRecord crawled split isRecord some]
      rfl
    · intro index field isField
      rw [same]
      exact resolves index field isField
    · intro naming site index field fromTables operands isIndex isField
      rw [gepVarText_eq, same, if_neg (not_lt.mpr operands), isIndex,
        Option.getD_some, fromTables, resolves index field isField]

end Exact

/-! ## A struct in one namespace and in two -/

/-- Its graph has a node 0. -/
local instance structNodes : NeZero 4 :=
  ⟨Nat.succ_ne_zero 3⟩

/-- A compile unit, a struct, its list of members, and the member. -/
def structGraph : Graph (Fin 4) where
  operands := fun node =>
    match node with
    | 0 => [some (.node 1)]
    | 1 => typeOperands 0x13 "T" none (some 2)
    | 2 => [some (.node 3)]
    | 3 => typeOperands 0x0d "x" none none

def structModule : Module (Fin 4) where
  graph := structGraph
  compileUnits := some [some 0]
  instructions := []

def structType (qualifiers : List (List Char)) : QualifiedType where
  kind := "struct.".toList
  qualifiers := qualifiers
  name := ['T']
  isKind := Or.inr rfl
  someName := by decide
  noColon := by decide
  noDot := by decide

def structAccess (qualifiers : List (List Char)) : GetElementPtr where
  numOperands := 3
  sourceType := .pointer (.struct (structType qualifiers).llvmName)
  fieldIndex := some 0

theorem structModule_crawled :
    ∃ tables,
      Crawled identityEnvironment structModule [0, 1, 2, 3] tables := by
  have ordered : structModule.visits 5 = some [0, 1, 2, 3] := by
    decide +kernel
  have returns :
      (crawlModule structModule identityEnvironment 5
        (∅, .fresh)).isSome := by
    decide +kernel
  rcases Option.isSome_iff_exists.mp returns with ⟨⟨visited, tables⟩, ran⟩
  exact ⟨tables, ⟨5, visited, ordered, ran⟩⟩

theorem structGraph_isRecord : IsRecord structGraph 1 "T" 2 :=
  ⟨Or.inr rfl, rfl, by decide, rfl⟩

theorem one_namespace_agrees_iff :
    ∃ tables : Tables (Fin 4),
      KeyAgrees identityEnvironment structGraph tables 1
          (memberNames structGraph 2) ['T']
          (structAccess ["a".toList]) ↔
        QualifiedOnce "a::T".toList ['T'] ∧
          memberNames structGraph 2 <+:
            [0].flatMap
                (addedFields identityEnvironment structGraph [0, 1, 2, 3]
                  "T") ++
              memberNames structGraph 2 := by
  rcases structModule_crawled with ⟨tables, crawled⟩
  exact ⟨tables,
    @key_agrees_iff _ _ _ _ _ [0] [2, 3] _ _ _
      (structAccess ["a".toList]) (structType ["a".toList]) crawled rfl
      structGraph_isRecord rfl⟩

/-- The struct of a nested namespace is looked up under `b::T`. -/
theorem key_keeps_second_qualifier :
    ¬ ∀ (Node : Type) [DecidableEq Node] (environment : Environment)
        (module : Module Node) (visits : List Node) (tables : Tables Node)
        (node fields : Node) (gep : GetElementPtr) (type : QualifiedType),
      Crawled environment module visits tables → node ∈ visits →
        IsRecord module.graph node (String.ofList type.name) fields →
          gep.sourceType = .pointer (.struct type.llvmName) →
            KeyAgrees environment module.graph tables node
              (memberNames module.graph fields) type.name gep := by
  intro always
  rcases structModule_crawled with ⟨tables, crawled⟩
  have agrees :=
    always (Fin 4) identityEnvironment structModule [0, 1, 2, 3] tables 1 2
      (structAccess ["a".toList, "b".toList])
      (structType ["a".toList, "b".toList]) crawled (by decide)
      structGraph_isRecord rfl
  have key :
      lookupKey (structAccess ["a".toList, "b".toList]) =
        "b::T".toList := by
    decide +kernel
  exact absurd (key.symm.trans agrees.same) (by decide)

end Dinamite.Metadata
