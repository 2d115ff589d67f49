import Dinamite.Instrument.RecordedBlocks

/-!
# Scopes

Which values an instruction can use: those in scope where its list of
instructions begins, and those of the instructions in front of it.  What the
pass inserts at one place uses the operands of the instruction it is inserted
for, and what was inserted before.
-/

namespace Dinamite.Instrument

open AccessInstrumentationPass

/-- What the operand names is in scope. -/
def Value.Available (scope : Set Value) : Value → Prop
  | .argument function index name type =>
      .argument function index name type ∈ scope
  | .instruction id name type gep => .instruction id name type gep ∈ scope
  | .constantCast _ value _ => value.Available scope
  | _ => True

/-- Every instruction uses what is in scope or stands in front of it. -/
def Scoped : Set Value → List Inst → Prop
  | _, [] => True
  | scope, inst :: rest =>
      (∀ operand ∈ inst.operands, operand.Available scope) ∧
        Scoped (insert inst.value scope) rest

def valuesOf (insts : List Inst) : Set Value :=
  {value | ∃ inst ∈ insts, inst.value = value}

section Lists

variable {scope larger : Set Value}

theorem Value.Available.mono
    {value : Value} (available : value.Available scope)
    (grows : scope ⊆ larger) : value.Available larger := by
  induction value with
  | argument function index name type => exact grows available
  | instruction id name type gep => exact grows available
  | constantCast op value type inductionHypothesis =>
      exact inductionHypothesis available
  | _ => trivial

theorem Scoped.mono
    {insts : List Inst} (within : Scoped scope insts)
    (grows : scope ⊆ larger) : Scoped larger insts := by
  induction insts generalizing scope larger with
  | nil => trivial
  | cons inst rest inductionHypothesis =>
      rcases within with ⟨operands, others⟩
      refine ⟨fun operand member => (operands operand member).mono grows, ?_⟩
      exact inductionHypothesis others (Set.insert_subset_insert grows)

theorem valuesOf_nil : valuesOf [] = ∅ := by
  simp [valuesOf]

theorem valuesOf_cons (inst : Inst) (rest : List Inst) :
    valuesOf (inst :: rest) = insert inst.value (valuesOf rest) := by
  ext value
  simp [valuesOf, eq_comm]

theorem valuesOf_append (first second : List Inst) :
    valuesOf (first ++ second) = valuesOf first ∪ valuesOf second := by
  ext value
  simp only [valuesOf, Set.mem_ofPred_eq, Set.mem_union, List.mem_append]
  constructor
  · rintro ⟨inst, member | member, rfl⟩
    · exact Or.inl ⟨inst, member, rfl⟩
    · exact Or.inr ⟨inst, member, rfl⟩
  · rintro (⟨inst, member, rfl⟩ | ⟨inst, member, rfl⟩)
    · exact ⟨inst, Or.inl member, rfl⟩
    · exact ⟨inst, Or.inr member, rfl⟩

theorem mem_valuesOf
    {inst : Inst} {insts : List Inst} (member : inst ∈ insts) :
    inst.value ∈ valuesOf insts :=
  ⟨inst, member, rfl⟩

theorem scoped_append {first second : List Inst} :
    Scoped scope (first ++ second) ↔
      Scoped scope first ∧ Scoped (scope ∪ valuesOf first) second := by
  induction first generalizing scope with
  | nil => simp [Scoped, valuesOf_nil]
  | cons inst rest inductionHypothesis =>
      simp only [List.cons_append, Scoped, inductionHypothesis,
        valuesOf_cons, Set.insert_union, Set.union_insert, and_assoc]

/-- What is inserted in the middle and uses what is in front of it does no
harm. -/
theorem scoped_insert_middle
    {front middle back : List Inst} (within : Scoped scope (front ++ back))
    (inserted : Scoped (scope ∪ valuesOf front) middle) :
    Scoped scope (front ++ middle ++ back) := by
  rcases scoped_append.mp within with ⟨ofFront, ofBack⟩
  refine scoped_append.mpr ⟨scoped_append.mpr ⟨ofFront, inserted⟩, ?_⟩
  refine ofBack.mono (Set.union_subset_union_right scope ?_)
  rw [valuesOf_append]
  exact Set.subset_union_left

end Lists

/-! ## Builders -/

/-- The builder makes a value that can be used behind what it has inserted. -/
structure Offers
    (scope : Set Value) (source : IRBuilder) (made : Value × IRBuilder) :
    Prop where
  value : made.1.Available (scope ∪ valuesOf made.2.inserted)
  within : Scoped scope made.2.inserted
  grows : valuesOf source.inserted ⊆ valuesOf made.2.inserted

section Builders

variable {scope : Set Value} {builder : IRBuilder} {value : Value}

/-- What could be used before still can be. -/
theorem Offers.keeps
    {made : Value × IRBuilder} (offers : Offers scope builder made)
    (available : value.Available (scope ∪ valuesOf builder.inserted)) :
    value.Available (scope ∪ valuesOf made.2.inserted) :=
  available.mono (Set.union_subset_union_right scope offers.grows)

theorem offers_same
    (within : Scoped scope builder.inserted)
    (available : value.Available (scope ∪ valuesOf builder.inserted)) :
    Offers scope builder (value, builder) :=
  ⟨available, within, subset_refl _⟩

theorem scoped_insert
    (within : Scoped scope builder.inserted) (op : Op)
    (operands :
      ∀ operand ∈ (builder.insert op).1.operands,
        operand.Available (scope ∪ valuesOf builder.inserted)) :
    Scoped scope (builder.insert op).2.inserted :=
  scoped_append.mpr ⟨within, operands, trivial⟩

theorem offers_insert
    (within : Scoped scope builder.inserted) (op : Op)
    (operands :
      ∀ operand ∈ (builder.insert op).1.operands,
        operand.Available (scope ∪ valuesOf builder.inserted)) :
    Offers scope builder
      ((builder.insert op).1.value, (builder.insert op).2) := by
  have isNew :
      (builder.insert op).1.value ∈
        valuesOf (builder.insert op).2.inserted :=
    mem_valuesOf (List.mem_append_right _ List.mem_cons_self)
  refine ⟨Or.inr isNew, scoped_insert within op operands, ?_⟩
  rw [IRBuilder.insert, valuesOf_append]
  exact Set.subset_union_left

theorem offers_createCast
    (within : Scoped scope builder.inserted) (op : CastOp) (type : Ty)
    (available : value.Available (scope ∪ valuesOf builder.inserted)) :
    Offers scope builder (builder.createCast op value type) := by
  unfold IRBuilder.createCast
  split
  · exact offers_same within available
  · split
    · exact offers_same within
        (show Value.Available _ (.constantCast op value type) from available)
    · exact offers_insert within (.cast op value type)
        (List.forall_mem_singleton.mpr available)

theorem offers_createZExtOrBitCast
    (within : Scoped scope builder.inserted) (type : Ty)
    (available : value.Available (scope ∪ valuesOf builder.inserted)) :
    Offers scope builder (builder.createZExtOrBitCast value type) := by
  unfold IRBuilder.createZExtOrBitCast
  split
  · exact offers_createCast within .bitCast type available
  · exact offers_createCast within .zExt type available

theorem offers_createFPCast
    (within : Scoped scope builder.inserted) (type : Ty)
    (available : value.Available (scope ∪ valuesOf builder.inserted)) :
    Offers scope builder (builder.createFPCast value type) := by
  unfold IRBuilder.createFPCast
  dsimp only
  split
  · exact offers_createCast within .bitCast type available
  · split
    · exact offers_createCast within .fpTrunc type available
    · exact offers_createCast within .fpExt type available

theorem offers_castAccessed
    (within : Scoped scope builder.inserted) (type : Ty)
    (available : value.Available (scope ∪ valuesOf builder.inserted)) :
    Offers scope builder (castAccessed builder value type) := by
  unfold castAccessed
  split
  · exact offers_createFPCast within type available
  · split
    · exact offers_createZExtOrBitCast within type available
    · split
      · refine offers_same within ?_
        unfold constantBitCast
        split
        · exact available
        · exact available
      · exact offers_createCast within .bitCast type available

theorem available_getConstantFromInt (value : Int) (type : Ty) :
    (getConstantFromInt value type).Available scope := by
  unfold getConstantFromInt
  split
  · trivial
  · trivial

end Builders

end Dinamite.Instrument
