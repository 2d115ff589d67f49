import Dinamite.Instrument.Insertions

/-!
# The types of operands

What the language demands of the operands of an instruction, and that the
builder meets it: its casts are ones the language has, and a value it makes has
the type it is asked for.
-/

namespace Dinamite.Instrument

/-! ## The rules -/

/-- The types with a size of their own. -/
def Ty.isScalarTy (type : Ty) : Bool :=
  type.isFloatingPointTy || type.isIntegerTy || type.isPointerTy

/-- The rules that concern no inserted instruction: for casts of other kinds or
of types that are kept as text, and which functions take further arguments. -/
structure TypeRules where
  castIsValid : CastOp → Ty → Ty → Prop
  isVarArg : Callee → Prop

namespace TypeRules

variable (rules : TypeRules)

/-- The casts of the language. -/
inductive CastIsValid : CastOp → Ty → Ty → Prop
  | bitCastPointer {source target : Ty} :
      CastIsValid .bitCast (.pointer source) (.pointer target)
  | bitCastNumber {source target : Ty}
      (scalar : source.isScalarTy ∧ target.isScalarTy)
      (number : source.isPointerTy = false ∧ target.isPointerTy = false)
      (same : source.getScalarSizeInBits = target.getScalarSizeInBits) :
      CastIsValid .bitCast source target
  | zExt {narrow wide : Nat} (wider : narrow < wide) :
      CastIsValid .zExt (.integer narrow) (.integer wide)
  | fpTrunc {source target : FloatKind}
      (narrower : target.sizeInBits < source.sizeInBits) :
      CastIsValid .fpTrunc (.floating source) (.floating target)
  | fpExt {source target : FloatKind}
      (wider : source.sizeInBits < target.sizeInBits) :
      CastIsValid .fpExt (.floating source) (.floating target)
  | intToPtr {width : Nat} {target : Ty} :
      CastIsValid .intToPtr (.integer width) (.pointer target)
  | beyond {op : CastOp} {source target : Ty}
      (outside :
        op = .other ∨ source.isScalarTy = false ∨ target.isScalarTy = false)
      (valid : rules.castIsValid op source target) :
      CastIsValid op source target

/-- The operand is made by valid casts. -/
def ValueTyped : Value → Prop
  | .constantCast op value type =>
      rules.CastIsValid op value.getType type ∧ ValueTyped value
  | .constantInt _ type => type.isIntegerTy
  | _ => True

/-- The arguments have the types of the parameters. -/
structure CallTyped
    (callee : Callee) (args : List Value) (type : Ty) : Prop where
  result : type = callee.returnType
  args :
    args.map Value.getType = callee.paramTypes ∨
      rules.isVarArg callee ∧ callee.paramTypes <+: args.map Value.getType

/-- The verifier of the language accepts the operands. -/
def OpTyped : Op → Prop
  | .load pointer => pointer.getType.isPointerTy ∧ rules.ValueTyped pointer
  | .store value pointer =>
      pointer.getType = .pointer value.getType ∧
        rules.ValueTyped value ∧ rules.ValueTyped pointer
  | .call callee args type =>
      (∀ arg ∈ args, rules.ValueTyped arg) ∧
        ∀ fn ∈ callee, rules.CallTyped fn args type
  | .cast op operand type =>
      rules.CastIsValid op operand.getType type ∧ rules.ValueTyped operand
  | _ => True

end TypeRules

/-! ## Inserted values -/

/-- Every instruction the builder has inserted is typed, and calls are those
of the given functions. -/
def IRBuilder.Typed
    (builder : IRBuilder) (rules : TypeRules) (logs : List Callee) : Prop :=
  ∀ inst ∈ builder.inserted,
    rules.OpTyped inst.op ∧
      ∀ fn, inst.calledFunction = some fn → fn ∈ logs

/-- The builder has made a value of this type. -/
structure Makes
    (rules : TypeRules) (logs : List Callee) (made : Value × IRBuilder)
    (type : Ty) : Prop where
  type : made.1.getType = type
  value : rules.ValueTyped made.1
  builder : made.2.Typed rules logs

section Builders

variable {rules : TypeRules} {logs : List Callee} {builder : IRBuilder}
variable {value : Value}

theorem typed_empty (nextId : Nat) (debugLoc : Option DebugLoc) :
    (IRBuilder.mk nextId debugLoc []).Typed rules logs :=
  List.forall_mem_nil _

theorem typed_insert
    (typed : builder.Typed rules logs) (op : Op) (ofOp : rules.OpTyped op)
    (calls : ∀ fn args type, op = .call (some fn) args type → fn ∈ logs) :
    (builder.insert op).2.Typed rules logs := by
  intro inst member
  rcases List.mem_append.mp member with earlier | new
  · exact typed inst earlier
  · obtain rfl := List.mem_singleton.mp new
    refine ⟨ofOp, ?_⟩
    intro fn called
    cases op with
    | call callee args type =>
        obtain rfl : callee = some fn := called
        exact calls fn args type rfl
    | load => cases called
    | store => cases called
    | cast => cases called
    | alloca => cases called
    | getElementPtr => cases called
    | phi => cases called
    | landingPad => cases called
    | other => cases called

theorem makes_createLoad
    (typed : builder.Typed rules logs)
    (pointer : value.getType.isPointerTy) (ofValue : rules.ValueTyped value) :
    Makes rules logs (builder.createLoad value)
      value.getType.getPointerElementType :=
  ⟨rfl, trivial,
    typed_insert typed (.load value) ⟨pointer, ofValue⟩
      fun _ _ _ isCall => by cases isCall⟩

theorem makes_createAlloca
    (typed : builder.Typed rules logs) (type : Ty) :
    Makes rules logs (builder.createAlloca type) (.pointer type) :=
  ⟨rfl, trivial,
    typed_insert typed (.alloca type) trivial
      fun _ _ _ isCall => by cases isCall⟩

theorem typed_createStore
    (typed : builder.Typed rules logs) {pointer : Value}
    (pointee : pointer.getType = .pointer value.getType)
    (ofValue : rules.ValueTyped value)
    (ofPointer : rules.ValueTyped pointer) :
    (builder.createStore value pointer).Typed rules logs :=
  typed_insert typed (.store value pointer)
    ⟨pointee, ofValue, ofPointer⟩ fun _ _ _ isCall => by cases isCall

/-- A log function is called with its types. -/
theorem typed_createCall
    (typed : builder.Typed rules logs) {callee : Callee}
    (isLog : callee ∈ logs) {args : List Value}
    (types : args.map Value.getType = callee.paramTypes)
    (ofArgs : ∀ arg ∈ args, rules.ValueTyped arg) :
    (builder.createCall callee args).Typed rules logs := by
  refine typed_insert typed (.call (some callee) args _)
    ⟨ofArgs, ?_⟩ ?_
  · intro fn isCallee
    obtain rfl := Option.some.inj isCallee
    exact ⟨rfl, Or.inl types⟩
  · intro fn args type isCall
    cases isCall
    exact isLog

theorem makes_createCast
    (typed : builder.Typed rules logs) (ofValue : rules.ValueTyped value)
    {op : CastOp} {type : Ty}
    (valid : value.getType ≠ type →
      rules.CastIsValid op value.getType type) :
    Makes rules logs (builder.createCast op value type) type := by
  unfold IRBuilder.createCast
  split
  · rename_i same
    exact ⟨same, ofValue, typed⟩
  · rename_i different
    split
    · exact ⟨rfl, ⟨valid different, ofValue⟩, typed⟩
    · exact ⟨rfl, trivial,
        typed_insert typed (.cast op value type)
          ⟨valid different, ofValue⟩ fun _ _ _ isCall => by cases isCall⟩

/-- A pointer is cast to another one. -/
theorem makes_pointerCast
    (typed : builder.Typed rules logs) (ofValue : rules.ValueTyped value)
    (pointer : value.getType.isPointerTy) (pointee : Ty) :
    Makes rules logs
      (builder.createCast .bitCast value (.pointer pointee))
      (.pointer pointee) := by
  refine makes_createCast typed ofValue fun _ => ?_
  cases type : value.getType with
  | pointer source => exact .bitCastPointer
  | floating | integer | struct | literalStruct | other =>
      rw [type] at pointer
      cases pointer

/-- An integer that is not too wide is extended. -/
theorem makes_createZExt
    (typed : builder.Typed rules logs) (ofValue : rules.ValueTyped value)
    {width wide : Nat} (type : value.getType = .integer width)
    (fits : width ≤ wide) :
    Makes rules logs (builder.createZExtOrBitCast value (.integer wide))
      (.integer wide) := by
  unfold IRBuilder.createZExtOrBitCast
  rw [type]
  split
  case isTrue same =>
    refine makes_createCast typed ofValue fun different => ?_
    obtain rfl : width = wide := same
    exact absurd type different
  case isFalse different =>
    refine makes_createCast typed ofValue fun _ => ?_
    rw [type]
    exact .zExt (lt_of_le_of_ne fits different)

/-- Every floating-point number is made a double. -/
theorem makes_createFPCast
    (typed : builder.Typed rules logs) (ofValue : rules.ValueTyped value)
    {kind : FloatKind} (type : value.getType = .floating kind) :
    Makes rules logs (builder.createFPCast value (.floating .double))
      (.floating .double) := by
  unfold IRBuilder.createFPCast
  rw [type]
  dsimp only [Ty.getScalarSizeInBits]
  split
  case isTrue same =>
    refine makes_createCast typed ofValue fun _ => ?_
    rw [type]
    exact .bitCastNumber ⟨rfl, rfl⟩ ⟨rfl, rfl⟩ same
  case isFalse different =>
    split
    case isTrue wider =>
      refine makes_createCast typed ofValue fun _ => ?_
      rw [type]
      exact .fpTrunc wider
    case isFalse notWider =>
      refine makes_createCast typed ofValue fun _ => ?_
      rw [type]
      exact .fpExt (lt_of_le_of_ne (not_lt.mp notWider) different)

end Builders

end Dinamite.Instrument
