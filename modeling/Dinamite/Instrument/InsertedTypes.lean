import Dinamite.Instrument.AllocRecords
import Dinamite.Instrument.TypeRules

/-!
# The types of inserted code

What the pass inserts at one place is accepted by the verifier of the language:
the casts exist, and a log function is called with values of the types that it
declares.  The type check that the source makes after a cast never fails.
-/

namespace Dinamite.Instrument

open AccessInstrumentationPass

/-! ## What is asked of the program -/

/-- A number that fits into a `size_t`. -/
def Ty.IsCount : Ty → Prop
  | .integer width => width ≤ 64
  | _ => False

/-- The definition describes the allocator: it returns a pointer, and the
operands it names are numbers. -/
structure AllocDefinition.Describes
    (adef : AllocDefinition) (fn : Callee) (args : List Value) : Prop where
  address : fn.returnType.isPointerTy
  size :
    ∃ size, operandAt args adef.sizeIdx = some size ∧ size.getType.IsCount
  num :
    adef.numIdx ≠ -1 →
      ∃ num, operandAt args adef.numIdx = some num ∧ num.getType.IsCount

namespace AccessInstrumentationPass

variable (pass : AccessInstrumentationPass)

/-- Its definition describes the allocator that is called. -/
def AllocDescribed (op : Op) : Prop :=
  ∀ fn args type, op = .call (some fn) args type →
    ∀ adef, pass.adm.getAllocDef fn.name = some adef →
      adef.Describes fn args

/-- Typed, and typed as far as the pass relies on it. -/
structure Checked (rules : TypeRules) (inst : Inst) : Prop where
  typed : rules.OpTyped inst.op
  described : pass.AllocDescribed inst.op

/-- The functions that the pass calls. -/
def logs : List Callee :=
  pass.lfm.accessFunctions ++ pass.lfm.eventFunctions

end AccessInstrumentationPass

/-! ## The log functions -/

section LogFunctions

variable {pass : AccessInstrumentationPass}
variable (declared : pass.library.getFunction = instrumentationLibrary)

/-- A value of the first type is logged as one of the second. -/
inductive LoggedAs : Ty → Ty → Prop
  | double {kind : FloatKind} :
      LoggedAs (.floating kind) (.floating .double)
  | pointer {pointee : Ty} :
      LoggedAs (.pointer pointee) (.pointer (.integer 8))
  | bit : LoggedAs (.integer 1) (.integer 8)
  | integer {width : Nat} (wide : width ≠ 1) :
      LoggedAs (.integer width) (.integer width)

include declared

theorem declared_paramTypes (name : String) :
    (pass.library.loadExternalFunction name).paramTypes =
      (instrumentationLibrary name).params := by
  rw [LogLibrary.loadExternalFunction, declared]

theorem declared_getParamType (name : String) (index : Nat) :
    (pass.library.loadExternalFunction name).getParamType index =
      (instrumentationLibrary name).params.getD index .void := by
  rw [Callee.getParamType, declared_paramTypes declared]

/-- `logAlloc` takes no pointer but the address. -/
theorem declared_allocNumber :
    ∀ index ∈ [2, 3, 4, 5],
      (pass.lfm.allocLogFunc.getParamType index).isPointerTy = false := by
  intro index member
  rw [show pass.lfm.allocLogFunc.getParamType index = _ from
    declared_getParamType declared "logAlloc" index]
  revert index
  decide

/-- An access function takes an address, the value and six integers. -/
theorem declared_getLogFunction
    {type : Ty} {function : String} {afunc : Callee}
    (found :
      pass.lfm.getLogFunction type function = .function afunc) :
    ∃ valueType, LoggedAs type valueType ∧
      afunc.paramTypes = (accessFunctionType valueType).params := by
  cases type with
  | floating kind =>
      cases found
      exact ⟨_, .double, declared_paramTypes declared "logAccessF64"⟩
  | pointer pointee =>
      simp only [LogFunctionManager.getLogFunction, Ty.isFloatingPointTy,
        Ty.isPointerTy, if_true, Bool.false_eq_true, if_false] at found
      split at found
      · cases found
        exact ⟨_, .pointer, declared_paramTypes declared "logAccessPtr"⟩
      · cases found
        exact ⟨_, .pointer,
          declared_paramTypes declared "logAccessStaticString"⟩
  | integer width =>
      simp only [LogFunctionManager.getLogFunction, Ty.isFloatingPointTy,
        Ty.isPointerTy, Ty.isIntegerTy, Ty.getScalarSizeInBits, if_true,
        Bool.false_eq_true, if_false] at found
      split at found
      · cases found
        exact ⟨_, .bit, declared_paramTypes declared "logAccessI8"⟩
      · cases found
        exact ⟨_, .integer (by decide),
          declared_paramTypes declared "logAccessI8"⟩
      · cases found
        exact ⟨_, .integer (by decide),
          declared_paramTypes declared "logAccessI16"⟩
      · cases found
        exact ⟨_, .integer (by decide),
          declared_paramTypes declared "logAccessI32"⟩
      · cases found
        exact ⟨_, .integer (by decide),
          declared_paramTypes declared "logAccessI64"⟩
      · cases found
  | struct | literalStruct | other => cases found

theorem declared_eventLogFunc (function : String) (event : FnEvents) :
    (pass.eventLogFunc function event).paramTypes = [.integer 32] := by
  unfold eventLogFunc
  split
  · cases event
    · exact declared_paramTypes declared "logInit"
    · exact declared_paramTypes declared "logExit"
  · split
    · cases event
      · exact declared_paramTypes declared "logInit"
      · exact declared_paramTypes declared "logExit"
    · cases event
      · exact declared_paramTypes declared "logFnBegin"
      · exact declared_paramTypes declared "logFnEnd"

end LogFunctions

/-! ## What is inserted -/

section Inserted

variable {pass : AccessInstrumentationPass} {rules : TypeRules}
variable {logs : List Callee} {builder : IRBuilder} {value : Value}

theorem makes_constantBitCast
    (typed : builder.Typed rules logs) (ofValue : rules.ValueTyped value)
    {type : Ty}
    (valid : value.getType ≠ type →
      rules.CastIsValid .bitCast value.getType type) :
    Makes rules logs (constantBitCast value type, builder) type := by
  unfold constantBitCast
  split
  · rename_i same
    exact ⟨same, ofValue, typed⟩
  · rename_i different
    exact ⟨rfl, ⟨valid different, ofValue⟩, typed⟩

/-- The value reaches the log function as what it takes. -/
theorem makes_castAccessed
    (typed : builder.Typed rules logs) (ofValue : rules.ValueTyped value)
    {valueType : Ty} (logged : LoggedAs value.getType valueType) :
    Makes rules logs (castAccessed builder value valueType) valueType := by
  unfold castAccessed
  generalize type : value.getType = accessedType at logged
  cases logged with
  | double =>
      simp only [Ty.isFloatingPointTy, if_true]
      exact makes_createFPCast typed ofValue type
  | bit =>
      simp only [Ty.isFloatingPointTy, Ty.getScalarSizeInBits,
        Bool.false_eq_true, if_false, if_true]
      exact makes_createZExt typed ofValue type (by decide)
  | pointer =>
      have valid :
          rules.CastIsValid .bitCast value.getType
            (.pointer (.integer 8)) := by
        rw [type]
        exact .bitCastPointer
      simp only [Ty.isFloatingPointTy, Ty.getScalarSizeInBits,
        Bool.false_eq_true, Nat.zero_ne_one, if_false]
      split
      · exact makes_constantBitCast typed ofValue fun _ => valid
      · exact makes_createCast typed ofValue fun _ => valid
  | integer wide =>
      simp only [Ty.isFloatingPointTy, Ty.getScalarSizeInBits,
        Bool.false_eq_true, wide, if_false]
      split
      · exact makes_constantBitCast typed ofValue
          fun different => absurd type different
      · exact makes_createCast typed ofValue
          fun different => absurd type different

theorem getType_getConstantFromInt
    (value : Int) {type : Ty} (number : type.isPointerTy = false) :
    (getConstantFromInt value type).getType = .integer 32 := by
  rw [getConstantFromInt, number]
  rfl

theorem valueTyped_getConstantFromInt
    (value : Int) {type : Ty} (number : type.isPointerTy = false) :
    rules.ValueTyped (getConstantFromInt value type) := by
  rw [getConstantFromInt, number]
  exact rfl

/-- The call of an access function. -/
theorem typed_logAccess
    (typed : builder.Typed rules logs) {afunc : Callee}
    (isLog : afunc ∈ logs) {accessed destination : Value} {valueType : Ty}
    (params : afunc.paramTypes = (accessFunctionType valueType).params)
    (logged : LoggedAs accessed.getType valueType)
    (ofAccessed : rules.ValueTyped accessed)
    (pointer : destination.getType.isPointerTy)
    (ofDestination : rules.ValueTyped destination)
    (site : Nat) (function : String) (accessType : Char) :
    (pass.logAccess builder site function afunc accessed destination
      accessType).Typed rules logs := by
  have param :
      ∀ index, afunc.getParamType index =
        (accessFunctionType valueType).params.getD index .void := by
    intro index
    rw [Callee.getParamType, params]
  have address :
      Makes rules logs
        (builder.createCast .bitCast destination (afunc.getParamType 0))
        (.pointer (.integer 8)) := by
    rw [param 0]
    exact makes_pointerCast typed ofDestination pointer _
  have cast :
      Makes rules logs
        (castAccessed
          (builder.createCast .bitCast destination
            (afunc.getParamType 0)).2 accessed (afunc.getParamType 1))
        valueType := by
    rw [param 1]
    exact makes_castAccessed address.builder ofAccessed logged
  have number :
      ∀ index ∈ [2, 3, 4, 5, 6, 7],
        (afunc.getParamType index).isPointerTy = false := by
    intro index member
    rw [param index]
    simp only [List.mem_cons, List.not_mem_nil, or_false] at member
    rcases member with rfl | rfl | rfl | rfl | rfl | rfl <;> rfl
  rw [logAccess_eq]
  refine typed_createCall cast.builder isLog ?_ ?_
  · rw [params]
    simp only [List.map_cons, List.map_nil, address.type, cast.type,
      getType_getConstantFromInt _ (number _ _), List.mem_cons, true_or,
      or_true, accessFunctionType]
    rfl
  · intro arg member
    simp only [List.mem_cons, List.not_mem_nil, or_false] at member
    rcases member with rfl | rfl | others
    · exact address.value
    · exact cast.value
    · rcases others with rfl | rfl | rfl | rfl | rfl | rfl
      all_goals exact valueTyped_getConstantFromInt _ (number _ (by decide))

/-- An operand that is a number reaches `logAlloc` as a `size_t`. -/
theorem makes_count
    (typed : builder.Typed rules logs) {ci : Inst} {args : List Value}
    (ofArgs : ∀ arg ∈ args, rules.ValueTyped arg) {index : Int}
    (isArg : operandAt args index = some value)
    (count : value.getType.IsCount) :
    Makes rules logs
      (builder.createZExtOrBitCast (pass.getArgOperand ci args index)
        (.integer 64))
      (.integer 64) := by
  have member : value ∈ args := mem_of_operandAt isArg
  rw [getArgOperand_of_operandAt isArg]
  cases type : value.getType with
  | integer width =>
      rw [type] at count
      exact makes_createZExt typed (ofArgs value member) type count
  | floating | pointer | struct | literalStruct | other =>
      rw [type] at count
      cases count

/-- So does the count, or 1 where the call has none. -/
theorem makes_num
    (typed : builder.Typed rules logs) {ci : Inst} {fn : Callee}
    {args : List Value} (ofArgs : ∀ arg ∈ args, rules.ValueTyped arg)
    {adef : AllocDefinition} (describes : adef.Describes fn args)
    {type : Ty} (word : type = .integer 64) :
    Makes rules logs
      (builder.createZExtOrBitCast
        (if adef.numIdx ≠ -1 then pass.getArgOperand ci args adef.numIdx
          else getConstantFromInt 1 type)
        type)
      (.integer 64) := by
  subst word
  split
  case isTrue counts =>
    rcases describes.num counts with ⟨num, isNum, count⟩
    exact makes_count typed ofArgs isNum count
  case isFalse _ =>
    exact makes_createZExt typed (valueTyped_getConstantFromInt 1 rfl)
      (getType_getConstantFromInt 1 rfl) (by decide)

/-- A log function that takes an id. -/
theorem typed_logId
    (typed : builder.Typed rules logs) {log : Callee} (isLog : log ∈ logs)
    (params : log.paramTypes = [.integer 32]) (id : Int) :
    (builder.createCall log
      [getConstantFromInt id (log.getParamType 0)]).Typed rules logs := by
  have number : (log.getParamType 0).isPointerTy = false := by
    rw [Callee.getParamType, params]
    rfl
  refine typed_createCall typed isLog ?_ ?_
  · rw [params, List.map_singleton, getType_getConstantFromInt _ number]
  · intro arg member
    obtain rfl := List.mem_singleton.mp member
    exact valueTyped_getConstantFromInt _ number

variable (declared : pass.library.getFunction = instrumentationLibrary)

include declared

theorem typed_instrumentAccess
    {site nextId : Nat} {function : String} {debugLoc : Option DebugLoc}
    {first last : Value} {accessType : Char}
    (made :
      pass.instrumentAccess site function nextId debugLoc first last
        accessType = some builder)
    (ofFirst : rules.ValueTyped first) (ofLast : rules.ValueTyped last)
    (pointer : last.getType.isPointerTy)
    (reads :
      ¬ (accessType = 'w' ∨ accessType = 'a') →
        first.getType.isPointerTy) :
    builder.Typed rules pass.logs := by
  have makes :
      ∃ type,
        Makes rules pass.logs
          (if accessType = 'w' ∨ accessType = 'a' then
            (first, ⟨nextId, debugLoc, []⟩)
          else
            (IRBuilder.mk nextId debugLoc []).createLoad first)
          type := by
    split
    · exact ⟨_, rfl, ofFirst, typed_empty nextId debugLoc⟩
    · rename_i isRead
      exact ⟨_, makes_createLoad (typed_empty nextId debugLoc)
        (reads isRead) ofFirst⟩
  rw [instrumentAccess_eq] at made
  dsimp only at made
  generalize
    (if accessType = 'w' ∨ accessType = 'a' then
      (first, IRBuilder.mk nextId debugLoc [])
    else
      (IRBuilder.mk nextId debugLoc []).createLoad first) = accessed
    at made makes
  rcases makes with ⟨type, makes⟩
  cases found : pass.lfm.getLogFunction accessed.1.getType function with
  | function afunc =>
      rw [found] at made
      obtain rfl := Option.some.inj made
      rcases declared_getLogFunction declared found with
        ⟨valueType, logged, params⟩
      have isLog : afunc ∈ pass.logs :=
        List.mem_append_left _ (LogFunctionManager.logFunction_mem found)
      exact typed_logAccess makes.builder isLog params logged makes.value
        pointer ofLast site function accessType
  | none =>
      rw [found] at made
      obtain rfl := Option.some.inj made
      exact makes.builder
  | exit =>
      rw [found] at made
      cases made

theorem typed_instrumentAlloc
    {ci : Inst} {fn : Callee} {args : List Value} {type : Ty}
    (op : ci.op = .call (some fn) args type)
    (checked : pass.Checked rules ci) (nextId : Nat)
    (nextInst : Option Inst) (insertionLoc : Option DebugLoc) :
    (pass.instrumentAlloc nextId ci fn args nextInst insertionLoc).Typed
      rules pass.logs := by
  have typed := checked.typed
  rw [op] at typed
  rcases typed with ⟨ofArgs, call⟩
  cases defined : pass.adm.getAllocDef fn.name with
  | none =>
      rw [instrumentAlloc_undefined defined]
      exact typed_empty nextId insertionLoc
  | some adef =>
      have describes := checked.described fn args type op adef defined
      have param :
          ∀ index, pass.lfm.allocLogFunc.getParamType index =
            (instrumentationLibrary "logAlloc").params.getD index .void :=
        declared_getParamType declared "logAlloc"
      have number := declared_allocNumber declared
      have isPointer : ci.value.getType.isPointerTy := by
        have result : ci.value.getType = fn.returnType := by
          rw [Inst.value, Value.getType, Inst.getType, op]
          exact (call fn rfl).result
        rw [result]
        exact describes.address
      have address :
          Makes rules pass.logs
            ((IRBuilder.mk nextId insertionLoc []).createBitCast ci.value
              (pass.lfm.allocLogFunc.getParamType 0))
            (.pointer (.integer 8)) := by
        rw [param 0]
        exact makes_pointerCast (typed_empty nextId insertionLoc)
          (show rules.ValueTyped ci.value from trivial) isPointer _
      rcases describes.size with ⟨size, isSize, sizeCount⟩
      let castAddr :=
        (IRBuilder.mk nextId insertionLoc []).createBitCast ci.value
          (pass.lfm.allocLogFunc.getParamType 0)
      have sized :
          Makes rules pass.logs
            (castAddr.2.createZExtOrBitCast
              (pass.getArgOperand ci args adef.sizeIdx)
              (pass.lfm.allocLogFunc.getParamType 1))
            (.integer 64) := by
        rw [param 1]
        exact makes_count address.builder ofArgs isSize sizeCount
      let castSize :=
        castAddr.2.createZExtOrBitCast
          (pass.getArgOperand ci args adef.sizeIdx)
          (pass.lfm.allocLogFunc.getParamType 1)
      have counted :
          Makes rules pass.logs
            (castSize.2.createZExtOrBitCast
              (if adef.numIdx ≠ -1 then pass.getArgOperand ci args adef.numIdx
                else
                  getConstantFromInt 1
                    (pass.lfm.allocLogFunc.getParamType 2))
              (pass.lfm.allocLogFunc.getParamType 2))
            (.integer 64) :=
        makes_num sized.builder ofArgs describes (param 2)
      simp only [instrumentAlloc_eq, defined]
      refine typed_createCall counted.builder
        (List.mem_append_right _ LogFunctionManager.allocLogFunc_mem) ?_ ?_
      · simp only [List.map_cons, List.map_nil]
        rw [address.type, sized.type, counted.type,
          getType_getConstantFromInt _ (number 2 (by decide)),
          getType_getConstantFromInt _ (number 3 (by decide)),
          getType_getConstantFromInt _ (number 4 (by decide)),
          getType_getConstantFromInt _ (number 5 (by decide))]
        exact (declared_paramTypes declared "logAlloc").symm
      · intro arg member
        simp only [List.mem_cons, List.not_mem_nil, or_false] at member
        rcases member with rfl | rfl | rfl | others
        · exact address.value
        · exact sized.value
        · exact counted.value
        · rcases others with rfl | rfl | rfl | rfl
          all_goals
            exact valueTyped_getConstantFromInt _ (number _ (by decide))

theorem typed_instrumentFnEvent
    (function : String) (nextId : Nat) (debugLoc : Option DebugLoc)
    (event : FnEvents) :
    (pass.instrumentFnEvent function nextId debugLoc event).Typed rules
      pass.logs :=
  typed_logId (typed_empty nextId debugLoc)
    (List.mem_append_right _ (eventLogFunc_mem function event))
    (declared_eventLogFunc declared function event) _

theorem typed_instrumentExit (nextId : Nat) (ci : Inst) (fn : Callee) :
    (pass.instrumentExit nextId ci fn).Typed rules pass.logs := by
  unfold instrumentExit
  split
  · exact typed_logId (typed_empty nextId ci.debugLoc)
      (List.mem_append_right _ LogFunctionManager.exitLogFunc_mem)
      (declared_paramTypes declared "logExit") _
  · exact typed_empty nextId ci.debugLoc

end Inserted

end Dinamite.Instrument
