import Dinamite.Instrument.PlainMaps

/-!
# What each insertion consists of

Which instructions log an access or an allocation, and for every function of
the pass that inserts something, which instructions these are.
-/

namespace Dinamite.Instrument

/-! ## Log functions by name -/

/-- The beginning of a name, which tells the log functions apart whatever a
module appends to make them unique. -/
def family (name : String) : List Char :=
  name.toList.take 7

theorem family_loadExternalFunction
    (library : LogLibrary) {name : String} (long : 7 ≤ name.toList.length) :
    family (library.loadExternalFunction name).name = family name := by
  simp only [family, LogLibrary.loadExternalFunction, String.toList_append]
  exact List.take_append_of_le_length long

section Library

variable {library : LogLibrary} {callee : Callee}

theorem family_of_mem_accessFunctions
    (member : callee ∈ library.loadFunctions.accessFunctions) :
    family callee.name = "logAcce".toList := by
  simp only [LogFunctionManager.accessFunctions, LogFunctionManager.table,
    LogLibrary.loadFunctions, List.flatMap_cons, List.flatMap_nil,
    List.map_cons, List.map_nil, List.append_nil, List.cons_append,
    List.nil_append, List.mem_cons, List.not_mem_nil, or_false] at member
  rcases member with rfl | rfl | rfl | rfl | rfl | rfl | rfl | rfl | rfl | rfl
  all_goals
    rw [family_loadExternalFunction library (by decide)]
    decide

theorem family_of_mem_eventFunctions
    (member : callee ∈ library.loadFunctions.eventFunctions) :
    family callee.name ∈
      ["logAllo".toList, "logFnBe".toList, "logFnEn".toList,
        "logInit".toList, "logExit".toList] := by
  simp only [LogFunctionManager.eventFunctions, LogLibrary.loadFunctions,
    List.mem_cons, List.not_mem_nil, or_false] at member
  rcases member with rfl | rfl | rfl | rfl | rfl
  all_goals
    rw [family_loadExternalFunction library (by decide)]
    decide

theorem not_access_of_event
    (event : callee ∈ library.loadFunctions.eventFunctions) :
    callee ∉ library.loadFunctions.accessFunctions := by
  intro access
  have listed := family_of_mem_eventFunctions event
  rw [family_of_mem_accessFunctions access] at listed
  exact absurd listed (by decide)

theorem name_ne_exit_of_event
    (event : callee ∈ library.loadFunctions.eventFunctions) :
    callee.name ≠ "exit" := by
  intro isExit
  have listed := family_of_mem_eventFunctions event
  rw [isExit] at listed
  exact absurd listed (by decide)

theorem exitLogFunc_ne_allocLogFunc :
    library.loadFunctions.exitLogFunc ≠
      library.loadFunctions.allocLogFunc := by
  intro same
  have sameFamily := congrArg (fun callee => family callee.name) same
  simp only [LogLibrary.loadFunctions,
    family_loadExternalFunction library
      (show 7 ≤ "logExit".toList.length by decide),
    family_loadExternalFunction library
      (show 7 ≤ "logAlloc".toList.length by decide)] at sameFamily
  exact absurd sameFamily (by decide)

theorem family_fnBegin :
    family library.loadFunctions.fnBeginLogFunc.name =
      "logFnBe".toList := by
  rw [LogLibrary.loadFunctions,
    family_loadExternalFunction library (by decide)]
  decide

theorem family_fnEnd :
    family library.loadFunctions.fnEndLogFunc.name = "logFnEn".toList := by
  rw [LogLibrary.loadFunctions,
    family_loadExternalFunction library (by decide)]
  decide

theorem family_init :
    family library.loadFunctions.initLogFunc.name = "logInit".toList := by
  rw [LogLibrary.loadFunctions,
    family_loadExternalFunction library (by decide)]
  decide

/-- The families of what a visit inserts. -/
theorem family_of_inserted
    (inserted : callee ∈ library.loadFunctions.accessFunctions ∨
      callee = library.loadFunctions.exitLogFunc ∨
        callee = library.loadFunctions.allocLogFunc) :
    family callee.name ∈
      ["logAcce".toList, "logExit".toList, "logAllo".toList] := by
  rcases inserted with access | rfl | rfl
  · rw [family_of_mem_accessFunctions access]
    decide
  · rw [LogLibrary.loadFunctions,
      family_loadExternalFunction library (by decide)]
    decide
  · rw [LogLibrary.loadFunctions,
      family_loadExternalFunction library (by decide)]
    decide

end Library

/-! ## Instructions that log -/

namespace Inst

def isStore (inst : Inst) : Bool :=
  match inst.op with
  | .store _ _ => true
  | _ => false

def isCast (inst : Inst) : Bool :=
  match inst.op with
  | .cast _ _ _ => true
  | _ => false

/-- The type of the value a load or a store accesses. -/
def accessedType (inst : Inst) : Option Ty :=
  match inst.op with
  | .load _ => some inst.getType
  | .store value _ => some value.getType
  | _ => none

/-- The called function, if it is named. -/
def calledFunction (inst : Inst) : Option Callee :=
  match inst.op with
  | .call callee _ _ => callee
  | _ => none

end Inst

namespace LogFunctionManager

variable (lfm : LogFunctionManager)

def hasLogFunction (type : Ty) (function : String) : Bool :=
  match lfm.getLogFunction type function with
  | .function _ => true
  | _ => false

/-- A call that logs an access. -/
def logsAccess (inst : Inst) : Bool :=
  inst.calledFunction.any fun callee => lfm.accessFunctions.contains callee

/-- A call that logs an allocation. -/
def logsAlloc (inst : Inst) : Bool :=
  inst.calledFunction = some lfm.allocLogFunc

variable {lfm}

theorem allocLogFunc_mem : lfm.allocLogFunc ∈ lfm.eventFunctions :=
  List.mem_cons_self

theorem fnEndLogFunc_mem : lfm.fnEndLogFunc ∈ lfm.eventFunctions := by
  simp [eventFunctions]

theorem exitLogFunc_mem : lfm.exitLogFunc ∈ lfm.eventFunctions := by
  simp [eventFunctions]

theorem logFunction_mem
    {type : Ty} {function : String} {callee : Callee}
    (found : lfm.getLogFunction type function = .function callee) :
    callee ∈ lfm.accessFunctions := by
  unfold getLogFunction at found
  split at found
  · cases found
    simp [accessFunctions, table]
  · split at found
    · split at found
      · cases found
        simp [accessFunctions]
      · cases found
        simp [accessFunctions]
    · split at found
      · split at found <;> cases found <;> simp [accessFunctions, table]
      · cases found

end LogFunctionManager

/-! ## Builders -/

/-- The target builder has inserted `new` since the source builder. -/
structure Adds (source target : IRBuilder) (new : List Inst) : Prop where
  inserted : target.inserted = source.inserted ++ new
  ids : ∀ inst ∈ new, source.nextId ≤ inst.id
  grows : source.nextId ≤ target.nextId

theorem Adds.refl (builder : IRBuilder) : Adds builder builder [] :=
  ⟨(List.append_nil _).symm, List.forall_mem_nil _, le_refl _⟩

theorem Adds.trans
    {first second third : IRBuilder} {new later : List Inst}
    (adds : Adds first second new) (continued : Adds second third later) :
    Adds first third (new ++ later) := by
  refine ⟨?_, ?_, adds.grows.trans continued.grows⟩
  · rw [continued.inserted, adds.inserted, List.append_assoc]
  · intro inst member
    rcases List.mem_append.mp member with here | there
    · exact adds.ids inst here
    · exact adds.grows.trans (continued.ids inst there)

theorem adds_insert (builder : IRBuilder) (op : Op) :
    Adds builder (builder.insert op).2
      [⟨builder.nextId, "", op, builder.debugLoc⟩] := by
  refine ⟨rfl, ?_, Nat.le_succ _⟩
  intro inst member
  rw [List.mem_singleton.mp member]

/-- Casts only. -/
def AddsCasts (source target : IRBuilder) : Prop :=
  ∃ new, Adds source target new ∧ ∀ inst ∈ new, inst.isCast = true

theorem AddsCasts.refl (builder : IRBuilder) :
    AddsCasts builder builder :=
  ⟨[], Adds.refl builder, List.forall_mem_nil _⟩

theorem AddsCasts.trans
    {first second third : IRBuilder}
    (adds : AddsCasts first second) (continued : AddsCasts second third) :
    AddsCasts first third := by
  rcases adds with ⟨new, newAdds, newCasts⟩
  rcases continued with ⟨later, laterAdds, laterCasts⟩
  refine ⟨new ++ later, newAdds.trans laterAdds, ?_⟩
  intro inst member
  rcases List.mem_append.mp member with here | there
  · exact newCasts inst here
  · exact laterCasts inst there

theorem addsCasts_createCast
    (builder : IRBuilder) (op : CastOp) (value : Value) (type : Ty) :
    AddsCasts builder (builder.createCast op value type).2 := by
  unfold IRBuilder.createCast
  split
  · exact AddsCasts.refl builder
  · split
    · exact AddsCasts.refl builder
    · refine ⟨_, adds_insert builder (.cast op value type), ?_⟩
      intro inst member
      rw [List.mem_singleton.mp member]
      rfl

theorem addsCasts_createZExtOrBitCast
    (builder : IRBuilder) (value : Value) (type : Ty) :
    AddsCasts builder (builder.createZExtOrBitCast value type).2 := by
  unfold IRBuilder.createZExtOrBitCast
  split
  · exact addsCasts_createCast builder _ value type
  · exact addsCasts_createCast builder _ value type

theorem addsCasts_castAccessed
    (builder : IRBuilder) (accessed : Value) (valueType : Ty) :
    AddsCasts builder
      (AccessInstrumentationPass.castAccessed builder accessed
        valueType).2 := by
  unfold AccessInstrumentationPass.castAccessed
  split
  · unfold IRBuilder.createFPCast
    dsimp only
    split
    · exact addsCasts_createCast builder _ accessed valueType
    · split
      · exact addsCasts_createCast builder _ accessed valueType
      · exact addsCasts_createCast builder _ accessed valueType
  · split
    · exact addsCasts_createZExtOrBitCast builder accessed valueType
    · split
      · exact AddsCasts.refl builder
      · exact addsCasts_createCast builder _ accessed valueType

/-- Casts, and then one call. -/
def AddsCall (callee : Callee) (source target : IRBuilder) : Prop :=
  ∃ casts call,
    Adds source target (casts ++ [call]) ∧
      (∀ inst ∈ casts, inst.isCast = true) ∧
        call.calledFunction = some callee

theorem AddsCasts.createCall
    {source builder : IRBuilder} (casts : AddsCasts source builder)
    (callee : Callee) (args : List Value) :
    AddsCall callee source (builder.createCall callee args) := by
  rcases casts with ⟨new, adds, areCasts⟩
  exact ⟨new, _, adds.trans (adds_insert builder _), areCasts, rfl⟩

/-- Counting the instructions with a property that no cast has. -/
theorem AddsCall.countP
    {callee : Callee} {source target : IRBuilder}
    (adds : AddsCall callee source target)
    (property : Inst → Bool) (answer : Bool)
    (notCast : ∀ inst, inst.isCast = true → property inst = false)
    (onCall :
      ∀ inst, inst.calledFunction = some callee → property inst = answer) :
    target.inserted.countP property =
      source.inserted.countP property + answer.toNat := by
  rcases adds with ⟨casts, call, added, areCasts, calls⟩
  have noCast : casts.countP property = 0 := by
    rw [List.countP_eq_zero]
    intro inst member
    rw [notCast inst (areCasts inst member)]
    exact Bool.false_ne_true
  rw [added.inserted, List.countP_append, List.countP_append, noCast,
    Nat.zero_add, List.countP_singleton, onCall call calls]
  cases answer <;> rfl

/-! ## What logs nothing -/

theorem calledFunction_of_isCast
    {inst : Inst} (isCast : inst.isCast = true) :
    inst.calledFunction = none := by
  unfold Inst.isCast at isCast
  split at isCast
  · rename_i op
    simp [Inst.calledFunction, op]
  · cases isCast

section NoCall

variable (lfm : LogFunctionManager)

theorem logsAccess_of_noCall
    {inst : Inst} (noCall : inst.calledFunction = none) :
    lfm.logsAccess inst = false := by
  simp [LogFunctionManager.logsAccess, noCall]

theorem logsAlloc_of_noCall
    {inst : Inst} (noCall : inst.calledFunction = none) :
    lfm.logsAlloc inst = false := by
  simp [LogFunctionManager.logsAlloc, noCall]

theorem countP_logsAccess_of_noCall
    {insts : List Inst}
    (noCall : ∀ inst ∈ insts, inst.calledFunction = none) :
    insts.countP lfm.logsAccess = 0 := by
  rw [List.countP_eq_zero]
  intro inst member
  simp [logsAccess_of_noCall lfm (noCall inst member)]

theorem countP_logsAlloc_of_noCall
    {insts : List Inst}
    (noCall : ∀ inst ∈ insts, inst.calledFunction = none) :
    insts.countP lfm.logsAlloc = 0 := by
  rw [List.countP_eq_zero]
  intro inst member
  simp [logsAlloc_of_noCall lfm (noCall inst member)]

theorem logsAccess_of_isCast
    (inst : Inst) (isCast : inst.isCast = true) :
    lfm.logsAccess inst = false :=
  logsAccess_of_noCall lfm (calledFunction_of_isCast isCast)

theorem logsAlloc_of_isCast
    (inst : Inst) (isCast : inst.isCast = true) :
    lfm.logsAlloc inst = false :=
  logsAlloc_of_noCall lfm (calledFunction_of_isCast isCast)

end NoCall

end Dinamite.Instrument
