import Dinamite.Instrument.Insertions

/-!
# The visits of a block's instructions

What the visit of every instruction of a block inserts, and the invariant of
the loop: the arguments still to be logged are the ones whose injected stores
are ahead, and no store of the program comes before an injected one.
-/

namespace Dinamite.Instrument

open Dinamite.CursorLoop

/-- An integer width that has a log function; every other type is fine. -/
def Ty.WidthOk : Ty → Prop
  | .integer width => width ∈ [1, 8, 16, 32, 64]
  | _ => True

instance (type : Ty) : Decidable type.WidthOk := by
  cases type <;> unfold Ty.WidthOk <;> infer_instance

/-- With these widths the pass never exits. -/
theorem getLogFunction_ne_exit
    (lfm : LogFunctionManager) {type : Ty} (ok : type.WidthOk)
    (function : String) :
    lfm.getLogFunction type function ≠ .exit := by
  cases type with
  | integer width =>
      simp only [Ty.WidthOk, List.mem_cons, List.not_mem_nil, or_false] at ok
      rcases ok with rfl | rfl | rfl | rfl | rfl <;>
        simp [LogFunctionManager.getLogFunction, Ty.isFloatingPointTy,
          Ty.isPointerTy, Ty.isIntegerTy, Ty.getScalarSizeInBits]
  | pointer pointee =>
      by_cases tracepoint : function = "__dinamite_tracepoint"
      · simp [LogFunctionManager.getLogFunction, Ty.isFloatingPointTy,
          Ty.isPointerTy, tracepoint]
      · simp [LogFunctionManager.getLogFunction, Ty.isFloatingPointTy,
          Ty.isPointerTy, tracepoint]
  | floating kind =>
      simp [LogFunctionManager.getLogFunction, Ty.isFloatingPointTy]
  | struct name =>
      simp [LogFunctionManager.getLogFunction, Ty.isFloatingPointTy,
        Ty.isPointerTy, Ty.isIntegerTy]
  | literalStruct text =>
      simp [LogFunctionManager.getLogFunction, Ty.isFloatingPointTy,
        Ty.isPointerTy, Ty.isIntegerTy]
  | other text =>
      simp [LogFunctionManager.getLogFunction, Ty.isFloatingPointTy,
        Ty.isPointerTy, Ty.isIntegerTy]

namespace AccessInstrumentationPass

variable (pass : AccessInstrumentationPass)

/-- No allocation definition names a log function. -/
def NoLogFunctionDefined : Prop :=
  ∀ callee ∈ pass.lfm.accessFunctions ++ pass.lfm.eventFunctions,
    pass.adm.getAllocDef callee.name = none

/-- The instruction calls a defined allocator. -/
def allocates (inst : Inst) : Bool :=
  inst.calledFunction.any fun callee =>
    (pass.adm.getAllocDef callee.name).isSome

/-- An access the pass has to log: one of the program if the filter says so,
and every injected store. -/
def accessDue (decision : Decision) (fresh : Nat) (inst : Inst) : Bool :=
  inst.accessedType.any fun type =>
    pass.lfm.hasLogFunction type decision.function &&
      if inst.id < fresh then decision.accessFilter else inst.isStore

/-- An allocation the pass has to log. -/
def allocDue (decision : Decision) (fresh : Nat) (inst : Inst) : Bool :=
  decide (inst.id < fresh) && decision.allocFilter && pass.allocates inst

/-! ## Each insertion -/

section Insertions

variable {pass}

theorem addsCall_logAccess
    (builder : IRBuilder) (site : Nat) (function : String) (afunc : Callee)
    (accessed destination : Value) (accessType : Char) :
    AddsCall afunc builder
      (pass.logAccess builder site function afunc accessed destination
        accessType) := by
  rw [logAccess_eq]
  exact ((addsCasts_createCast builder _ _ _).trans
    (addsCasts_castAccessed _ _ _)).createCall afunc _

/-- The instruction calls the log function for a value of the type. -/
def logsType
    (pass : AccessInstrumentationPass) (type : Ty) (function : String)
    (inst : Inst) : Prop :=
  ∃ callee,
    pass.lfm.getLogFunction type function = .function callee ∧
      inst.calledFunction = some callee

/-- What is inserted before an access to a value of the type. -/
structure InsertedForAccess
    (pass : AccessInstrumentationPass) (nextId : Nat) (type : Ty)
    (function : String) (builder : IRBuilder) : Prop where
  grows : nextId ≤ builder.nextId
  ids : ∀ inst ∈ builder.inserted, nextId ≤ inst.id
  access :
    builder.inserted.countP pass.lfm.logsAccess =
      (pass.lfm.hasLogFunction type function).toNat
  own :
    ∀ inst ∈ builder.inserted, pass.lfm.logsAccess inst = true →
      pass.logsType type function inst
  alloc : builder.inserted.countP pass.lfm.logsAlloc = 0

/-- A builder that has inserted no call logs nothing. -/
theorem insertedForAccess_of_noCall
    {nextId : Nat} {debugLoc : Option DebugLoc} {builder : IRBuilder}
    {new : List Inst}
    (adds : Adds ⟨nextId, debugLoc, []⟩ builder new)
    (noCall : ∀ inst ∈ new, inst.calledFunction = none)
    {type : Ty} {function : String}
    (notLogged : pass.lfm.hasLogFunction type function = false) :
    InsertedForAccess pass nextId type function builder := by
  have started : builder.inserted = new := by
    simpa using adds.inserted
  refine ⟨adds.grows, ?_, ?_, ?_, ?_⟩
  · rw [started]
    exact adds.ids
  · rw [started, countP_logsAccess_of_noCall _ noCall, notLogged]
    rfl
  · intro inst member logs
    rw [started] at member
    rw [logsAccess_of_noCall pass.lfm (noCall inst member)] at logs
    cases logs
  · rw [started, countP_logsAlloc_of_noCall _ noCall]

/-- The call that follows is the one log call for the access. -/
theorem insertedForAccess_of_call
    {nextId : Nat} {debugLoc : Option DebugLoc} {start builder : IRBuilder}
    {new : List Inst}
    (adds : Adds ⟨nextId, debugLoc, []⟩ start new)
    (noCall : ∀ inst ∈ new, inst.calledFunction = none)
    {type : Ty} {function : String} {afunc : Callee}
    (found : pass.lfm.getLogFunction type function = .function afunc)
    (calls : AddsCall afunc start builder) :
    InsertedForAccess pass nextId type function builder := by
  have started : start.inserted = new := by
    simpa using adds.inserted
  have isAccess : afunc ∈ pass.lfm.accessFunctions :=
    LogFunctionManager.logFunction_mem found
  have isEvent : pass.lfm.allocLogFunc ∈ pass.lfm.eventFunctions :=
    LogFunctionManager.allocLogFunc_mem
  have different : afunc ≠ pass.lfm.allocLogFunc := by
    intro same
    rw [same] at isAccess
    exact not_access_of_event isEvent isAccess
  have accessCount :=
    calls.countP pass.lfm.logsAccess true (logsAccess_of_isCast pass.lfm)
      (by
        intro inst called
        simp [LogFunctionManager.logsAccess, called, isAccess])
  have allocCount :=
    calls.countP pass.lfm.logsAlloc false (logsAlloc_of_isCast pass.lfm)
      (by
        intro inst called
        simp [LogFunctionManager.logsAlloc, called, different])
  rcases calls with ⟨casts, call, added, areCasts, isCall⟩
  have all : Adds ⟨nextId, debugLoc, []⟩ builder (new ++ (casts ++ [call])) :=
    adds.trans added
  have inserted : builder.inserted = new ++ (casts ++ [call]) := by
    simpa using all.inserted
  refine ⟨all.grows, ?_, ?_, ?_, ?_⟩
  · rw [inserted]
    exact all.ids
  · rw [accessCount, started, countP_logsAccess_of_noCall _ noCall]
    simp [LogFunctionManager.hasLogFunction, found]
  · intro inst member logs
    rw [inserted] at member
    rcases List.mem_append.mp member with early | mine
    · rw [logsAccess_of_noCall pass.lfm (noCall inst early)] at logs
      cases logs
    · rcases List.mem_append.mp mine with isCast | last
      · rw [logsAccess_of_isCast _ inst (areCasts inst isCast)] at logs
        cases logs
      · rw [List.mem_singleton.mp last]
        exact ⟨afunc, found, isCall⟩
  · rw [allocCount, started, countP_logsAlloc_of_noCall _ noCall]
    rfl

/-- Starting from a builder that has inserted no call, the access is logged if
its type has a log function. -/
theorem insertedForAccess_of_start
    {nextId : Nat} {debugLoc : Option DebugLoc} {start : IRBuilder}
    {new : List Inst}
    (adds : Adds ⟨nextId, debugLoc, []⟩ start new)
    (noCall : ∀ inst ∈ new, inst.calledFunction = none)
    {type : Ty} (ok : type.WidthOk)
    (site : Nat) (function : String) (accessed last : Value)
    (accessType : Char) :
    ∃ builder,
      (match pass.lfm.getLogFunction type function with
        | .function afunc =>
            some (pass.logAccess start site function afunc accessed last
              accessType)
        | .none => some start
        | .exit => none) = some builder ∧
        InsertedForAccess pass nextId type function builder := by
  cases found : pass.lfm.getLogFunction type function with
  | exit => exact absurd found (getLogFunction_ne_exit _ ok function)
  | none =>
      have notLogged : pass.lfm.hasLogFunction type function = false := by
        simp [LogFunctionManager.hasLogFunction, found]
      exact ⟨start, rfl, insertedForAccess_of_noCall adds noCall notLogged⟩
  | function afunc =>
      exact ⟨_, rfl, insertedForAccess_of_call adds noCall found
        (addsCall_logAccess start site function afunc accessed last
          accessType)⟩

theorem instrumentAccess_store
    {accessType : Char} (stores : accessType = 'w' ∨ accessType = 'a')
    {value : Value} (ok : value.getType.WidthOk)
    (site : Nat) (function : String) (nextId : Nat)
    (debugLoc : Option DebugLoc) (pointer : Value) :
    ∃ builder,
      pass.instrumentAccess site function nextId debugLoc value pointer
          accessType = some builder ∧
        InsertedForAccess pass nextId value.getType function builder := by
  simp only [instrumentAccess_eq, stores, if_true]
  exact insertedForAccess_of_start (Adds.refl _) (List.forall_mem_nil _) ok
    site function value pointer accessType

theorem instrumentAccess_load
    {pointer : Value} {type : Ty}
    (loads : pointer.getType.getPointerElementType = type)
    (ok : type.WidthOk) (site : Nat) (function : String) (nextId : Nat)
    (debugLoc : Option DebugLoc) :
    ∃ builder,
      pass.instrumentAccess site function nextId debugLoc pointer pointer
          'r' = some builder ∧
        InsertedForAccess pass nextId type function builder := by
  have notStore : ¬ (('r' : Char) = 'w' ∨ ('r' : Char) = 'a') := by
    decide
  subst loads
  simp only [instrumentAccess_eq, notStore, if_false]
  refine insertedForAccess_of_start (adds_insert _ (.load pointer)) ?_ ok
    site function _ pointer 'r'
  intro inst member
  rw [List.mem_singleton.mp member]
  rfl

/-- The builder after a call that starts one. -/
theorem addsCall_inserted
    {callee : Callee} {nextId : Nat} {debugLoc : Option DebugLoc}
    {builder : IRBuilder}
    (calls : AddsCall callee ⟨nextId, debugLoc, []⟩ builder) :
    nextId ≤ builder.nextId ∧
      (∀ inst ∈ builder.inserted, nextId ≤ inst.id) ∧
        ∀ inst ∈ builder.inserted,
          inst.isCast = true ∨ inst.calledFunction = some callee := by
  rcases calls with ⟨casts, call, added, areCasts, isCall⟩
  have inserted : builder.inserted = casts ++ [call] := by
    simpa using added.inserted
  refine ⟨added.grows, ?_, ?_⟩
  · rw [inserted]
    exact added.ids
  · intro inst member
    rw [inserted] at member
    rcases List.mem_append.mp member with isCast | last
    · exact Or.inl (areCasts inst isCast)
    · rw [List.mem_singleton.mp last]
      exact Or.inr isCall

theorem instrumentAlloc_defined
    {fn : Callee} {adef : AllocDefinition}
    (defined : pass.adm.getAllocDef fn.name = some adef)
    (nextId : Nat) (ci : Inst) (args : List Value)
    (nextInst : Option Inst) (insertionLoc : Option DebugLoc) :
    AddsCall pass.lfm.allocLogFunc ⟨nextId, insertionLoc, []⟩
      (pass.instrumentAlloc nextId ci fn args nextInst insertionLoc) := by
  simp only [instrumentAlloc_eq, defined]
  exact (((addsCasts_createCast _ _ _ _).trans
    (addsCasts_createZExtOrBitCast _ _ _)).trans
      (addsCasts_createZExtOrBitCast _ _ _)).createCall _ _

theorem instrumentAlloc_undefined
    {fn : Callee} (undefined : pass.adm.getAllocDef fn.name = none)
    (nextId : Nat) (ci : Inst) (args : List Value)
    (nextInst : Option Inst) (insertionLoc : Option DebugLoc) :
    pass.instrumentAlloc nextId ci fn args nextInst insertionLoc =
      ⟨nextId, insertionLoc, []⟩ := by
  simp only [instrumentAlloc_eq, undefined]

theorem instrumentExit_exit
    {fn : Callee} (isExit : fn.name = "exit") (nextId : Nat) (ci : Inst) :
    AddsCall pass.lfm.exitLogFunc ⟨nextId, ci.debugLoc, []⟩
      (pass.instrumentExit nextId ci fn) := by
  simp only [instrumentExit, isExit, if_true]
  exact (AddsCasts.refl _).createCall _ _

theorem instrumentExit_other
    {fn : Callee} (notExit : fn.name ≠ "exit") (nextId : Nat) (ci : Inst) :
    pass.instrumentExit nextId ci fn = ⟨nextId, ci.debugLoc, []⟩ := by
  simp only [instrumentExit, notExit, if_false]

theorem addsCall_instrumentFnEvent
    (function : String) (nextId : Nat) (debugLoc : Option DebugLoc)
    (event : FnEvents) :
    AddsCall (pass.eventLogFunc function event) ⟨nextId, debugLoc, []⟩
      (pass.instrumentFnEvent function nextId debugLoc event) :=
  (AddsCasts.refl _).createCall _ _

theorem eventLogFunc_mem (function : String) (event : FnEvents) :
    pass.eventLogFunc function event ∈ pass.lfm.eventFunctions := by
  unfold eventLogFunc
  split
  · cases event <;> simp [LogFunctionManager.eventFunctions]
  · split
    · cases event <;> simp [LogFunctionManager.eventFunctions]
    · cases event <;> simp [LogFunctionManager.eventFunctions]

end Insertions

/-! ## Instructions that are passed over -/

section PassedOver

variable {pass}

theorem inert_of_isCast
    {inst : Inst} (isCast : inst.isCast = true)
    (decision : Decision) (terminatorLoc : Option DebugLoc) :
    Inert (pass.visit decision terminatorLoc) inst := by
  intro state next
  unfold Inst.isCast at isCast
  split at isCast
  · rename_i op
    simp only [visit_eq, op]
  · cases isCast

theorem inert_of_alloca
    {inst : Inst} {type : Ty} (op : inst.op = .alloca type)
    (decision : Decision) (terminatorLoc : Option DebugLoc) :
    Inert (pass.visit decision terminatorLoc) inst := by
  intro state next
  simp only [visit_eq, op]

/-- A call the pass has inserted is no allocation and no `exit`. -/
theorem inert_of_event
    (noLog : pass.NoLogFunctionDefined) {callee : Callee}
    (event : callee ∈ pass.lfm.eventFunctions)
    {inst : Inst} (called : inst.calledFunction = some callee)
    (decision : Decision) (terminatorLoc : Option DebugLoc) :
    Inert (pass.visit decision terminatorLoc) inst := by
  intro state next
  have undefined : pass.adm.getAllocDef callee.name = none :=
    noLog callee (List.mem_append_right _ event)
  have notExit : callee.name ≠ "exit" := name_ne_exit_of_event event
  unfold Inst.calledFunction at called
  split at called
  · rename_i fn args type op
    subst called
    simp only [visit_eq, op, visitCall_eq, instrumentAlloc_undefined undefined,
      instrumentExit_other notExit, ite_self]
  · cases called

end PassedOver

end AccessInstrumentationPass

/-! ## What a visit achieves -/

/-- Everything around an instruction was inserted by the pass, and it logs what
it has to, once and on the right side.  An inserted instruction that is no
store has nothing around it. -/
structure Instrumented
    (pass : AccessInstrumentationPass) (decision : Decision) (fresh : Nat)
    (segment : Segment Inst) : Prop where
  inserted :
    ∀ inst ∈ segment.before ++ segment.after, fresh ≤ inst.id
  accessBefore :
    segment.before.countP pass.lfm.logsAccess =
      (pass.accessDue decision fresh segment.item).toNat
  accessOwn :
    ∀ inst ∈ segment.before, pass.lfm.logsAccess inst = true →
      ∃ type, segment.item.accessedType = some type ∧
        pass.logsType type decision.function inst
  accessAfter : segment.after.countP pass.lfm.logsAccess = 0
  allocBefore : segment.before.countP pass.lfm.logsAlloc = 0
  allocAfter :
    segment.after.countP pass.lfm.logsAlloc =
      (pass.allocDue decision fresh segment.item).toNat
  bare :
    fresh ≤ segment.item.id → segment.item.isStore = false →
      segment.before = [] ∧ segment.after = []

/-- The values stored by the injected stores of a list. -/
def pending (fresh : Nat) (insts : List Inst) : List Value :=
  insts.filterMap fun inst =>
    match inst.op with
    | .store value _ => if fresh ≤ inst.id then some value else none
    | _ => none

/-- The invariant of the loop, with the instructions that are ahead. -/
structure Ahead
    (pass : AccessInstrumentationPass) (decision : Decision) (fresh : Nat)
    (state : PassState) (rest : List Inst) : Prop where
  older : fresh ≤ state.nextId
  widths :
    ∀ inst ∈ rest, ∀ type, inst.accessedType = some type → type.WidthOk
  queued : state.argLogSet = (pending fresh rest).toFinset
  distinct : (pending fresh rest).Nodup
  injectedFirst :
    rest.Pairwise fun earlier later =>
      earlier.id < fresh → earlier.isStore = true →
        fresh ≤ later.id → later.isStore = false
  filtered : pending fresh rest ≠ [] → decision.functionFilter = true
  passedOver :
    ∀ inst ∈ rest, fresh ≤ inst.id → inst.isStore = false →
      ∀ terminatorLoc, Inert (pass.visit decision terminatorLoc) inst

section Step

open AccessInstrumentationPass

variable {pass : AccessInstrumentationPass} {decision : Decision}
variable {fresh : Nat} {state : PassState} {item : Inst}
variable {rest : List Inst}

theorem pending_cons_store
    {value pointer : Value} (op : item.op = .store value pointer) :
    pending fresh (item :: rest) =
      if fresh ≤ item.id then value :: pending fresh rest
      else pending fresh rest := by
  simp only [pending, List.filterMap_cons, op]
  by_cases injected : fresh ≤ item.id
  · simp [injected]
  · simp [injected]

theorem pending_cons_other (notStore : item.isStore = false) :
    pending fresh (item :: rest) = pending fresh rest := by
  unfold Inst.isStore at notStore
  cases op : item.op with
  | store value pointer =>
      rw [op] at notStore
      cases notStore
  | _ => simp only [pending, List.filterMap_cons, op]

/-- Without injected stores nothing is pending. -/
theorem pending_eq_nil
    {insts : List Inst}
    (none : ∀ inst ∈ insts, fresh ≤ inst.id → inst.isStore = false) :
    pending fresh insts = [] := by
  induction insts with
  | nil => rfl
  | cons head insts inductionHypothesis =>
      have later :=
        inductionHypothesis fun inst member =>
          none inst (List.mem_cons_of_mem head member)
      cases isStore : head.isStore with
      | false => rw [pending_cons_other isStore, later]
      | true =>
          have original : ¬ fresh ≤ head.id := by
            intro injected
            rw [none head List.mem_cons_self injected] at isStore
            cases isStore
          unfold Inst.isStore at isStore
          split at isStore
          · rename_i value pointer op
            rw [pending_cons_store op, if_neg original, later]
          · cases isStore

/-- Going on behind an instruction that leaves the arguments alone. -/
theorem Ahead.tail
    (ahead : Ahead pass decision fresh state (item :: rest))
    {next : PassState} (grows : state.nextId ≤ next.nextId)
    (queued : next.argLogSet = (pending fresh rest).toFinset)
    (shorter : pending fresh rest <:+ pending fresh (item :: rest)) :
    Ahead pass decision fresh next rest := by
  refine ⟨ahead.older.trans grows, ?_, queued, ?_, ?_, ?_, ?_⟩
  · exact fun inst member => ahead.widths inst (List.mem_cons_of_mem _ member)
  · exact ahead.distinct.sublist shorter.sublist
  · exact (List.pairwise_cons.mp ahead.injectedFirst).2
  · intro some
    apply ahead.filtered
    intro none
    rw [none] at shorter
    exact some (List.suffix_nil.mp shorter)
  · exact fun inst member =>
      ahead.passedOver inst (List.mem_cons_of_mem _ member)

/-- Going on behind an instruction that is no injected store. -/
theorem Ahead.next
    (ahead : Ahead pass decision fresh state (item :: rest))
    (same : pending fresh (item :: rest) = pending fresh rest)
    {next : PassState} (grows : state.nextId ≤ next.nextId)
    (queued : next.argLogSet = state.argLogSet) :
    Ahead pass decision fresh next rest := by
  refine ahead.tail grows ?_ ?_
  · rw [queued, ahead.queued, same]
  · rw [same]

/-- An instruction that is passed over. -/
theorem instrumented_of_nothing
    (noAccess : pass.accessDue decision fresh item = false)
    (noAlloc : pass.allocDue decision fresh item = false) :
    Instrumented pass decision fresh ⟨[], item, []⟩ := by
  refine ⟨List.forall_mem_nil _, ?_, List.forall_mem_nil _, rfl, rfl, ?_,
    fun _ _ => ⟨rfl, rfl⟩⟩
  · rw [noAccess]
    rfl
  · rw [noAlloc]
    rfl

/-- An access that was logged. -/
theorem instrumented_of_access
    {nextId : Nat} (older : fresh ≤ nextId) {type : Ty}
    {builder : IRBuilder}
    (inserted :
      InsertedForAccess pass nextId type decision.function builder)
    (accessed : item.accessedType = some type)
    (access :
      pass.accessDue decision fresh item =
        pass.lfm.hasLogFunction type decision.function)
    (noAlloc : pass.allocDue decision fresh item = false)
    (instrumentable : item.id < fresh ∨ item.isStore = true) :
    Instrumented pass decision fresh ⟨builder.inserted, item, []⟩ := by
  refine ⟨?_, ?_, ?_, rfl, inserted.alloc, ?_, ?_⟩
  · intro inst member
    rw [List.append_nil] at member
    exact older.trans (inserted.ids inst member)
  · rw [access]
    exact inserted.access
  · exact fun inst member logs =>
      ⟨type, accessed, inserted.own inst member logs⟩
  · rw [noAlloc]
    rfl
  · intro isInserted notStore
    rcases instrumentable with original | isStore
    · have itemInserted : fresh ≤ item.id := isInserted
      omega
    · have itemNotStore : item.isStore = false := notStore
      rw [isStore] at itemNotStore
      cases itemNotStore

theorem accessDue_of_accessedType
    {type : Ty} (accessed : item.accessedType = some type) :
    pass.accessDue decision fresh item =
      (pass.lfm.hasLogFunction type decision.function &&
        if item.id < fresh then decision.accessFilter else item.isStore) := by
  simp [accessDue, accessed]

theorem accessDue_of_none (none : item.accessedType = none) :
    pass.accessDue decision fresh item = false := by
  simp [accessDue, none]

theorem allocDue_of_none (none : item.calledFunction = none) :
    pass.allocDue decision fresh item = false := by
  simp [allocDue, allocates, none]

/-- The visit of an injected store takes its argument out of the set and logs
it. -/
theorem visit_injected_store
    (ahead : Ahead pass decision fresh state (item :: rest))
    {value pointer : Value} (op : item.op = .store value pointer)
    (injected : fresh ≤ item.id)
    (terminatorLoc : Option DebugLoc) (nextInst : Option Inst) :
    ∃ builder,
      pass.visit decision terminatorLoc state item nextInst =
          some ⟨builder.inserted, [],
            ⟨builder.nextId, (pending fresh rest).toFinset⟩⟩ ∧
        InsertedForAccess pass state.nextId
          value.getType decision.function builder := by
  have accessed : item.accessedType = some value.getType := by
    simp [Inst.accessedType, op]
  have ok := ahead.widths item List.mem_cons_self _ accessed
  have split :
      pending fresh (item :: rest) = value :: pending fresh rest := by
    rw [pending_cons_store op, if_pos injected]
  have functionFilter : decision.functionFilter = true :=
    ahead.filtered (by rw [split]; exact List.cons_ne_nil _ _)
  have queued := ahead.queued
  have distinct := ahead.distinct
  rw [split, List.toFinset_cons] at queued
  rw [split] at distinct
  have notLater : value ∉ (pending fresh rest).toFinset := by
    rw [List.mem_toFinset]
    exact (List.nodup_cons.mp distinct).1
  have consumed :
      checkAndConsumeArg state.argLogSet value =
        (true, (pending fresh rest).toFinset) := by
    rw [queued, checkAndConsumeArg, if_pos (Finset.mem_insert_self _ _),
      Finset.erase_insert notLater]
  have logged :
      ∃ builder,
        pass.instrumentAccess item.id decision.function state.nextId
            item.debugLoc value pointer 'a' = some builder ∧
          InsertedForAccess pass state.nextId
            value.getType decision.function builder :=
    instrumentAccess_store (Or.inr rfl) ok item.id decision.function
      state.nextId item.debugLoc pointer
  rcases logged with ⟨builder, made, inserted⟩
  refine ⟨builder, ?_, inserted⟩
  simp only [visit_eq, op, visitStore_eq, functionFilter, if_true, consumed,
    Bool.and_self, Bool.true_or, made, Option.map_some]

/-- Behind the injected stores the set is empty, so a store of the program is
visited as any access, whatever `isArg` holds. -/
theorem visit_program_store
    {value pointer : Value} (op : item.op = .store value pointer)
    (ok : value.getType.WidthOk) (queued : state.argLogSet = ∅)
    (terminatorLoc : Option DebugLoc) (nextInst : Option Inst) :
    if decision.accessFilter then
      ∃ builder,
        pass.visit decision terminatorLoc state item nextInst =
            some ⟨builder.inserted, [], ⟨builder.nextId, ∅⟩⟩ ∧
          InsertedForAccess pass state.nextId
            value.getType decision.function builder
    else
      pass.visit decision terminatorLoc state item nextInst =
        some ⟨[], [], ⟨state.nextId, ∅⟩⟩ := by
  have notConsumed :
      checkAndConsumeArg (∅ : Finset Value) value = (false, ∅) := by
    rw [checkAndConsumeArg, if_neg (Finset.notMem_empty _)]
  cases accessFilter : decision.accessFilter with
  | false =>
      rw [if_neg Bool.false_ne_true]
      cases functionFilter : decision.functionFilter with
      | false =>
          simp [visit_eq, op, visitStore_eq, functionFilter, accessFilter,
            queued]
      | true =>
          simp [visit_eq, op, visitStore_eq, functionFilter, accessFilter,
            queued, notConsumed]
  | true =>
      rw [if_pos rfl]
      have logged :
          ∀ accessType : Char, accessType = 'w' ∨ accessType = 'a' →
            ∃ builder,
              pass.instrumentAccess item.id decision.function state.nextId
                  item.debugLoc value pointer accessType = some builder ∧
                InsertedForAccess pass state.nextId
                  value.getType decision.function builder :=
        fun accessType stores =>
          instrumentAccess_store stores ok item.id decision.function
            state.nextId item.debugLoc pointer
      cases functionFilter : decision.functionFilter with
      | true =>
          rcases logged 'w' (Or.inl rfl) with ⟨builder, made, inserted⟩
          refine ⟨builder, ?_, inserted⟩
          simp [visit_eq, op, visitStore_eq, functionFilter, accessFilter,
            queued, notConsumed, made]
      | false =>
          -- `isArg` was never assigned
          cases unassigned : pass.unassignedIsArg item.id with
          | true =>
              rcases logged 'a' (Or.inr rfl) with ⟨builder, made, inserted⟩
              refine ⟨builder, ?_, inserted⟩
              simp [visit_eq, op, visitStore_eq, functionFilter, accessFilter,
                queued, unassigned, made]
          | false =>
              rcases logged 'w' (Or.inl rfl) with ⟨builder, made, inserted⟩
              refine ⟨builder, ?_, inserted⟩
              simp [visit_eq, op, visitStore_eq, functionFilter, accessFilter,
                queued, unassigned, made]

/-- What the loop needs of a visit. -/
def VisitOk
    (pass : AccessInstrumentationPass) (decision : Decision) (fresh : Nat)
    (state : PassState) (item : Inst) (rest : List Inst)
    (terminatorLoc : Option DebugLoc) : Prop :=
  ∃ made,
    pass.visit decision terminatorLoc state item rest.head? = some made ∧
      (∀ new ∈ made.after,
        Inert (pass.visit decision terminatorLoc) new) ∧
        Instrumented pass decision fresh ⟨made.before, item, made.after⟩ ∧
          Ahead pass decision fresh made.state rest

theorem visitOk_store
    (ahead : Ahead pass decision fresh state (item :: rest))
    {value pointer : Value} (op : item.op = .store value pointer)
    (terminatorLoc : Option DebugLoc) :
    VisitOk pass decision fresh state item rest terminatorLoc := by
  have accessed : item.accessedType = some value.getType := by
    simp [Inst.accessedType, op]
  have noAlloc : pass.allocDue decision fresh item = false :=
    allocDue_of_none (by simp [Inst.calledFunction, op])
  have isStore : item.isStore = true := by
    simp [Inst.isStore, op]
  have due :
      pass.accessDue decision fresh item =
        (pass.lfm.hasLogFunction value.getType decision.function &&
          if item.id < fresh then decision.accessFilter
          else item.isStore) :=
    accessDue_of_accessedType accessed
  by_cases injected : fresh ≤ item.id
  · rcases visit_injected_store ahead op injected terminatorLoc
        rest.head? with
      ⟨builder, visited, inserted⟩
    refine ⟨_, visited, List.forall_mem_nil _, ?_, ?_⟩
    · refine instrumented_of_access ahead.older inserted accessed ?_ noAlloc
        (Or.inr isStore)
      rw [due, if_neg (by omega), isStore, Bool.and_true]
    · refine ahead.tail inserted.grows rfl ?_
      rw [pending_cons_store op, if_pos injected]
      exact List.suffix_cons value _
  · have original : item.id < fresh := by
      omega
    have laterOriginal :
        ∀ inst ∈ rest, fresh ≤ inst.id → inst.isStore = false := by
      intro inst member isInjected
      exact (List.pairwise_cons.mp ahead.injectedFirst).1 inst member
        original isStore isInjected
    have noneLeft : pending fresh rest = [] := pending_eq_nil laterOriginal
    have same : pending fresh (item :: rest) = pending fresh rest := by
      rw [pending_cons_store op, if_neg injected]
    have queued : state.argLogSet = ∅ := by
      rw [ahead.queued, same, noneLeft, List.toFinset_nil]
    have ok := ahead.widths item List.mem_cons_self _ accessed
    have visited :
        if decision.accessFilter then
          ∃ builder,
            pass.visit decision terminatorLoc state item rest.head? =
                some ⟨builder.inserted, [], ⟨builder.nextId, ∅⟩⟩ ∧
              InsertedForAccess pass state.nextId
                value.getType decision.function builder
        else
          pass.visit decision terminatorLoc state item rest.head? =
            some ⟨[], [], ⟨state.nextId, ∅⟩⟩ :=
      visit_program_store op ok queued terminatorLoc rest.head?
    cases accessFilter : decision.accessFilter with
    | false =>
        rw [accessFilter, if_neg Bool.false_ne_true] at visited
        refine ⟨_, visited, List.forall_mem_nil _, ?_, ?_⟩
        · refine instrumented_of_nothing ?_ noAlloc
          rw [due, if_pos original, accessFilter, Bool.and_false]
        · exact ahead.next same (le_refl _) queued.symm
    | true =>
        rw [accessFilter, if_pos rfl] at visited
        rcases visited with ⟨builder, visited, inserted⟩
        refine ⟨_, visited, List.forall_mem_nil _, ?_, ?_⟩
        · refine instrumented_of_access ahead.older inserted accessed ?_
            noAlloc (Or.inl original)
          rw [due, if_pos original, accessFilter, Bool.and_true]
        · exact ahead.next same inserted.grows queued.symm

/-- An instruction that is passed over. -/
theorem visitOk_inert
    (ahead : Ahead pass decision fresh state (item :: rest))
    {terminatorLoc : Option DebugLoc}
    (inert : Inert (pass.visit decision terminatorLoc) item)
    (noAccess : pass.accessDue decision fresh item = false)
    (noAlloc : pass.allocDue decision fresh item = false)
    (notStore : item.isStore = false) :
    VisitOk pass decision fresh state item rest terminatorLoc := by
  refine ⟨_, inert state rest.head?, List.forall_mem_nil _,
    instrumented_of_nothing noAccess noAlloc, ?_⟩
  exact ahead.next (pending_cons_other notStore) (le_refl _) rfl

theorem visitOk_load
    (ahead : Ahead pass decision fresh state (item :: rest))
    (original : item.id < fresh)
    {pointer : Value} (op : item.op = .load pointer)
    (terminatorLoc : Option DebugLoc) :
    VisitOk pass decision fresh state item rest terminatorLoc := by
  have accessed : item.accessedType = some item.getType := by
    simp [Inst.accessedType, op]
  have noAlloc : pass.allocDue decision fresh item = false :=
    allocDue_of_none (by simp [Inst.calledFunction, op])
  have notStore : item.isStore = false := by
    simp [Inst.isStore, op]
  have due :
      pass.accessDue decision fresh item =
        (pass.lfm.hasLogFunction item.getType decision.function &&
          if item.id < fresh then decision.accessFilter
          else item.isStore) :=
    accessDue_of_accessedType accessed
  cases accessFilter : decision.accessFilter with
  | false =>
      refine visitOk_inert ahead ?_ ?_ noAlloc notStore
      · intro other next
        simp [visit_eq, op, visitLoad_eq, accessFilter]
      · rw [due, if_pos original, accessFilter, Bool.and_false]
  | true =>
      have ok := ahead.widths item List.mem_cons_self _ accessed
      have loads :
          pointer.getType.getPointerElementType = item.getType := by
        simp [Inst.getType, op]
      have logged :
          ∃ builder,
            pass.instrumentAccess item.id decision.function state.nextId
                item.debugLoc pointer pointer 'r' = some builder ∧
              InsertedForAccess pass state.nextId
                item.getType decision.function builder :=
        instrumentAccess_load loads ok item.id decision.function
          state.nextId item.debugLoc
      rcases logged with ⟨builder, made, inserted⟩
      have visited :
          pass.visit decision terminatorLoc state item rest.head? =
            some ⟨builder.inserted, [],
              { state with nextId := builder.nextId }⟩ := by
        simp [visit_eq, op, visitLoad_eq, accessFilter, made]
      refine ⟨_, visited, List.forall_mem_nil _, ?_, ?_⟩
      · refine instrumented_of_access ahead.older inserted accessed ?_ noAlloc
          (Or.inl original)
        rw [due, if_pos original, accessFilter, Bool.and_true]
      · exact ahead.next (pending_cons_other notStore) inserted.grows rfl

/-- What goes after a call. -/
def allocBuilder
    (pass : AccessInstrumentationPass) (decision : Decision)
    (state : PassState) (ci : Inst) (fn : Callee) (args : List Value)
    (nextInst : Option Inst) (insertionLoc : Option DebugLoc) : IRBuilder :=
  if decision.allocFilter then
    pass.instrumentAlloc state.nextId ci fn args nextInst insertionLoc
  else
    ⟨state.nextId, insertionLoc, []⟩

/-- What goes before a call. -/
def exitBuilder
    (pass : AccessInstrumentationPass) (decision : Decision)
    (nextId : Nat) (ci : Inst) (fn : Callee) : IRBuilder :=
  if decision.logsEvents then
    pass.instrumentExit nextId ci fn
  else
    ⟨nextId, ci.debugLoc, []⟩

/-- The visit of a call: `insertionLoc` is that of the next instruction, or
of the terminator. -/
theorem visit_call
    {fn : Callee} {args : List Value} {type : Ty}
    (op : item.op = .call (some fn) args type)
    (terminatorLoc : Option DebugLoc) (nextInst : Option Inst) :
    ∃ insertionLoc,
      let alloc :=
        allocBuilder pass decision state item fn args nextInst insertionLoc
      let exit := exitBuilder pass decision alloc.nextId item fn
      pass.visit decision terminatorLoc state item nextInst =
        some ⟨exit.inserted, alloc.inserted,
          { state with nextId := exit.nextId }⟩ := by
  simp only [visit_eq, op, visitCall_eq]
  exact ⟨_, rfl⟩

/-- A builder that has inserted casts and at most one call, of `callee`. -/
structure InsertedForEvent
    (callee : Callee) (nextId : Nat) (due : Bool) (builder : IRBuilder) :
    Prop where
  grows : nextId ≤ builder.nextId
  ids : ∀ inst ∈ builder.inserted, nextId ≤ inst.id
  only :
    ∀ inst ∈ builder.inserted,
      inst.isCast = true ∨ inst.calledFunction = some callee
  count :
    builder.inserted.countP
      (fun inst => inst.calledFunction = some callee) = due.toNat

theorem insertedForEvent_of_nothing
    (callee : Callee) (nextId : Nat) (debugLoc : Option DebugLoc) :
    InsertedForEvent callee nextId false ⟨nextId, debugLoc, []⟩ :=
  ⟨le_refl _, List.forall_mem_nil _, List.forall_mem_nil _, rfl⟩

theorem insertedForEvent_of_call
    {callee : Callee} {nextId : Nat} {debugLoc : Option DebugLoc}
    {builder : IRBuilder}
    (calls : AddsCall callee ⟨nextId, debugLoc, []⟩ builder) :
    InsertedForEvent callee nextId true builder := by
  have facts := addsCall_inserted calls
  have counted :=
    calls.countP (fun inst => inst.calledFunction = some callee) true
      (by
        intro inst isCast
        simp [calledFunction_of_isCast isCast])
      (by
        intro inst called
        simp [called])
  refine ⟨facts.1, facts.2.1, facts.2.2, ?_⟩
  rw [counted]
  simp

theorem allocBuilder_inserted
    (ci : Inst) {fn : Callee} (calls : ci.calledFunction = some fn)
    (original : ci.id < fresh)
    (args : List Value) (nextInst : Option Inst)
    (insertionLoc : Option DebugLoc) :
    InsertedForEvent pass.lfm.allocLogFunc state.nextId
      (pass.allocDue decision fresh ci)
      (allocBuilder pass decision state ci fn args nextInst
        insertionLoc) := by
  have due :
      pass.allocDue decision fresh ci =
        (decision.allocFilter && (pass.adm.getAllocDef fn.name).isSome) := by
    simp [allocDue, allocates, calls, original]
  rw [due, allocBuilder]
  cases allocFilter : decision.allocFilter with
  | false => exact insertedForEvent_of_nothing _ _ _
  | true =>
      rw [if_pos rfl]
      cases defined : pass.adm.getAllocDef fn.name with
      | none =>
          rw [instrumentAlloc_undefined defined]
          exact insertedForEvent_of_nothing _ _ _
      | some adef =>
          exact insertedForEvent_of_call
            (instrumentAlloc_defined defined _ _ _ _ _)

theorem exitBuilder_inserted
    (nextId : Nat) (ci : Inst) (fn : Callee) :
    ∃ due,
      InsertedForEvent pass.lfm.exitLogFunc nextId due
        (exitBuilder pass decision nextId ci fn) := by
  unfold exitBuilder
  split
  · by_cases isExit : fn.name = "exit"
    · exact ⟨true,
        insertedForEvent_of_call (instrumentExit_exit isExit _ _)⟩
    · rw [instrumentExit_other isExit]
      exact ⟨false, insertedForEvent_of_nothing _ _ _⟩
  · exact ⟨false, insertedForEvent_of_nothing _ _ _⟩

/-- An event neither loads nor stores. -/
theorem InsertedForEvent.quiet
    {callee : Callee} {nextId : Nat} {due : Bool} {builder : IRBuilder}
    (inserted : InsertedForEvent callee nextId due builder) :
    ∀ inst ∈ builder.inserted,
      inst.accessedType = none ∧ inst.isStore = false := by
  intro inst member
  rcases inserted.only inst member with isCast | called
  · unfold Inst.isCast at isCast
    split at isCast
    · rename_i op
      simp [Inst.accessedType, Inst.isStore, op]
    · cases isCast
  · unfold Inst.calledFunction at called
    split at called
    · rename_i op
      simp [Inst.accessedType, Inst.isStore, op]
    · cases called

theorem InsertedForEvent.inert
    {callee : Callee} {nextId : Nat} {due : Bool} {builder : IRBuilder}
    (inserted : InsertedForEvent callee nextId due builder)
    (noLog : pass.NoLogFunctionDefined)
    (event : callee ∈ pass.lfm.eventFunctions)
    (decision : Decision) (terminatorLoc : Option DebugLoc) :
    ∀ inst ∈ builder.inserted,
      Inert (pass.visit decision terminatorLoc) inst := by
  intro inst member
  rcases inserted.only inst member with isCast | called
  · exact inert_of_isCast isCast decision terminatorLoc
  · exact inert_of_event noLog event called decision terminatorLoc

/-- Neither an access nor, unless it is the function for that, an allocation is
logged by an event. -/
theorem InsertedForEvent.no_access
    {callee : Callee} {nextId : Nat} {due : Bool} {builder : IRBuilder}
    (inserted : InsertedForEvent callee nextId due builder)
    (event : callee ∈ pass.lfm.eventFunctions) :
    builder.inserted.countP pass.lfm.logsAccess = 0 := by
  have notAccess : callee ∉ pass.lfm.accessFunctions :=
    not_access_of_event event
  rw [List.countP_eq_zero]
  intro inst member
  rcases inserted.only inst member with isCast | called
  · simp [logsAccess_of_isCast _ inst isCast]
  · simp [LogFunctionManager.logsAccess, called, notAccess]

theorem InsertedForEvent.no_alloc
    {callee : Callee} {nextId : Nat} {due : Bool} {builder : IRBuilder}
    (inserted : InsertedForEvent callee nextId due builder)
    (different : callee ≠ pass.lfm.allocLogFunc) :
    builder.inserted.countP pass.lfm.logsAlloc = 0 := by
  rw [List.countP_eq_zero]
  intro inst member
  rcases inserted.only inst member with isCast | called
  · simp [logsAlloc_of_isCast _ inst isCast]
  · simp [LogFunctionManager.logsAlloc, called, different]

theorem visitOk_call
    (ahead : Ahead pass decision fresh state (item :: rest))
    (noLog : pass.NoLogFunctionDefined) (original : item.id < fresh)
    {fn : Callee} {args : List Value} {type : Ty}
    (op : item.op = .call (some fn) args type)
    (terminatorLoc : Option DebugLoc) :
    VisitOk pass decision fresh state item rest terminatorLoc := by
  have calls : item.calledFunction = some fn := by
    simp [Inst.calledFunction, op]
  have noAccess : pass.accessDue decision fresh item = false :=
    accessDue_of_none (by simp [Inst.accessedType, op])
  have notStore : item.isStore = false := by
    simp [Inst.isStore, op]
  rcases visit_call op terminatorLoc rest.head? with
    ⟨insertionLoc, visited⟩
  let alloc :=
    allocBuilder pass decision state item fn args rest.head? insertionLoc
  let exit := exitBuilder pass decision alloc.nextId item fn
  have allocInserted :
      InsertedForEvent pass.lfm.allocLogFunc state.nextId
        (pass.allocDue decision fresh item) alloc :=
    allocBuilder_inserted item calls original args _ _
  have exitFound :
      ∃ due, InsertedForEvent pass.lfm.exitLogFunc alloc.nextId due exit :=
    exitBuilder_inserted alloc.nextId item fn
  rcases exitFound with ⟨due, exitInserted⟩
  have allocEvent : pass.lfm.allocLogFunc ∈ pass.lfm.eventFunctions :=
    LogFunctionManager.allocLogFunc_mem
  have exitEvent : pass.lfm.exitLogFunc ∈ pass.lfm.eventFunctions :=
    LogFunctionManager.exitLogFunc_mem
  refine ⟨_, visited, ?_, ?_, ?_⟩
  · exact allocInserted.inert noLog allocEvent decision terminatorLoc
  · have noneBefore := exitInserted.no_access exitEvent
    refine ⟨?_, ?_, ?_, allocInserted.no_access allocEvent,
      exitInserted.no_alloc exitLogFunc_ne_allocLogFunc, ?_, ?_⟩
    · intro inst member
      rcases List.mem_append.mp member with isBefore | isAfter
      · exact ahead.older.trans
          (allocInserted.grows.trans (exitInserted.ids inst isBefore))
      · exact ahead.older.trans (allocInserted.ids inst isAfter)
    · rw [noAccess]
      exact noneBefore
    · intro inst member logs
      exact absurd logs (List.countP_eq_zero.mp noneBefore inst member)
    · exact allocInserted.count
    · intro isInserted _
      have itemInserted : fresh ≤ item.id := isInserted
      omega
  · exact ahead.next (pending_cons_other notStore)
      (allocInserted.grows.trans exitInserted.grows) rfl

/-- The step of the loop. -/
theorem visitOk
    (noLog : pass.NoLogFunctionDefined)
    (ahead : Ahead pass decision fresh state (item :: rest))
    (terminatorLoc : Option DebugLoc) :
    VisitOk pass decision fresh state item rest terminatorLoc := by
  cases isStore : item.isStore with
  | true =>
      unfold Inst.isStore at isStore
      split at isStore
      · rename_i value pointer op
        exact visitOk_store ahead op terminatorLoc
      · cases isStore
  | false =>
      by_cases original : item.id < fresh
      · cases op : item.op with
        | store value pointer =>
            rw [Inst.isStore, op] at isStore
            cases isStore
        | load pointer => exact visitOk_load ahead original op terminatorLoc
        | call callee args type =>
            cases callee with
            | some fn =>
                exact visitOk_call ahead noLog original op terminatorLoc
            | none =>
                refine visitOk_inert ahead ?_ ?_ ?_ isStore
                · intro other next
                  simp only [visit_eq, op]
                · exact accessDue_of_none (by simp [Inst.accessedType, op])
                · exact allocDue_of_none (by simp [Inst.calledFunction, op])
        | _ =>
            refine visitOk_inert ahead ?_ ?_ ?_ isStore
            · intro other next
              simp only [visit_eq, op]
            · exact accessDue_of_none (by simp [Inst.accessedType, op])
            · exact allocDue_of_none (by simp [Inst.calledFunction, op])
      · -- the pass has inserted it, and it is no store
        have injected : fresh ≤ item.id := by
          omega
        refine visitOk_inert ahead
          (ahead.passedOver item List.mem_cons_self injected isStore _) ?_ ?_
          isStore
        · cases accessed : item.accessedType with
          | none => exact accessDue_of_none accessed
          | some type =>
              rw [accessDue_of_accessedType accessed, if_neg original,
                isStore, Bool.and_false]
        · simp [allocDue, original]

end Step

end Dinamite.Instrument
