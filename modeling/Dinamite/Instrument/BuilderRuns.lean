import Dinamite.Instrument.Agreement
import Dinamite.Instrument.AllocRecords
import Dinamite.Instrument.Recording

/-!
# What inserted code does

Running the instructions of a builder from a frame: casts and loads only set
registers that are new, and the call at the end logs what its arguments stand
for.
-/

namespace Dinamite.Instrument

open AccessInstrumentationPass

variable {Val Mem : Type} {machine : Machine Val Mem}

/-! ## Builders -/

/-- Running what the target has inserted since the source. -/
structure Extends
    (machine : Machine Val Mem) (source : IRBuilder)
    (before : Frame Val Mem) (target : IRBuilder) (after : Frame Val Mem) :
    Prop where
  ran : ∃ new,
    target.inserted = source.inserted ++ new ∧
      machine.stepAll new before = .goes after
  agree : before.Agree True source.nextId after
  grows : source.nextId ≤ target.nextId

/-- The builder makes a value, and running what it has inserted gives the
value its content. -/
def Yields
    (machine : Machine Val Mem) (source : IRBuilder)
    (before : Frame Val Mem) (made : Value × IRBuilder)
    (content : Content Val) : Prop :=
  ∃ after,
    Extends machine source before made.2 after ∧
      made.1.Below made.2.nextId ∧ machine.eval after made.1 = content

section Builders

variable {source target later : IRBuilder}
variable {before after final : Frame Val Mem}

theorem Extends.refl (source : IRBuilder) (before : Frame Val Mem) :
    Extends machine source before source before :=
  ⟨⟨[], (List.append_nil _).symm, rfl⟩, .refl True _ before, le_refl _⟩

theorem Extends.trans
    (extended : Extends machine source before target after)
    (continued : Extends machine target after later final) :
    Extends machine source before later final := by
  rcases extended.ran with ⟨new, inserted, ran⟩
  rcases continued.ran with ⟨more, insertedLater, ranLater⟩
  refine ⟨⟨new ++ more, ?_, ?_⟩, ?_, ?_⟩
  · rw [insertedLater, inserted, List.append_assoc]
  · rw [Machine.stepAll_append, ran, Result.bind_goes, ranLater]
  · exact extended.agree.trans (continued.agree.mono extended.grows)
  · exact extended.grows.trans continued.grows

/-- What was there before still stands for the same. -/
theorem Extends.eval
    (extended : Extends machine source before target after)
    {value : Value} (below : value.Below source.nextId) :
    machine.eval after value = machine.eval before value :=
  (Machine.eval_congr extended.agree below).symm

theorem yields_same
    {value : Value} (below : value.Below source.nextId) :
    Yields machine source before (value, source)
      (machine.eval before value) :=
  ⟨before, .refl source before, below, rfl⟩

/-- A new instruction that sets its register. -/
theorem yields_insert
    {op : Op} {content : Content Val}
    (steps :
      machine.step ⟨source.nextId, "", op, source.debugLoc⟩ before =
        .goes (before.set source.nextId content)) :
    Yields machine source before
      ((source.insert op).1.value, (source.insert op).2) content := by
  refine ⟨before.set source.nextId content, ⟨⟨[_], rfl, ?_⟩, ?_, ?_⟩, ?_, ?_⟩
  · rw [Machine.stepAll_singleton]
    exact steps
  · exact before.agree_set (le_refl _) content
  · exact Nat.le_succ _
  · exact Nat.lt_succ_self _
  · simp only [IRBuilder.insert, Inst.value, Machine.eval, Frame.set,
      Function.update_self]

theorem yields_createLoad
    (pointer : Value) :
    Yields machine source before (source.createLoad pointer)
      (machine.load before.memory (machine.eval before pointer)
        pointer.getType.getPointerElementType) :=
  yields_insert rfl

theorem yields_createCast
    (op : CastOp) {value : Value} (type : Ty)
    (below : value.Below source.nextId) :
    Yields machine source before (source.createCast op value type)
      (machine.castTo op value.getType type
        (machine.eval before value)) := by
  unfold IRBuilder.createCast Machine.castTo
  by_cases same : value.getType = type
  · rw [if_pos same, if_pos same]
    exact yields_same below
  · rw [if_neg same, if_neg same]
    cases constant : value.isConstant with
    | true => exact yields_same below
    | false => exact yields_insert rfl

theorem yields_createZExtOrBitCast
    {value : Value} (type : Ty) (below : value.Below source.nextId) :
    Yields machine source before (source.createZExtOrBitCast value type)
      (machine.zExtOrBitCastTo value.getType type
        (machine.eval before value)) := by
  unfold IRBuilder.createZExtOrBitCast Machine.zExtOrBitCastTo
  split
  · exact yields_createCast .bitCast type below
  · exact yields_createCast .zExt type below

theorem yields_createFPCast
    {value : Value} (type : Ty) (below : value.Below source.nextId) :
    Yields machine source before (source.createFPCast value type)
      (machine.fpCastTo value.getType type
        (machine.eval before value)) := by
  unfold IRBuilder.createFPCast Machine.fpCastTo
  dsimp only
  split
  · exact yields_createCast .bitCast type below
  · split
    · exact yields_createCast .fpTrunc type below
    · exact yields_createCast .fpExt type below

theorem yields_castAccessed
    {accessed : Value} (type : Ty) (below : accessed.Below source.nextId) :
    Yields machine source before (castAccessed source accessed type)
      (machine.accessedTo accessed.getType type
        (machine.eval before accessed)) := by
  unfold castAccessed Machine.accessedTo
  split
  · exact yields_createFPCast type below
  · split
    · exact yields_createZExtOrBitCast type below
    · split
      · -- a folded constant stands for what a `bitcast` would
        unfold constantBitCast Machine.castTo
        by_cases same : accessed.getType = type
        · rw [if_pos same, if_pos same]
          exact yields_same below
        · rw [if_neg same, if_neg same]
          exact yields_same below
      · exact yields_createCast .bitCast type below

theorem eval_getConstantFromInt
    (frame : Frame Val Mem) (value : Int) (type : Ty) :
    machine.eval frame (getConstantFromInt value type) =
      machine.integerTo value type := by
  unfold getConstantFromInt Machine.integerTo
  split <;> rfl

theorem below_getConstantFromInt (mark : Nat) (value : Int) (type : Ty) :
    (getConstantFromInt value type).Below mark := by
  unfold getConstantFromInt
  split <;> trivial

end Builders

/-! ## Log calls -/

/-- From this frame the instructions log exactly the entries, and leave all
else as it is, but for registers from the mark on. -/
def Logs
    (machine : Machine Val Mem) (mark : Nat) (insts : List Inst)
    (before : Frame Val Mem) (entries : List (Entry Val Mem)) : Prop :=
  ∃ after,
    machine.stepAll insts before = .goes after ∧
      (before.logging entries).Agree True mark after

theorem logs_nil (mark : Nat) (before : Frame Val Mem) :
    Logs machine mark [] before [] := by
  refine ⟨before, rfl, ?_⟩
  exact ⟨fun _ _ => rfl, rfl, rfl, rfl, fun _ => List.append_nil _⟩

/-- A call of a log function at the end of what a builder has inserted. -/
theorem Extends.logs
    {nextId : Nat} {debugLoc : Option DebugLoc}
    {builder : IRBuilder} {before after : Frame Val Mem}
    (extended : Extends machine ⟨nextId, debugLoc, []⟩ before builder after)
    {callee : Callee} (isLog : machine.isLog callee = true)
    {args : List Value} {contents : List (Content Val)}
    (arguments : args.map (machine.eval after) = contents) :
    Logs machine nextId (builder.createCall callee args).inserted before
      [⟨callee, contents, before.memory⟩] := by
  rcases extended.ran with ⟨new, inserted, ran⟩
  have agree : before.Agree True nextId after := extended.agree
  have added :
      (builder.createCall callee args).inserted =
        new ++
          [⟨builder.nextId, "", .call (some callee) args callee.returnType,
            builder.debugLoc⟩] := by
    simp [IRBuilder.createCall, IRBuilder.insert, inserted]
  refine ⟨after.logging [⟨callee, contents, before.memory⟩], ?_,
    agree.logging fun _ => rfl⟩
  rw [added, Machine.stepAll_append, ran, Result.bind_goes,
    Machine.stepAll_singleton]
  simp only [Machine.step, isLog, if_true, arguments, agree.memory]

/-! ## What the pass inserts -/

/-- The machine tells the log functions of the pass from others. -/
structure Machine.Hosts
    (machine : Machine Val Mem) (pass : AccessInstrumentationPass)
    (fresh : Nat) : Prop where
  fresh : machine.fresh = fresh
  isLog : ∀ callee ∈ pass.lfm.accessFunctions ++ pass.lfm.eventFunctions,
    machine.isLog callee = true

section Pass

variable {pass : AccessInstrumentationPass} {fresh nextId : Nat}
variable {before : Frame Val Mem}

theorem Machine.Hosts.access
    (hosts : machine.Hosts pass fresh) {type : Ty} {function : String}
    {afunc : Callee}
    (found : pass.lfm.getLogFunction type function = .function afunc) :
    machine.isLog afunc = true :=
  hosts.isLog afunc
    (List.mem_append_left _ (LogFunctionManager.logFunction_mem found))

theorem Machine.Hosts.event
    (hosts : machine.Hosts pass fresh) {callee : Callee}
    (event : callee ∈ pass.lfm.eventFunctions) :
    machine.isLog callee = true :=
  hosts.isLog callee (List.mem_append_right _ event)

theorem Machine.Hosts.older
    (hosts : machine.Hosts pass fresh) (young : fresh ≤ nextId) :
    machine.fresh ≤ nextId := by
  rw [hosts.fresh]
  exact young

/-- What is inserted for an access, behind a start that yields the accessed
value. -/
theorem logs_of_yields
    (hosts : machine.Hosts pass fresh)
    {debugLoc : Option DebugLoc} {made : Value × IRBuilder}
    {content : Content Val}
    (yields : Yields machine ⟨nextId, debugLoc, []⟩ before made content)
    (sameLoc : made.2.debugLoc = debugLoc)
    {destination : Value} (below : destination.Below nextId)
    (site : Nat) (function : String) (accessType : Char)
    {builder : IRBuilder}
    (built :
      (match pass.lfm.getLogFunction made.1.getType function with
        | .function afunc =>
            some (pass.logAccess made.2 site function afunc made.1
              destination accessType)
        | .none => some made.2
        | .exit => none) = some builder) :
    Logs machine nextId builder.inserted before
      (pass.accessEntries machine site function debugLoc made.1.getType
        content destination (machine.eval before destination) accessType
        before.memory) := by
  rcases yields with ⟨after, extended, madeBelow, rfl⟩
  unfold accessEntries
  cases found : pass.lfm.getLogFunction made.1.getType function with
  | exit =>
      rw [found] at built
      cases built
  | none =>
      rw [found] at built
      obtain rfl := Option.some.inj built
      rcases extended.ran with ⟨new, inserted, ran⟩
      refine ⟨after, ?_, ?_⟩
      · rw [inserted]
        exact ran
      · have agree := extended.agree
        refine { agree with log := ?_ }
        intro kept
        rw [← agree.log kept]
        exact List.append_nil _
  | function afunc =>
      rw [found] at built
      obtain rfl := Option.some.inj built
      have addressYields :
          Yields machine made.2 after
            (made.2.createCast .bitCast destination (afunc.getParamType 0))
            (machine.castTo .bitCast destination.getType
              (afunc.getParamType 0) (machine.eval after destination)) :=
        yields_createCast .bitCast _ (below.mono extended.grows)
      rcases addressYields with
        ⟨addressed, addressExtends, addressBelow, addressIs⟩
      have valueYields :
          Yields machine
            (made.2.createCast .bitCast destination
              (afunc.getParamType 0)).2 addressed
            (castAccessed
              (made.2.createCast .bitCast destination
                (afunc.getParamType 0)).2 made.1 (afunc.getParamType 1))
            (machine.accessedTo made.1.getType (afunc.getParamType 1)
              (machine.eval addressed made.1)) :=
        yields_castAccessed _ (madeBelow.mono addressExtends.grows)
      rcases valueYields with ⟨valued, valueExtends, _, valueIs⟩
      have all := (extended.trans addressExtends).trans valueExtends
      rw [logAccess_eq]
      refine all.logs (hosts.access found) ?_
      simp only [List.map_cons, List.map_nil, eval_getConstantFromInt,
        valueExtends.eval addressBelow, addressIs, valueIs,
        addressExtends.eval madeBelow, extended.eval below, sameLoc]

theorem logs_instrumentAccess_store
    (hosts : machine.Hosts pass fresh)
    {accessType : Char} (stores : accessType = 'w' ∨ accessType = 'a')
    {value pointer : Value} (valueBelow : value.Below nextId)
    (pointerBelow : pointer.Below nextId)
    {site : Nat} {function : String} {debugLoc : Option DebugLoc}
    {builder : IRBuilder}
    (built :
      pass.instrumentAccess site function nextId debugLoc value pointer
        accessType = some builder) :
    Logs machine nextId builder.inserted before
      (pass.accessEntries machine site function debugLoc value.getType
        (machine.eval before value) pointer (machine.eval before pointer)
        accessType before.memory) := by
  simp only [instrumentAccess_eq, stores, if_true] at built
  have start :
      Yields machine ⟨nextId, debugLoc, []⟩ before
        (value, (⟨nextId, debugLoc, []⟩ : IRBuilder))
        (machine.eval before value) :=
    yields_same valueBelow
  exact logs_of_yields hosts start rfl pointerBelow site function
    accessType built

theorem logs_instrumentAccess_load
    (hosts : machine.Hosts pass fresh)
    {pointer : Value} (below : pointer.Below nextId)
    {site : Nat} {function : String} {debugLoc : Option DebugLoc}
    {builder : IRBuilder}
    (built :
      pass.instrumentAccess site function nextId debugLoc pointer pointer
        'r' = some builder) :
    Logs machine nextId builder.inserted before
      (pass.accessEntries machine site function debugLoc
        pointer.getType.getPointerElementType
        (machine.load before.memory (machine.eval before pointer)
          pointer.getType.getPointerElementType)
        pointer (machine.eval before pointer) 'r' before.memory) := by
  have notStore : ¬ (('r' : Char) = 'w' ∨ ('r' : Char) = 'a') := by
    decide
  simp only [instrumentAccess_eq, notStore, if_false] at built
  have start :
      Yields machine ⟨nextId, debugLoc, []⟩ before
        ((⟨nextId, debugLoc, []⟩ : IRBuilder).createLoad pointer)
        (machine.load before.memory (machine.eval before pointer)
          pointer.getType.getPointerElementType) :=
    yields_createLoad pointer
  exact logs_of_yields hosts start rfl below site function 'r' built

/-- The definitions only name arguments that the call has. -/
def AccessInstrumentationPass.Fits
    (pass : AccessInstrumentationPass) (inst : Inst) : Prop :=
  match inst.op with
  | .call (some fn) args _ =>
      ∀ adef ∈ pass.adm.getAllocDef fn.name,
        (operandAt args adef.sizeIdx).isSome ∧
          (adef.numIdx ≠ -1 → (operandAt args adef.numIdx).isSome)
  | _ => True

instance (inst : Inst) : Decidable (pass.Fits inst) := by
  unfold AccessInstrumentationPass.Fits
  split <;> infer_instance

theorem AccessInstrumentationPass.Fits.call
    {inst : Inst} (fits : pass.Fits inst) {fn : Callee} {args : List Value}
    {type : Ty} (op : inst.op = .call (some fn) args type)
    {adef : AllocDefinition}
    (defined : pass.adm.getAllocDef fn.name = some adef) :
    (operandAt args adef.sizeIdx).isSome ∧
      (adef.numIdx ≠ -1 → (operandAt args adef.numIdx).isSome) := by
  simp only [AccessInstrumentationPass.Fits, op] at fits
  exact fits adef defined

theorem below_getArgOperand
    {mark : Nat} {args : List Value} (below : ∀ arg ∈ args, arg.Below mark)
    (ci : Inst) {index : Int} (present : (operandAt args index).isSome) :
    (pass.getArgOperand ci args index).Below mark := by
  rcases Option.isSome_iff_exists.mp present with ⟨value, isArg⟩
  rw [getArgOperand_of_operandAt isArg]
  exact below value (mem_of_operandAt isArg)

theorem logs_instrumentAlloc
    (hosts : machine.Hosts pass fresh)
    {ci : Inst} (original : ci.id < nextId) {fn : Callee}
    {args : List Value} {type : Ty}
    (op : ci.op = .call (some fn) args type)
    (operands : ∀ arg ∈ args, arg.Below nextId) (fits : pass.Fits ci)
    (nextInst : Option Inst) (insertionLoc : Option DebugLoc)
    {decision : Decision} (filtered : decision.allocFilter = true) :
    Logs machine nextId
      (pass.instrumentAlloc nextId ci fn args nextInst insertionLoc).inserted
      before
      (pass.allocEntries machine decision ci fn args nextInst before) := by
  unfold allocEntries
  rw [if_pos filtered, instrumentAlloc_eq]
  cases defined : pass.adm.getAllocDef fn.name with
  | none => exact logs_nil nextId before
  | some adef =>
      rcases fits.call op defined with ⟨sized, numbered⟩
      let log := pass.lfm.allocLogFunc
      let size := pass.getArgOperand ci args adef.sizeIdx
      let num :=
        if adef.numIdx ≠ -1 then pass.getArgOperand ci args adef.numIdx
        else getConstantFromInt 1 (log.getParamType 2)
      have sizeBelow : size.Below nextId :=
        below_getArgOperand operands ci sized
      have numBelow : num.Below nextId := by
        by_cases counted : adef.numIdx ≠ -1
        · simp only [num, if_pos counted]
          exact below_getArgOperand operands ci (numbered counted)
        · simp only [num, if_neg counted]
          exact below_getConstantFromInt _ _ _
      let start : IRBuilder := ⟨nextId, insertionLoc, []⟩
      let castAddr := start.createBitCast ci.value (log.getParamType 0)
      let castSize :=
        castAddr.2.createZExtOrBitCast size (log.getParamType 1)
      let castNum :=
        castSize.2.createZExtOrBitCast num (log.getParamType 2)
      have addrYields :
          Yields machine start before castAddr
            (machine.castTo .bitCast ci.value.getType (log.getParamType 0)
              (machine.eval before ci.value)) :=
        yields_createCast .bitCast _ original
      rcases addrYields with ⟨addressed, addrExtends, addrBelow, addrIs⟩
      have sizeYields :
          Yields machine castAddr.2 addressed castSize
            (machine.zExtOrBitCastTo size.getType (log.getParamType 1)
              (machine.eval addressed size)) :=
        yields_createZExtOrBitCast _ (sizeBelow.mono addrExtends.grows)
      rcases sizeYields with ⟨measured, sizeExtends, castSizeBelow, sizeIs⟩
      have upToSize := addrExtends.trans sizeExtends
      have numYields :
          Yields machine castSize.2 measured castNum
            (machine.zExtOrBitCastTo num.getType (log.getParamType 2)
              (machine.eval measured num)) :=
        yields_createZExtOrBitCast _ (numBelow.mono upToSize.grows)
      rcases numYields with ⟨counted, numExtends, _, numIs⟩
      refine (upToSize.trans numExtends).logs
        (hosts.event LogFunctionManager.allocLogFunc_mem) ?_
      have addrFinal :
          machine.eval counted castAddr.1 =
            machine.castTo .bitCast ci.value.getType (log.getParamType 0)
              (machine.eval before ci.value) := by
        rw [(sizeExtends.trans numExtends).eval addrBelow, addrIs]
      have sizeFinal :
          machine.eval counted castSize.1 =
            machine.zExtOrBitCastTo size.getType (log.getParamType 1)
              (machine.eval before size) := by
        rw [numExtends.eval castSizeBelow, sizeIs,
          addrExtends.eval sizeBelow]
      have numFinal :
          machine.eval counted castNum.1 =
            machine.zExtOrBitCastTo num.getType (log.getParamType 2)
              (machine.eval before num) := by
        rw [numIs, upToSize.eval numBelow]
      simp only [List.map_cons, List.map_nil, eval_getConstantFromInt]
      exact congrArg₂ List.cons addrFinal
        (congrArg₂ List.cons sizeFinal (congrArg₂ List.cons numFinal rfl))

theorem logs_instrumentExit
    (hosts : machine.Hosts pass fresh)
    (ci : Inst) (fn : Callee) {decision : Decision}
    (logs : decision.logsEvents = true) :
    Logs machine nextId (pass.instrumentExit nextId ci fn).inserted before
      (pass.exitEntries machine decision fn before) := by
  unfold instrumentExit exitEntries
  by_cases exits : fn.name = "exit"
  · rw [if_pos exits, if_pos ⟨logs, exits⟩]
    refine (Extends.refl _ before).logs
      (hosts.event LogFunctionManager.exitLogFunc_mem) ?_
    simp only [List.map_cons, List.map_nil, eval_getConstantFromInt]
  · rw [if_neg exits, if_neg fun both => exits both.2]
    exact logs_nil nextId before

theorem logs_instrumentFnEvent
    (hosts : machine.Hosts pass fresh)
    (debugLoc : Option DebugLoc) (event : FnEvents) {decision : Decision}
    (logs : decision.logsEvents = true) :
    Logs machine nextId
      (pass.instrumentFnEvent decision.function nextId debugLoc
        event).inserted
      before (pass.eventEntries machine decision event before) := by
  unfold eventEntries
  rw [instrumentFnEvent_eq, if_pos logs]
  refine (Extends.refl _ before).logs
    (hosts.event (eventLogFunc_mem _ event)) ?_
  simp only [List.map_cons, List.map_nil, eval_getConstantFromInt]

end Pass

end Dinamite.Instrument
