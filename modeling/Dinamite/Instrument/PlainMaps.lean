import Dinamite.Instrument.AccessInstrument

/-!
# The pass with plain maps

The functions of the pass when its maps are plain functions, and what each of
them computes.
-/

namespace Dinamite.Instrument

open Dinamite.CursorLoop

namespace AccessInstrumentationPass

variable (pass : AccessInstrumentationPass)

/-- The answers of the four maps. -/
def getId (key : IdMapName × String) : Int :=
  match key.1 with
  | .srcmap => pass.srcmap key.2
  | .typemap => pass.typemap key.2
  | .varmap => pass.varmap key.2
  | .fnmap => pass.fnmap key.2

/-! ## What is inserted -/

def getSourceLoc (debugLoc : Option DebugLoc) : SourceLoc :=
  (Asked.getSourceLoc debugLoc).run pass.getId

def logAccess
    (builder : IRBuilder) (site : Nat) (function : String) (afunc : Callee)
    (accessed destination : Value) (accessType : Char) : IRBuilder :=
  (Asked.logAccess pass builder site function afunc accessed destination
    accessType).run pass.getId

theorem logAccess_eq
    (builder : IRBuilder) (site : Nat) (function : String) (afunc : Callee)
    (accessed destination : Value) (accessType : Char) :
    pass.logAccess builder site function afunc accessed destination
        accessType =
      let loc := pass.getSourceLoc builder.debugLoc
      let tid := pass.typemap (pass.naming.getValueType destination.getType)
      let varid :=
        pass.varmap (pass.naming.getVarName site function destination)
      let address :=
        builder.createCast .bitCast destination (afunc.getParamType 0)
      let castValue :=
        castAccessed address.2 accessed (afunc.getParamType 1)
      castValue.2.createCall afunc
        [address.1, castValue.1,
          getConstantFromInt accessType.toNat (afunc.getParamType 2),
          getConstantFromInt loc.fileId (afunc.getParamType 3),
          getConstantFromInt loc.line (afunc.getParamType 4),
          getConstantFromInt loc.col (afunc.getParamType 5),
          getConstantFromInt tid (afunc.getParamType 6),
          getConstantFromInt varid (afunc.getParamType 7)] := by
  simp only [logAccess, Asked.logAccess, Asking.run_bind]
  rfl

def instrumentAccess
    (site : Nat) (function : String) (nextId : Nat)
    (debugLoc : Option DebugLoc) (first last : Value) (accessType : Char) :
    Option IRBuilder :=
  Asking.attempt pass.getId
    (Asked.instrumentAccess pass site function nextId debugLoc first last
      accessType)

theorem instrumentAccess_eq
    (site : Nat) (function : String) (nextId : Nat)
    (debugLoc : Option DebugLoc) (first last : Value) (accessType : Char) :
    pass.instrumentAccess site function nextId debugLoc first last
        accessType =
      let builder : IRBuilder := ⟨nextId, debugLoc, []⟩
      let accessed :=
        if accessType = 'w' ∨ accessType = 'a' then (first, builder)
        else builder.createLoad first
      match pass.lfm.getLogFunction accessed.1.getType function with
      | .function afunc =>
          some (pass.logAccess accessed.2 site function afunc accessed.1 last
            accessType)
      | .none => some accessed.2
      | .exit => none := by
  simp only [instrumentAccess, Asked.instrumentAccess]
  generalize
    (if accessType = 'w' ∨ accessType = 'a' then
      (first, (⟨nextId, debugLoc, []⟩ : IRBuilder))
    else
      (⟨nextId, debugLoc, []⟩ : IRBuilder).createLoad first) = accessed
  cases pass.lfm.getLogFunction accessed.1.getType function with
  | function afunc => exact Asking.attempt_liftM _ _
  | none =>
      simp only [Asking.attempt_bind, Asking.attempt_liftM,
        Option.bind_some, Asking.attempt_pure]
  | exit => exact Asking.attempt_failure _

def instrumentAlloc
    (nextId : Nat) (ci : Inst) (fn : Callee) (args : List Value)
    (nextInst : Option Inst) (insertionLoc : Option DebugLoc) : IRBuilder :=
  (Asked.instrumentAlloc pass nextId ci fn args nextInst insertionLoc).run
    pass.getId

theorem instrumentAlloc_eq
    (nextId : Nat) (ci : Inst) (fn : Callee) (args : List Value)
    (nextInst : Option Inst) (insertionLoc : Option DebugLoc) :
    pass.instrumentAlloc nextId ci fn args nextInst insertionLoc =
      let builder : IRBuilder := ⟨nextId, insertionLoc, []⟩
      match pass.adm.getAllocDef fn.name with
      | none => builder
      | some adef =>
          let allocType :=
            match nextInst.map Inst.op with
            | some (.cast .bitCast _ type) => pass.naming.getValueType type
            | _ => "void"
          let typeId := pass.typemap allocType
          let srcLoc := pass.getSourceLoc ci.debugLoc
          let log := pass.lfm.allocLogFunc
          let castAddr := builder.createBitCast ci.value (log.getParamType 0)
          let size := pass.getArgOperand ci args adef.sizeIdx
          let num :=
            if adef.numIdx ≠ -1 then pass.getArgOperand ci args adef.numIdx
            else getConstantFromInt 1 (log.getParamType 2)
          let castSize :=
            castAddr.2.createZExtOrBitCast size (log.getParamType 1)
          let castNum :=
            castSize.2.createZExtOrBitCast num (log.getParamType 2)
          castNum.2.createCall log
            [castAddr.1, castSize.1, castNum.1,
              getConstantFromInt typeId (log.getParamType 2),
              getConstantFromInt srcLoc.fileId (log.getParamType 3),
              getConstantFromInt srcLoc.line (log.getParamType 4),
              getConstantFromInt srcLoc.col (log.getParamType 5)] := by
  simp only [instrumentAlloc, Asked.instrumentAlloc]
  cases pass.adm.getAllocDef fn.name with
  | none => rfl
  | some adef =>
      simp only [Asking.run_bind]
      rfl

def instrumentFnEvent
    (function : String) (nextId : Nat) (debugLoc : Option DebugLoc)
    (event : FnEvents) : IRBuilder :=
  (Asked.instrumentFnEvent pass function nextId debugLoc event).run
    pass.getId

theorem instrumentFnEvent_eq
    (function : String) (nextId : Nat) (debugLoc : Option DebugLoc)
    (event : FnEvents) :
    pass.instrumentFnEvent function nextId debugLoc event =
      let builder : IRBuilder := ⟨nextId, debugLoc, []⟩
      let lfunc := pass.eventLogFunc function event
      let fnid := pass.fnmap (pass.naming.demangle function)
      builder.createCall lfunc
        [getConstantFromInt fnid (lfunc.getParamType 0)] :=
  rfl

/-! ## The instructions of a block -/

def visitStore
    (decision : Decision) (state : PassState) (si : Inst)
    (value pointer : Value) : Option (Visit PassState Inst) :=
  Asking.attempt pass.getId
    (Asked.visitStore pass decision state si value pointer)

theorem visitStore_eq
    (decision : Decision) (state : PassState) (si : Inst)
    (value pointer : Value) :
    pass.visitStore decision state si value pointer =
      let isArg :=
        if decision.functionFilter then
          checkAndConsumeArg state.argLogSet value
        else
          (pass.unassignedIsArg si.id, state.argLogSet)
      if decision.functionFilter && isArg.1 || decision.accessFilter then
        (pass.instrumentAccess si.id decision.function state.nextId
          si.debugLoc value pointer (if isArg.1 then 'a' else 'w')).map
            fun builder =>
            ⟨builder.inserted, [], ⟨builder.nextId, isArg.2⟩⟩
      else
        some ⟨[], [], ⟨state.nextId, isArg.2⟩⟩ := by
  simp only [visitStore, Asked.visitStore, Asking.attempt_ite,
    Asking.attempt_bind_pure, Asking.attempt_pure, instrumentAccess]

def visitLoad
    (decision : Decision) (state : PassState) (li : Inst)
    (pointer : Value) : Option (Visit PassState Inst) :=
  Asking.attempt pass.getId (Asked.visitLoad pass decision state li pointer)

theorem visitLoad_eq
    (decision : Decision) (state : PassState) (li : Inst)
    (pointer : Value) :
    pass.visitLoad decision state li pointer =
      if decision.accessFilter then
        (pass.instrumentAccess li.id decision.function state.nextId
          li.debugLoc pointer pointer 'r').map fun builder =>
            ⟨builder.inserted, [], { state with nextId := builder.nextId }⟩
      else
        some ⟨[], [], state⟩ := by
  simp only [visitLoad, Asked.visitLoad, Asking.attempt_ite,
    Asking.attempt_bind_pure, Asking.attempt_pure, instrumentAccess]

def visitCall
    (decision : Decision) (state : PassState) (ci : Inst) (fn : Callee)
    (args : List Value) (nextInst : Option Inst)
    (terminatorLoc : Option DebugLoc) : Visit PassState Inst :=
  (Asked.visitCall pass decision state ci fn args nextInst
    terminatorLoc).run pass.getId

theorem visitCall_eq
    (decision : Decision) (state : PassState) (ci : Inst) (fn : Callee)
    (args : List Value) (nextInst : Option Inst)
    (terminatorLoc : Option DebugLoc) :
    pass.visitCall decision state ci fn args nextInst terminatorLoc =
      let insertionLoc :=
        match nextInst with
        | some next => next.debugLoc
        | none => terminatorLoc
      let alloc :=
        if decision.allocFilter then
          pass.instrumentAlloc state.nextId ci fn args nextInst insertionLoc
        else
          ⟨state.nextId, insertionLoc, []⟩
      let exit :=
        if decision.logsEvents then
          pass.instrumentExit alloc.nextId ci fn
        else
          ⟨alloc.nextId, ci.debugLoc, []⟩
      ⟨exit.inserted, alloc.inserted,
        { state with nextId := exit.nextId }⟩ := by
  simp only [visitCall, Asked.visitCall, Asking.run_bind, Asking.run_ite,
    Asking.run_pure]
  rfl

def visit
    (decision : Decision) (terminatorLoc : Option DebugLoc)
    (state : PassState) (inst : Inst) (nextInst : Option Inst) :
    Option (Visit PassState Inst) :=
  Asking.attempt pass.getId
    (Asked.visit pass decision terminatorLoc state inst nextInst)

theorem visit_eq
    (decision : Decision) (terminatorLoc : Option DebugLoc)
    (state : PassState) (inst : Inst) (nextInst : Option Inst) :
    pass.visit decision terminatorLoc state inst nextInst =
      match inst.op with
      | .store value pointer =>
          pass.visitStore decision state inst value pointer
      | .load pointer => pass.visitLoad decision state inst pointer
      | .call (some fn) args _ =>
          some (pass.visitCall decision state inst fn args nextInst
            terminatorLoc)
      | _ => some ⟨[], [], state⟩ := by
  unfold visit Asked.visit
  cases inst.op with
  | store value pointer => rfl
  | load pointer => rfl
  | call callee args type =>
      cases callee with
      | some fn => exact Asking.attempt_liftM _ _
      | none => rfl
  | _ => rfl

def instrumentBlock
    (fuel : Nat) (decision : Decision) (state : PassState) (block : Block) :
    Option (Block × PassState) :=
  Asking.attempt pass.getId
    (Asked.instrumentBlock pass fuel decision state block)

theorem instrumentBlock_eq
    (fuel : Nat) (decision : Decision) (state : PassState) (block : Block) :
    pass.instrumentBlock fuel decision state block =
      let loc := block.terminator.debugLoc
      let ends :=
        if block.terminator.op = .ret ∧ decision.logsEvents then
          pass.instrumentFnEvent decision.function state.nextId loc .fnEnd
        else
          ⟨state.nextId, loc, []⟩
      (loop (pass.visit decision loc) fuel
        { state with nextId := ends.nextId } []
        (block.insts ++ ends.inserted)).map fun result =>
          ({ block with insts := result.1 }, result.2) := by
  simp only [instrumentBlock, Asked.instrumentBlock,
    Asking.attempt_bind _ (liftM _), Asking.attempt_liftM, Option.bind_some,
    Asking.run_ite, Asking.run_pure, Asking.attempt_bind_pure,
    Asking.attempt_loop]
  rfl

def instrumentBlocks
    (fuel : Nat) (decision : Decision) (state : PassState)
    (blocks : List Block) : Option (List Block × PassState) :=
  Asking.attempt pass.getId
    (Asked.instrumentBlocks pass fuel decision state blocks)

theorem instrumentBlocks_cons
    (fuel : Nat) (decision : Decision) (state : PassState) (block : Block)
    (rest : List Block) :
    pass.instrumentBlocks fuel decision state (block :: rest) =
      (pass.instrumentBlock fuel decision state block).bind fun first =>
        (pass.instrumentBlocks fuel decision first.2 rest).map fun others =>
          (first.1 :: others.1, others.2) := by
  rw [instrumentBlocks, Asked.instrumentBlocks, Asking.attempt_bind]
  simp only [Asking.attempt_bind_pure]
  rfl

/-! ## Functions -/

def instrumentEntry
    (function : Function) (state : PassState) (entry : Block) :
    Block × PassState :=
  (Asked.instrumentEntry pass function state entry).run pass.getId

theorem instrumentEntry_eq
    (function : Function) (state : PassState) (entry : Block) :
    pass.instrumentEntry function state entry =
      let begins :=
        pass.instrumentFnEvent function.name state.nextId
          entry.firstInsertionLoc .fnBegin
      (entry.insertFirst begins.inserted,
        { state with nextId := begins.nextId }) := by
  simp only [instrumentEntry, Asked.instrumentEntry, Asking.run_bind]
  rfl

def prepareEntry
    (function : Function) (state : PassState) (entry : Block) :
    Block × PassState :=
  (Asked.prepareEntry pass function state entry).run pass.getId

theorem prepareEntry_eq
    (function : Function) (state : PassState) (entry : Block) :
    pass.prepareEntry function state entry =
      let decision := pass.decision function
      let queued :=
        if decision.functionFilter then
          pass.queueAndInjectArgsToLog function state entry
        else
          (entry, state)
      if decision.logsEvents then
        pass.instrumentEntry function queued.2 queued.1
      else
        queued := by
  simp only [prepareEntry, Asked.prepareEntry, Asking.run_ite,
    Asking.run_pure, instrumentEntry]

def instrumentFunction
    (fuel : Nat) (function : Function) (state : PassState) :
    Option (Function × PassState) :=
  Asking.attempt pass.getId
    (Asked.instrumentFunction pass fuel function state)

theorem instrumentFunction_eq
    (fuel : Nat) (function : Function) (state : PassState) :
    pass.instrumentFunction fuel function state =
      match function.blocks with
      | [] => some (function, state)
      | entry :: rest =>
          let prepared := pass.prepareEntry function state entry
          (pass.instrumentBlocks fuel (pass.decision function) prepared.2
            (prepared.1 :: rest)).map fun result =>
              ({ function with blocks := result.1 }, result.2) := by
  simp only [instrumentFunction, Asked.instrumentFunction]
  cases function.blocks with
  | nil => rfl
  | cons entry rest =>
      rw [Asking.attempt_bind, Asking.attempt_liftM, Option.bind_some,
        Asking.attempt_bind_pure]
      rfl

def instrumentFunctions
    (fuel : Nat) (state : PassState) (functions : List Function) :
    Option (List Function × PassState) :=
  Asking.attempt pass.getId
    (Asked.instrumentFunctions pass fuel state functions)

theorem instrumentFunctions_cons
    (fuel : Nat) (state : PassState) (function : Function)
    (rest : List Function) :
    pass.instrumentFunctions fuel state (function :: rest) =
      (if pass.selects function then
          pass.instrumentFunction fuel function state
        else
          some (function, state)).bind fun first =>
        (pass.instrumentFunctions fuel first.2 rest).map fun others =>
          (first.1 :: others.1, others.2) := by
  rw [instrumentFunctions, Asked.instrumentFunctions, Asking.attempt_bind]
  simp only [Asking.attempt_bind_pure, Asking.attempt_ite,
    Asking.attempt_pure]
  rfl

def runOnModule (fuel : Nat) (module : Module) : Option (List Function) :=
  Asking.attempt pass.getId (Asked.runOnModule pass fuel module)

theorem runOnModule_eq (fuel : Nat) (module : Module) :
    pass.runOnModule fuel module =
      if pass.insfilt.checkFileFilter module.identifier then
        (pass.instrumentFunctions fuel ⟨module.nextId, ∅⟩
          (pass.loadedFunctions module)).map Prod.fst
      else
        some module.functions := by
  simp only [runOnModule, Asked.runOnModule, Asking.attempt_ite,
    Asking.attempt_bind_pure, Asking.attempt_pure, instrumentFunctions]

end AccessInstrumentationPass

end Dinamite.Instrument
