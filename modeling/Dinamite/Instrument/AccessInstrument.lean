import Dinamite.Asking
import Dinamite.Instrument.LogFunctions
import Dinamite.Instrument.Names

/-!
# The instrumentation pass

`AccessInstrumentationPass`: what it inserts around loads, stores, calls,
entries and returns, and the loop over the instructions of a block that it
lengthens while it runs.  The pass asks its four maps for ids one call after
the other; what they answer is left open here.
-/

namespace Dinamite.Instrument

open Dinamite.CursorLoop

/-- The decisions of the filter; the size check includes the measuring. -/
structure InstrumentationFilter where
  checkFileFilter : String → Bool
  checkFunctionSize : Function → Bool
  checkFunctionFilter : String → String → Bool
  checkFunctionArgFilter : String → Int → Bool

inductive IdMapName where
  | srcmap
  | typemap
  | varmap
  | fnmap
  deriving DecidableEq, Repr

/-- What asks the maps for ids. -/
abbrev Asks :=
  Asking (IdMapName × String) Int

/-- The id of a name in one of the maps. -/
def IdMapName.getId (map : IdMapName) (src : String) : Asks Int :=
  .question (map, src)

/-- The maps are given by the ids they hand out when they are plain functions;
the functions of the pass do not look at these.  The last two components are
what the source leaves open: the value of `isArg` where nothing was assigned,
and what a call yields for an argument it does not have. -/
structure AccessInstrumentationPass where
  srcmap : String → Int
  typemap : String → Int
  varmap : String → Int
  fnmap : String → Int
  adm : AllocDefManager
  library : LogLibrary
  insfilt : InstrumentationFilter
  naming : Naming
  unassignedIsArg : Nat → Bool
  strayOperand : Nat → Int → Value

/-- What the pass carries from instruction to instruction. -/
structure PassState where
  nextId : Nat
  argLogSet : Finset Value

/-- The filters of the function that is being instrumented. -/
structure Decision where
  function : String
  accessFilter : Bool
  functionFilter : Bool
  allocFilter : Bool

inductive FnEvents where
  | fnBegin
  | fnEnd
  deriving DecidableEq, Repr

structure SourceLoc where
  fileId : Int
  line : Int
  col : Int

/-- Entry, returns and `exit` are logged. -/
def Decision.logsEvents (decision : Decision) : Bool :=
  decision.functionFilter || decision.function = "main"

namespace AccessInstrumentationPass

variable (pass : AccessInstrumentationPass)

def lfm : LogFunctionManager :=
  pass.library.loadFunctions

/-- The cast of the accessed value to what its log function takes. -/
def castAccessed
    (builder : IRBuilder) (accessed : Value) (valueType : Ty) :
    Value × IRBuilder :=
  if accessed.getType.isFloatingPointTy then
    builder.createFPCast accessed valueType
  else if accessed.getType.getScalarSizeInBits = 1 then
    builder.createZExtOrBitCast accessed valueType
  else if accessed.isConstant then
    (constantBitCast accessed valueType, builder)
  else
    builder.createBitCast accessed valueType

def getArgOperand (ci : Inst) (args : List Value) (index : Int) : Value :=
  if 0 ≤ index then
    args.getD index.toNat (pass.strayOperand ci.id index)
  else
    pass.strayOperand ci.id index

/-- Static initialisers and `main` set the log up and take it down. -/
def eventLogFunc (function : String) (event : FnEvents) : Callee :=
  if String.ofList (function.toList.take 8) = "_GLOBAL_" then
    match event with
    | .fnBegin => pass.lfm.initLogFunc
    | .fnEnd => pass.lfm.exitLogFunc
  else if function = "main" then
    match event with
    | .fnBegin => pass.lfm.initLogFunc
    | .fnEnd => pass.lfm.exitLogFunc
  else
    match event with
    | .fnBegin => pass.lfm.fnBeginLogFunc
    | .fnEnd => pass.lfm.fnEndLogFunc

/-- What goes before a call. -/
def instrumentExit (nextId : Nat) (ci : Inst) (fn : Callee) : IRBuilder :=
  let builder : IRBuilder := ⟨nextId, ci.debugLoc, []⟩
  if fn.name = "exit" then
    let log := pass.lfm.exitLogFunc
    builder.createCall log [getConstantFromInt (-1) (log.getParamType 0)]
  else
    builder

/-- Whether the stored value is an argument still to be logged; if so, it no
longer is. -/
def checkAndConsumeArg
    (argLogSet : Finset Value) (argCandidate : Value) :
    Bool × Finset Value :=
  if argCandidate ∈ argLogSet then
    (true, argLogSet.erase argCandidate)
  else
    (false, argLogSet)

end AccessInstrumentationPass

/-- The instructions before and after `getFirstInsertionPt`. -/
def Block.splitFirstInsertionPt (block : Block) : List Inst × List Inst :=
  let phis := block.insts.takeWhile Inst.isPhi
  match block.insts.dropWhile Inst.isPhi with
  | [] => (phis, [])
  | first :: rest =>
      if first.isLandingPad then (phis ++ [first], rest)
      else (phis, first :: rest)

/-- The debug location of the first insertion point. -/
def Block.firstInsertionLoc (block : Block) : Option DebugLoc :=
  match block.splitFirstInsertionPt.2 with
  | first :: _ => first.debugLoc
  | [] => block.terminator.debugLoc

def Block.insertFirst (block : Block) (new : List Inst) : Block :=
  let split := block.splitFirstInsertionPt
  { block with insts := split.1 ++ new ++ split.2 }

namespace AccessInstrumentationPass

variable (pass : AccessInstrumentationPass)

/-- The loop over the arguments, from the given position on. -/
def injectArgs (fname : String) :
    Nat → List Value → IRBuilder → Finset Value → IRBuilder × Finset Value
  | _, [], builder, argLogSet => (builder, argLogSet)
  | idx, arg :: rest, builder, argLogSet =>
      if pass.insfilt.checkFunctionArgFilter fname idx then
        let destPtr := builder.createAlloca arg.getType
        injectArgs fname (idx + 1) rest (destPtr.2.createStore arg destPtr.1)
          (insert arg argLogSet)
      else
        injectArgs fname (idx + 1) rest builder argLogSet

/-- The entry block with a store of every selected argument. -/
def queueAndInjectArgsToLog
    (function : Function) (state : PassState) (entry : Block) :
    Block × PassState :=
  let injected :=
    pass.injectArgs function.name 0 function.args
      ⟨state.nextId, entry.firstInsertionLoc, []⟩ state.argLogSet
  (entry.insertFirst injected.1.inserted,
    ⟨injected.1.nextId, injected.2⟩)

/-- What the filter decides for a function. -/
def decision (function : Function) : Decision where
  function := function.name
  accessFilter := pass.insfilt.checkFunctionFilter function.name "access"
  functionFilter := pass.insfilt.checkFunctionFilter function.name "function"
  allocFilter := pass.insfilt.checkFunctionFilter function.name "alloc"

/-- The function is neither a log function nor too small. -/
def selects (function : Function) : Bool :=
  !pass.lfm.isLogFunction function.name &&
    pass.insfilt.checkFunctionSize function

end AccessInstrumentationPass

/-- A log function as `loadExternalFunction` declares it. -/
def Callee.declaration (callee : Callee) : Function where
  name := callee.name
  params := callee.paramTypes.map fun type => ("", type)
  blocks := []

namespace AccessInstrumentationPass

/-- The functions of the module once the log functions are declared. -/
def loadedFunctions
    (pass : AccessInstrumentationPass) (module : Module) : List Function :=
  module.functions ++
    (pass.lfm.table ++
      pass.lfm.ptrLogFunc :: pass.lfm.stringLogFunc ::
        pass.lfm.eventFunctions).map Callee.declaration

/-! ## What the pass does

In `Asked` are the functions of the source that ask for ids or lead to one that
does. -/

namespace Asked

variable (pass : AccessInstrumentationPass)

/-! ## What is inserted -/

def getSourceLoc (debugLoc : Option DebugLoc) : Asks SourceLoc :=
  match debugLoc with
  | some loc => do
      let fileid ←
        IdMapName.srcmap.getId (loc.directory ++ "/" ++ loc.filename)
      return ⟨fileid, loc.line, loc.column⟩
  | none => return ⟨-1, -1, -1⟩

/-- The call that logs an access of the instruction `site` to
`destination`. -/
def logAccess
    (builder : IRBuilder) (site : Nat) (function : String) (afunc : Callee)
    (accessed destination : Value) (accessType : Char) : Asks IRBuilder := do
  let loc ← getSourceLoc builder.debugLoc
  let tid ←
    IdMapName.typemap.getId (pass.naming.getValueType destination.getType)
  let varid ←
    IdMapName.varmap.getId (pass.naming.getVarName site function destination)
  let address :=
    builder.createCast .bitCast destination (afunc.getParamType 0)
  let castValue :=
    castAccessed address.2 accessed (afunc.getParamType 1)
  return castValue.2.createCall afunc
    [address.1, castValue.1,
      getConstantFromInt accessType.toNat (afunc.getParamType 2),
      getConstantFromInt loc.fileId (afunc.getParamType 3),
      getConstantFromInt loc.line (afunc.getParamType 4),
      getConstantFromInt loc.col (afunc.getParamType 5),
      getConstantFromInt tid (afunc.getParamType 6),
      getConstantFromInt varid (afunc.getParamType 7)]

/-- What goes before the load or store `site`, given by its first and last
operand.  The accessed value of a load is loaded once more, and the file is
given an id even if nothing is logged.  There is no result where the process
exits. -/
def instrumentAccess
    (site : Nat) (function : String) (nextId : Nat)
    (debugLoc : Option DebugLoc) (first last : Value) (accessType : Char) :
    OptionT Asks IRBuilder :=
  let builder : IRBuilder := ⟨nextId, debugLoc, []⟩
  let accessed :=
    if accessType = 'w' ∨ accessType = 'a' then (first, builder)
    else builder.createLoad first
  match pass.lfm.getLogFunction accessed.1.getType function with
  | .function afunc =>
      liftM (logAccess pass accessed.2 site function afunc accessed.1 last
        accessType)
  | .none => do
      let _ ← getSourceLoc debugLoc
      return accessed.2
  | .exit => failure

/-- What goes after a call; `insertionLoc` belongs to the instruction that
follows it.  The type is given an id before the file. -/
def instrumentAlloc
    (nextId : Nat) (ci : Inst) (fn : Callee) (args : List Value)
    (nextInst : Option Inst) (insertionLoc : Option DebugLoc) :
    Asks IRBuilder :=
  let builder : IRBuilder := ⟨nextId, insertionLoc, []⟩
  match pass.adm.getAllocDef fn.name with
  | none => return builder
  | some adef => do
      let allocType :=
        match nextInst.map Inst.op with
        | some (.cast .bitCast _ type) => pass.naming.getValueType type
        | _ => "void"
      let typeId ← IdMapName.typemap.getId allocType
      let srcLoc ← getSourceLoc ci.debugLoc
      let log := pass.lfm.allocLogFunc
      let castAddr := builder.createBitCast ci.value (log.getParamType 0)
      let size := pass.getArgOperand ci args adef.sizeIdx
      let num :=
        if adef.numIdx ≠ -1 then pass.getArgOperand ci args adef.numIdx
        else getConstantFromInt 1 (log.getParamType 2)
      let castSize :=
        castAddr.2.createZExtOrBitCast size (log.getParamType 1)
      let castNum :=
        castSize.2.createZExtOrBitCast num (log.getParamType 2)
      return castNum.2.createCall log
        [castAddr.1, castSize.1, castNum.1,
          getConstantFromInt typeId (log.getParamType 2),
          getConstantFromInt srcLoc.fileId (log.getParamType 3),
          getConstantFromInt srcLoc.line (log.getParamType 4),
          getConstantFromInt srcLoc.col (log.getParamType 5)]

def instrumentFnEvent
    (function : String) (nextId : Nat) (debugLoc : Option DebugLoc)
    (event : FnEvents) : Asks IRBuilder := do
  let builder : IRBuilder := ⟨nextId, debugLoc, []⟩
  let lfunc := pass.eventLogFunc function event
  let fnid ← IdMapName.fnmap.getId (pass.naming.demangle function)
  return builder.createCall lfunc
    [getConstantFromInt fnid (lfunc.getParamType 0)]

/-! ## The instructions of a block -/

def visitStore
    (decision : Decision) (state : PassState) (si : Inst)
    (value pointer : Value) : OptionT Asks (Visit PassState Inst) :=
  let isArg :=
    if decision.functionFilter then
      checkAndConsumeArg state.argLogSet value
    else
      (pass.unassignedIsArg si.id, state.argLogSet)
  if decision.functionFilter && isArg.1 || decision.accessFilter then do
    let builder ←
      instrumentAccess pass si.id decision.function state.nextId si.debugLoc
        value pointer (if isArg.1 then 'a' else 'w')
    return ⟨builder.inserted, [], ⟨builder.nextId, isArg.2⟩⟩
  else
    return ⟨[], [], ⟨state.nextId, isArg.2⟩⟩

def visitLoad
    (decision : Decision) (state : PassState) (li : Inst)
    (pointer : Value) : OptionT Asks (Visit PassState Inst) :=
  if decision.accessFilter then do
    let builder ←
      instrumentAccess pass li.id decision.function state.nextId li.debugLoc
        pointer pointer 'r'
    return ⟨builder.inserted, [], { state with nextId := builder.nextId }⟩
  else
    return ⟨[], [], state⟩

def visitCall
    (decision : Decision) (state : PassState) (ci : Inst) (fn : Callee)
    (args : List Value) (nextInst : Option Inst)
    (terminatorLoc : Option DebugLoc) : Asks (Visit PassState Inst) := do
  let insertionLoc :=
    match nextInst with
    | some next => next.debugLoc
    | none => terminatorLoc
  let alloc ←
    (if decision.allocFilter then
      instrumentAlloc pass state.nextId ci fn args nextInst insertionLoc
    else
      pure ⟨state.nextId, insertionLoc, []⟩ : Asks IRBuilder)
  let exit :=
    if decision.logsEvents then
      pass.instrumentExit alloc.nextId ci fn
    else
      ⟨alloc.nextId, ci.debugLoc, []⟩
  return ⟨exit.inserted, alloc.inserted,
    { state with nextId := exit.nextId }⟩

/-- The body of the loop over the instructions of a block.  `nextInst` is
absent in front of the terminator, which itself needs no visit. -/
def visit
    (decision : Decision) (terminatorLoc : Option DebugLoc)
    (state : PassState) (inst : Inst) (nextInst : Option Inst) :
    OptionT Asks (Visit PassState Inst) :=
  match inst.op with
  | .store value pointer => visitStore pass decision state inst value pointer
  | .load pointer => visitLoad pass decision state inst pointer
  | .call (some fn) args _ =>
      liftM (visitCall pass decision state inst fn args nextInst
        terminatorLoc)
  | _ => return ⟨[], [], state⟩

/-- A block: the end event in front of a return, then the loop. -/
def instrumentBlock
    (fuel : Nat) (decision : Decision) (state : PassState) (block : Block) :
    OptionT Asks (Block × PassState) := do
  let loc := block.terminator.debugLoc
  let ends ←
    (if block.terminator.op = .ret ∧ decision.logsEvents then
      instrumentFnEvent pass decision.function state.nextId loc .fnEnd
    else
      pure ⟨state.nextId, loc, []⟩ : Asks IRBuilder)
  let result ←
    Asking.loop (visit pass decision loc) fuel
      { state with nextId := ends.nextId } [] (block.insts ++ ends.inserted)
  return ({ block with insts := result.1 }, result.2)

def instrumentBlocks
    (fuel : Nat) (decision : Decision) :
    PassState → List Block → OptionT Asks (List Block × PassState)
  | state, [] => return ([], state)
  | state, block :: rest => do
      let first ← instrumentBlock pass fuel decision state block
      let others ← instrumentBlocks fuel decision first.2 rest
      return (first.1 :: others.1, others.2)

/-! ## Functions -/

/-- The entry block with the begin event. -/
def instrumentEntry
    (function : Function) (state : PassState) (entry : Block) :
    Asks (Block × PassState) := do
  let begins ←
    instrumentFnEvent pass function.name state.nextId
      entry.firstInsertionLoc .fnBegin
  return (entry.insertFirst begins.inserted,
    { state with nextId := begins.nextId })

/-- What happens to the entry block before the loops. -/
def prepareEntry
    (function : Function) (state : PassState) (entry : Block) :
    Asks (Block × PassState) :=
  let decision := pass.decision function
  let queued :=
    if decision.functionFilter then
      pass.queueAndInjectArgsToLog function state entry
    else
      (entry, state)
  if decision.logsEvents then
    instrumentEntry pass function queued.2 queued.1
  else
    return queued

def instrumentFunction
    (fuel : Nat) (function : Function) (state : PassState) :
    OptionT Asks (Function × PassState) :=
  match function.blocks with
  | [] => return (function, state)
  | entry :: rest => do
      let prepared ← prepareEntry pass function state entry
      let result ←
        instrumentBlocks pass fuel (pass.decision function) prepared.2
          (prepared.1 :: rest)
      return ({ function with blocks := result.1 }, result.2)

def instrumentFunctions
    (fuel : Nat) :
    PassState → List Function → OptionT Asks (List Function × PassState)
  | state, [] => return ([], state)
  | state, function :: rest => do
      let first ←
        (if pass.selects function then
          instrumentFunction pass fuel function state
        else
          pure (function, state) : OptionT Asks (Function × PassState))
      let others ← instrumentFunctions fuel first.2 rest
      return (first.1 :: others.1, others.2)

/-- The functions of the module after the pass. -/
def runOnModule
    (fuel : Nat) (module : Module) : OptionT Asks (List Function) :=
  if pass.insfilt.checkFileFilter module.identifier then do
    let result ←
      instrumentFunctions pass fuel ⟨module.nextId, ∅⟩
        (pass.loadedFunctions module)
    return result.1
  else
    return module.functions

end Asked

end AccessInstrumentationPass

end Dinamite.Instrument
