import Dinamite.Instrument.Machine
import Dinamite.Instrument.Survival

/-!
# What is to be recorded

Runs of the program before the pass that keep a log of their own: whenever
control comes to a load, a store, a call, an entry or a return, they append
what the log functions are to be told about it.  Nothing is inserted here; the
values are the ones the program has at that point.
-/

namespace Dinamite.Instrument

/-! ## Values as log functions take them -/

namespace Machine

variable {Val Mem : Type} (machine : Machine Val Mem)

def castTo
    (op : CastOp) (source target : Ty) (content : Content Val) :
    Content Val :=
  if source = target then content
  else machine.castContent op source target content

def zExtOrBitCastTo
    (source target : Ty) (content : Content Val) : Content Val :=
  if source.getScalarSizeInBits = target.getScalarSizeInBits then
    machine.castTo .bitCast source target content
  else
    machine.castTo .zExt source target content

def fpCastTo
    (source target : Ty) (content : Content Val) : Content Val :=
  if source.getScalarSizeInBits = target.getScalarSizeInBits then
    machine.castTo .bitCast source target content
  else if source.getScalarSizeInBits > target.getScalarSizeInBits then
    machine.castTo .fpTrunc source target content
  else
    machine.castTo .fpExt source target content

/-- An accessed value of the first type, as its log function takes it. -/
def accessedTo
    (source target : Ty) (content : Content Val) : Content Val :=
  if source.isFloatingPointTy then
    machine.fpCastTo source target content
  else if source.getScalarSizeInBits = 1 then
    machine.zExtOrBitCastTo source target content
  else
    machine.castTo .bitCast source target content

/-- The constant that stands for an integer of the pass. -/
def integerTo (value : Int) (target : Ty) : Content Val :=
  if target.isPointerTy then
    machine.castContent .intToPtr (.integer 32) target
      (.value (machine.integer value (.integer 32)))
  else
    .value (machine.integer value (.integer 32))

end Machine

/-! ## Entries -/

namespace AccessInstrumentationPass

variable (pass : AccessInstrumentationPass)
variable {Val Mem : Type} (machine : Machine Val Mem)

/-- An access of a value of the type, by the instruction `site`, at the
address that `destination` has. -/
def accessEntries
    (site : Nat) (function : String) (debugLoc : Option DebugLoc) (type : Ty)
    (accessed : Content Val) (destination : Value) (address : Content Val)
    (accessType : Char) (memory : Mem) : List (Entry Val Mem) :=
  match pass.lfm.getLogFunction type function with
  | .function afunc =>
      let loc := pass.getSourceLoc debugLoc
      [{ callee := afunc
         args :=
          [machine.castTo .bitCast destination.getType (afunc.getParamType 0)
              address,
            machine.accessedTo type (afunc.getParamType 1) accessed,
            machine.integerTo accessType.toNat (afunc.getParamType 2),
            machine.integerTo loc.fileId (afunc.getParamType 3),
            machine.integerTo loc.line (afunc.getParamType 4),
            machine.integerTo loc.col (afunc.getParamType 5),
            machine.integerTo
              (pass.typemap (pass.naming.getValueType destination.getType))
              (afunc.getParamType 6),
            machine.integerTo
              (pass.varmap (pass.naming.getVarName site function destination))
              (afunc.getParamType 7)]
         memory := memory }]
  | _ => []

/-- A store of the program.  Where `isArg` was never assigned, the kind is
left open. -/
def storeEntries
    (decision : Decision) (si : Inst) (value pointer : Value)
    (frame : Frame Val Mem) : List (Entry Val Mem) :=
  if decision.accessFilter then
    pass.accessEntries machine si.id decision.function si.debugLoc
      value.getType (machine.eval frame value) pointer
      (machine.eval frame pointer)
      (if !decision.functionFilter && pass.unassignedIsArg si.id then 'a'
        else 'w')
      frame.memory
  else
    []

/-- The value of a load is the one that memory holds before it. -/
def loadEntries
    (decision : Decision) (li : Inst) (pointer : Value)
    (frame : Frame Val Mem) : List (Entry Val Mem) :=
  if decision.accessFilter then
    let type := pointer.getType.getPointerElementType
    let address := machine.eval frame pointer
    pass.accessEntries machine li.id decision.function li.debugLoc type
      (machine.load frame.memory address type) pointer address 'r'
      frame.memory
  else
    []

def exitEntries
    (decision : Decision) (fn : Callee) (frame : Frame Val Mem) :
    List (Entry Val Mem) :=
  if decision.logsEvents ∧ fn.name = "exit" then
    let log := pass.lfm.exitLogFunc
    [⟨log, [machine.integerTo (-1) (log.getParamType 0)], frame.memory⟩]
  else
    []

/-- What was allocated is told by the `bitcast` that follows. -/
def allocTypeName (nextInst : Option Inst) : String :=
  match nextInst.map Inst.op with
  | some (.cast .bitCast _ type) => pass.naming.getValueType type
  | _ => "void"

/-- A call that has come back. -/
def allocEntries
    (decision : Decision) (ci : Inst) (fn : Callee) (args : List Value)
    (nextInst : Option Inst) (frame : Frame Val Mem) :
    List (Entry Val Mem) :=
  if decision.allocFilter then
    match pass.adm.getAllocDef fn.name with
    | none => []
    | some adef =>
        let log := pass.lfm.allocLogFunc
        let srcLoc := pass.getSourceLoc ci.debugLoc
        let size := pass.getArgOperand ci args adef.sizeIdx
        let num :=
          if adef.numIdx ≠ -1 then pass.getArgOperand ci args adef.numIdx
          else getConstantFromInt 1 (log.getParamType 2)
        [{ callee := log
           args :=
            [machine.castTo .bitCast ci.getType (log.getParamType 0)
                (frame.registers ci.id),
              machine.zExtOrBitCastTo size.getType (log.getParamType 1)
                (machine.eval frame size),
              machine.zExtOrBitCastTo num.getType (log.getParamType 2)
                (machine.eval frame num),
              machine.integerTo (pass.typemap (pass.allocTypeName nextInst))
                (log.getParamType 2),
              machine.integerTo srcLoc.fileId (log.getParamType 3),
              machine.integerTo srcLoc.line (log.getParamType 4),
              machine.integerTo srcLoc.col (log.getParamType 5)]
           memory := frame.memory }]
  else
    []

def eventEntries
    (decision : Decision) (event : FnEvents) (frame : Frame Val Mem) :
    List (Entry Val Mem) :=
  if decision.logsEvents then
    let log := pass.eventLogFunc decision.function event
    let fnid := pass.fnmap (pass.naming.demangle decision.function)
    [⟨log, [machine.integerTo fnid (log.getParamType 0)], frame.memory⟩]
  else
    []

/-- The address of the slot that an argument is stored to. -/
def slotOf (slot : Nat) (arg : Value) : Value :=
  .instruction slot "" (.pointer arg.getType) none

/-- Arguments on entry.  Each has a slot of its own and a store to it, with the
identities `slot` and `slot + 1`, then `slot + 2` and so on. -/
def argumentEntries
    (function : String) (debugLoc : Option DebugLoc) :
    Nat → List Value → Frame Val Mem → List (Entry Val Mem)
  | _, [], _ => []
  | slot, arg :: rest, frame =>
      pass.accessEntries machine (slot + 1) function debugLoc arg.getType
          (machine.eval frame arg) (slotOf slot arg) (.slot slot) 'a'
          frame.memory ++
        argumentEntries function debugLoc (slot + 2) rest frame

/-! ## Recorded runs -/

def entriesBefore
    (decision : Decision) (inst : Inst) (frame : Frame Val Mem) :
    List (Entry Val Mem) :=
  match inst.op with
  | .store value pointer =>
      pass.storeEntries machine decision inst value pointer frame
  | .load pointer => pass.loadEntries machine decision inst pointer frame
  | .call (some fn) _ _ => pass.exitEntries machine decision fn frame
  | _ => []

def entriesAfter
    (decision : Decision) (inst : Inst) (nextInst : Option Inst)
    (frame : Frame Val Mem) : List (Entry Val Mem) :=
  match inst.op with
  | .call (some fn) args _ =>
      pass.allocEntries machine decision inst fn args nextInst frame
  | _ => []

/-- A frame that also logs what it is to log at this point. -/
def noting
    (entries : Frame Val Mem → List (Entry Val Mem))
    (frame : Frame Val Mem) : Frame Val Mem :=
  frame.logging (entries frame)

/-- Instructions of the program, and what is recorded about each. -/
def recordAll
    (decision : Decision) :
    List Inst → Frame Val Mem → Result Val Mem
  | [], frame => .goes frame
  | inst :: rest, frame =>
      (machine.step inst
          (noting (pass.entriesBefore machine decision inst) frame)).bind
        fun after =>
          recordAll decision rest
            (noting (pass.entriesAfter machine decision inst rest.head?)
              after)

/-- The end of the function is recorded in front of a return. -/
def recordEnd
    (decision : Decision) (block : Block) (frame : Frame Val Mem) :
    Frame Val Mem :=
  if block.terminator.op = .ret then
    noting (pass.eventEntries machine decision .fnEnd) frame
  else
    frame

def recordBlock
    (decision : Decision) (block : Block) : Code Val Mem where
  terminator := block.terminator.op
  body := fun frame =>
    (pass.recordAll machine decision block.insts frame).bind fun after =>
      .goes (pass.recordEnd machine decision block after)

/-- The entry: behind its phis and landing pads the begin of the function and
then its arguments are recorded. -/
def recordEntry
    (slot : Nat) (function : Function) (entry : Block) : Code Val Mem where
  terminator := entry.terminator.op
  body := fun frame =>
    let decision := pass.decision function
    let split := entry.splitFirstInsertionPt
    (machine.stepAll split.1 frame).bind fun first =>
      let begun := noting (pass.eventEntries machine decision .fnBegin) first
      let told :=
        noting
          (pass.argumentEntries machine function.name
            entry.firstInsertionLoc slot (pass.injectedArgs function))
          begun
      (pass.recordAll machine decision split.2 told).bind fun after =>
        .goes (pass.recordEnd machine decision entry after)

/-- A function with what the pass is to record of it. -/
def recorded (slot : Nat) (function : Function) : Routine where
  name := function.name
  codes := fun machine =>
    match function.blocks with
    | [] => []
    | entry :: rest =>
        if pass.selects function then
          pass.recordEntry machine slot function entry ::
            rest.map (pass.recordBlock machine (pass.decision function))
        else
          function.blocks.map machine.code

/-- The functions of a module with what is to be recorded of them, given where
the slots of their arguments start. -/
def recordedModule (slots : Nat → Nat) (module : Module) : List Routine :=
  if pass.insfilt.checkFileFilter module.identifier then
    module.functions.mapIdx fun index function =>
      pass.recorded (slots index) function
  else
    module.functions.map Function.routine

end AccessInstrumentationPass

end Dinamite.Instrument
