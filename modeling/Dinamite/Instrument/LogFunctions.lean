import Dinamite.Instrument.IR

/-!
# The log functions and the allocation definitions

Which function logs a value, and which calls allocate.
-/

namespace Dinamite.Instrument

/-! ## LogFunctionManager -/

inductive ValueTypes where
  | float
  | integer
  deriving DecidableEq, Repr

inductive ValueSizes where
  | s8
  | s16
  | s32
  | s64
  deriving DecidableEq, Repr

structure LogFunctionManager where
  logFunctions : ValueTypes → ValueSizes → Callee
  ptrLogFunc : Callee
  stringLogFunc : Callee
  allocLogFunc : Callee
  fnBeginLogFunc : Callee
  fnEndLogFunc : Callee
  initLogFunc : Callee
  exitLogFunc : Callee

/-- A function of the instrumentation library: its parameters and result. -/
structure FunctionType where
  params : List Ty
  result : Ty

/-- What the manager loads from: the functions of the library, and what the
module appends to the name of a new function to make it unique. -/
structure LogLibrary where
  getFunction : String → FunctionType
  suffix : String → String

def LogLibrary.loadExternalFunction
    (library : LogLibrary) (name : String) : Callee where
  name := name ++ library.suffix name
  paramTypes := (library.getFunction name).params
  returnType := (library.getFunction name).result

def logFunctionName : ValueTypes → ValueSizes → String
  | .float, .s8 => "logAccessF8"
  | .float, .s16 => "logAccessF16"
  | .float, .s32 => "logAccessF32"
  | .float, .s64 => "logAccessF64"
  | .integer, .s8 => "logAccessI8"
  | .integer, .s16 => "logAccessI16"
  | .integer, .s32 => "logAccessI32"
  | .integer, .s64 => "logAccessI64"

def LogLibrary.loadFunctions (library : LogLibrary) :
    LogFunctionManager where
  logFunctions := fun type size =>
    library.loadExternalFunction (logFunctionName type size)
  ptrLogFunc := library.loadExternalFunction "logAccessPtr"
  stringLogFunc := library.loadExternalFunction "logAccessStaticString"
  allocLogFunc := library.loadExternalFunction "logAlloc"
  fnBeginLogFunc := library.loadExternalFunction "logFnBegin"
  fnEndLogFunc := library.loadExternalFunction "logFnEnd"
  initLogFunc := library.loadExternalFunction "logInit"
  exitLogFunc := library.loadExternalFunction "logExit"

/-- What an access function takes: the address, the value, and six integers. -/
def accessFunctionType (value : Ty) : FunctionType where
  params :=
    .pointer (.integer 8) :: value :: List.replicate 6 (.integer 32)
  result := .void

/-- The functions as the instrumentation library declares them. -/
def instrumentationLibrary (name : String) : FunctionType :=
  match name with
  | "logAccessPtr" => accessFunctionType (.pointer (.integer 8))
  | "logAccessStaticString" => accessFunctionType (.pointer (.integer 8))
  | "logAccessI8" => accessFunctionType (.integer 8)
  | "logAccessI16" => accessFunctionType (.integer 16)
  | "logAccessI32" => accessFunctionType (.integer 32)
  | "logAccessI64" => accessFunctionType (.integer 64)
  | "logAccessF8" => accessFunctionType (.integer 8)
  | "logAccessF16" => accessFunctionType (.integer 16)
  | "logAccessF32" => accessFunctionType (.floating .float)
  | "logAccessF64" => accessFunctionType (.floating .double)
  | "logAlloc" =>
      ⟨.pointer (.integer 8) :: .integer 64 :: .integer 64 ::
        List.replicate 4 (.integer 32), .void⟩
  | _ => ⟨[.integer 32], .void⟩

namespace LogFunctionManager

variable (lfm : LogFunctionManager)

/-- Where the process goes on after a look-up. -/
inductive Found where
  | function (callee : Callee)
  | none
  | exit

def getLogFunction (type : Ty) (parent : String) : Found :=
  if type.isFloatingPointTy then
    .function (lfm.logFunctions .float .s64)
  else if type.isPointerTy then
    if parent ≠ "__dinamite_tracepoint" then
      .function lfm.ptrLogFunc
    else
      .function lfm.stringLogFunc
  else if type.isIntegerTy then
    match type.getScalarSizeInBits with
    | 1 => .function (lfm.logFunctions .integer .s8)
    | 8 => .function (lfm.logFunctions .integer .s8)
    | 16 => .function (lfm.logFunctions .integer .s16)
    | 32 => .function (lfm.logFunctions .integer .s32)
    | 64 => .function (lfm.logFunctions .integer .s64)
    | _ => .exit
  else
    .none

/-- The functions kept by value type and size, row by row. -/
def table : List Callee :=
  [.float, .integer].flatMap fun type =>
    [.s8, .s16, .s32, .s64].map fun size => lfm.logFunctions type size

def isLogFunction (name : String) : Bool :=
  name = lfm.ptrLogFunc.name || name = lfm.allocLogFunc.name ||
    lfm.table.any fun callee => name = callee.name

/-- The functions that log an access. -/
def accessFunctions : List Callee :=
  lfm.ptrLogFunc :: lfm.stringLogFunc :: lfm.table

/-- The functions that log anything else. -/
def eventFunctions : List Callee :=
  [lfm.allocLogFunc, lfm.fnBeginLogFunc, lfm.fnEndLogFunc,
    lfm.initLogFunc, lfm.exitLogFunc]

end LogFunctionManager

/-! ## AllocDefs -/

structure AllocDefinition where
  name : String
  sizeIdx : Int
  numIdx : Int
  addrIdx : Int
  deriving DecidableEq, Repr

/-- The definitions in the order they were read. -/
abbrev AllocDefManager :=
  List AllocDefinition

/-- The first definition of the name. -/
def AllocDefManager.getAllocDef
    (adm : AllocDefManager) (name : String) : Option AllocDefinition :=
  adm.find? fun definition => definition.name = name

end Dinamite.Instrument
