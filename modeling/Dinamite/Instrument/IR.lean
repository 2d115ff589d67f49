import Mathlib

/-!
# The code the pass works on

Types, values, instructions and blocks as far as the pass looks at them, and
the builder that inserts instructions.  Instructions have an identity, so that
two inserted ones with the same text are told apart and the inserted ones can
be told from those of the program.
-/

namespace Dinamite.Instrument

/-! ## Types and values -/

inductive FloatKind where
  | half
  | float
  | double
  | x86Fp80
  | fp128
  | ppcFp128
  deriving DecidableEq, Repr

def FloatKind.sizeInBits : FloatKind → Nat
  | .half => 16
  | .float => 32
  | .double => 64
  | .x86Fp80 => 80
  | .fp128 => 128
  | .ppcFp128 => 128

/-- A literal struct and every type the pass takes no interest in is kept as
its text. -/
inductive Ty where
  | floating (kind : FloatKind)
  | integer (width : Nat)
  | pointer (pointee : Ty)
  | struct (name : String)
  | literalStruct (text : String)
  | other (text : String)
  deriving DecidableEq, Repr

namespace Ty

def void : Ty :=
  .other "void"

def isFloatingPointTy : Ty → Bool
  | .floating _ => true
  | _ => false

def isIntegerTy : Ty → Bool
  | .integer _ => true
  | _ => false

def isPointerTy : Ty → Bool
  | .pointer _ => true
  | _ => false

/-- 0 for a type without a primitive size. -/
def getScalarSizeInBits : Ty → Nat
  | .floating kind => kind.sizeInBits
  | .integer width => width
  | _ => 0

/-- The type of what a pointer of this type points to. -/
def getPointerElementType : Ty → Ty
  | .pointer pointee => pointee
  | type => type

end Ty

inductive CastOp where
  | bitCast
  | zExt
  | fpTrunc
  | fpExt
  | intToPtr
  | other
  deriving DecidableEq, Repr

/-- What `getGEPVarName` reads of a `getelementptr`: how many operands it has,
the type of the first, and the third if it is a constant. -/
structure GetElementPtr where
  numOperands : Nat
  sourceType : Ty
  fieldIndex : Option Int
  deriving DecidableEq, Repr

/-- An operand.  An argument or an instruction is told from others by its
function and position, or by its identity. -/
inductive Value where
  | argument (function : String) (index : Nat) (name : String) (type : Ty)
  | instruction (id : Nat) (name : String) (type : Ty)
      (gep : Option GetElementPtr)
  | globalVariable (name : String) (type : Ty)
  | constant (text : String) (type : Ty)
  | constantInt (value : Int) (type : Ty)
  | constantCast (op : CastOp) (value : Value) (type : Ty)
  deriving DecidableEq, Repr

namespace Value

def getType : Value → Ty
  | .argument _ _ _ type => type
  | .instruction _ _ type _ => type
  | .globalVariable _ type => type
  | .constant _ type => type
  | .constantInt _ type => type
  | .constantCast _ _ type => type

def getName : Value → String
  | .argument _ _ name _ => name
  | .instruction _ name _ _ => name
  | .globalVariable name _ => name
  | _ => ""

/-- `dyn_cast<Constant>` succeeds; globals are constants. -/
def isConstant : Value → Bool
  | .argument .. => false
  | .instruction .. => false
  | _ => true

end Value

/-! ## Instructions and blocks -/

/-- A function as a call sees it. -/
structure Callee where
  name : String
  paramTypes : List Ty
  returnType : Ty
  deriving DecidableEq, Repr

def Callee.getParamType (callee : Callee) (index : Nat) : Ty :=
  callee.paramTypes.getD index .void

/-- `callee` is the result of `getCalledFunction`: absent for a call through a
pointer. -/
inductive Op where
  | load (pointer : Value)
  | store (value pointer : Value)
  | call (callee : Option Callee) (args : List Value) (type : Ty)
  | cast (op : CastOp) (operand : Value) (type : Ty)
  | alloca (allocated : Ty)
  | getElementPtr (gep : GetElementPtr) (type : Ty)
  | phi (type : Ty)
  | landingPad (type : Ty)
  | other (type : Ty)
  deriving DecidableEq, Repr

/-- `line` and `column` as the `int` they are assigned to. -/
structure DebugLoc where
  line : Int
  column : Int
  filename : String
  directory : String
  deriving DecidableEq, Repr

structure Inst where
  id : Nat
  name : String
  op : Op
  debugLoc : Option DebugLoc
  deriving DecidableEq, Repr

namespace Inst

def getType (inst : Inst) : Ty :=
  match inst.op with
  | .load pointer => pointer.getType.getPointerElementType
  | .store _ _ => .void
  | .call _ _ type => type
  | .cast _ _ type => type
  | .alloca allocated => .pointer allocated
  | .getElementPtr _ type => type
  | .phi type => type
  | .landingPad type => type
  | .other type => type

/-- The instruction as an operand of another one. -/
def value (inst : Inst) : Value :=
  .instruction inst.id inst.name inst.getType <|
    match inst.op with
    | .getElementPtr gep _ => some gep
    | _ => none

def isPhi (inst : Inst) : Bool :=
  match inst.op with
  | .phi _ => true
  | _ => false

def isLandingPad (inst : Inst) : Bool :=
  match inst.op with
  | .landingPad _ => true
  | _ => false

end Inst

/-- Blocks are named by their position; `branch` stands for every terminator
that only goes on to other blocks. -/
inductive TerminatorOp where
  | ret
  | resume
  | unreachable
  | branch (successors : List Nat)
  deriving DecidableEq, Repr

structure Terminator where
  op : TerminatorOp
  debugLoc : Option DebugLoc
  deriving DecidableEq, Repr

structure Block where
  insts : List Inst
  terminator : Terminator
  deriving DecidableEq, Repr

/-- A declaration has no blocks; otherwise the first one is the entry. -/
structure Function where
  name : String
  params : List (String × Ty)
  blocks : List Block
  deriving DecidableEq, Repr

/-- The values of the parameters, in order. -/
def Function.args (function : Function) : List Value :=
  function.params.mapIdx fun index param =>
    .argument function.name index param.1 param.2

/-- Every instruction of the module is older than `nextId`. -/
structure Module where
  identifier : String
  functions : List Function
  nextId : Nat
  older :
    ∀ function ∈ functions, ∀ block ∈ function.blocks,
      ∀ inst ∈ block.insts, inst.id < nextId

/-! ## Inserting instructions -/

/-- A builder at a fixed insertion point: what it has inserted there so far.
New instructions get the debug location of the insertion point. -/
structure IRBuilder where
  nextId : Nat
  debugLoc : Option DebugLoc
  inserted : List Inst

namespace IRBuilder

def insert (builder : IRBuilder) (op : Op) : Inst × IRBuilder :=
  let inst : Inst := ⟨builder.nextId, "", op, builder.debugLoc⟩
  (inst,
    { builder with
      nextId := builder.nextId + 1
      inserted := builder.inserted ++ [inst] })

def createLoad (builder : IRBuilder) (pointer : Value) :
    Value × IRBuilder :=
  let new := builder.insert (.load pointer)
  (new.1.value, new.2)

def createStore (builder : IRBuilder) (value pointer : Value) :
    IRBuilder :=
  (builder.insert (.store value pointer)).2

def createAlloca (builder : IRBuilder) (type : Ty) : Value × IRBuilder :=
  let new := builder.insert (.alloca type)
  (new.1.value, new.2)

def createCall
    (builder : IRBuilder) (callee : Callee) (args : List Value) :
    IRBuilder :=
  (builder.insert (.call (some callee) args callee.returnType)).2

/-- Nothing to do for a value of the right type, and a constant is folded. -/
def createCast
    (builder : IRBuilder) (op : CastOp) (value : Value) (type : Ty) :
    Value × IRBuilder :=
  if value.getType = type then
    (value, builder)
  else if value.isConstant then
    (.constantCast op value type, builder)
  else
    let new := builder.insert (.cast op value type)
    (new.1.value, new.2)

def createBitCast
    (builder : IRBuilder) (value : Value) (type : Ty) :
    Value × IRBuilder :=
  builder.createCast .bitCast value type

def createZExtOrBitCast
    (builder : IRBuilder) (value : Value) (type : Ty) :
    Value × IRBuilder :=
  if value.getType.getScalarSizeInBits = type.getScalarSizeInBits then
    builder.createCast .bitCast value type
  else
    builder.createCast .zExt value type

def createFPCast
    (builder : IRBuilder) (value : Value) (type : Ty) :
    Value × IRBuilder :=
  let source := value.getType.getScalarSizeInBits
  let target := type.getScalarSizeInBits
  if source = target then
    builder.createCast .bitCast value type
  else if source > target then
    builder.createCast .fpTrunc value type
  else
    builder.createCast .fpExt value type

end IRBuilder

/-- `ConstantExpr::getBitCast`. -/
def constantBitCast (value : Value) (type : Ty) : Value :=
  if value.getType = type then value else .constantCast .bitCast value type

/-- The constant always has 32 bits; it is only made a pointer where the type
is one. -/
def getConstantFromInt (value : Int) (type : Ty) : Value :=
  if type.isPointerTy then
    .constantCast .intToPtr (.constantInt value (.integer 32)) type
  else
    .constantInt value (.integer 32)

end Dinamite.Instrument
