import Mathlib

/-!
# Binary trace records

The records of `binaryinstrumentation.h` with the widths of their fields, and
the functions that fill them.  The source narrows some `int` arguments on the
way; the second half says exactly when two calls leave the same record.
-/

namespace Dinamite.Trace

/-! ## The clock -/

/-- `struct timespec` as the monotonic clock fills it; the kernel counts its
nanoseconds in a signed 64-bit number. -/
structure Timespec where
  tvSec : Nat
  tvNsec : Nat
  tvNsec_lt : tvNsec < 1000000000
  fits : tvSec * 1000000000 + tvNsec < 2 ^ 63

def nsInSecond : Nat := 1000000000

/-- The nanoseconds a timespec stands for. -/
def Timespec.nanoseconds (ts : Timespec) : Nat :=
  ts.tvSec * nsInSecond + ts.tvNsec

/-- 0 when `clock_gettime` fails. -/
def dinamiteTimeNanoseconds (clock : Option Timespec) : BitVec 64 :=
  match clock with
  | some ts => BitVec.ofNat 64 (ts.tvSec * nsInSecond + ts.tvNsec)
  | none => 0

@[simp]
theorem dinamiteTimeNanoseconds_toNat (ts : Timespec) :
    (dinamiteTimeNanoseconds (some ts)).toNat = ts.nanoseconds := by
  have fits := ts.fits
  simp only [dinamiteTimeNanoseconds, Timespec.nanoseconds, nsInSecond,
    BitVec.toNat_ofNat]
  omega

/-! ## The records -/

inductive FnEvents where
  | fnBegin
  | fnEnd
  deriving DecidableEq, Repr

inductive ValueType where
  | i8
  | i16
  | i32
  | i64
  | f32
  | f64
  | ptr
  deriving DecidableEq, Repr

/-- The union of the source by the member that was written last; floats are
kept as their bits. -/
inductive ValueStore where
  | ptr (value : BitVec 64)
  | i8 (value : BitVec 8)
  | i16 (value : BitVec 16)
  | i32 (value : BitVec 32)
  | i64 (value : BitVec 64)
  | f32 (bits : BitVec 32)
  | f64 (bits : BitVec 64)
  deriving DecidableEq, Repr

structure FnLog where
  threadId : BitVec 8
  fnEventType : FnEvents
  functionId : BitVec 32
  fnTimestamp : BitVec 64
  deriving DecidableEq, Repr

structure AccessLog where
  ptr : BitVec 64
  valueType : ValueType
  value : ValueStore
  threadId : BitVec 8
  type : BitVec 8
  file : BitVec 16
  line : BitVec 16
  col : BitVec 16
  typeId : BitVec 16
  varId : BitVec 16
  acTimestamp : BitVec 64
  deriving DecidableEq, Repr

structure AllocLog where
  addr : BitVec 64
  size : BitVec 64
  num : BitVec 64
  type : BitVec 16
  file : BitVec 16
  line : BitVec 16
  col : BitVec 16
  threadId : BitVec 8
  alTimestamp : BitVec 64
  deriving DecidableEq, Repr

/-- The constructor is the `entry_type`. -/
inductive Logentry where
  | fn (entry : FnLog)
  | alloc (entry : AllocLog)
  | access (entry : AccessLog)
  deriving DecidableEq, Repr

namespace Logentry

def threadId : Logentry → BitVec 8
  | .fn entry => entry.threadId
  | .alloc entry => entry.threadId
  | .access entry => entry.threadId

def timestamp : Logentry → BitVec 64
  | .fn entry => entry.fnTimestamp
  | .alloc entry => entry.alTimestamp
  | .access entry => entry.acTimestamp

/-- The record without its timestamp. -/
def untimed : Logentry → Logentry
  | .fn entry => .fn { entry with fnTimestamp := 0 }
  | .alloc entry => .alloc { entry with alTimestamp := 0 }
  | .access entry => .access { entry with acTimestamp := 0 }

end Logentry

/-- Assignment of an `int` to a `char`. -/
def toChar (value : Int) : BitVec 8 :=
  BitVec.ofInt 8 value

/-- Assignment of an `int` to a `uint16_t`. -/
def toUint16 (value : Int) : BitVec 16 :=
  BitVec.ofInt 16 value

/-! ## The logging calls -/

/-- The arguments all access functions share. -/
structure Access where
  ptr : BitVec 64
  type : Int
  file : Int
  line : Int
  col : Int
  typeId : Int
  varId : Int
  deriving DecidableEq, Repr

/-- A call of one of the logging functions with its arguments. -/
inductive LogCall where
  | logFnBegin (functionId : Int)
  | logFnEnd (functionId : Int)
  | logAlloc (addr size num : BitVec 64) (type file line col : Int)
  | logAccessPtr (value : BitVec 64) (access : Access)
  | logAccessStaticString (value : BitVec 64) (access : Access)
  | logAccessI8 (value : BitVec 8) (access : Access)
  | logAccessI16 (value : BitVec 16) (access : Access)
  | logAccessI32 (value : BitVec 32) (access : Access)
  | logAccessI64 (value : BitVec 64) (access : Access)
  | logAccessF32 (bits : BitVec 32) (access : Access)
  | logAccessF64 (bits : BitVec 64) (access : Access)
  deriving DecidableEq, Repr

def fillFnLog
    (tid : Int) (now : BitVec 64)
    (fnEventType : FnEvents) (functionId : Int) : FnLog where
  threadId := toChar tid
  fnEventType := fnEventType
  functionId := BitVec.ofInt 32 functionId
  fnTimestamp := now

def fillAccessLog
    (tid : Int) (now : BitVec 64)
    (valueType : ValueType) (value : ValueStore) (access : Access) :
    AccessLog where
  threadId := toChar tid
  ptr := access.ptr
  valueType := valueType
  value := value
  type := toChar access.type
  file := toUint16 access.file
  line := toUint16 access.line
  col := toUint16 access.col
  typeId := toUint16 access.typeId
  varId := toUint16 access.varId
  acTimestamp := now

def fillAllocLog
    (tid : Int) (now : BitVec 64)
    (addr size num : BitVec 64) (type file line col : Int) :
    AllocLog where
  threadId := toChar tid
  addr := addr
  size := size
  num := num
  type := toUint16 type
  file := toUint16 file
  line := toUint16 line
  col := toUint16 col
  alTimestamp := now

/-- The record a logging function hands to `insertOrWrite`, from the thread id
and the time its fill function was given. -/
def LogCall.entry (call : LogCall) (tid : Int) (now : BitVec 64) :
    Logentry :=
  match call with
  | .logFnBegin functionId =>
      .fn (fillFnLog tid now .fnBegin functionId)
  | .logFnEnd functionId =>
      .fn (fillFnLog tid now .fnEnd functionId)
  | .logAlloc addr size num type file line col =>
      .alloc (fillAllocLog tid now addr size num type file line col)
  | .logAccessPtr value access =>
      .access (fillAccessLog tid now .ptr (.ptr value) access)
  | .logAccessStaticString value access =>
      .access (fillAccessLog tid now .ptr (.ptr value) access)
  | .logAccessI8 value access =>
      .access (fillAccessLog tid now .i8 (.i8 value) access)
  | .logAccessI16 value access =>
      .access (fillAccessLog tid now .i16 (.i16 value) access)
  | .logAccessI32 value access =>
      .access (fillAccessLog tid now .i32 (.i32 value) access)
  | .logAccessI64 value access =>
      .access (fillAccessLog tid now .i64 (.i64 value) access)
  | .logAccessF32 bits access =>
      .access (fillAccessLog tid now .f32 (.f32 bits) access)
  | .logAccessF64 bits access =>
      .access (fillAccessLog tid now .f64 (.f64 bits) access)

@[simp]
theorem entry_threadId (call : LogCall) (tid : Int) (now : BitVec 64) :
    (call.entry tid now).threadId = toChar tid := by
  cases call <;> rfl

@[simp]
theorem entry_timestamp (call : LogCall) (tid : Int) (now : BitVec 64) :
    (call.entry tid now).timestamp = now := by
  cases call <;> rfl

/-- A small thread id survives as a `char`. -/
theorem toChar_toInt
    {tid : Int} (lower : 0 ≤ tid) (upper : tid ≤ 127) :
    (toChar tid).toInt = tid := by
  rw [toChar, BitVec.toInt_ofInt]
  exact Int.bmod_eq_of_le (by omega) (by omega)

/-! ## What the pass can emit -/

inductive LogFunction where
  | logFnBegin
  | logFnEnd
  | logAlloc
  | logAccessPtr
  | logAccessStaticString
  | logAccessI8
  | logAccessI16
  | logAccessI32
  | logAccessI64
  | logAccessF32
  | logAccessF64
  deriving DecidableEq, Repr

def LogCall.function : LogCall → LogFunction
  | .logFnBegin _ => .logFnBegin
  | .logFnEnd _ => .logFnEnd
  | .logAlloc .. => .logAlloc
  | .logAccessPtr .. => .logAccessPtr
  | .logAccessStaticString .. => .logAccessStaticString
  | .logAccessI8 .. => .logAccessI8
  | .logAccessI16 .. => .logAccessI16
  | .logAccessI32 .. => .logAccessI32
  | .logAccessI64 .. => .logAccessI64
  | .logAccessF32 .. => .logAccessF32
  | .logAccessF64 .. => .logAccessF64

/-- An id `IdMap::getId` can return. -/
def IsId (id : Int) : Prop :=
  0 ≤ id ∧ id < 2 ^ 31

/-- An id, or -1 where the pass knows none. -/
def IsIdOrUnknown (id : Int) : Prop :=
  id = -1 ∨ IsId id

/-- A line or column of the debug info, or -1. -/
def IsPosition (position : Int) : Prop :=
  position = -1 ∨ (0 ≤ position ∧ position < 2 ^ 32)

/-- 'r', 'w' or 'a'. -/
def IsAccessKind (type : Int) : Prop :=
  type = 114 ∨ type = 119 ∨ type = 97

structure Access.Emittable (access : Access) : Prop where
  type : IsAccessKind access.type
  file : IsIdOrUnknown access.file
  line : IsPosition access.line
  col : IsPosition access.col
  typeId : IsId access.typeId
  varId : IsId access.varId

def LogCall.Emittable : LogCall → Prop
  | .logFnBegin functionId => IsId functionId
  | .logFnEnd functionId => IsId functionId
  | .logAlloc _ _ _ type file line col =>
      IsId type ∧ IsIdOrUnknown file ∧ IsPosition line ∧ IsPosition col
  | .logAccessPtr _ access => access.Emittable
  | .logAccessStaticString _ access => access.Emittable
  | .logAccessI8 _ access => access.Emittable
  | .logAccessI16 _ access => access.Emittable
  | .logAccessI32 _ access => access.Emittable
  | .logAccessI64 _ access => access.Emittable
  | .logAccessF32 _ access => access.Emittable
  | .logAccessF64 _ access => access.Emittable

/-- A call the pass can emit. -/
structure EmittedCall where
  call : LogCall
  emittable : call.Emittable

/-! ## When two calls leave the same record -/

/-- The same value after narrowing to 16 bits. -/
def SameLow16 (left right : Int) : Prop :=
  left % 65536 = right % 65536

instance (left right : Int) : Decidable (SameLow16 left right) :=
  inferInstanceAs (Decidable (_ = _))

theorem toUint16_eq_iff (left right : Int) :
    toUint16 left = toUint16 right ↔ SameLow16 left right := by
  rw [← BitVec.toNat_inj]
  simp only [toUint16, BitVec.toNat_ofInt, SameLow16]
  omega

/-- The access kinds differ as characters. -/
theorem toChar_inj_of_accessKind
    {left right : Int}
    (leftKind : IsAccessKind left) (rightKind : IsAccessKind right) :
    toChar left = toChar right ↔ left = right := by
  rcases leftKind with rfl | rfl | rfl <;>
    rcases rightKind with rfl | rfl | rfl <;>
      decide

theorem ofInt32_inj_of_isId
    {left right : Int} (leftIs : IsId left) (rightIs : IsId right) :
    BitVec.ofInt 32 left = BitVec.ofInt 32 right ↔ left = right := by
  have leftBounds := leftIs
  have rightBounds := rightIs
  simp only [IsId] at leftBounds rightBounds
  rw [← BitVec.toNat_inj]
  simp only [BitVec.toNat_ofInt]
  omega

/-- The arguments an access record keeps whole agree, and the narrowed ones
agree in their low 16 bits. -/
structure Access.Aliases (first second : Access) : Prop where
  ptr : first.ptr = second.ptr
  type : first.type = second.type
  file : SameLow16 first.file second.file
  line : SameLow16 first.line second.line
  col : SameLow16 first.col second.col
  typeId : SameLow16 first.typeId second.typeId
  varId : SameLow16 first.varId second.varId

/-- Two calls of one function that differ at most in the high bits of arguments
the record narrows. -/
def LogCall.Aliases : LogCall → LogCall → Prop
  | .logFnBegin first, .logFnBegin second => first = second
  | .logFnEnd first, .logFnEnd second => first = second
  | .logAlloc addr size num type file line col,
      .logAlloc addr' size' num' type' file' line' col' =>
      addr = addr' ∧ size = size' ∧ num = num' ∧
        SameLow16 type type' ∧ SameLow16 file file' ∧
          SameLow16 line line' ∧ SameLow16 col col'
  | .logAccessPtr value access, .logAccessPtr value' access' =>
      value = value' ∧ access.Aliases access'
  | .logAccessStaticString value access,
      .logAccessStaticString value' access' =>
      value = value' ∧ access.Aliases access'
  | .logAccessI8 value access, .logAccessI8 value' access' =>
      value = value' ∧ access.Aliases access'
  | .logAccessI16 value access, .logAccessI16 value' access' =>
      value = value' ∧ access.Aliases access'
  | .logAccessI32 value access, .logAccessI32 value' access' =>
      value = value' ∧ access.Aliases access'
  | .logAccessI64 value access, .logAccessI64 value' access' =>
      value = value' ∧ access.Aliases access'
  | .logAccessF32 bits access, .logAccessF32 bits' access' =>
      bits = bits' ∧ access.Aliases access'
  | .logAccessF64 bits access, .logAccessF64 bits' access' =>
      bits = bits' ∧ access.Aliases access'
  | _, _ => False

/-- One lemma for the whole family of access functions. -/
theorem untimed_access_eq_iff
    {first second : Access}
    (firstEmittable : first.Emittable)
    (secondEmittable : second.Emittable)
    (tid : Int) (now later : BitVec 64)
    (valueType : ValueType) (value other : ValueStore) :
    (Logentry.access
        (fillAccessLog tid now valueType value first)).untimed =
      (Logentry.access
        (fillAccessLog tid later valueType other second)).untimed ↔
      value = other ∧ first.Aliases second := by
  have kinds :=
    toChar_inj_of_accessKind firstEmittable.type secondEmittable.type
  simp only [Logentry.untimed, fillAccessLog, Logentry.access.injEq,
    AccessLog.mk.injEq, toUint16_eq_iff, kinds, true_and, and_true]
  constructor
  · intro ⟨ptr, sameValue, type, file, line, col, typeId, varId⟩
    exact ⟨sameValue, ptr, type, file, line, col, typeId, varId⟩
  · intro ⟨sameValue, aliases⟩
    exact ⟨aliases.ptr, sameValue, aliases.type, aliases.file,
      aliases.line, aliases.col, aliases.typeId, aliases.varId⟩

theorem untimed_alloc_eq_iff
    (tid : Int) (now later : BitVec 64)
    (addr size num addr' size' num' : BitVec 64)
    (type file line col type' file' line' col' : Int) :
    (Logentry.alloc
        (fillAllocLog tid now addr size num type file line col)).untimed =
      (Logentry.alloc
        (fillAllocLog tid later addr' size' num' type' file' line'
          col')).untimed ↔
      addr = addr' ∧ size = size' ∧ num = num' ∧
        SameLow16 type type' ∧ SameLow16 file file' ∧
          SameLow16 line line' ∧ SameLow16 col col' := by
  simp only [Logentry.untimed, fillAllocLog, Logentry.alloc.injEq,
    AllocLog.mk.injEq, toUint16_eq_iff, and_true]

theorem untimed_fn_eq_iff
    {first second : Int} (firstIs : IsId first) (secondIs : IsId second)
    (tid : Int) (now later : BitVec 64) (event : FnEvents) :
    (Logentry.fn (fillFnLog tid now event first)).untimed =
      (Logentry.fn (fillFnLog tid later event second)).untimed ↔
      first = second := by
  simp only [Logentry.untimed, fillFnLog, Logentry.fn.injEq,
    FnLog.mk.injEq, ofInt32_inj_of_isId firstIs secondIs, true_and,
    and_true]

/-- Two calls of one function on one thread leave the same record exactly when
they alias. -/
theorem untimed_eq_iff_aliases
    {first second : LogCall}
    (firstEmittable : first.Emittable)
    (secondEmittable : second.Emittable)
    (sameFunction : first.function = second.function)
    (tid : Int) (now later : BitVec 64) :
    (first.entry tid now).untimed = (second.entry tid later).untimed ↔
      first.Aliases second := by
  cases first <;> cases second <;> try cases sameFunction
  case logFnBegin.logFnBegin =>
    exact untimed_fn_eq_iff firstEmittable secondEmittable tid now later _
  case logFnEnd.logFnEnd =>
    exact untimed_fn_eq_iff firstEmittable secondEmittable tid now later _
  case logAlloc.logAlloc =>
    exact untimed_alloc_eq_iff tid now later _ _ _ _ _ _ _ _ _ _ _ _ _ _
  all_goals
    simp only [LogCall.entry, LogCall.Aliases,
      untimed_access_eq_iff firstEmittable secondEmittable,
      ValueStore.ptr.injEq, ValueStore.i8.injEq, ValueStore.i16.injEq,
      ValueStore.i32.injEq, ValueStore.i64.injEq, ValueStore.f32.injEq,
      ValueStore.f64.injEq]

/-- From the records of two calls of one function on one thread, equal apart
from their timestamps, a reader may conclude that the arguments are equal. -/
def Lossless (first second : EmittedCall) : Prop :=
  first.call.function = second.call.function →
    ∀ (tid : Int) (now later : BitVec 64),
      (first.call.entry tid now).untimed =
          (second.call.entry tid later).untimed →
        first.call = second.call

/-- The calls differ, and only by multiples of 65536 in arguments that the
record narrows. -/
def Collide (first second : EmittedCall) : Prop :=
  first.call ≠ second.call ∧ first.call.Aliases second.call

theorem function_eq_of_aliases
    {first second : LogCall} (aliases : first.Aliases second) :
    first.function = second.function := by
  cases first <;> cases second <;>
    first
    | rfl
    | exact absurd aliases (by simp [LogCall.Aliases])

/-- The record of a pair of calls is lossless exactly when they do not
collide. -/
theorem lossless_iff_not_collide (first second : EmittedCall) :
    Lossless first second ↔ ¬ Collide first second := by
  constructor
  · intro lossless ⟨different, aliases⟩
    have sameFunction := function_eq_of_aliases aliases
    have sameRecord :
        (first.call.entry 0 0).untimed =
          (second.call.entry 0 0).untimed :=
      (untimed_eq_iff_aliases first.emittable second.emittable
        sameFunction 0 0 0).mpr aliases
    exact different (lossless sameFunction 0 0 0 sameRecord)
  · intro apart sameFunction tid now later sameRecord
    have aliases :=
      (untimed_eq_iff_aliases first.emittable second.emittable
        sameFunction tid now later).mp sameRecord
    by_contra different
    exact apart ⟨different, aliases⟩

/-- An allocation in a line no debug info names, and one in line 65535. -/
def allocInLine (line : Int) : LogCall :=
  .logAlloc 4096 8 1 3 0 line 1

theorem not_every_pair_lossless :
    ¬ ∀ first second : EmittedCall, Lossless first second := by
  intro lossless
  have unknownLine : (allocInLine (-1)).Emittable := by
    simp [allocInLine, LogCall.Emittable, IsId, IsIdOrUnknown, IsPosition]
  have lastLine : (allocInLine 65535).Emittable := by
    simp [allocInLine, LogCall.Emittable, IsId, IsIdOrUnknown, IsPosition]
  have sameRecord :
      ((allocInLine (-1)).entry 0 0).untimed =
        ((allocInLine 65535).entry 0 0).untimed := by
    decide
  have same : allocInLine (-1) = allocInLine 65535 :=
    lossless ⟨_, unknownLine⟩ ⟨_, lastLine⟩ rfl 0 0 0 sameRecord
  exact absurd same (by decide)

end Dinamite.Trace
