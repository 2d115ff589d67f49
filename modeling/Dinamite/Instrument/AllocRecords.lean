import Dinamite.Instrument.AllocDefs
import Dinamite.Instrument.Arguments

/-!
# The records of allocations

Behind a call of a function that allocates, casts and a call of `logAlloc` are
inserted.  Its arguments are the address, the size, the count and the type of
what was allocated.  As the address the result of the call is taken, whatever
column of the definition says, and as the type that of a `bitcast` that
follows, whatever is cast.
-/

namespace Dinamite.Instrument

open Dinamite.CursorLoop
open AccessInstrumentationPass

/-! ## Values made of others -/

/-- The operand of a cast. -/
def Op.castOperand : Op → Option Value
  | .cast _ operand _ => some operand
  | _ => none

/-- The operand of a cast or a load. -/
def Op.addressOperand : Op → Option Value
  | .cast _ operand _ => some operand
  | .load pointer => some pointer
  | _ => none

/-- The value is made of the source by instructions of the list, or folded into
a constant. -/
inductive MadeFrom
    (operand : Op → Option Value) (insts : List Inst) (source : Value) :
    Value → Prop
  | same : MadeFrom operand insts source source
  | folded {op : CastOp} {value : Value} {type : Ty}
      (earlier : MadeFrom operand insts source value) :
      MadeFrom operand insts source (.constantCast op value type)
  | made {inst : Inst} {value : Value} (member : inst ∈ insts)
      (isOperand : operand inst.op = some value)
      (earlier : MadeFrom operand insts source value) :
      MadeFrom operand insts source inst.value

section MadeFrom

variable {operand : Op → Option Value} {insts more : List Inst}
variable {source value : Value}

theorem MadeFrom.mono
    (made : MadeFrom operand insts source value)
    (included : insts ⊆ more) : MadeFrom operand more source value := by
  induction made with
  | same => exact .same
  | folded _ inductionHypothesis => exact .folded inductionHypothesis
  | made member isOperand _ inductionHypothesis =>
      exact .made (included member) isOperand inductionHypothesis

theorem MadeFrom.trans
    {middle : Value} (first : MadeFrom operand insts source middle)
    (second : MadeFrom operand insts middle value) :
    MadeFrom operand insts source value := by
  induction second with
  | same => exact first
  | folded _ inductionHypothesis => exact .folded inductionHypothesis
  | made member isOperand _ inductionHypothesis =>
      exact .made member isOperand inductionHypothesis

/-- A cast is one of the ways to obtain an address. -/
theorem MadeFrom.address
    (made : MadeFrom Op.castOperand insts source value) :
    MadeFrom Op.addressOperand insts source value := by
  induction made with
  | same => exact .same
  | folded _ inductionHypothesis => exact .folded inductionHypothesis
  | @made inst _ member isOperand _ inductionHypothesis =>
      refine .made member ?_ inductionHypothesis
      unfold Op.castOperand at isOperand
      split at isOperand
      · rename_i isCast
        rw [isCast]
        exact isOperand
      · cases isOperand

theorem madeFrom_getConstantFromInt (number : Int) (type : Ty) :
    MadeFrom operand insts (.constantInt number (.integer 32))
      (getConstantFromInt number type) := by
  unfold getConstantFromInt
  split
  · exact .folded .same
  · exact .same

/-- What no instruction of the list gives is made of nothing else. -/
theorem MadeFrom.eq_of_older
    {inst : Inst} (made : MadeFrom operand insts source inst.value)
    (older : ∀ other ∈ insts, inst.id < other.id) :
    source = inst.value := by
  generalize isValue : inst.value = value at made
  cases made with
  | same => rfl
  | folded _ => cases isValue
  | made member _ _ =>
      have sameId := (Value.instruction.inj isValue).1
      exact absurd (older _ member) (by rw [sameId]; exact lt_irrefl _)

/-- A value of an instruction is made of what its operand is made of. -/
theorem MadeFrom.through
    {inst : Inst} (made : MadeFrom operand insts source inst.value)
    (younger : source ≠ inst.value)
    (unique : ∀ other ∈ insts, other.id = inst.id → other = inst) :
    ∃ value, operand inst.op = some value ∧
      MadeFrom operand insts source value := by
  generalize isValue : inst.value = value at made
  cases made with
  | same => exact absurd isValue.symm younger
  | folded _ => cases isValue
  | @made other value member isOperand earlier =>
      have sameId := (Value.instruction.inj isValue).1
      rw [unique other member sameId.symm] at isOperand
      exact ⟨value, isOperand, earlier⟩

end MadeFrom

/-! ## What a record should say -/

/-- The argument of that number. -/
def operandAt (args : List Value) (index : Int) : Option Value :=
  if 0 ≤ index then args[index.toNat]? else none

/-- The numbers are those of arguments of the call, or -1 where they may be. -/
structure AllocDefinition.Fits
    (adef : AllocDefinition) (args : List Value) : Prop where
  size : (operandAt args adef.sizeIdx).isSome
  num : adef.numIdx ≠ -1 → (operandAt args adef.numIdx).isSome
  addr : adef.addrIdx ≠ -1 → (operandAt args adef.addrIdx).isSome

/-- The name of the type that the next instruction casts the result of the call
to. -/
def castTypeName
    (naming : Naming) (ci : Inst) (next : Option Inst) : String :=
  match next.map Inst.op with
  | some (.cast _ operand type) =>
      if operand = ci.value then naming.getValueType type else "void"
  | _ => "void"

/-- The arguments of the record are what the definition says of the call. -/
structure RecordOf
    (pass : AccessInstrumentationPass) (adef : AllocDefinition)
    (ci : Inst) (args : List Value) (next : Option Inst)
    (inserted : List Inst) (address size count typeId : Value) : Prop where
  isResult :
    adef.addrIdx = -1 →
      MadeFrom Op.castOperand inserted ci.value address
  isAddress :
    adef.addrIdx ≠ -1 → ∀ value,
      operandAt args adef.addrIdx = some value →
        MadeFrom Op.addressOperand inserted value address
  isSize :
    ∀ value, operandAt args adef.sizeIdx = some value →
      MadeFrom Op.castOperand inserted value size
  isOne :
    adef.numIdx = -1 →
      MadeFrom Op.castOperand inserted (.constantInt 1 (.integer 32)) count
  isCount :
    adef.numIdx ≠ -1 → ∀ value,
      operandAt args adef.numIdx = some value →
        MadeFrom Op.castOperand inserted value count
  isType :
    typeId =
      getConstantFromInt
        (pass.typemap (castTypeName pass.naming ci next))
        (pass.lfm.allocLogFunc.getParamType 2)

/-- Among the instructions is a call of `logAlloc` that describes the
allocation. -/
def DescribesAllocation
    (pass : AccessInstrumentationPass) (adef : AllocDefinition)
    (ci : Inst) (args : List Value) (next : Option Inst)
    (inserted : List Inst) : Prop :=
  ∃ call ∈ inserted, ∃ address size count typeId rest type,
    call.op =
        .call (some pass.lfm.allocLogFunc)
          (address :: size :: count :: typeId :: rest) type ∧
      RecordOf pass adef ci args next inserted address size count typeId

/-! ## What is inserted -/

/-- The name of the type of the next instruction, if it is a `bitcast`. -/
def nextTypeName (naming : Naming) (next : Option Inst) : String :=
  match next.map Inst.op with
  | some (.cast .bitCast _ type) => naming.getValueType type
  | _ => "void"

section Casts

variable {builder : IRBuilder} {op : CastOp} {value : Value} {type : Ty}

/-- Casts that make a value of another one. -/
def CastsTo
    (source target : IRBuilder) (value result : Value) : Prop :=
  ∃ new, Adds source target new ∧ (∀ inst ∈ new, inst.isCast = true) ∧
    MadeFrom Op.castOperand new value result

theorem castsTo_createCast :
    CastsTo builder (builder.createCast op value type).2 value
      (builder.createCast op value type).1 := by
  unfold IRBuilder.createCast
  split
  · exact ⟨[], Adds.refl builder, List.forall_mem_nil _, .same⟩
  · split
    · exact ⟨[], Adds.refl builder, List.forall_mem_nil _, .folded .same⟩
    · refine ⟨_, adds_insert builder (.cast op value type), ?_, ?_⟩
      · intro inst member
        rw [List.mem_singleton.mp member]
        rfl
      · exact .made List.mem_cons_self rfl .same

theorem castsTo_createZExtOrBitCast :
    CastsTo builder (builder.createZExtOrBitCast value type).2 value
      (builder.createZExtOrBitCast value type).1 := by
  unfold IRBuilder.createZExtOrBitCast
  split
  · exact castsTo_createCast
  · exact castsTo_createCast

/-- The cast of an instruction is the instruction, or a new one right behind
all others. -/
theorem createCast_of_inst (inst : Inst) :
    (builder.createCast op inst.value type = (inst.value, builder)) ∨
      ∃ cast : Inst,
        builder.createCast op inst.value type =
            (cast.value,
              { builder with
                nextId := builder.nextId + 1
                inserted := builder.inserted ++ [cast] }) ∧
          cast.id = builder.nextId ∧ cast.op = .cast op inst.value type := by
  unfold IRBuilder.createCast
  split
  · exact Or.inl rfl
  · exact Or.inr ⟨_, rfl, rfl, rfl⟩

end Casts

namespace AccessInstrumentationPass

variable {pass : AccessInstrumentationPass}

theorem getArgOperand_of_operandAt
    {ci : Inst} {args : List Value} {index : Int} {value : Value}
    (isArg : operandAt args index = some value) :
    pass.getArgOperand ci args index = value := by
  unfold operandAt at isArg
  unfold getArgOperand
  split at isArg
  · rename_i notNegative
    rw [if_pos notNegative, List.getD_eq_getElem?_getD, isArg,
      Option.getD_some]
  · cases isArg

/-- What stands behind an allocating call: the cast of the result, the casts of
size and count, and the call of `logAlloc`. -/
structure AllocInserted
    (pass : AccessInstrumentationPass) (adef : AllocDefinition)
    (ci : Inst) (args : List Value) (nextInst : Option Inst)
    (nextId : Nat) (inserted addressCasts casts : List Inst) (call : Inst)
    (address size count : Value) : Prop where
  insts : inserted = addressCasts ++ casts ++ [call]
  areCasts : ∀ inst ∈ addressCasts ++ casts, inst.isCast = true
  isAddress :
    (addressCasts = [] ∧ address = ci.value) ∨
      ∃ cast type, addressCasts = [cast] ∧ cast.id = nextId ∧
        cast.op = .cast .bitCast ci.value type ∧ address = cast.value ∧
        ∀ inst ∈ casts ++ [call], nextId < inst.id
  isSize :
    MadeFrom Op.castOperand casts
      (pass.getArgOperand ci args adef.sizeIdx) size
  isCount :
    MadeFrom Op.castOperand casts
      (if adef.numIdx ≠ -1 then pass.getArgOperand ci args adef.numIdx
        else
          getConstantFromInt 1 (pass.lfm.allocLogFunc.getParamType 2))
      count
  op :
    ∃ rest type,
      call.op =
        .call (some pass.lfm.allocLogFunc)
          (address :: size :: count ::
            getConstantFromInt
              (pass.typemap (nextTypeName pass.naming nextInst))
              (pass.lfm.allocLogFunc.getParamType 2) :: rest) type

/-- The call of `logAlloc` goes behind the casts. -/
theorem instrumentAlloc_call
    {fn : Callee} {adef : AllocDefinition}
    (defined : pass.adm.getAllocDef fn.name = some adef)
    (nextId : Nat) (ci : Inst) (args : List Value)
    (nextInst : Option Inst) (insertionLoc : Option DebugLoc) :
    let log := pass.lfm.allocLogFunc
    let castAddr :=
      (IRBuilder.mk nextId insertionLoc []).createBitCast ci.value
        (log.getParamType 0)
    let castSize :=
      castAddr.2.createZExtOrBitCast
        (pass.getArgOperand ci args adef.sizeIdx) (log.getParamType 1)
    let castNum :=
      castSize.2.createZExtOrBitCast
        (if adef.numIdx ≠ -1 then pass.getArgOperand ci args adef.numIdx
          else getConstantFromInt 1 (log.getParamType 2))
        (log.getParamType 2)
    ∃ call rest,
      (pass.instrumentAlloc nextId ci fn args nextInst
          insertionLoc).inserted =
        castNum.2.inserted ++ [call] ∧
      call.op =
        .call (some log)
          (castAddr.1 :: castSize.1 :: castNum.1 ::
            getConstantFromInt
              (pass.typemap (nextTypeName pass.naming nextInst))
              (log.getParamType 2) :: rest) log.returnType ∧
      call.id = castNum.2.nextId := by
  simp only [instrumentAlloc_eq, defined]
  exact ⟨_, _, rfl, rfl, rfl⟩

theorem allocInserted
    {fn : Callee} {adef : AllocDefinition}
    (defined : pass.adm.getAllocDef fn.name = some adef)
    (nextId : Nat) (ci : Inst) (args : List Value)
    (nextInst : Option Inst) (insertionLoc : Option DebugLoc) :
    ∃ addressCasts casts call address size count,
      AllocInserted pass adef ci args nextInst nextId
        (pass.instrumentAlloc nextId ci fn args nextInst
          insertionLoc).inserted
        addressCasts casts call address size count := by
  let log := pass.lfm.allocLogFunc
  let sized := pass.getArgOperand ci args adef.sizeIdx
  let counted :=
    if adef.numIdx ≠ -1 then pass.getArgOperand ci args adef.numIdx
    else getConstantFromInt 1 (log.getParamType 2)
  let start : IRBuilder := ⟨nextId, insertionLoc, []⟩
  let castAddr := start.createBitCast ci.value (log.getParamType 0)
  let castSize := castAddr.2.createZExtOrBitCast sized (log.getParamType 1)
  let castNum := castSize.2.createZExtOrBitCast counted (log.getParamType 2)
  rcases (castsTo_createZExtOrBitCast :
      CastsTo castAddr.2 castSize.2 sized castSize.1) with
    ⟨sizeCasts, sizeAdds, areSizeCasts, isSize⟩
  rcases (castsTo_createZExtOrBitCast :
      CastsTo castSize.2 castNum.2 counted castNum.1) with
    ⟨countCasts, countAdds, areCountCasts, isCount⟩
  have adds := sizeAdds.trans countAdds
  have areCasts : ∀ inst ∈ sizeCasts ++ countCasts, inst.isCast = true := by
    intro inst member
    rcases List.mem_append.mp member with inSize | inCount
    · exact areSizeCasts inst inSize
    · exact areCountCasts inst inCount
  rcases instrumentAlloc_call defined nextId ci args nextInst
      insertionLoc with ⟨call, rest, inserted, isOp, isId⟩
  have younger :
      ∀ inst ∈ sizeCasts ++ countCasts ++ [call],
        castAddr.2.nextId ≤ inst.id := by
    intro inst member
    rcases List.mem_append.mp member with isCast | isCall
    · exact adds.ids inst isCast
    · rw [List.mem_singleton.mp isCall, isId]
      exact adds.grows
  have countOfNum :=
    isCount.mono (List.subset_append_right sizeCasts countCasts)
  have sizeOfArg :=
    isSize.mono (List.subset_append_left sizeCasts countCasts)
  rcases @createCast_of_inst start .bitCast (log.getParamType 0) ci with
    same | ⟨cast, made, castId, castOp⟩
  · have unchanged : castAddr = (ci.value, start) := same
    refine ⟨[], sizeCasts ++ countCasts, call, castAddr.1, castSize.1,
      castNum.1, ?_, areCasts, Or.inl ⟨rfl, by rw [unchanged]⟩, sizeOfArg,
      countOfNum, ⟨rest, _, isOp⟩⟩
    rw [inserted, adds.inserted, unchanged]
  · have extended :
        castAddr =
          (cast.value,
            { start with
              nextId := start.nextId + 1
              inserted := start.inserted ++ [cast] }) := made
    refine ⟨[cast], sizeCasts ++ countCasts, call, castAddr.1, castSize.1,
      castNum.1, ?_, ?_, Or.inr ⟨cast, _, rfl, castId, castOp, ?_, ?_⟩,
      sizeOfArg, countOfNum, ⟨rest, _, isOp⟩⟩
    · rw [inserted, adds.inserted, extended]
      rfl
    · intro inst member
      rcases List.mem_append.mp member with isFirst | isLater
      · rw [List.mem_singleton.mp isFirst, Inst.isCast, castOp]
      · exact areCasts inst isLater
    · rw [extended]
    · intro inst member
      have behind := younger inst member
      rw [extended] at behind
      exact behind

end AccessInstrumentationPass

/-! ## When the record is right -/

/-- An instruction that gives the value is older than the pass. -/
def Value.OlderThan (fresh : Nat) (value : Value) : Prop :=
  ∀ inst : Inst, inst.value = value → inst.id < fresh

/-- The address is the result of the call. -/
def AddressAgrees
    (adef : AllocDefinition) (ci : Inst) (args : List Value) : Prop :=
  adef.addrIdx = -1 ∨ operandAt args adef.addrIdx = some ci.value

/-- A cast that follows is a `bitcast` just if it casts the result of the call,
or its type has the same id as "void". -/
def NextAgrees
    (pass : AccessInstrumentationPass) (ci : Inst) (next : Option Inst) :
    Prop :=
  ∀ op operand type, next.map Inst.op = some (.cast op operand type) →
    (op = .bitCast ↔ operand = ci.value) ∨
      pass.typemap (pass.naming.getValueType type) = pass.typemap "void"

section Describes

variable {pass : AccessInstrumentationPass} {adef : AllocDefinition}
variable {ci call : Inst} {args : List Value} {nextInst next : Option Inst}
variable {nextId : Nat} {inserted addressCasts casts : List Inst}
variable {address size count : Value}

theorem nextAgrees_iff :
    pass.typemap (nextTypeName pass.naming next) =
        pass.typemap (castTypeName pass.naming ci next) ↔
      NextAgrees pass ci next := by
  unfold nextTypeName castTypeName NextAgrees
  cases following : next.map Inst.op with
  | none => exact iff_of_true rfl nofun
  | some op =>
      cases op with
      | cast op operand type =>
          have only :
              (∀ otherOp otherOperand otherType,
                some (Op.cast op operand type) =
                    some (.cast otherOp otherOperand otherType) →
                  (otherOp = .bitCast ↔ otherOperand = ci.value) ∨
                    pass.typemap (pass.naming.getValueType otherType) =
                      pass.typemap "void") ↔
                (op = .bitCast ↔ operand = ci.value) ∨
                  pass.typemap (pass.naming.getValueType type) =
                    pass.typemap "void" := by
            constructor
            · exact fun all => all op operand type rfl
            · intro holds otherOp otherOperand otherType same
              rcases Op.cast.inj (Option.some.inj same) with ⟨rfl, rfl, rfl⟩
              exact holds
          rw [only]
          by_cases isResult : operand = ci.value
          · cases op <;> simp [isResult, eq_comm]
          · cases op <;> simp [isResult]
      | load => exact iff_of_true rfl nofun
      | store => exact iff_of_true rfl nofun
      | call => exact iff_of_true rfl nofun
      | alloca => exact iff_of_true rfl nofun
      | getElementPtr => exact iff_of_true rfl nofun
      | phi => exact iff_of_true rfl nofun
      | landingPad => exact iff_of_true rfl nofun
      | other => exact iff_of_true rfl nofun

/-- The address that is logged is made of nothing but the result of the
call. -/
theorem eq_of_addressMadeFrom
    (made :
      AllocInserted pass adef ci args nextInst nextId inserted addressCasts
        casts call address size count)
    (ids : ∀ inst ∈ inserted, nextId ≤ inst.id)
    (ciOlder : ci.id < nextId)
    {value : Value} (older : value.OlderThan nextId)
    (madeFrom : MadeFrom Op.addressOperand inserted value address) :
    value = ci.value := by
  have afterCall : ∀ inst ∈ inserted, ci.id < inst.id :=
    fun inst member => ciOlder.trans_le (ids inst member)
  rcases made.isAddress with
    ⟨_, isResult⟩ | ⟨cast, type, isCasts, castId, castOp, isResult, later⟩
  · rw [isResult] at madeFrom
    exact madeFrom.eq_of_older afterCall
  · rw [isResult] at madeFrom
    have notCast : value ≠ cast.value := by
      intro same
      have castOlder := older cast same.symm
      exact absurd castOlder (by rw [castId]; exact lt_irrefl _)
    have unique :
        ∀ other ∈ inserted, other.id = cast.id → other = cast := by
      intro other member sameId
      rw [made.insts, isCasts, List.append_assoc] at member
      rcases List.mem_append.mp member with isFirst | isLater
      · exact List.mem_singleton.mp isFirst
      · have behind := later other isLater
        rw [sameId, castId] at behind
        exact absurd behind (lt_irrefl _)
    rcases madeFrom.through notCast unique with
      ⟨operand, isOperand, earlier⟩
    rw [castOp] at isOperand
    obtain rfl := Option.some.inj isOperand
    exact earlier.eq_of_older afterCall

/-- There is just one call of `logAlloc`. -/
theorem AccessInstrumentationPass.AllocInserted.call_eq
    (made :
      AllocInserted pass adef ci args nextInst nextId inserted addressCasts
        casts call address size count)
    {other : Inst} (member : other ∈ inserted)
    (notCast : other.isCast = false) : other = call := by
  rw [made.insts] at member
  rcases List.mem_append.mp member with isCast | isCall
  · have cast := made.areCasts other isCast
    rw [notCast] at cast
    cases cast
  · exact List.mem_singleton.mp isCall

theorem AccessInstrumentationPass.AllocInserted.madeOfResult
    (made :
      AllocInserted pass adef ci args nextInst nextId inserted addressCasts
        casts call address size count) :
    MadeFrom Op.castOperand inserted ci.value address := by
  rcases made.isAddress with
    ⟨_, isResult⟩ | ⟨cast, type, isCasts, _, castOp, isResult, _⟩
  · rw [isResult]
    exact .same
  · rw [isResult]
    have member : cast ∈ inserted := by
      rw [made.insts, isCasts]
      exact List.mem_cons_self
    exact .made member (by rw [castOp]; rfl) .same

theorem mem_of_operandAt
    {index : Int} {value : Value} (isArg : operandAt args index = some value) :
    value ∈ args := by
  unfold operandAt at isArg
  split at isArg
  · exact List.mem_of_getElem? isArg
  · cases isArg

/-- A record that describes the allocation has the result of the call as its
address, and the type of a cast of it. -/
theorem agrees_of_record
    (made :
      AllocInserted pass adef ci args nextInst nextId inserted addressCasts
        casts call address size count)
    (fits : adef.Fits args)
    (ids : ∀ inst ∈ inserted, nextId ≤ inst.id)
    (ciOlder : ci.id < nextId)
    (argsOlder : ∀ value ∈ args, value.OlderThan nextId)
    {otherSize otherCount : Value}
    (record :
      RecordOf pass adef ci args next inserted address otherSize otherCount
        (getConstantFromInt
          (pass.typemap (nextTypeName pass.naming next))
          (pass.lfm.allocLogFunc.getParamType 2))) :
    AddressAgrees adef ci args ∧ NextAgrees pass ci next := by
  constructor
  · by_cases none : adef.addrIdx = -1
    · exact Or.inl none
    · rcases Option.isSome_iff_exists.mp (fits.addr none) with
        ⟨value, isArg⟩
      have isResult :=
        eq_of_addressMadeFrom made ids ciOlder
          (argsOlder value (mem_of_operandAt isArg))
          (record.isAddress none value isArg)
      rw [isResult] at isArg
      exact Or.inr isArg
  · exact nextAgrees_iff.mp (getConstantFromInt_injective record.isType)

theorem record_of_agrees
    (made :
      AllocInserted pass adef ci args nextInst nextId inserted addressCasts
        casts call address size count)
    (addressAgrees : AddressAgrees adef ci args)
    (nextAgrees : NextAgrees pass ci next) :
    RecordOf pass adef ci args next inserted address size count
      (getConstantFromInt
        (pass.typemap (nextTypeName pass.naming next))
        (pass.lfm.allocLogFunc.getParamType 2)) := by
  have included : casts ⊆ inserted := by
    intro inst member
    rw [made.insts]
    exact List.mem_append_left _ (List.mem_append_right _ member)
  have ofResult := made.madeOfResult
  have ofSize := made.isSize.mono included
  have ofCount := made.isCount.mono included
  constructor
  · exact fun _ => ofResult
  · intro some value isArg
    rcases addressAgrees with none | isResult
    · exact absurd none some
    · rw [isResult] at isArg
      obtain rfl := Option.some.inj isArg
      exact ofResult.address
  · intro value isArg
    rwa [getArgOperand_of_operandAt isArg] at ofSize
  · intro none
    rw [if_neg (not_not.mpr none)] at ofCount
    exact (madeFrom_getConstantFromInt 1 _).trans ofCount
  · intro some value isArg
    rwa [if_pos some, getArgOperand_of_operandAt isArg] at ofCount
  · rw [nextAgrees_iff.mpr nextAgrees]

/-- The record describes the allocation just if the result of the call is its
address, and a cast that follows is taken for what it is. -/
theorem describesAllocation_iff
    (made :
      AllocInserted pass adef ci args nextInst nextId inserted addressCasts
        casts call address size count)
    (fits : adef.Fits args)
    (ids : ∀ inst ∈ inserted, nextId ≤ inst.id)
    (ciOlder : ci.id < nextId)
    (argsOlder : ∀ value ∈ args, value.OlderThan nextId)
    (sameNext :
      nextTypeName pass.naming nextInst = nextTypeName pass.naming next) :
    DescribesAllocation pass adef ci args next inserted ↔
      AddressAgrees adef ci args ∧ NextAgrees pass ci next := by
  rcases made.op with ⟨rest, type, isOp⟩
  rw [sameNext] at isOp
  constructor
  · intro describes
    rcases describes with
      ⟨other, member, otherAddress, otherSize, otherCount, otherType,
        otherRest, otherResult, otherOp, record⟩
    have sameCall : other = call :=
      made.call_eq member (by rw [Inst.isCast, otherOp])
    rw [sameCall, isOp] at otherOp
    simp only [Op.call.injEq, List.cons.injEq, true_and] at otherOp
    rcases otherOp with ⟨⟨sameAddress, _, _, sameType, _⟩, _⟩
    rw [← sameAddress, ← sameType] at record
    exact agrees_of_record made fits ids ciOlder argsOlder record
  · intro agrees
    have isCall : call ∈ inserted := by
      rw [made.insts]
      exact List.mem_append_right _ List.mem_cons_self
    exact ⟨call, isCall, address, size, count, _, rest, type, isOp,
      record_of_agrees made agrees.1 agrees.2⟩

end Describes

/-! ## Runs -/

section Runs

variable {pass : AccessInstrumentationPass} {decision : Decision}
variable {fuel fresh : Nat} {state final : PassState}

/-- Nothing goes in front of a call of `logAlloc`. -/
theorem before_of_logAlloc
    {terminatorLoc : Option DebugLoc} {call : Inst} {args : List Value}
    {type : Ty} (op : call.op = .call (some pass.lfm.allocLogFunc) args type)
    {nextInst : Option Inst} {made : Visit PassState Inst}
    (visited :
      pass.visit decision terminatorLoc state call nextInst = some made) :
    made.before = [] := by
  have event : pass.lfm.allocLogFunc ∈ pass.lfm.eventFunctions :=
    LogFunctionManager.allocLogFunc_mem
  have notExit : pass.lfm.allocLogFunc.name ≠ "exit" :=
    name_ne_exit_of_event event
  simp only [visit_eq, op, Option.some.injEq] at visited
  rw [← visited]
  rw [visitCall_eq]
  dsimp only
  split
  · rw [instrumentExit_other notExit]
  · rfl

/-- An event in front of the terminator is no cast. -/
theorem nextTypeName_append_endEvent
    (decision : Decision) (nextId : Nat) (terminator : Terminator)
    (back : List Inst) :
    nextTypeName pass.naming
        (back ++
          (pass.endEvent decision nextId terminator).inserted).head? =
      nextTypeName pass.naming back.head? := by
  cases back with
  | cons first back => rfl
  | nil =>
      unfold endEvent
      split
      · rfl
      · rfl

/-- Behind a block, every call in it that allocates is followed by what is
inserted for it. -/
theorem alloc_of_instrumentBlock
    {block target : Block}
    (ran :
      pass.instrumentBlock fuel decision state block =
        some (target, final))
    (older : fresh ≤ state.nextId)
    (filtered : decision.allocFilter = true)
    {front back : List Inst} {ci : Inst}
    (insts : block.insts = front ++ ci :: back)
    {fn : Callee} {args : List Value} {type : Ty}
    (calls : ci.op = .call (some fn) args type)
    {adef : AllocDefinition}
    (defined : pass.adm.getAllocDef fn.name = some adef) :
    ∃ nextId nextInst loc,
      fresh ≤ nextId ∧
        nextTypeName pass.naming nextInst =
          nextTypeName pass.naming back.head? ∧
        (ci ::
            (pass.instrumentAlloc nextId ci fn args nextInst
              loc).inserted) <:+: target.insts := by
  rw [instrumentBlock_eq] at ran
  rcases Option.map_eq_some_iff.mp ran with ⟨⟨after, last⟩, looped, equal⟩
  rcases Prod.mk.inj equal with ⟨rfl, rfl⟩
  let loc := block.terminator.debugLoc
  let ends := pass.endEvent decision state.nextId block.terminator
  have items :
      block.insts ++ ends.inserted =
        front ++ ci :: (back ++ ends.inserted) := by
    rw [insts, List.append_assoc, List.cons_append]
  have ran :
      loop (pass.visit decision loc) fuel
          { state with nextId := ends.nextId } []
          (front ++ ci :: (back ++ ends.inserted)) =
        some (after, last) := by
    rw [← items]
    exact looped
  have grows : fresh ≤ ends.nextId :=
    older.trans (endEvent_younger _ _ _).grows
  have reaches :=
    @loop_reaches _ _ _ (fun now : PassState => fresh ≤ now.nextId)
      (fun _ _ _ _ visited kept =>
        kept.trans (outcome_of_visit visited).grows)
      _ _ _ _ _ _ _ _ ran grows
  rcases reaches with
    ⟨fewer, reached, behind, made, young, visited, continued⟩
  simp only [visit_eq, calls, Option.some.injEq] at visited
  have isAfter :
      ∃ insertionLoc,
        made.after =
          (pass.instrumentAlloc reached.nextId ci fn args
            (back ++ ends.inserted).head? insertionLoc).inserted := by
    rw [← visited]
    rw [visitCall_eq]
    dsimp only
    rw [if_pos filtered]
    exact ⟨_, rfl⟩
  rcases isAfter with ⟨insertionLoc, isAfter⟩
  rcases allocInserted defined reached.nextId ci args
      (back ++ ends.inserted).head? insertionLoc with
    ⟨addressCasts, casts, call, address, size, count, inserted⟩
  refine ⟨reached.nextId, (back ++ ends.inserted).head?, insertionLoc,
    young, nextTypeName_append_endEvent _ _ _ _, ?_⟩
  · rw [isAfter, inserted.insts, List.append_assoc] at continued
    rcases loop_after_inert
        (fun inst member =>
          inert_of_isCast (inserted.areCasts inst member) decision loc)
        continued with ⟨evenFewer, atCall⟩
    cases evenFewer with
    | zero => cases atCall
    | succ evenFewer =>
        rcases Option.bind_eq_some_iff.mp atCall with
          ⟨passed, callVisited, rest⟩
        rcases inserted.op with ⟨others, result, isOp⟩
        have isPrefix := prefix_of_loop rest
        rw [before_of_logAlloc isOp callVisited, List.append_nil]
          at isPrefix
        rw [inserted.insts]
        refine List.IsInfix.trans ⟨behind, [], ?_⟩ isPrefix.isInfix
        simp

/-- Every block is instrumented in a state that the pass settles in. -/
theorem instrumentBlocks_at
    {blocks results : List Block}
    (ran :
      pass.instrumentBlocks fuel decision state blocks =
        some (results, final))
    (settled : Settled fresh state)
    {index : Nat} {block : Block} (place : blocks[index]? = some block) :
    ∃ target now next,
      results[index]? = some target ∧ fresh ≤ now.nextId ∧
        pass.instrumentBlock fuel decision now block =
          some (target, next) := by
  induction blocks generalizing state results index with
  | nil => cases place
  | cons first blocks inductionHypothesis =>
      rw [instrumentBlocks_cons] at ran
      rcases Option.bind_eq_some_iff.mp ran with
        ⟨⟨target, next⟩, firstRan, others⟩
      rcases Option.map_eq_some_iff.mp others with
        ⟨⟨targets, last⟩, othersRan, equal⟩
      rcases Prod.mk.inj equal with ⟨rfl, rfl⟩
      cases index with
      | zero =>
          obtain rfl := Option.some.inj place
          exact ⟨target, state, next, rfl, settled.older, firstRan⟩
      | succ index =>
          have settledNext :=
            settled_of_instrumentBlock firstRan settled.older
              (queued_of_empty settled.empty)
          exact inductionHypothesis othersRan settledNext place

/-- What does not have to stay at the front keeps what is behind it. -/
theorem insertFirst_at
    {block : Block} {front back : List Inst} {inst : Inst}
    (insts : block.insts = front ++ inst :: back)
    (notLeading : ¬ inst.Leading) (new : List Inst) :
    ∃ newFront,
      (block.insertFirst new).insts = newFront ++ inst :: back := by
  rcases insertFirst_split block with
    ⟨first, rest, split, inserts, leading⟩
  rw [inserts]
  rcases List.append_eq_append_iff.mp (split.symm.trans insts) with
    ⟨between, isFront, isRest⟩ | ⟨between, isFirst, isBack⟩
  · exact ⟨first ++ new ++ between, by rw [isRest, ← List.append_assoc]⟩
  · cases between with
    | nil =>
        refine ⟨first ++ new, ?_⟩
        rw [show inst :: back = [] ++ rest from isBack, List.nil_append]
    | cons head between =>
        have isHead : inst = head := (List.cons.inj isBack).1
        refine absurd (leading inst ?_) notLeading
        rw [isFirst, isHead]
        exact List.mem_append_right front List.mem_cons_self

end Runs

section Instruments

variable {pass : AccessInstrumentationPass} {fuel : Nat} {module : Module}
variable {source target : Function} {state final : PassState}

/-- In a run, every call that allocates is followed by what is inserted for
it. -/
theorem alloc_of_instruments
    (instruments : Instruments pass fuel module source state target final)
    (filtered : (pass.decision source).allocFilter = true)
    {index : Nat} {block : Block}
    (place : source.blocks[index]? = some block)
    {front back : List Inst} {ci : Inst}
    (insts : block.insts = front ++ ci :: back)
    {fn : Callee} {args : List Value} {type : Ty}
    (calls : ci.op = .call (some fn) args type)
    {adef : AllocDefinition}
    (defined : pass.adm.getAllocDef fn.name = some adef) :
    ∃ made nextId nextInst loc,
      target.blocks[index]? = some made ∧ module.nextId ≤ nextId ∧
        nextTypeName pass.naming nextInst =
          nextTypeName pass.naming back.head? ∧
        (ci ::
            (pass.instrumentAlloc nextId ci fn args nextInst
              loc).inserted) <:+: made.insts := by
  have notLeading : ¬ ci.Leading := by
    intro leading
    rcases leading with isPhi | isPad
    · rw [Inst.isPhi, calls] at isPhi
      cases isPhi
    · rw [Inst.isLandingPad, calls] at isPad
      cases isPad
  cases blocks : source.blocks with
  | nil =>
      rw [blocks] at place
      cases place
  | cons entry rest =>
      rcases instruments.of_body blocks with
        ⟨injected, begins, prepared, first, middle, others, rfl, ready,
          entryRan, middleSettled, othersRan⟩
      rw [blocks] at place
      cases index with
      | zero =>
          obtain rfl := Option.some.inj place
          rcases insertFirst_at insts notLeading injected with
            ⟨early, injectedInsts⟩
          rcases insertFirst_at injectedInsts notLeading begins with
            ⟨earlier, preparedInsts⟩
          rw [← ready.block] at preparedInsts
          rcases alloc_of_instrumentBlock entryRan ready.older filtered
              preparedInsts calls defined with
            ⟨nextId, nextInst, loc, young, sameNext, isInfix⟩
          exact ⟨first, nextId, nextInst, loc, rfl, young, sameNext,
            isInfix⟩
      | succ index =>
          rcases instrumentBlocks_at othersRan middleSettled place with
            ⟨made, now, next, isMade, young, ran⟩
          rcases alloc_of_instrumentBlock ran young filtered insts calls
              defined with ⟨nextId, nextInst, loc, younger, sameNext, isInfix⟩
          exact ⟨made, nextId, nextInst, loc, isMade, younger, sameNext,
            isInfix⟩

/-- Right behind the call stand new casts and a new call of `logAlloc`. -/
structure AllocLogged
    (pass : AccessInstrumentationPass) (fresh : Nat) (insts : List Inst)
    (ci : Inst) (casts : List Inst) (call : Inst) : Prop where
  behind : (ci :: (casts ++ [call])) <:+: insts
  younger : ∀ inst ∈ casts ++ [call], fresh ≤ inst.id
  areCasts : ∀ inst ∈ casts, inst.isCast = true
  calls : call.calledFunction = some pass.lfm.allocLogFunc

/-- Behind every call of a function that the file defines, the allocation is
described just if its address column is -1 or gives the result, and a cast that
follows is a `bitcast` of the result. -/
theorem alloc_described_iff
    {content : String}
    (loaded : loadAllocDefs (some content) = some pass.adm)
    {fn : Callee} {adef : AllocDefinition}
    (defines : FirstDefines fn.name adef (getLines content.toList))
    (instruments : Instruments pass fuel module source state target final)
    (filtered : (pass.decision source).allocFilter = true)
    {index : Nat} {block : Block}
    (place : source.blocks[index]? = some block)
    {front back : List Inst} {ci : Inst}
    (insts : block.insts = front ++ ci :: back)
    {args : List Value} {type : Ty}
    (calls : ci.op = .call (some fn) args type)
    (fits : adef.Fits args)
    (argsOlder : ∀ value ∈ args, value.OlderThan module.nextId) :
    ∃ made casts call,
      target.blocks[index]? = some made ∧
        AllocLogged pass module.nextId made.insts ci casts call ∧
        (DescribesAllocation pass adef ci args back.head?
            (casts ++ [call]) ↔
          AddressAgrees adef ci args ∧
            NextAgrees pass ci back.head?) := by
  have defined : pass.adm.getAllocDef fn.name = some adef :=
    (getAllocDef_eq_some_iff loaded).mpr defines
  rcases alloc_of_instruments instruments filtered place insts calls
      defined with
    ⟨made, nextId, nextInst, loc, isMade, young, sameNext, isInfix⟩
  rcases allocInserted defined nextId ci args nextInst loc with
    ⟨addressCasts, casts, call, address, size, count, inserted⟩
  have ids :=
    (addsCall_inserted
      (instrumentAlloc_defined defined nextId ci args nextInst loc)).2.1
  have ciOlder : ci.id < module.nextId := by
    apply instruments.original block (List.mem_of_getElem? place)
    rw [insts]
    exact List.mem_append_right _ List.mem_cons_self
  have describes :=
    describesAllocation_iff inserted fits ids (ciOlder.trans_le young)
      (fun value isArg inst isValue =>
        (argsOlder value isArg inst isValue).trans_le young)
      sameNext
  rw [inserted.insts] at isInfix ids describes
  refine ⟨made, addressCasts ++ casts, call, isMade,
    ⟨isInfix, ?_, inserted.areCasts, ?_⟩, describes⟩
  · exact fun inst member => young.trans (ids inst member)
  · rcases inserted.op with ⟨rest, result, isOp⟩
    rw [Inst.calledFunction, isOp]

end Instruments

/-! ## Two allocations -/

def allocDefinitions : String :=
  "# func number size addr\n__wt_calloc 1 2 3 \nmalloc -1 0 -1\n"

/-- Only allocations are instrumented. -/
def allocPass : AccessInstrumentationPass :=
  { instrumentsAll with
    typemap := fun name => name.length
    adm :=
      [{ name := "__wt_calloc", sizeIdx := 2, numIdx := 1, addrIdx := 3 },
        { name := "malloc", sizeIdx := 0, numIdx := -1, addrIdx := -1 }]
    insfilt :=
      ⟨fun _ => true, fun _ => true, fun _ event => event = "alloc",
        fun _ _ => false⟩ }

def voidPointer : Ty :=
  .pointer (.integer 8)

def mallocCall : Inst where
  id := 0
  name := ""
  op :=
    .call (some ⟨"malloc", [.integer 64], voidPointer⟩)
      [.constantInt 8 (.integer 64)] voidPointer
  debugLoc := none

def mallocCast : Inst where
  id := 1
  name := ""
  op := .cast .bitCast mallocCall.value (.pointer (.integer 32))
  debugLoc := none

def mallocFunction : Function :=
  ⟨"new", [], [⟨[mallocCall, mallocCast], ⟨.ret, none⟩⟩]⟩

/-- A call of `malloc` with a cast of the result. -/
def mallocModule : Module where
  identifier := "main.c"
  functions := [mallocFunction]
  nextId := 2
  older := by decide

def mallocDefinition : AllocDefinition where
  name := "malloc"
  sizeIdx := 0
  numIdx := -1
  addrIdx := -1

def callocArgs : List Value :=
  [.argument "grow" 0 "session" voidPointer,
    .constantInt 1 (.integer 64), .constantInt 16 (.integer 64),
    .argument "grow" 1 "retp" voidPointer]

/-- The last argument is the one of the address column. -/
def callocCall : Inst where
  id := 0
  name := ""
  op :=
    .call
      (some ⟨"__wt_calloc",
        [voidPointer, .integer 64, .integer 64, voidPointer],
        .integer 32⟩)
      callocArgs (.integer 32)
  debugLoc := none

def callocFunction : Function :=
  ⟨"grow", [("session", voidPointer), ("retp", voidPointer)],
    [⟨[callocCall], ⟨.ret, none⟩⟩]⟩

def callocModule : Module where
  identifier := "main.c"
  functions := [callocFunction]
  nextId := 1
  older := by decide

def callocCast : Inst where
  id := 1
  name := ""
  op := .cast .bitCast callocCall.value voidPointer
  debugLoc := none

def callocLog : Inst where
  id := 2
  name := ""
  op :=
    .call (some allocPass.lfm.allocLogFunc)
      [callocCast.value, .constantInt 16 (.integer 64),
        .constantInt 1 (.integer 64), .constantInt 4 (.integer 32),
        .constantInt (-1) (.integer 32), .constantInt (-1) (.integer 32),
        .constantInt (-1) (.integer 32)] .void
  debugLoc := none

theorem allocDefinitions_loaded :
    loadAllocDefs (some allocDefinitions) = some allocPass.adm := by
  decide +kernel

theorem allocDefinitions_define
    {name : String} {adef : AllocDefinition}
    (found : allocPass.adm.getAllocDef name = some adef) :
    FirstDefines name adef (getLines allocDefinitions.toList) :=
  (getAllocDef_eq_some_iff allocDefinitions_loaded).mp found

theorem mallocCall_described :
    ∃ made casts call,
      AllocLogged allocPass 2 made mallocCall casts call ∧
        (DescribesAllocation allocPass mallocDefinition mallocCall
            [.constantInt 8 (.integer 64)] (some mallocCast)
            (casts ++ [call]) ↔
          AddressAgrees mallocDefinition mallocCall
              [.constantInt 8 (.integer 64)] ∧
            NextAgrees allocPass mallocCall (some mallocCast)) := by
  rcases @instruments_of_first allocPass 9 mallocModule mallocFunction []
      (by decide) (by decide +kernel) rfl (by decide +kernel) with
    ⟨target, final, instruments⟩
  have argsOlder :
      ∀ value ∈ [Value.constantInt 8 (.integer 64)],
        value.OlderThan mallocModule.nextId := by
    intro value member inst isValue
    rw [List.mem_singleton.mp member] at isValue
    cases isValue
  have fits : mallocDefinition.Fits [.constantInt 8 (.integer 64)] :=
    ⟨rfl, fun some => absurd rfl some, fun some => absurd rfl some⟩
  rcases @alloc_described_iff allocPass 9 mallocModule mallocFunction target
      _ final allocDefinitions allocDefinitions_loaded _ mallocDefinition
      (allocDefinitions_define rfl) instruments rfl 0 _ rfl [] [mallocCast]
      mallocCall rfl _ _ rfl fits argsOlder with
    ⟨made, casts, call, _, logged, described⟩
  exact ⟨made.insts, casts, call, logged, described⟩

/-- The address column of `__wt_calloc` is not heeded. -/
theorem callocCall_misses_address :
    ¬ ∀ (pass : AccessInstrumentationPass) (fuel : Nat) (module : Module)
        (source target : Function) (state final : PassState)
        (content : String) (fn : Callee) (adef : AllocDefinition)
        (index : Nat) (block : Block) (front back : List Inst) (ci : Inst)
        (args : List Value) (type : Ty),
      loadAllocDefs (some content) = some pass.adm →
        FirstDefines fn.name adef (getLines content.toList) →
        Instruments pass fuel module source state target final →
        (pass.decision source).allocFilter = true →
        source.blocks[index]? = some block →
        block.insts = front ++ ci :: back →
        ci.op = .call (some fn) args type → adef.Fits args →
        (∀ value ∈ args, value.OlderThan module.nextId) →
          ∃ made casts call,
            target.blocks[index]? = some made ∧
              AllocLogged pass module.nextId made.insts ci casts call ∧
              DescribesAllocation pass adef ci args back.head?
                (casts ++ [call]) := by
  intro always
  rcases @instruments_of_first allocPass 9 callocModule callocFunction []
      (by decide) (by decide +kernel) rfl (by decide +kernel) with
    ⟨target, final, instruments⟩
  have argsOlder :
      ∀ value ∈ callocArgs, value.OlderThan callocModule.nextId := by
    intro value member inst isValue
    rw [← isValue] at member
    simp [callocArgs, Inst.value] at member
  rcases always allocPass 9 callocModule callocFunction target _ final
      allocDefinitions _ _ 0 _ [] _ callocCall callocArgs _
      allocDefinitions_loaded (allocDefinitions_define rfl) instruments rfl
      rfl rfl rfl
      ⟨rfl, fun _ => rfl, fun _ => rfl⟩ argsOlder with
    ⟨made, casts, call, isMade, logged, describes⟩
  have evaluated :
      ((allocPass.instrumentFunction 9 callocFunction
          ⟨callocModule.nextId, ∅⟩).bind
        fun result => result.1.blocks[0]?.map Block.insts) =
        some [callocCall, callocCast, callocLog] := by
    decide +kernel
  rw [instruments.runs, Option.bind_some, isMade, Option.map_some]
    at evaluated
  have included :
      casts ++ [call] ⊆ [callocCall, callocCast, callocLog] := by
    rw [← Option.some.inj evaluated]
    exact fun inst member =>
      logged.behind.subset (List.mem_cons_of_mem _ member)
  rcases describes with
    ⟨log, member, address, size, count, typeId, rest, type, isOp, record⟩
  have isLog : log = callocLog := by
    have isOne := included member
    simp only [List.mem_cons, List.not_mem_nil, or_false] at isOne
    rcases isOne with isCall | isCast | isLog
    · rw [isCall] at isOp
      exact absurd (Option.some.inj (Op.call.inj isOp).1) (by decide)
    · rw [isCast] at isOp
      cases isOp
    · exact isLog
  rw [isLog] at isOp
  have isAddress : callocCast.value = address :=
    (List.cons.inj (Op.call.inj isOp).2.1).1
  have made :=
    (record.isAddress (by decide)
      (.argument "grow" 1 "retp" voidPointer) rfl).mono included
  rw [← isAddress] at made
  rcases made.through (by decide) (by decide) with
    ⟨operand, isOperand, earlier⟩
  obtain rfl := Option.some.inj isOperand
  rcases earlier.through (by decide) (by decide) with
    ⟨operand, isOperand, _⟩
  cases isOperand

end Dinamite.Instrument
