import Dinamite.Instrument.BuilderRuns
import Dinamite.Instrument.VisitBound

/-!
# Instrumented blocks

What the loop over the instructions of a block makes of them: running it does
what the recorded run of the block does.
-/

namespace Dinamite.Instrument

open Dinamite.CursorLoop
open AccessInstrumentationPass

variable {Val Mem : Type} {machine : Machine Val Mem}

/-! ## Code that does what it is to do -/

/-- From frames that agree on the program, running the code and what it stands
for end in frames that agree. -/
def Means
    (machine : Machine Val Mem) (made : List Inst)
    (spec : Frame Val Mem → Result Val Mem) : Prop :=
  ∀ left right : Frame Val Mem,
    left.Agree True machine.fresh right →
      (machine.stepAll made left).Agree True machine.fresh (spec right)

section Means

variable {made more : List Inst}
variable {spec next : Frame Val Mem → Result Val Mem}

theorem means_nil : Means machine [] .goes :=
  fun _ _ agree => .goes agree

theorem Means.append
    (means : Means machine made spec) (continued : Means machine more next) :
    Means machine (made ++ more) fun frame => (spec frame).bind next := by
  intro left right agree
  rw [Machine.stepAll_append]
  exact (means left right agree).bind continued

theorem Means.congr
    (means : Means machine made spec)
    (same : ∀ frame, spec frame = next frame) :
    Means machine made next := by
  intro left right agree
  rw [← same right]
  exact means left right agree

theorem means_inst
    {inst : Inst} (operands : inst.OperandsBelow machine.fresh) :
    Means machine [inst] (machine.step inst) := by
  intro left right agree
  rw [Machine.stepAll_singleton]
  exact Machine.step_congr agree (le_refl _) operands

theorem means_insts
    {insts : List Inst}
    (operands : ∀ inst ∈ insts, inst.OperandsBelow machine.fresh) :
    Means machine insts (machine.stepAll insts) :=
  fun _ _ agree =>
    Machine.stepAll_entering (.refl True machine.enter) agree (le_refl _)
      operands

/-- Instructions that only log, where the entries depend on what the program
sees. -/
theorem means_of_logs
    {entries : Frame Val Mem → List (Entry Val Mem)} {mark : Nat}
    (logs : ∀ frame, Logs machine mark made frame (entries frame))
    (older : machine.fresh ≤ mark)
    (same : ∀ left right : Frame Val Mem,
      left.Agree True machine.fresh right → entries left = entries right) :
    Means machine made fun frame => .goes (noting entries frame) := by
  intro left right agree
  rcases logs left with ⟨after, ran, logged⟩
  rw [ran]
  refine .goes ((logged.mono older).symm.trans ?_)
  exact agree.logging fun _ => same left right agree

end Means

/-! ## Entries see what the program sees -/

section Entries

variable {pass : AccessInstrumentationPass} {decision : Decision}
variable {mark : Nat} {left right : Frame Val Mem}

theorem storeEntries_congr
    (agree : left.Agree True mark right) (si : Inst)
    {value pointer : Value} (valueBelow : value.Below mark)
    (pointerBelow : pointer.Below mark) :
    pass.storeEntries machine decision si value pointer left =
      pass.storeEntries machine decision si value pointer right := by
  simp only [storeEntries, Machine.eval_congr agree valueBelow,
    Machine.eval_congr agree pointerBelow, agree.memory]

theorem loadEntries_congr
    (agree : left.Agree True mark right) (li : Inst)
    {pointer : Value} (below : pointer.Below mark) :
    pass.loadEntries machine decision li pointer left =
      pass.loadEntries machine decision li pointer right := by
  simp only [loadEntries, Machine.eval_congr agree below, agree.memory]

theorem allocEntries_congr
    (agree : left.Agree True mark right) {ci : Inst} (old : ci.id < mark)
    {fn : Callee} {args : List Value} {type : Ty}
    (op : ci.op = .call (some fn) args type)
    (operands : ∀ arg ∈ args, arg.Below mark) (fits : pass.Fits ci)
    (nextInst : Option Inst) :
    pass.allocEntries machine decision ci fn args nextInst left =
      pass.allocEntries machine decision ci fn args nextInst right := by
  unfold allocEntries
  cases defined : pass.adm.getAllocDef fn.name with
  | none => rfl
  | some adef =>
      rcases fits.call op defined with ⟨sized, numbered⟩
      have sizeSame :
          machine.eval left (pass.getArgOperand ci args adef.sizeIdx) =
            machine.eval right (pass.getArgOperand ci args adef.sizeIdx) :=
        Machine.eval_congr agree (below_getArgOperand operands ci sized)
      have numSame :
          machine.eval left
              (if adef.numIdx ≠ -1 then
                pass.getArgOperand ci args adef.numIdx
              else
                getConstantFromInt 1
                  (pass.lfm.allocLogFunc.getParamType 2)) =
            machine.eval right
              (if adef.numIdx ≠ -1 then
                pass.getArgOperand ci args adef.numIdx
              else
                getConstantFromInt 1
                  (pass.lfm.allocLogFunc.getParamType 2)) := by
        refine Machine.eval_congr agree ?_
        split
        · rename_i counted
          exact below_getArgOperand operands ci (numbered counted)
        · exact below_getConstantFromInt _ _ _
      simp only [agree.memory, agree.registers ci.id old, sizeSame, numSame]

end Entries

/-! ## One visit -/

section Visit

variable {pass : AccessInstrumentationPass} {decision : Decision}
variable {fresh : Nat} {state : PassState} {inst : Inst}
variable {nextInst : Option Inst} {terminatorLoc : Option DebugLoc}
variable {made : Visit PassState Inst}

/-- What the pass is promised of an instruction of the program. -/
structure Inst.Sound
    (pass : AccessInstrumentationPass) (fresh : Nat) (inst : Inst) : Prop where
  original : inst.id < fresh
  operands : inst.OperandsBelow fresh
  fits : pass.Fits inst

/-- What a visit is to achieve: what comes before the instruction is recorded,
it is run, and then what comes after it is recorded. -/
def recordOne
    (pass : AccessInstrumentationPass) (machine : Machine Val Mem)
    (decision : Decision) (inst : Inst) (nextInst : Option Inst)
    (frame : Frame Val Mem) : Result Val Mem :=
  (machine.step inst
      (noting (pass.entriesBefore machine decision inst) frame)).bind
    fun after =>
      .goes (noting (pass.entriesAfter machine decision inst nextInst) after)

theorem recordAll_cons (rest : List Inst) (frame : Frame Val Mem) :
    pass.recordAll machine decision (inst :: rest) frame =
      (recordOne pass machine decision inst rest.head? frame).bind
        (pass.recordAll machine decision rest) := by
  rw [recordAll, recordOne, Result.bind_bind]
  rfl

/-- A visit that logs on both sides. -/
theorem means_recordOne
    {before after : List Inst}
    (hosts : machine.Hosts pass fresh) (sound : inst.Sound pass fresh)
    (logsBefore :
      Means machine before fun frame =>
        .goes (noting (pass.entriesBefore machine decision inst) frame))
    (logsAfter :
      Means machine after fun frame =>
        .goes
          (noting (pass.entriesAfter machine decision inst nextInst)
            frame)) :
    Means machine (before ++ inst :: after)
      (recordOne pass machine decision inst nextInst) := by
  have operands : inst.OperandsBelow machine.fresh := by
    rw [hosts.fresh]
    exact sound.operands
  have all := logsBefore.append ((means_inst operands).append logsAfter)
  exact all.congr fun frame => rfl

theorem noting_nil (frame : Frame Val Mem) :
    noting (fun _ => []) frame = frame := by
  simp [noting, Frame.logging]

theorem means_nothing
    {entries : Frame Val Mem → List (Entry Val Mem)}
    (none : ∀ frame, entries frame = []) :
    Means machine [] fun frame => .goes (noting entries frame) := by
  have same : entries = fun _ => [] := funext none
  rw [same]
  exact means_nil.congr fun frame => by rw [noting_nil]

theorem entriesAfter_of_not_call
    (notCall : inst.calledFunction = none) (frame : Frame Val Mem) :
    pass.entriesAfter machine decision inst nextInst frame = [] := by
  unfold entriesAfter
  split
  · rename_i op
    simp [Inst.calledFunction, op] at notCall
  · rfl

theorem kind_eq (isArg : Bool) :
    (if isArg then 'a' else 'w') = 'w' ∨
      (if isArg then 'a' else 'w') = 'a' := by
  cases isArg
  · exact Or.inl rfl
  · exact Or.inr rfl

theorem means_visitStore
    (hosts : machine.Hosts pass fresh) (young : fresh ≤ state.nextId)
    (empty : state.argLogSet = ∅) (sound : inst.Sound pass fresh)
    {value pointer : Value} (op : inst.op = .store value pointer)
    (visited :
      pass.visit decision terminatorLoc state inst nextInst = some made) :
    Means machine (made.before ++ inst :: made.after)
      (recordOne pass machine decision inst nextInst) := by
  have operands := sound.operands
  simp only [Inst.OperandsBelow, Inst.operands, op] at operands
  have valueBelow := operands value List.mem_cons_self
  have pointerBelow :=
    operands pointer (List.mem_cons_of_mem _ List.mem_cons_self)
  have quietAfter :
      Means machine [] fun frame =>
        .goes
          (noting (pass.entriesAfter machine decision inst nextInst)
            frame) :=
    means_nothing fun frame =>
      entriesAfter_of_not_call (by simp [Inst.calledFunction, op]) frame
  have entries :
      pass.entriesBefore machine decision inst =
        pass.storeEntries machine decision inst value pointer := by
    funext frame
    simp only [entriesBefore, op]
  have kind :
      (if decision.functionFilter = true then
          (false, (∅ : Finset Value))
        else
          (pass.unassignedIsArg inst.id, ∅)) =
        (!decision.functionFilter && pass.unassignedIsArg inst.id, ∅) := by
    cases decision.functionFilter <;> rfl
  have notConsumed :
      checkAndConsumeArg (∅ : Finset Value) value = (false, ∅) := by
    rw [checkAndConsumeArg, if_neg (Finset.notMem_empty _)]
  have notBoth :
      (decision.functionFilter &&
        (!decision.functionFilter && pass.unassignedIsArg inst.id)) =
          false := by
    cases decision.functionFilter <;> rfl
  simp only [visit_eq, op, visitStore_eq, empty, notConsumed, kind, notBoth,
    Bool.false_or] at visited
  cases filtered : decision.accessFilter with
  | false =>
      rw [filtered, if_neg Bool.false_ne_true] at visited
      obtain rfl := Option.some.inj visited
      refine means_recordOne hosts sound ?_ quietAfter
      rw [entries]
      exact means_nothing fun frame => by simp [storeEntries, filtered]
  | true =>
      rw [filtered, if_pos rfl] at visited
      rcases Option.map_eq_some_iff.mp visited with ⟨builder, built, rfl⟩
      refine means_recordOne hosts sound ?_ quietAfter
      rw [entries]
      refine means_of_logs ?_ (hosts.older young) ?_
      · intro frame
        simp only [storeEntries, filtered, if_true]
        exact logs_instrumentAccess_store hosts (kind_eq _)
          (valueBelow.mono young) (pointerBelow.mono young) built
      · intro left right agree
        rw [hosts.fresh] at agree
        exact storeEntries_congr agree inst valueBelow pointerBelow

theorem means_visitLoad
    (hosts : machine.Hosts pass fresh) (young : fresh ≤ state.nextId)
    (sound : inst.Sound pass fresh)
    {pointer : Value} (op : inst.op = .load pointer)
    (visited :
      pass.visit decision terminatorLoc state inst nextInst = some made) :
    Means machine (made.before ++ inst :: made.after)
      (recordOne pass machine decision inst nextInst) := by
  have operands := sound.operands
  simp only [Inst.OperandsBelow, Inst.operands, op] at operands
  have below := operands pointer List.mem_cons_self
  have quietAfter :
      Means machine [] fun frame =>
        .goes
          (noting (pass.entriesAfter machine decision inst nextInst)
            frame) :=
    means_nothing fun frame =>
      entriesAfter_of_not_call (by simp [Inst.calledFunction, op]) frame
  have entries :
      pass.entriesBefore machine decision inst =
        pass.loadEntries machine decision inst pointer := by
    funext frame
    simp only [entriesBefore, op]
  simp only [visit_eq, op, visitLoad_eq] at visited
  cases filtered : decision.accessFilter with
  | false =>
      rw [filtered, if_neg Bool.false_ne_true] at visited
      obtain rfl := Option.some.inj visited
      refine means_recordOne hosts sound ?_ quietAfter
      rw [entries]
      exact means_nothing fun frame => by simp [loadEntries, filtered]
  | true =>
      rw [filtered, if_pos rfl] at visited
      rcases Option.map_eq_some_iff.mp visited with ⟨builder, built, rfl⟩
      refine means_recordOne hosts sound ?_ quietAfter
      rw [entries]
      refine means_of_logs ?_ (hosts.older young) ?_
      · intro frame
        simp only [loadEntries, filtered, if_true]
        exact logs_instrumentAccess_load hosts (below.mono young) built
      · intro left right agree
        rw [hosts.fresh] at agree
        exact loadEntries_congr agree inst below

theorem means_visitCall
    (hosts : machine.Hosts pass fresh) (young : fresh ≤ state.nextId)
    (sound : inst.Sound pass fresh) {fn : Callee} {args : List Value}
    {type : Ty} (op : inst.op = .call (some fn) args type)
    (visited :
      pass.visit decision terminatorLoc state inst nextInst = some made) :
    Means machine (made.before ++ inst :: made.after)
      (recordOne pass machine decision inst nextInst) := by
  have operands := sound.operands
  simp only [Inst.OperandsBelow, Inst.operands, op] at operands
  rcases visit_call op terminatorLoc nextInst with ⟨insertionLoc, built⟩
  let alloc :=
    allocBuilder pass decision state inst fn args nextInst insertionLoc
  have grows : state.nextId ≤ alloc.nextId :=
    (allocBuilder_events inst fn args nextInst insertionLoc).1.grows
  obtain rfl := Option.some.inj (built.symm.trans visited)
  refine means_recordOne hosts sound ?_ ?_
  · have entries :
        pass.entriesBefore machine decision inst =
          pass.exitEntries machine decision fn := by
      funext frame
      simp only [entriesBefore, op]
    rw [entries]
    refine means_of_logs ?_ (hosts.older (young.trans grows)) ?_
    · intro frame
      change Logs machine alloc.nextId
        (exitBuilder pass decision alloc.nextId inst fn).inserted frame
        (pass.exitEntries machine decision fn frame)
      unfold exitBuilder
      by_cases logs : decision.logsEvents = true
      · rw [if_pos logs]
        exact logs_instrumentExit hosts inst fn logs
      · rw [if_neg logs]
        have notDue : ¬ (decision.logsEvents = true ∧ fn.name = "exit") :=
          fun both => logs both.1
        rw [exitEntries, if_neg notDue]
        exact logs_nil _ frame
    · intro left right agree
      simp only [exitEntries, agree.memory]
  · have entries :
        pass.entriesAfter machine decision inst nextInst =
          pass.allocEntries machine decision inst fn args nextInst := by
      funext frame
      simp only [entriesAfter, op]
    rw [entries]
    refine means_of_logs ?_ (hosts.older young) ?_
    · intro frame
      change Logs machine state.nextId alloc.inserted frame
        (pass.allocEntries machine decision inst fn args nextInst frame)
      by_cases filtered : decision.allocFilter = true
      · have isAlloc :
            alloc =
              pass.instrumentAlloc state.nextId inst fn args nextInst
                insertionLoc := if_pos filtered
        rw [isAlloc]
        exact logs_instrumentAlloc hosts
          (sound.original.trans_le young) op
          (fun arg member => (operands arg member).mono young) sound.fits
          nextInst insertionLoc filtered
      · have isNothing : alloc.inserted = [] := by
          simp [alloc, allocBuilder, filtered]
        rw [isNothing, allocEntries, if_neg filtered]
        exact logs_nil _ frame
    · intro left right agree
      rw [hosts.fresh] at agree
      exact allocEntries_congr agree sound.original op operands sound.fits
        nextInst

/-- Every visit of an instruction of the program, once no argument is queued,
makes code that records what is to be recorded about it. -/
theorem means_visit
    (hosts : machine.Hosts pass fresh) (young : fresh ≤ state.nextId)
    (empty : state.argLogSet = ∅) (sound : inst.Sound pass fresh)
    (visited :
      pass.visit decision terminatorLoc state inst nextInst = some made) :
    Means machine (made.before ++ inst :: made.after)
      (recordOne pass machine decision inst nextInst) := by
  cases op : inst.op with
  | store value pointer =>
      exact means_visitStore hosts young empty sound op visited
  | load pointer => exact means_visitLoad hosts young sound op visited
  | call callee args type =>
      cases callee with
      | some fn => exact means_visitCall hosts young sound op visited
      | none =>
          simp only [visit_eq, op] at visited
          obtain rfl := Option.some.inj visited
          exact means_recordOne hosts sound
            (means_nothing fun frame => by simp [entriesBefore, op])
            (means_nothing fun frame => by simp [entriesAfter, op])
  | _ =>
      simp only [visit_eq, op] at visited
      obtain rfl := Option.some.inj visited
      exact means_recordOne hosts sound
        (means_nothing fun frame => by simp [entriesBefore, op])
        (means_nothing fun frame => by simp [entriesAfter, op])

end Visit

end Dinamite.Instrument
