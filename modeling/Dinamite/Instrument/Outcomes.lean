import Dinamite.Instrument.Visits

/-!
# Every way a visit can go

What the loop over a block meets, with no assumption on the block: a visit
either yields nothing, because the process exits, or one of the outcomes below.
-/

namespace Dinamite.Instrument

open Dinamite.CursorLoop

namespace AccessInstrumentationPass

variable (pass : AccessInstrumentationPass)

/-- The call logs an access of the given kind to the value, which is cast by
one of the instructions if its log function needs that. -/
def LogsValue
    (function : String) (value : Value) (kind : Char) (insts : List Inst)
    (call : Inst) : Prop :=
  ∃ afunc builder address rest,
    pass.lfm.getLogFunction value.getType function = .function afunc ∧
      (castAccessed builder value (afunc.getParamType 1)).2.inserted ⊆
          insts ∧
      call.op = .call (some afunc)
        (address :: (castAccessed builder value (afunc.getParamType 1)).1 ::
          getConstantFromInt kind.toNat (afunc.getParamType 2) :: rest)
        afunc.returnType

/-- Whether a store counts as one of a queued argument, and the arguments that
stay queued. -/
def storeIsArg
    (decision : Decision) (state : PassState) (si : Inst) (value : Value) :
    Bool × Finset Value :=
  if decision.functionFilter then
    checkAndConsumeArg state.argLogSet value
  else
    (pass.unassignedIsArg si.id, state.argLogSet)

/-- A store is logged. -/
def storeLogged (decision : Decision) (isArg : Bool) : Bool :=
  decision.functionFilter && isArg || decision.accessFilter

def storeKind (isArg : Bool) : Char :=
  if isArg then 'a' else 'w'

end AccessInstrumentationPass

open AccessInstrumentationPass

/-- Neither a call nor a store. -/
def Inst.Quiet (inst : Inst) : Prop :=
  inst.calledFunction = none ∧ inst.isStore = false

theorem quiet_of_isCast
    {inst : Inst} (isCast : inst.isCast = true) : inst.Quiet := by
  refine ⟨calledFunction_of_isCast isCast, ?_⟩
  unfold Inst.isCast at isCast
  split at isCast
  · rename_i op
    simp [Inst.isStore, op]
  · cases isCast

/-- What is inserted in front of an access: the log call last, or no call when
the type of the value has no log function. -/
inductive AccessInserted
    (pass : AccessInstrumentationPass) (function : String) (value : Value)
    (kind : Char) : List Inst → Prop
  | logged {quiet : List Inst} {call : Inst}
      (noCall : ∀ inst ∈ quiet, inst.Quiet)
      (logs : pass.LogsValue function value kind quiet call) :
      AccessInserted pass function value kind (quiet ++ [call])
  | unlogged {quiet : List Inst}
      (noCall : ∀ inst ∈ quiet, inst.Quiet)
      (noFunction :
        pass.lfm.hasLogFunction value.getType function = false) :
      AccessInserted pass function value kind quiet

/-- Everything inserted is younger than what was there. -/
structure Younger (nextId : Nat) (builder : IRBuilder) : Prop where
  grows : nextId ≤ builder.nextId
  ids : ∀ inst ∈ builder.inserted, nextId ≤ inst.id

section Access

variable {pass : AccessInstrumentationPass}

theorem AccessInstrumentationPass.LogsValue.mono
    {function : String} {value : Value} {kind : Char}
    {insts more : List Inst} {call : Inst}
    (logs : pass.LogsValue function value kind insts call)
    (included : insts ⊆ more) :
    pass.LogsValue function value kind more call := by
  rcases logs with ⟨afunc, builder, address, rest, found, casts, op⟩
  exact ⟨afunc, builder, address, rest, found,
    List.Subset.trans casts included, op⟩

theorem younger_of_adds
    {nextId : Nat} {debugLoc : Option DebugLoc} {builder : IRBuilder}
    {new : List Inst} (adds : Adds ⟨nextId, debugLoc, []⟩ builder new) :
    Younger nextId builder := by
  have inserted : builder.inserted = new := by
    simpa using adds.inserted
  exact ⟨adds.grows, by rw [inserted]; exact adds.ids⟩

theorem accessInserted_of_start
    {nextId : Nat} {debugLoc : Option DebugLoc} {start builder : IRBuilder}
    {new : List Inst}
    (adds : Adds ⟨nextId, debugLoc, []⟩ start new)
    (quiet : ∀ inst ∈ new, inst.Quiet)
    {site : Nat} {function : String} {accessed last : Value} {kind : Char}
    (made :
      (match pass.lfm.getLogFunction accessed.getType function with
        | .function afunc =>
            some (pass.logAccess start site function afunc accessed last
              kind)
        | .none => some start
        | .exit => none) = some builder) :
    Younger nextId builder ∧
      AccessInserted pass function accessed kind builder.inserted := by
  cases found : pass.lfm.getLogFunction accessed.getType function with
  | exit =>
      rw [found] at made
      cases made
  | none =>
      rw [found] at made
      obtain rfl := Option.some.inj made
      refine ⟨younger_of_adds adds, ?_⟩
      have inserted : start.inserted = new := by
        simpa using adds.inserted
      rw [inserted]
      refine .unlogged quiet ?_
      simp [LogFunctionManager.hasLogFunction, found]
  | function afunc =>
      rw [found] at made
      obtain rfl := Option.some.inj made
      -- the casts of the address and of the value, then the call
      let address :=
        start.createCast .bitCast last (afunc.getParamType 0)
      let castValue :=
        castAccessed address.2 accessed (afunc.getParamType 1)
      have casts : AddsCasts start castValue.2 :=
        (addsCasts_createCast _ _ _ _).trans (addsCasts_castAccessed _ _ _)
      rcases casts with ⟨castInsts, castAdds, areCasts⟩
      have called :=
        adds_insert castValue.2
          (.call (some afunc)
            [address.1, castValue.1,
              getConstantFromInt kind.toNat (afunc.getParamType 2),
              getConstantFromInt (pass.getSourceLoc start.debugLoc).fileId
                (afunc.getParamType 3),
              getConstantFromInt (pass.getSourceLoc start.debugLoc).line
                (afunc.getParamType 4),
              getConstantFromInt (pass.getSourceLoc start.debugLoc).col
                (afunc.getParamType 5),
              getConstantFromInt
                (pass.typemap (pass.naming.getValueType last.getType))
                (afunc.getParamType 6),
              getConstantFromInt
                (pass.varmap (pass.naming.getVarName site function last))
                (afunc.getParamType 7)]
            afunc.returnType)
      have all := (adds.trans castAdds).trans called
      have inserted := all.inserted
      rw [List.nil_append] at inserted
      rw [logAccess_eq]
      refine ⟨younger_of_adds all, ?_⟩
      dsimp only
      have castsInside :
          castValue.2.inserted ⊆ new ++ castInsts := by
        rw [(adds.trans castAdds).inserted]
        exact List.Subset.refl _
      refine inserted ▸ .logged ?_
        ⟨afunc, address.2, address.1, _, found, castsInside, rfl⟩
      intro inst member
      rcases List.mem_append.mp member with before | isCast
      · exact quiet inst before
      · exact quiet_of_isCast (areCasts inst isCast)

theorem accessInserted_store
    {kind : Char} (stores : kind = 'w' ∨ kind = 'a')
    {site nextId : Nat} {function : String} {debugLoc : Option DebugLoc}
    {value pointer : Value} {builder : IRBuilder}
    (made :
      pass.instrumentAccess site function nextId debugLoc value pointer
        kind = some builder) :
    Younger nextId builder ∧
      AccessInserted pass function value kind builder.inserted := by
  simp only [instrumentAccess_eq, stores, if_true] at made
  exact accessInserted_of_start (Adds.refl _) (List.forall_mem_nil _) made

theorem accessInserted_load
    {site nextId : Nat} {function : String} {debugLoc : Option DebugLoc}
    {pointer : Value} {builder : IRBuilder}
    (made :
      pass.instrumentAccess site function nextId debugLoc pointer pointer
        'r' = some builder) :
    Younger nextId builder ∧
      ∃ value,
        AccessInserted pass function value 'r' builder.inserted := by
  have notStore : ¬ (('r' : Char) = 'w' ∨ ('r' : Char) = 'a') := by
    decide
  simp only [instrumentAccess_eq, notStore, if_false] at made
  have outcome :=
    accessInserted_of_start (adds_insert _ (.load pointer))
      (by
        intro inst member
        rw [List.mem_singleton.mp member]
        exact ⟨rfl, rfl⟩)
      made
  exact ⟨outcome.1, _, outcome.2⟩

end Access

/-! ## Visits -/

/-- What goes around a call: casts and calls of the functions that log an
allocation or an exit. -/
def EventInst (pass : AccessInstrumentationPass) (inst : Inst) : Prop :=
  inst.isStore = false ∧
    ∀ callee, inst.calledFunction = some callee →
      callee = pass.lfm.exitLogFunc ∨ callee = pass.lfm.allocLogFunc

inductive VisitOutcome
    (pass : AccessInstrumentationPass) (decision : Decision)
    (state : PassState) (item : Inst) : Visit PassState Inst → Prop
  | passed (notStore : item.isStore = false) :
      VisitOutcome pass decision state item ⟨[], [], state⟩
  | storePassed {value pointer : Value}
      (op : item.op = .store value pointer)
      (notLogged :
        storeLogged decision
          (pass.storeIsArg decision state item value).1 = false) :
      VisitOutcome pass decision state item
        ⟨[], [],
          ⟨state.nextId, (pass.storeIsArg decision state item value).2⟩⟩
  | storeLogged {value pointer : Value} {builder : IRBuilder}
      (op : item.op = .store value pointer)
      (logged :
        storeLogged decision
          (pass.storeIsArg decision state item value).1 = true)
      (younger : Younger state.nextId builder)
      (inserted :
        AccessInserted pass decision.function value
          (storeKind (pass.storeIsArg decision state item value).1)
          builder.inserted) :
      VisitOutcome pass decision state item
        ⟨builder.inserted, [],
          ⟨builder.nextId, (pass.storeIsArg decision state item value).2⟩⟩
  | loadLogged {pointer value : Value} {builder : IRBuilder}
      (op : item.op = .load pointer)
      (younger : Younger state.nextId builder)
      (inserted :
        AccessInserted pass decision.function value 'r' builder.inserted) :
      VisitOutcome pass decision state item
        ⟨builder.inserted, [], { state with nextId := builder.nextId }⟩
  | called {before after : IRBuilder}
      (notStore : item.isStore = false)
      (afterYounger : Younger state.nextId after)
      (beforeYounger : Younger after.nextId before)
      (beforeEvents : ∀ inst ∈ before.inserted, EventInst pass inst)
      (afterEvents : ∀ inst ∈ after.inserted, EventInst pass inst) :
      VisitOutcome pass decision state item
        ⟨before.inserted, after.inserted,
          { state with nextId := before.nextId }⟩

section Outcomes

variable {pass : AccessInstrumentationPass} {decision : Decision}
variable {state : PassState} {item : Inst}
variable {made : Visit PassState Inst}

theorem eventInsts_of_call
    {callee : Callee} {nextId : Nat} {debugLoc : Option DebugLoc}
    {builder : IRBuilder}
    (calls : AddsCall callee ⟨nextId, debugLoc, []⟩ builder)
    (event : callee = pass.lfm.exitLogFunc ∨
      callee = pass.lfm.allocLogFunc) :
    Younger nextId builder ∧
      ∀ inst ∈ builder.inserted, EventInst pass inst := by
  rcases addsCall_inserted calls with ⟨grows, ids, only⟩
  refine ⟨⟨grows, ids⟩, ?_⟩
  intro inst member
  rcases only inst member with isCast | called
  · rcases quiet_of_isCast isCast with ⟨noCall, notStore⟩
    refine ⟨notStore, ?_⟩
    intro other calledOther
    rw [noCall] at calledOther
    cases calledOther
  · refine ⟨?_, ?_⟩
    · unfold Inst.calledFunction at called
      split at called
      · rename_i op
        simp [Inst.isStore, op]
      · cases called
    · intro other calledOther
      obtain rfl := Option.some.inj (called.symm.trans calledOther)
      exact event

theorem eventInsts_of_nothing
    (nextId : Nat) (debugLoc : Option DebugLoc) :
    Younger nextId ⟨nextId, debugLoc, []⟩ ∧
      ∀ inst ∈ (⟨nextId, debugLoc, []⟩ : IRBuilder).inserted,
        EventInst pass inst :=
  ⟨⟨le_refl _, nofun⟩, nofun⟩

theorem allocBuilder_events
    (ci : Inst) (fn : Callee) (args : List Value) (nextInst : Option Inst)
    (insertionLoc : Option DebugLoc) :
    Younger state.nextId
        (allocBuilder pass decision state ci fn args nextInst
          insertionLoc) ∧
      ∀ inst ∈ (allocBuilder pass decision state ci fn args nextInst
        insertionLoc).inserted, EventInst pass inst := by
  unfold allocBuilder
  split
  · cases defined : pass.adm.getAllocDef fn.name with
    | none =>
        rw [instrumentAlloc_undefined defined]
        exact eventInsts_of_nothing _ _
    | some adef =>
        exact eventInsts_of_call (instrumentAlloc_defined defined _ _ _ _ _)
          (Or.inr rfl)
  · exact eventInsts_of_nothing _ _

theorem exitBuilder_events
    (nextId : Nat) (ci : Inst) (fn : Callee) :
    Younger nextId (exitBuilder pass decision nextId ci fn) ∧
      ∀ inst ∈ (exitBuilder pass decision nextId ci fn).inserted,
        EventInst pass inst := by
  unfold exitBuilder
  split
  · by_cases isExit : fn.name = "exit"
    · exact eventInsts_of_call (instrumentExit_exit isExit _ _) (Or.inl rfl)
    · rw [instrumentExit_other isExit]
      exact eventInsts_of_nothing _ _
  · exact eventInsts_of_nothing _ _

theorem outcome_of_visitStore
    {value pointer : Value} (op : item.op = .store value pointer)
    (visited :
      pass.visitStore decision state item value pointer = some made) :
    VisitOutcome pass decision state item made := by
  have unfolded :
      (if storeLogged decision
          (pass.storeIsArg decision state item value).1 then
        (pass.instrumentAccess item.id decision.function state.nextId
          item.debugLoc value pointer
          (storeKind (pass.storeIsArg decision state item value).1)).map
            fun builder =>
              (⟨builder.inserted, [],
                ⟨builder.nextId,
                  (pass.storeIsArg decision state item value).2⟩⟩ :
                Visit PassState Inst)
      else
        some ⟨[], [],
          ⟨state.nextId,
            (pass.storeIsArg decision state item value).2⟩⟩) =
        some made :=
    (pass.visitStore_eq decision state item value pointer).symm.trans visited
  split at unfolded
  case isTrue logged =>
    rcases Option.map_eq_some_iff.mp unfolded with ⟨builder, instrumented, rfl⟩
    have stores :
        storeKind (pass.storeIsArg decision state item value).1 = 'w' ∨
          storeKind (pass.storeIsArg decision state item value).1 =
            'a' := by
      unfold storeKind
      split
      · exact Or.inr rfl
      · exact Or.inl rfl
    rcases accessInserted_store stores instrumented with ⟨younger, inserted⟩
    exact .storeLogged op logged younger inserted
  case isFalse notLogged =>
    obtain rfl := Option.some.inj unfolded
    exact .storePassed op (Bool.eq_false_iff.mpr notLogged)

theorem outcome_of_visit
    {terminatorLoc : Option DebugLoc} {nextInst : Option Inst}
    (visited :
      pass.visit decision terminatorLoc state item nextInst = some made) :
    VisitOutcome pass decision state item made := by
  cases op : item.op with
  | store value pointer =>
      simp only [visit_eq, op] at visited
      exact outcome_of_visitStore op visited
  | load pointer =>
      have notStore : item.isStore = false := by
        simp [Inst.isStore, op]
      simp only [visit_eq, op, visitLoad_eq] at visited
      split at visited
      · rcases Option.map_eq_some_iff.mp visited with
          ⟨builder, instrumented, rfl⟩
        rcases accessInserted_load instrumented with ⟨younger, value, inserted⟩
        exact .loadLogged op younger inserted
      · obtain rfl := Option.some.inj visited
        exact .passed notStore
  | call callee args type =>
      have notStore : item.isStore = false := by
        simp [Inst.isStore, op]
      cases callee with
      | none =>
          simp only [visit_eq, op] at visited
          obtain rfl := Option.some.inj visited
          exact .passed notStore
      | some fn =>
          rcases visit_call op terminatorLoc nextInst with
            ⟨insertionLoc, built⟩
          let after :=
            allocBuilder pass decision state item fn args nextInst
              insertionLoc
          obtain rfl := Option.some.inj (built.symm.trans visited)
          rcases @allocBuilder_events pass decision state item fn args nextInst
              insertionLoc with
            ⟨afterYounger, afterEvents⟩
          rcases @exitBuilder_events pass decision after.nextId item fn with
            ⟨beforeYounger, beforeEvents⟩
          exact .called notStore afterYounger beforeYounger beforeEvents
            afterEvents
  | _ =>
      simp only [visit_eq, op] at visited
      obtain rfl := Option.some.inj visited
      exact .passed (by simp [Inst.isStore, op])

/-! ## What all outcomes have in common -/

theorem AccessInserted.not_store
    {function : String} {value : Value} {kind : Char} {insts : List Inst}
    (inserted : AccessInserted pass function value kind insts) :
    ∀ inst ∈ insts, inst.isStore = false := by
  intro inst member
  cases inserted with
  | logged noCall logs =>
      rcases List.mem_append.mp member with quiet | last
      · exact (noCall inst quiet).2
      · obtain rfl := List.mem_singleton.mp last
        rcases logs with ⟨_, _, _, _, _, _, op⟩
        simp [Inst.isStore, op]
  | unlogged noCall _ => exact (noCall inst member).2

theorem AccessInserted.calls_access
    {function : String} {value : Value} {kind : Char} {insts : List Inst}
    (inserted : AccessInserted pass function value kind insts)
    {inst : Inst} (member : inst ∈ insts) {callee : Callee}
    (calls : inst.calledFunction = some callee) :
    callee ∈ pass.lfm.accessFunctions := by
  cases inserted with
  | logged noCall logs =>
      rcases List.mem_append.mp member with quiet | last
      · rw [(noCall inst quiet).1] at calls
        cases calls
      · obtain rfl := List.mem_singleton.mp last
        rcases logs with ⟨afunc, _, _, _, found, _, op⟩
        simp only [Inst.calledFunction, op, Option.some.injEq] at calls
        subst calls
        exact LogFunctionManager.logFunction_mem found
  | unlogged noCall _ =>
      rw [(noCall inst member).1] at calls
      cases calls

theorem VisitOutcome.grows
    (outcome : VisitOutcome pass decision state item made) :
    state.nextId ≤ made.state.nextId := by
  cases outcome with
  | passed => exact le_refl _
  | storePassed => exact le_refl _
  | storeLogged op logged younger inserted => exact younger.grows
  | loadLogged op younger inserted => exact younger.grows
  | called notStore after before => exact after.grows.trans before.grows

theorem VisitOutcome.ids
    (outcome : VisitOutcome pass decision state item made) :
    ∀ inst ∈ made.before ++ made.after, state.nextId ≤ inst.id := by
  cases outcome with
  | passed => exact nofun
  | storePassed => exact nofun
  | storeLogged op logged younger inserted =>
      simpa using younger.ids
  | loadLogged op younger inserted =>
      simpa using younger.ids
  | called notStore after before =>
      intro inst member
      rcases List.mem_append.mp member with isBefore | isAfter
      · exact after.grows.trans (before.ids inst isBefore)
      · exact after.ids inst isAfter

theorem VisitOutcome.not_store
    (outcome : VisitOutcome pass decision state item made) :
    ∀ inst ∈ made.before ++ made.after, inst.isStore = false := by
  cases outcome with
  | passed => exact nofun
  | storePassed => exact nofun
  | storeLogged op logged younger inserted =>
      simpa using inserted.not_store
  | loadLogged op younger inserted =>
      simpa using inserted.not_store
  | called notStore after before beforeEvents afterEvents =>
      intro inst member
      rcases List.mem_append.mp member with isBefore | isAfter
      · exact (beforeEvents inst isBefore).1
      · exact (afterEvents inst isAfter).1

/-- Every inserted call logs an access, an allocation or an exit. -/
theorem VisitOutcome.calls
    (outcome : VisitOutcome pass decision state item made)
    {inst : Inst} (member : inst ∈ made.before ++ made.after)
    {callee : Callee} (calls : inst.calledFunction = some callee) :
    callee ∈ pass.lfm.accessFunctions ∨
      callee = pass.lfm.exitLogFunc ∨ callee = pass.lfm.allocLogFunc := by
  cases outcome with
  | passed => cases member
  | storePassed => cases member
  | storeLogged op logged younger inserted =>
      rw [List.append_nil] at member
      exact Or.inl (inserted.calls_access member calls)
  | loadLogged op younger inserted =>
      rw [List.append_nil] at member
      exact Or.inl (inserted.calls_access member calls)
  | called notStore after before beforeEvents afterEvents =>
      rcases List.mem_append.mp member with isBefore | isAfter
      · exact Or.inr ((beforeEvents inst isBefore).2 callee calls)
      · exact Or.inr ((afterEvents inst isAfter).2 callee calls)

end Outcomes

/-! ## What is inserted -/

/-- What a visit inserts, by the kind of the visited instruction. -/
inductive VisitInserts
    (pass : AccessInstrumentationPass) (decision : Decision)
    (state : PassState) (item : Inst) (nextInst : Option Inst) :
    Visit PassState Inst → Prop
  | nothing {later : PassState} :
      VisitInserts pass decision state item nextInst ⟨[], [], later⟩
  | store {value pointer : Value} {kind : Char} {builder : IRBuilder}
      {later : PassState} (op : item.op = .store value pointer)
      (stores : kind = 'w' ∨ kind = 'a')
      (instrumented :
        pass.instrumentAccess item.id decision.function state.nextId
          item.debugLoc value pointer kind = some builder) :
      VisitInserts pass decision state item nextInst
        ⟨builder.inserted, [], later⟩
  | load {pointer : Value} {builder : IRBuilder} {later : PassState}
      (op : item.op = .load pointer)
      (instrumented :
        pass.instrumentAccess item.id decision.function state.nextId
          item.debugLoc pointer pointer 'r' = some builder) :
      VisitInserts pass decision state item nextInst
        ⟨builder.inserted, [], later⟩
  | call {fn : Callee} {args : List Value} {type : Ty}
      {insertionLoc : Option DebugLoc} {nextId : Nat} {later : PassState}
      (op : item.op = .call (some fn) args type) :
      VisitInserts pass decision state item nextInst
        ⟨(exitBuilder pass decision nextId item fn).inserted,
          (allocBuilder pass decision state item fn args nextInst
            insertionLoc).inserted, later⟩

theorem visitInserts_of_visit
    {pass : AccessInstrumentationPass} {decision : Decision}
    {state : PassState} {item : Inst} {nextInst : Option Inst}
    {terminatorLoc : Option DebugLoc} {made : Visit PassState Inst}
    (visited :
      pass.visit decision terminatorLoc state item nextInst = some made) :
    VisitInserts pass decision state item nextInst made := by
  cases op : item.op with
  | store value pointer =>
      simp only [visit_eq, op, visitStore_eq] at visited
      generalize
        (if decision.functionFilter = true then
          checkAndConsumeArg state.argLogSet value
        else
          (pass.unassignedIsArg item.id, state.argLogSet)) = isArg
        at visited
      split at visited
      · rcases Option.map_eq_some_iff.mp visited with
          ⟨builder, instrumented, rfl⟩
        refine .store op ?_ instrumented
        split
        · exact Or.inr rfl
        · exact Or.inl rfl
      · obtain rfl := Option.some.inj visited
        exact .nothing
  | load pointer =>
      simp only [visit_eq, op, visitLoad_eq] at visited
      split at visited
      · rcases Option.map_eq_some_iff.mp visited with
          ⟨builder, instrumented, rfl⟩
        exact .load op instrumented
      · obtain rfl := Option.some.inj visited
        exact .nothing
  | call callee args type =>
      cases callee with
      | none =>
          simp only [visit_eq, op] at visited
          obtain rfl := Option.some.inj visited
          exact .nothing
      | some fn =>
          rcases visit_call op terminatorLoc nextInst with ⟨_, built⟩
          obtain rfl := Option.some.inj (built.symm.trans visited)
          exact .call op
  | cast | alloca | getElementPtr | phi | landingPad | other =>
      simp only [visit_eq, op] at visited
      obtain rfl := Option.some.inj visited
      exact .nothing

end Dinamite.Instrument
