import Dinamite.Instrument.Arguments

/-!
# The access kind of a store

Where the events of a function are logged, `isArg` is assigned before the kind
is chosen from it.  Elsewhere it keeps whatever it held.
-/

namespace Dinamite.Instrument

open Dinamite.CursorLoop
open AccessInstrumentationPass

/-! ## The right kinds -/

/-- An argument if the function's events are logged and the value is selected
and not stored before. -/
def rightKind
    (decision : Decision) (args : List Value) (earlier : List Inst)
    (value : Value) : Char :=
  if decision.functionFilter = true ∧ value ∈ args ∧
      value ∉ storedValues earlier then
    'a'
  else
    'w'

/-- An inserted call that logs an access. -/
def AccessInstrumentationPass.AccessCall
    (pass : AccessInstrumentationPass) (fresh : Nat) (inst : Inst) : Prop :=
  fresh ≤ inst.id ∧ pass.lfm.logsAccess inst = true

/-- A store is logged with the right kind, if a log call stands in front of
it. -/
def KindRight
    (pass : AccessInstrumentationPass) (decision : Decision) (fresh : Nat)
    (args : List Value) (earlier : List Inst) (store call : Inst) : Prop :=
  ∀ value, store.storedValue = some value → pass.AccessCall fresh call →
    pass.LogsValue decision.function value
      (rightKind decision args earlier value) earlier call

/-- Every store is logged with the right kind. -/
def StoreKinds
    (pass : AccessInstrumentationPass) (decision : Decision) (fresh : Nat)
    (args : List Value) (insts : List Inst) : Prop :=
  ∀ front call store back, insts = front ++ call :: store :: back →
    KindRight pass decision fresh args (front ++ [call]) store call

section Kinds

variable {pass : AccessInstrumentationPass} {decision : Decision}
variable {fresh : Nat} {args : List Value} {insts : List Inst} {inst : Inst}

theorem StoreKinds.snoc
    (kinds : StoreKinds pass decision fresh args insts)
    (last : ∀ call ∈ insts.getLast?,
      KindRight pass decision fresh args insts inst call) :
    StoreKinds pass decision fresh args (insts ++ [inst]) := by
  intro front call store back split
  rcases List.eq_nil_or_concat back with rfl | ⟨before, final, rfl⟩
  · have same :
        insts ++ [inst] = (front ++ [call]) ++ [store] := by
      simpa using split
    rcases List.append_inj' same rfl with ⟨rfl, single⟩
    obtain rfl := (List.cons.inj single).1
    exact last call (by simp)
  · have same :
        insts ++ [inst] = (front ++ call :: store :: before) ++ [final] := by
      simpa using split
    rcases List.append_inj' same rfl with ⟨rfl, _⟩
    exact kinds front call store before rfl

theorem kindRight_of_not_store
    (notStore : inst.isStore = false) (call : Inst) :
    KindRight pass decision fresh args insts inst call := by
  intro value stored
  rw [storedValue_of_not_store notStore] at stored
  cases stored

theorem StoreKinds.append
    (kinds : StoreKinds pass decision fresh args insts)
    {more : List Inst} (notStore : ∀ inst ∈ more, inst.isStore = false) :
    StoreKinds pass decision fresh args (insts ++ more) := by
  induction more generalizing insts with
  | nil => rwa [List.append_nil]
  | cons inst more inductionHypothesis =>
      have one :=
        kinds.snoc fun call _ =>
          @kindRight_of_not_store pass decision fresh args insts inst
            (notStore inst List.mem_cons_self) call
      have all :=
        inductionHypothesis one fun other member =>
          notStore other (List.mem_cons_of_mem _ member)
      rwa [List.append_assoc] at all

/-- Nothing of an access is a log call but the last instruction. -/
theorem AccessInserted.getLast
    {function : String} {value : Value} {kind : Char}
    (inserted : AccessInserted pass function value kind insts) :
    ∀ call ∈ insts.getLast?, pass.AccessCall fresh call →
      pass.LogsValue function value kind insts call := by
  intro call isLast isAccess
  cases inserted with
  | @logged quiet last noCall logs =>
      rw [List.getLast?_append, List.getLast?_singleton] at isLast
      obtain rfl := Option.some.inj isLast
      exact logs.mono (List.subset_append_left _ _)
  | unlogged noCall _ =>
      have none := (noCall call (List.mem_of_getLast? isLast)).1
      have access := isAccess.2
      rw [LogFunctionManager.logsAccess, none] at access
      cases access

end Kinds

/-! ## The loop -/

/-- Behind the cursor: the kinds are right, and the queue holds the arguments
that have not been stored. -/
structure KindsSoFar
    (pass : AccessInstrumentationPass) (decision : Decision) (fresh : Nat)
    (args : List Value) (state : PassState) (done : List Inst) : Prop where
  older : fresh ≤ state.nextId
  queue :
    decision.functionFilter = true →
      state.argLogSet = args.toFinset \ (storedValues done).toFinset
  kinds : StoreKinds pass decision fresh args done
  last : ∀ call ∈ done.getLast?, ¬ pass.AccessCall fresh call

/-- `isArg` is assigned, or not read, or read for nothing. -/
def Determined
    (pass : AccessInstrumentationPass) (decision : Decision)
    (insts : List Inst) : Prop :=
  ∀ inst ∈ insts, ∀ value, inst.storedValue = some value →
    decision.functionFilter = true ∨ decision.accessFilter = false ∨
      pass.lfm.hasLogFunction value.getType decision.function = false

/-- Ahead of the cursor. -/
structure KindsAhead
    (pass : AccessInstrumentationPass) (decision : Decision) (fresh : Nat)
    (rest : List Inst) : Prop where
  noAccess : ∀ inst ∈ rest, ¬ pass.AccessCall fresh inst
  determined : Determined pass decision rest

section Loop

variable {pass : AccessInstrumentationPass} {decision : Decision}
variable {fuel fresh : Nat} {args : List Value} {state final : PassState}
variable {item : Inst} {done rest : List Inst}
variable {made : Visit PassState Inst}

theorem not_accessCall_of_calls
    {inst : Inst}
    (calls : ∀ callee, inst.calledFunction = some callee →
      callee ∈ pass.lfm.eventFunctions) :
    ¬ pass.AccessCall fresh inst := by
  intro isAccess
  rcases isAccess with ⟨_, access⟩
  rw [LogFunctionManager.logsAccess, Option.any_eq_true_iff_get] at access
  rcases access with ⟨isSome, contained⟩
  exact not_access_of_event (calls _ (Option.some_get isSome).symm)
    (List.contains_iff_mem.mp contained)

theorem after_not_accessCall
    (outcome : VisitOutcome pass decision state item made) :
    ∀ inst ∈ made.after, ¬ pass.AccessCall fresh inst := by
  cases outcome with
  | called notStore afterYounger beforeYounger beforeEvents afterEvents =>
      intro inst member
      apply not_accessCall_of_calls
      intro callee called
      rcases (afterEvents inst member).2 callee called with rfl | rfl
      · exact LogFunctionManager.exitLogFunc_mem
      · exact LogFunctionManager.allocLogFunc_mem
  | _ =>
      intro inst member
      cases member

theorem KindsAhead.step
    (ahead : KindsAhead pass decision fresh (item :: rest))
    (outcome : VisitOutcome pass decision state item made) :
    KindsAhead pass decision fresh (made.after ++ rest) := by
  refine ⟨?_, ?_⟩
  · intro inst member
    rcases List.mem_append.mp member with isAfter | later
    · exact after_not_accessCall outcome inst isAfter
    · exact ahead.noAccess inst (List.mem_cons_of_mem _ later)
  · intro inst member value stored
    rcases List.mem_append.mp member with isAfter | later
    · rw [storedValue_of_not_store
        (outcome.not_store inst (List.mem_append_right _ isAfter))] at stored
      cases stored
    · exact ahead.determined inst (List.mem_cons_of_mem _ later) value stored

theorem not_accessCall_of_eventCall
    {function : String} {event : FnEvents} {call : Inst}
    (isEvent : pass.EventCall function event call) :
    ¬ pass.AccessCall fresh call := by
  apply not_accessCall_of_calls
  intro callee called
  simp only [Inst.calledFunction, show call.op = _ from isEvent,
    Option.some.injEq] at called
  rw [← called]
  exact eventLogFunc_mem function event

theorem KindsAhead.append_end
    (ahead : KindsAhead pass decision fresh rest)
    (nextId : Nat) (terminator : Terminator) (older : fresh ≤ nextId) :
    KindsAhead pass decision fresh
      (rest ++ (pass.endEvent decision nextId terminator).inserted) := by
  rcases @endEvent_erased pass decision fresh nextId terminator older with
    ⟨_, noStore⟩
  refine ⟨?_, ?_⟩
  · intro inst member
    rcases List.mem_append.mp member with isAhead | isEnd
    · exact ahead.noAccess inst isAhead
    · rw [endEvent] at isEnd
      split at isEnd
      · rcases @instrumentFnEvent_inserted pass decision.function nextId
            terminator.debugLoc .fnEnd with
          ⟨call, inserted, _, event⟩
        rw [inserted] at isEnd
        obtain rfl := List.mem_singleton.mp isEnd
        exact not_accessCall_of_eventCall event
      · cases isEnd
  · intro inst member value stored
    rcases List.mem_append.mp member with isAhead | isEnd
    · exact ahead.determined inst isAhead value stored
    · rw [storedValue_of_not_store (noStore inst isEnd)] at stored
      cases stored

/-- The kind that is logged is the right one, whatever `isArg` held before. -/
theorem KindsSoFar.storeKind_eq
    (soFar : KindsSoFar pass decision fresh args state done)
    {value : Value}
    (determined : decision.functionFilter = true ∨
      decision.accessFilter = false ∨
        pass.lfm.hasLogFunction value.getType decision.function = false)
    (logged :
      storeLogged decision
        (pass.storeIsArg decision state item value).1 = true)
    (found :
      pass.lfm.hasLogFunction value.getType decision.function = true) :
    storeKind (pass.storeIsArg decision state item value).1 =
      rightKind decision args done value := by
  cases filtered : decision.functionFilter with
  | true =>
      have isArg :
          (pass.storeIsArg decision state item value).1 =
            decide (value ∈ args ∧ value ∉ storedValues done) := by
        rw [storeIsArg, if_pos filtered, checkAndConsumeArg_eq,
          soFar.queue filtered]
        simp
      rw [isArg, storeKind, rightKind, filtered]
      simp
  | false =>
      -- the && stops before the assignment; the kind is read only for a store
      -- that is logged
      rw [filtered] at determined
      rcases determined with assigned | notRead | notFound
      · cases assigned
      · simp [storeLogged, filtered, notRead] at logged
      · rw [found] at notFound
        cases notFound

/-- The call in front of a store logs the right kind. -/
theorem KindsSoFar.kindRight
    (soFar : KindsSoFar pass decision fresh args state done)
    (ahead : KindsAhead pass decision fresh (item :: rest))
    (outcome : VisitOutcome pass decision state item made) :
    ∀ call ∈ (done ++ made.before).getLast?,
      KindRight pass decision fresh args (done ++ made.before) item call := by
  have notStore :
      item.isStore = false → ∀ call ∈ (done ++ made.before).getLast?,
        KindRight pass decision fresh args (done ++ made.before) item
          call :=
    fun isOther call _ => kindRight_of_not_store isOther call
  have unlogged :
      made.before = [] → ∀ call ∈ (done ++ made.before).getLast?,
        KindRight pass decision fresh args (done ++ made.before) item
          call := by
    intro nothing call isLast _ _ isAccess
    rw [nothing, List.append_nil] at isLast
    exact absurd isAccess (soFar.last call isLast)
  have storedBefore :
      storedValues (done ++ made.before) = storedValues done := by
    have beforeNoStore : ∀ inst ∈ made.before, inst.isStore = false :=
      fun inst member =>
        outcome.not_store inst (List.mem_append_left _ member)
    rw [storedValues_append, storedValues_eq_nil beforeNoStore,
      List.append_nil]
  cases outcome with
  | passed isOther => exact notStore isOther
  | storePassed op notLogged => exact unlogged rfl
  | @storeLogged value pointer builder op logged younger inserted =>
      rcases isStore_of_store op with ⟨isStore, stored⟩
      cases isLast : builder.inserted.getLast? with
      | none =>
          exact unlogged (List.getLast?_eq_none_iff.mp isLast)
      | some last =>
          intro call isCall other storesOther isAccess
          rw [List.getLast?_append, isLast] at isCall
          obtain rfl := Option.some.inj isCall
          obtain rfl := Option.some.inj (stored.symm.trans storesOther)
          have logs := inserted.getLast last isLast isAccess
          have found :
              pass.lfm.hasLogFunction value.getType decision.function =
                true := by
            rcases logs with ⟨afunc, _, _, _, found, _⟩
            simp [LogFunctionManager.hasLogFunction, found]
          have determined :=
            ahead.determined item List.mem_cons_self value stored
          rw [soFar.storeKind_eq determined logged found] at logs
          rw [rightKind, storedBefore]
          exact logs.mono (List.subset_append_right _ _)
  | loadLogged op younger inserted =>
      exact notStore (by simp [Inst.isStore, op])
  | called isOther _ _ _ _ => exact notStore isOther

theorem KindsSoFar.step
    (soFar : KindsSoFar pass decision fresh args state done)
    (ahead : KindsAhead pass decision fresh (item :: rest))
    (outcome : VisitOutcome pass decision state item made) :
    KindsSoFar pass decision fresh args made.state
      (done ++ made.before ++ [item]) := by
  have beforeNoStore : ∀ inst ∈ made.before, inst.isStore = false :=
    fun inst member => outcome.not_store inst (List.mem_append_left _ member)
  refine ⟨soFar.older.trans outcome.grows, ?_, ?_, ?_⟩
  · intro filtered
    have one : storedValues [item] = item.storedValue.toList := by
      cases stored : item.storedValue with
      | none => simp [storedValues, stored]
      | some value => simp [storedValues, stored]
    have oneSet :
        item.storedValue.toList.toFinset = item.storedValue.toFinset := by
      cases item.storedValue with
      | none => rfl
      | some value => rfl
    rw [outcome.argLogSet, if_pos filtered, soFar.queue filtered,
      storedValues_append, storedValues_append,
      storedValues_eq_nil beforeNoStore, List.append_nil, one,
      List.toFinset_append, oneSet, sdiff_sdiff_left]
    rfl
  · exact (soFar.kinds.append beforeNoStore).snoc
      (soFar.kindRight ahead outcome)
  · intro call isLast
    rw [List.getLast?_append, List.getLast?_singleton] at isLast
    obtain rfl := Option.some.inj isLast
    exact ahead.noAccess item List.mem_cons_self

/-- The loop over a block, behind the blocks in front of it. -/
theorem kinds_of_instrumentBlock
    {block target : Block} {earlier : List Inst}
    (ran :
      pass.instrumentBlock fuel decision state block =
        some (target, final))
    (soFar : KindsSoFar pass decision fresh args state earlier)
    (ahead : KindsAhead pass decision fresh block.insts) :
    KindsSoFar pass decision fresh args final (earlier ++ target.insts) := by
  have ended :=
    instrumentBlock_invariant
      (fun now done rest =>
        KindsSoFar pass decision fresh args now (earlier ++ done) ∧
          KindsAhead pass decision fresh rest)
      ?_ ran ?_
  · exact ended.2.1
  · intro now done item rest made outcome holds
    rcases holds with ⟨soFarNow, aheadNow⟩
    refine ⟨?_, aheadNow.step outcome⟩
    have next := soFarNow.step aheadNow outcome
    simpa only [List.append_assoc] using next
  · refine ⟨?_, ahead.append_end _ _ soFar.older⟩
    rw [List.append_nil]
    exact ⟨soFar.older.trans (endEvent_younger _ _ _).grows, soFar.queue,
      soFar.kinds, soFar.last⟩

theorem kinds_of_instrumentBlocks
    {blocks results : List Block} {earlier : List Inst}
    (ran :
      pass.instrumentBlocks fuel decision state blocks =
        some (results, final))
    (soFar : KindsSoFar pass decision fresh args state earlier)
    (ahead : ∀ block ∈ blocks, KindsAhead pass decision fresh block.insts) :
    KindsSoFar pass decision fresh args final
      (earlier ++ results.flatMap Block.insts) := by
  refine
    @instrumentBlocks_induction pass fuel decision
      (fun sources targets now =>
        (∀ block ∈ sources, KindsAhead pass decision fresh block.insts) →
          KindsSoFar pass decision fresh args now
            (earlier ++ targets.flatMap Block.insts))
      ?_ [] [] blocks results state final ran ?_ ahead
  · intro sources targets now block target next blockRan reached allAhead
    have soFarNow :=
      reached fun other member =>
        allAhead other (List.mem_append_left _ member)
    have later :=
      kinds_of_instrumentBlock blockRan soFarNow (allAhead block (by simp))
    simpa using later
  · intro _
    simpa using soFar

end Loop

/-! ## Functions -/

section Functions

variable {pass : AccessInstrumentationPass} {fuel : Nat} {module : Module}
variable {source target : Function} {state final : PassState}

theorem kindsAhead_of_original
    {decision : Decision} {fresh : Nat} {insts : List Inst}
    (original : ∀ inst ∈ insts, inst.id < fresh)
    (determined : Determined pass decision insts) :
    KindsAhead pass decision fresh insts :=
  ⟨fun inst member isAccess =>
    absurd isAccess.1 (not_le.mpr (original inst member)), determined⟩

theorem EntryPrepared.kindsAhead
    {fresh : Nat} {entry : Block} {injected begins : List Inst}
    {prepared : Block × PassState}
    (ready :
      EntryPrepared pass source fresh entry injected begins prepared)
    (original : ∀ inst ∈ entry.insts, inst.id < fresh)
    (determined : Determined pass (pass.decision source) entry.insts) :
    KindsAhead pass (pass.decision source) fresh prepared.1.insts := by
  have beginEvents :
      ∀ inst ∈ begins, pass.EventCall source.name .fnBegin inst := by
    intro inst member
    cases logs : (pass.decision source).logsEvents with
    | true =>
        rcases ready.beginEvent logs with ⟨call, rfl, _, event⟩
        rwa [List.mem_singleton.mp member]
    | false =>
        rw [ready.noEvent logs] at member
        cases member
  have program := kindsAhead_of_original original determined
  refine ⟨?_, ?_⟩
  · intro inst member
    rw [ready.block, mem_insertFirst, mem_insertFirst] at member
    rcases member with (inEntry | inInjected) | inBegins
    · exact program.noAccess inst inEntry
    · apply not_accessCall_of_calls
      intro callee called
      rcases ready.injectedOps inst inInjected with
        ⟨value, pointer, op⟩ | ⟨type, op⟩
      · simp [Inst.calledFunction, op] at called
      · simp [Inst.calledFunction, op] at called
    · exact not_accessCall_of_eventCall (beginEvents inst inBegins)
  · intro inst member value stored
    rw [ready.block, mem_insertFirst, mem_insertFirst] at member
    rcases member with (inEntry | inInjected) | inBegins
    · exact determined inst inEntry value stored
    · by_contra undetermined
      -- without events no argument is stored
      have isPending : value ∈ pending fresh injected := by
        refine List.mem_filterMap.mpr ⟨inst, inInjected, ?_⟩
        rcases ready.injectedOps inst inInjected with
          ⟨other, pointer, op⟩ | ⟨type, op⟩
        · simp only [Inst.storedValue, op] at stored
          simpa [op, ready.injectedIds inst inInjected] using stored
        · simp [Inst.storedValue, op] at stored
      rw [ready.injectedValues, injectedArgs] at isPending
      split at isPending
      · rename_i filtered
        exact undetermined (Or.inl filtered)
      · cases isPending
    · have op := show inst.op = _ from beginEvents inst inBegins
      simp [Inst.storedValue, op] at stored

/-- The kinds in a function, if no `isArg` that was not assigned matters. -/
theorem kinds_of_determined
    (instruments : Instruments pass fuel module source state target final)
    (determined : ∀ block ∈ source.blocks,
      Determined pass (pass.decision source) block.insts) :
    StoreKinds pass (pass.decision source) module.nextId
      (pass.selectedFrom source.name 0 source.args)
      (target.blocks.flatMap Block.insts) := by
  cases blocks : source.blocks with
  | nil =>
      obtain rfl := instruments.eq_of_no_body blocks
      intro front call store back split
      simp [blocks] at split
  | cons entry rest =>
      rcases instruments.of_body blocks with
        ⟨injected, begins, prepared, first, middle, others, rfl, ready,
          entryRan, _, othersRan⟩
      have original := instruments.original
      rw [blocks] at original determined
      have start :
          KindsSoFar pass (pass.decision source) module.nextId
            (pass.selectedFrom source.name 0 source.args) prepared.2 [] := by
        refine ⟨ready.older, ?_, ?_, nofun⟩
        · intro filtered
          rw [ready.queue, injectedArgs, if_pos filtered]
          simp [storedValues]
        · intro front call store back split
          simp at split
      have entryKinds :=
        kinds_of_instrumentBlock entryRan start
          (ready.kindsAhead (original entry List.mem_cons_self)
            (determined entry List.mem_cons_self))
      have all :=
        kinds_of_instrumentBlocks othersRan entryKinds
          fun block member =>
            kindsAhead_of_original
              (original block (List.mem_cons_of_mem _ member))
              (determined block (List.mem_cons_of_mem _ member))
      exact all.kinds

end Functions

/-! ## Reading what was not assigned -/

section Unassigned

variable {pass : AccessInstrumentationPass} {decision : Decision}
variable {fuel fresh : Nat} {state final : PassState}
variable {store : Inst} {value pointer : Value}

/-- Among the instructions the store stands behind a call that logs it as an
argument. -/
def LoggedAsArgument
    (pass : AccessInstrumentationPass) (function : String) (fresh : Nat)
    (store : Inst) (value : Value) (insts : List Inst) : Prop :=
  ∃ front call back,
    insts = front ++ call :: store :: back ∧ pass.AccessCall fresh call ∧
      pass.LogsValue function value 'a' front call

theorem LoggedAsArgument.extend
    {function : String} {insts : List Inst}
    (logged :
      LoggedAsArgument pass function fresh store value insts)
    (before after : List Inst) :
    LoggedAsArgument pass function fresh store value
      (before ++ insts ++ after) := by
  rcases logged with ⟨front, call, back, rfl, isAccess, logs⟩
  exact ⟨before ++ front, call, back ++ after, by simp, isAccess,
    logs.mono (List.subset_append_right _ _)⟩

theorem accessCall_of_logsValue
    {function : String} {kind : Char} {insts : List Inst} {call : Inst}
    (young : fresh ≤ call.id)
    (logs : pass.LogsValue function value kind insts call) :
    pass.AccessCall fresh call := by
  rcases logs with ⟨afunc, _, _, _, found, _, op⟩
  have isAccess : pass.lfm.accessFunctions.contains afunc = true :=
    List.contains_iff_mem.mpr (LogFunctionManager.logFunction_mem found)
  refine ⟨young, ?_⟩
  rw [LogFunctionManager.logsAccess, Inst.calledFunction, op]
  exact isAccess

theorem loggedAsArgument_of_visit
    {made : Visit PassState Inst}
    (outcome : VisitOutcome pass decision state store made)
    (older : fresh ≤ state.nextId)
    (unfiltered : decision.functionFilter = false)
    (accessed : decision.accessFilter = true)
    (op : store.op = .store value pointer)
    (found :
      pass.lfm.hasLogFunction value.getType decision.function = true)
    (held : pass.unassignedIsArg store.id = true) :
    LoggedAsArgument pass decision.function fresh store value
      (made.before ++ [store]) := by
  rcases isStore_of_store op with ⟨isStore, stored⟩
  have logsStore : ∀ isArg, storeLogged decision isArg = true := by
    intro isArg
    simp [storeLogged, accessed]
  have young :
      ∀ inst ∈ made.before ++ made.after, fresh ≤ inst.id :=
    fun inst member => older.trans (outcome.ids inst member)
  cases outcome with
  | passed notStore =>
      rw [isStore] at notStore
      cases notStore
  | storePassed _ notLogged =>
      rw [logsStore] at notLogged
      cases notLogged
  | @storeLogged _ _ builder otherOp _ _ inserted =>
      rcases isStore_of_store otherOp with ⟨_, otherStored⟩
      obtain rfl := Option.some.inj (stored.symm.trans otherStored)
      have isArg :
          (pass.storeIsArg decision state store value).1 = true := by
        simp [storeIsArg, unfiltered, held]
      rw [isArg] at inserted
      simp only [List.append_nil] at young ⊢
      generalize builder.inserted = before at inserted young ⊢
      cases inserted with
      | @logged quiet call noCall logs =>
          refine ⟨quiet, call, [], by simp, ?_, logs⟩
          exact accessCall_of_logsValue (young call (by simp)) logs
      | unlogged _ notFound =>
          rw [found] at notFound
          cases notFound
  | loadLogged otherOp _ _ =>
      rw [op] at otherOp
      cases otherOp
  | called notStore _ _ _ _ =>
      rw [isStore] at notStore
      cases notStore

theorem loggedAsArgument_of_instrumentBlock
    {block target : Block}
    (ran :
      pass.instrumentBlock fuel decision state block =
        some (target, final))
    (older : fresh ≤ state.nextId)
    (unfiltered : decision.functionFilter = false)
    (accessed : decision.accessFilter = true)
    (member : store ∈ block.insts)
    (op : store.op = .store value pointer)
    (found :
      pass.lfm.hasLogFunction value.getType decision.function = true)
    (held : pass.unassignedIsArg store.id = true) :
    LoggedAsArgument pass decision.function fresh store value
      target.insts := by
  have ended :=
    instrumentBlock_invariant
      (fun now done rest => fresh ≤ now.nextId ∧
        (store ∈ rest ∨
          LoggedAsArgument pass decision.function fresh store value done))
      ?_ ran ?_
  · rcases ended.2.2 with ahead | logged
    · cases ahead
    · exact logged
  · intro now done item rest made outcome holds
    rcases holds with ⟨olderNow, reached⟩
    refine ⟨olderNow.trans outcome.grows, ?_⟩
    rcases reached with ahead | logged
    · rcases List.mem_cons.mp ahead with rfl | later
      · have logged :=
          loggedAsArgument_of_visit outcome olderNow unfiltered accessed op
            found held
        right
        simpa using logged.extend done []
      · exact Or.inl (List.mem_append_right _ later)
    · right
      simpa using logged.extend [] (made.before ++ [item])
  · exact ⟨older.trans (endEvent_younger _ _ _).grows,
      Or.inl (List.mem_append_left _ member)⟩

theorem loggedAsArgument_of_instrumentBlocks
    {blocks results : List Block}
    (ran :
      pass.instrumentBlocks fuel decision state blocks =
        some (results, final))
    (settled : Settled fresh state)
    (unfiltered : decision.functionFilter = false)
    (accessed : decision.accessFilter = true)
    {block : Block} (isBlock : block ∈ blocks)
    (member : store ∈ block.insts)
    (op : store.op = .store value pointer)
    (found :
      pass.lfm.hasLogFunction value.getType decision.function = true)
    (held : pass.unassignedIsArg store.id = true) :
    LoggedAsArgument pass decision.function fresh store value
      (results.flatMap Block.insts) := by
  have all :=
    @instrumentBlocks_induction pass fuel decision
      (fun sources targets now => Settled fresh now ∧
        (block ∈ sources →
          LoggedAsArgument pass decision.function fresh store value
            (targets.flatMap Block.insts)))
      ?_ [] [] blocks results state final ran ⟨settled, nofun⟩
  · exact all.2 isBlock
  · intro sources targets now other target next blockRan holds
    rcases holds with ⟨settledNow, reached⟩
    refine ⟨settled_of_instrumentBlock blockRan settledNow.older
      (queued_of_empty settledNow.empty), ?_⟩
    intro isSource
    rw [List.flatMap_append, List.flatMap_singleton]
    rcases List.mem_append.mp isSource with earlier | here
    · exact (reached earlier).extend [] target.insts
    · obtain rfl := List.mem_singleton.mp here
      have logged :=
        (loggedAsArgument_of_instrumentBlock blockRan settledNow.older
          unfiltered accessed member op found held).extend
            (targets.flatMap Block.insts) []
      rwa [List.append_nil] at logged

/-- Where only accesses are logged, a store is logged as an argument if its
`isArg` happens to be set. -/
theorem loggedAsArgument_of_instruments
    {module : Module} {source target : Function}
    (instruments : Instruments pass fuel module source state target final)
    (unfiltered : (pass.decision source).functionFilter = false)
    (accessed : (pass.decision source).accessFilter = true)
    {block : Block} (isBlock : block ∈ source.blocks)
    (member : store ∈ block.insts)
    (op : store.op = .store value pointer)
    (found : pass.lfm.hasLogFunction value.getType source.name = true)
    (held : pass.unassignedIsArg store.id = true) :
    LoggedAsArgument pass source.name module.nextId store value
      (target.blocks.flatMap Block.insts) := by
  cases blocks : source.blocks with
  | nil =>
      rw [blocks] at isBlock
      cases isBlock
  | cons entry rest =>
      rcases instruments.of_body blocks with
        ⟨injected, begins, prepared, first, middle, others, rfl, ready,
          entryRan, middleSettled, othersRan⟩
      rw [blocks] at isBlock
      rcases List.mem_cons.mp isBlock with rfl | later
      · have inPrepared : store ∈ prepared.1.insts := by
          rw [ready.block, mem_insertFirst, mem_insertFirst]
          exact Or.inl (Or.inl member)
        have logged :=
          loggedAsArgument_of_instrumentBlock entryRan ready.older
            unfiltered accessed inPrepared op found held
        exact logged.extend [] (others.flatMap Block.insts)
      · have logged :=
          (loggedAsArgument_of_instrumentBlocks othersRan middleSettled
            unfiltered accessed later member op found held).extend
              first.insts []
        rwa [List.append_nil] at logged

theorem not_storeKinds_of_loggedAsArgument
    {args : List Value} {insts : List Inst}
    (unfiltered : decision.functionFilter = false)
    (stored : store.storedValue = some value)
    (logged :
      LoggedAsArgument pass decision.function fresh store value insts) :
    ¬ StoreKinds pass decision fresh args insts := by
  intro kinds
  rcases logged with ⟨front, call, back, split, isAccess, logs⟩
  have right := kinds front call store back split value stored isAccess
  have isWrite : rightKind decision args (front ++ [call]) value = 'w' := by
    rw [rightKind, if_neg]
    rw [unfiltered]
    exact fun both => Bool.false_ne_true both.1
  rw [isWrite] at right
  have argumentKind := logsKind_of_logsValue logs 'a'
  have writeKind := logsKind_of_logsValue right 'a'
  rw [argumentKind] at writeKind
  exact absurd writeKind (by decide)

end Unassigned

/-! ## Two runs -/

/-- The pass where `isArg` holds something else before it is assigned. -/
def AccessInstrumentationPass.withIsArg
    (pass : AccessInstrumentationPass) (unassigned : Nat → Bool) :
    AccessInstrumentationPass :=
  { pass with unassignedIsArg := unassigned }

section TwoRuns

variable {pass : AccessInstrumentationPass} {fuel : Nat} {module : Module}
variable {decision : Decision} (unassigned : Nat → Bool)

/-- An access takes as many instructions for one kind of store as for the
other. -/
theorem nextId_of_storeKind
    (site : Nat) (function : String) (nextId : Nat)
    (debugLoc : Option DebugLoc) (value pointer : Value)
    (isArg other : Bool) :
    (pass.instrumentAccess site function nextId debugLoc value pointer
        (storeKind isArg)).map IRBuilder.nextId =
      (pass.instrumentAccess site function nextId debugLoc value pointer
        (storeKind other)).map IRBuilder.nextId := by
  have isStore :
      ∀ any, storeKind any = 'w' ∨ storeKind any = 'a' := by
    intro any
    cases any
    · exact Or.inl rfl
    · exact Or.inr rfl
  rw [instrumentAccess_eq, instrumentAccess_eq]
  simp only [isStore, if_true]
  cases pass.lfm.getLogFunction value.getType function with
  | function afunc =>
      simp only [logAccess_eq]
      rfl
  | none => rfl
  | exit => rfl

theorem visit_withIsArg
    (terminatorLoc : Option DebugLoc) (state : PassState) (item : Inst)
    (nextInst : Option Inst) :
    (pass.visit decision terminatorLoc state item nextInst).map
        (fun made => (made.after, made.state)) =
      ((pass.withIsArg unassigned).visit decision terminatorLoc state item
        nextInst).map fun made => (made.after, made.state) := by
  cases op : item.op with
  | store value pointer =>
      simp only [visit_eq, op, visitStore_eq]
      cases filtered : decision.functionFilter with
      | true => rfl
      | false =>
          have same :=
            @nextId_of_storeKind pass item.id decision.function state.nextId
              item.debugLoc value pointer (pass.unassignedIsArg item.id)
              (unassigned item.id)
          cases accessed : decision.accessFilter with
          | false => rfl
          | true =>
              have states :=
                congrArg
                  (Option.map fun next =>
                    (([] : List Inst), PassState.mk next state.argLogSet))
                  same
              simp only [Option.map_map] at states
              simp only [Bool.false_and, Bool.false_or, Bool.false_eq_true,
                if_false, if_true, Option.map_map]
              exact states
  | call callee args type =>
      cases callee with
      | none =>
          simp only [visit_eq, op]
      | some fn =>
          simp only [visit_eq, op]
          rfl
  | load pointer =>
      simp only [visit_eq, op]
      rfl
  | _ => simp only [visit_eq, op]

/-- Two steps that agree on the state, and then agree on it further on. -/
theorem bind_state_eq
    {Result State : Type} {first other : Option (Result × State)}
    {next otherNext : State → Option (List Result × State)}
    (agree : first.map Prod.snd = other.map Prod.snd)
    (later : ∀ state,
      (next state).map Prod.snd = (otherNext state).map Prod.snd) :
    (first.bind fun one => (next one.2).map fun others =>
        (one.1 :: others.1, others.2)).map Prod.snd =
      (other.bind fun one => (otherNext one.2).map fun others =>
        (one.1 :: others.1, others.2)).map Prod.snd := by
  cases made : first with
  | none =>
      rw [made, Option.map_none] at agree
      rw [Option.map_eq_none_iff.mp agree.symm]
      rfl
  | some one =>
      rw [made, Option.map_some] at agree
      rcases Option.map_eq_some_iff.mp agree.symm with ⟨two, otherMade, same⟩
      have continued := later one.2
      rw [otherMade, Option.bind_some, Option.bind_some, Option.map_map,
        Option.map_map, same]
      exact continued

theorem some_of_state_eq
    {Result State : Type} {first other : Option (Result × State)}
    {result : Result} {state : State}
    (agree : first.map Prod.snd = other.map Prod.snd)
    (made : first = some (result, state)) :
    ∃ otherResult, other = some (otherResult, state) := by
  rw [made, Option.map_some] at agree
  rcases Option.map_eq_some_iff.mp agree.symm with
    ⟨⟨otherResult, last⟩, otherMade, rfl⟩
  exact ⟨otherResult, otherMade⟩

theorem instrumentBlock_withIsArg (state : PassState) (block : Block) :
    (pass.instrumentBlock fuel decision state block).map Prod.snd =
      ((pass.withIsArg unassigned).instrumentBlock fuel decision state
        block).map Prod.snd := by
  simp only [instrumentBlock_eq, Option.map_map]
  exact loop_state_eq
    (fun now item next =>
      visit_withIsArg unassigned block.terminator.debugLoc now item next)
    fuel _ [] [] _

theorem instrumentBlocks_withIsArg
    (state : PassState) (blocks : List Block) :
    (pass.instrumentBlocks fuel decision state blocks).map Prod.snd =
      ((pass.withIsArg unassigned).instrumentBlocks fuel decision state
        blocks).map Prod.snd := by
  induction blocks generalizing state with
  | nil => rfl
  | cons block blocks inductionHypothesis =>
      rw [instrumentBlocks_cons, instrumentBlocks_cons]
      exact bind_state_eq
        (instrumentBlock_withIsArg unassigned state block)
        inductionHypothesis

theorem injectArgs_withIsArg
    (fname : String) (args : List Value) (idx : Nat) (builder : IRBuilder)
    (argLogSet : Finset Value) :
    (pass.withIsArg unassigned).injectArgs fname idx args builder argLogSet =
      pass.injectArgs fname idx args builder argLogSet := by
  induction args generalizing idx builder argLogSet with
  | nil => rfl
  | cons arg args inductionHypothesis =>
      simp only [injectArgs, inductionHypothesis]
      rfl

theorem prepareEntry_withIsArg
    (function : Function) (state : PassState) (entry : Block) :
    (pass.withIsArg unassigned).prepareEntry function state entry =
      pass.prepareEntry function state entry := by
  simp only [prepareEntry_eq, queueAndInjectArgsToLog, injectArgs_withIsArg]
  rfl

theorem instrumentFunction_withIsArg
    (function : Function) (state : PassState) :
    (pass.instrumentFunction fuel function state).map Prod.snd =
      ((pass.withIsArg unassigned).instrumentFunction fuel function
        state).map Prod.snd := by
  rw [instrumentFunction_eq, instrumentFunction_eq]
  cases function.blocks with
  | nil => rfl
  | cons entry rest =>
      simp only [Option.map_map, prepareEntry_withIsArg]
      exact @instrumentBlocks_withIsArg pass fuel (pass.decision function)
        unassigned (pass.prepareEntry function state entry).2
        ((pass.prepareEntry function state entry).1 :: rest)

theorem instrumentFunctions_withIsArg
    (functions : List Function) (state : PassState) :
    (pass.instrumentFunctions fuel state functions).map Prod.snd =
      ((pass.withIsArg unassigned).instrumentFunctions fuel state
        functions).map Prod.snd := by
  induction functions generalizing state with
  | nil => rfl
  | cons function functions inductionHypothesis =>
      rw [instrumentFunctions_cons, instrumentFunctions_cons]
      refine bind_state_eq ?_ inductionHypothesis
      change
        _ =
          (if pass.selects function then
            (pass.withIsArg unassigned).instrumentFunction fuel function
              state
          else
            some (function, state)).map Prod.snd
      split
      · exact instrumentFunction_withIsArg unassigned function state
      · rfl

/-- The pass comes to the same end whatever `isArg` held. -/
theorem Instruments.withIsArg
    {source target : Function} {state final : PassState}
    (instruments : Instruments pass fuel module source state target final) :
    ∃ other,
      Instruments (pass.withIsArg unassigned) fuel module source state other
        final := by
  rcases instruments with
    ⟨loaded, selected, ⟨earlier, later, targets, split, before⟩, runs⟩
  rcases some_of_state_eq (instrumentFunctions_withIsArg unassigned earlier _)
      before with
    ⟨otherTargets, otherBefore⟩
  obtain ⟨other, otherRuns⟩ :=
    some_of_state_eq (instrumentFunction_withIsArg unassigned source state)
      runs
  exact ⟨other, loaded, selected,
    ⟨earlier, later, otherTargets, split, otherBefore⟩, otherRuns⟩

end TwoRuns

/-! ## When the kinds are right -/

/-- Stores carry the right kind whatever `isArg` held before just where it is
assigned, not read, or read for nothing. -/
theorem kinds_right_iff
    {pass : AccessInstrumentationPass} {fuel : Nat} {module : Module}
    {source target : Function} {state final : PassState}
    (instruments : Instruments pass fuel module source state target final) :
    (∀ unassigned other last,
      Instruments (pass.withIsArg unassigned) fuel module source state other
          last →
        StoreKinds (pass.withIsArg unassigned) (pass.decision source)
          module.nextId (pass.selectedFrom source.name 0 source.args)
          (other.blocks.flatMap Block.insts)) ↔
      (pass.decision source).functionFilter = true ∨
        (pass.decision source).accessFilter = false ∨
          ∀ block ∈ source.blocks, ∀ inst ∈ block.insts, ∀ value,
            inst.storedValue = some value →
              pass.lfm.hasLogFunction value.getType source.name = false := by
  constructor
  · intro right
    by_contra undetermined
    simp only [not_or, Bool.not_eq_true, Bool.not_eq_false, not_forall]
      at undetermined
    rcases undetermined with
      ⟨unfiltered, accessed, block, isBlock, store, member, value, stored,
        found⟩
    rcases instruments.withIsArg fun _ => true with ⟨other, run⟩
    have op : ∃ pointer, store.op = .store value pointer := by
      unfold Inst.storedValue at stored
      split at stored
      · rename_i same pointer op
        obtain rfl := Option.some.inj stored
        exact ⟨pointer, op⟩
      · cases stored
    rcases op with ⟨pointer, op⟩
    have logged :=
      loggedAsArgument_of_instruments run unfiltered accessed isBlock member
        op found rfl
    exact @not_storeKinds_of_loggedAsArgument
      (pass.withIsArg fun _ => true) (pass.decision source) module.nextId
      store value _ _ unfiltered stored logged
      (right (fun _ => true) other final run)
  · intro determined unassigned other last run
    refine kinds_of_determined run ?_
    intro block isBlock inst member value stored
    rcases determined with assigned | notRead | notFound
    · exact Or.inl assigned
    · exact Or.inr (Or.inl notRead)
    · exact Or.inr (Or.inr (notFound block isBlock inst member value stored))

theorem allocatingFunction_kinds_right :
    ∃ target final,
      Instruments instrumentsAll 17 allocatingModule allocatingFunction
          ⟨4, ∅⟩ target final ∧
        ((∀ unassigned other last,
          Instruments (instrumentsAll.withIsArg unassigned) 17
              allocatingModule allocatingFunction ⟨4, ∅⟩ other last →
            StoreKinds (instrumentsAll.withIsArg unassigned)
              (instrumentsAll.decision allocatingFunction) 4
              (instrumentsAll.selectedFrom "abc" 0 allocatingFunction.args)
              (other.blocks.flatMap Block.insts)) ↔
          (instrumentsAll.decision allocatingFunction).functionFilter =
              true ∨
            (instrumentsAll.decision allocatingFunction).accessFilter =
                false ∨
              ∀ block ∈ allocatingFunction.blocks, ∀ inst ∈ block.insts,
                ∀ value, inst.storedValue = some value →
                  instrumentsAll.lfm.hasLogFunction value.getType "abc" =
                    false) := by
  obtain ⟨target, final, instruments⟩ :=
    @instruments_of_first instrumentsAll 17 allocatingModule
      allocatingFunction [] (by decide) (by decide +kernel) rfl
      (by decide +kernel)
  exact ⟨target, final, instruments, kinds_right_iff instruments⟩

/-- Accesses are logged and events are not. -/
def accessesOnly : AccessInstrumentationPass :=
  { instrumentsAll with
    insfilt :=
      { instrumentsAll.insfilt with
        checkFunctionFilter := fun _ event => event = "access" } }

/-- With no argument queued, a store of the program is logged as one. -/
theorem unassigned_isArg_logs_argument :
    ∃ target final,
      Instruments (accessesOnly.withIsArg fun _ => true) 17 allocatingModule
          allocatingFunction ⟨4, ∅⟩ target final ∧
        ¬ StoreKinds (accessesOnly.withIsArg fun _ => true)
          (accessesOnly.decision allocatingFunction) 4
          (accessesOnly.selectedFrom "abc" 0 allocatingFunction.args)
          (target.blocks.flatMap Block.insts) := by
  obtain ⟨target, final, instruments⟩ :=
    @instruments_of_first (accessesOnly.withIsArg fun _ => true) 17
      allocatingModule allocatingFunction [] (by decide) (by decide +kernel)
      rfl (by decide +kernel)
  let i : Value := .argument "abc" 0 "i" (.integer 32)
  let slot : Inst := ⟨0, "i.addr", .alloca (.integer 32), none⟩
  let store : Inst := ⟨1, "", .store i slot.value, none⟩
  have logged :=
    @loggedAsArgument_of_instruments (accessesOnly.withIsArg fun _ => true)
      17 ⟨4, ∅⟩ final store i slot.value allocatingModule allocatingFunction
      target instruments (by decide) (by decide)
      (allocatingFunction.blocks.head (by decide)) (by decide) (by decide)
      rfl (by decide) rfl
  refine ⟨target, final, instruments, ?_⟩
  exact not_storeKinds_of_loggedAsArgument (by decide) rfl logged

end Dinamite.Instrument
