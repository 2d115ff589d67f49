import Dinamite.Instrument.Visits

/-!
# The program survives its instrumentation

The loop over a block ends, erasing what the pass inserted gives the block
back, and everything the pass has to log is logged once: by the loop invariant
for one block, and from block to block because no argument is left to log.
-/

namespace Dinamite.Instrument

open Dinamite.CursorLoop
open AccessInstrumentationPass

/-! ## What survives -/

/-- A block after the pass: the instructions of the program are those of the
block, all of them and the injected stores are instrumented as they should be,
and `injected` lists the arguments stored. -/
structure BlockSurvives
    (pass : AccessInstrumentationPass) (decision : Decision) (fresh : Nat)
    (injected : List Value) (source target : Block) : Prop where
  terminator : target.terminator = source.terminator
  erased :
    target.insts.filter (fun inst => inst.id < fresh) = source.insts
  segments :
    ∃ segments : List (Segment Inst),
      target.insts = segments.flatMap Segment.items ∧
        (∀ segment ∈ segments,
          Instrumented pass decision fresh segment) ∧
          pending fresh (segments.map Segment.item) = injected

/-- Arguments are injected into the entry block only. -/
def BlocksSurvive
    (pass : AccessInstrumentationPass) (decision : Decision) (fresh : Nat)
    (injected : List Value) : List Block → List Block → Prop
  | [], [] => True
  | entry :: rest, target :: targets =>
      BlockSurvives pass decision fresh injected entry target ∧
        List.Forall₂ (BlockSurvives pass decision fresh []) rest targets
  | _, _ => False

namespace AccessInstrumentationPass

variable (pass : AccessInstrumentationPass)

/-- The arguments the filter selects, counted from a position on. -/
def selectedFrom (fname : String) (idx : Nat) (args : List Value) :
    List Value :=
  ((args.zipIdx idx).filter fun arg =>
    pass.insfilt.checkFunctionArgFilter fname arg.2).map Prod.fst

/-- The arguments that are stored for logging. -/
def injectedArgs (function : Function) : List Value :=
  if (pass.decision function).functionFilter then
    pass.selectedFrom function.name 0 function.args
  else
    []

end AccessInstrumentationPass

structure FunctionSurvives
    (pass : AccessInstrumentationPass) (fresh : Nat)
    (source target : Function) : Prop where
  name : target.name = source.name
  params : target.params = source.params
  blocks :
    BlocksSurvive pass (pass.decision source) fresh
      (pass.injectedArgs source) source.blocks target.blocks

section Ahead

variable {pass : AccessInstrumentationPass} {decision : Decision}
variable {fresh : Nat} {state : PassState}
variable {front new back : List Inst}

theorem pending_append (first second : List Inst) :
    pending fresh (first ++ second) =
      pending fresh first ++ pending fresh second :=
  List.filterMap_append

theorem pending_original
    {insts : List Inst} (original : ∀ inst ∈ insts, inst.id < fresh) :
    pending fresh insts = [] := by
  apply pending_eq_nil
  intro inst member injected
  have isOld := original inst member
  omega

theorem filter_inserted
    {insts : List Inst} (inserted : ∀ inst ∈ insts, fresh ≤ inst.id) :
    insts.filter (fun inst => inst.id < fresh) = [] := by
  apply List.filter_eq_nil_iff.mpr
  intro inst member
  have isYoung := inserted inst member
  rw [decide_eq_true_eq]
  omega

/-- Behind phis and landing pads stand the injected stores, behind them the
rest of the block. -/
theorem ahead_of_injected
    (older : fresh ≤ state.nextId)
    (frontOriginal :
      ∀ inst ∈ front, inst.id < fresh ∧ inst.isStore = false)
    (backOriginal : ∀ inst ∈ back, inst.id < fresh)
    (newInserted : ∀ inst ∈ new, fresh ≤ inst.id)
    (passedOver :
      ∀ inst ∈ new, inst.isStore = false →
        ∀ terminatorLoc, Inert (pass.visit decision terminatorLoc) inst)
    (widths :
      ∀ inst ∈ front ++ new ++ back, ∀ type,
        inst.accessedType = some type → type.WidthOk)
    (queued : state.argLogSet = (pending fresh new).toFinset)
    (distinct : (pending fresh new).Nodup)
    (filtered : pending fresh new ≠ [] → decision.functionFilter = true) :
    Ahead pass decision fresh state (front ++ new ++ back) := by
  have frontNone : pending fresh front = [] :=
    pending_eq_nil fun inst member _ => (frontOriginal inst member).2
  have backNone : pending fresh back = [] := pending_original backOriginal
  have same : pending fresh (front ++ new ++ back) = pending fresh new := by
    rw [pending_append, pending_append, frontNone, backNone,
      List.nil_append, List.append_nil]
  refine ⟨older, widths, ?_, ?_, ?_, ?_, ?_⟩
  · rw [same]
    exact queued
  · rw [same]
    exact distinct
  · have noStoreEarly :
        ∀ inst ∈ front ++ new, inst.id < fresh → inst.isStore = false := by
      intro inst member original
      rcases List.mem_append.mp member with isFront | isNew
      · exact (frontOriginal inst isFront).2
      · have inserted := newInserted inst isNew
        omega
    refine List.pairwise_append.mpr ⟨?_, ?_, ?_⟩
    · apply List.pairwise_of_forall_mem_list
      intro earlier member later _ original isStore
      rw [noStoreEarly earlier member original] at isStore
      cases isStore
    · apply List.pairwise_of_forall_mem_list
      intro earlier _ later member _ _ injected
      have original := backOriginal later member
      omega
    · intro earlier member later _ original isStore
      rw [noStoreEarly earlier member original] at isStore
      cases isStore
  · rw [same]
    exact filtered
  · intro inst member injected notStore
    rcases List.mem_append.mp member with early | late
    · rcases List.mem_append.mp early with isFront | isNew
      · have original := (frontOriginal inst isFront).1
        omega
      · exact passedOver inst isNew notStore
    · have original := backOriginal inst late
      omega

/-- Inserting instructions that are passed over changes nothing for the
loop. -/
theorem Ahead.insert
    (ahead : Ahead pass decision fresh state (front ++ back))
    (noAccess : ∀ inst ∈ new, inst.accessedType = none)
    (notStore : ∀ inst ∈ new, inst.isStore = false)
    (passedOver :
      ∀ inst ∈ new, ∀ terminatorLoc,
        Inert (pass.visit decision terminatorLoc) inst) :
    Ahead pass decision fresh state (front ++ new ++ back) := by
  have newNone : pending fresh new = [] :=
    pending_eq_nil fun inst member _ => notStore inst member
  have same :
      pending fresh (front ++ new ++ back) =
        pending fresh (front ++ back) := by
    rw [pending_append, pending_append, pending_append, newNone,
      List.append_nil]
  have memCases :
      ∀ inst ∈ front ++ new ++ back,
        inst ∈ new ∨ inst ∈ front ++ back := by
    intro inst member
    rcases List.mem_append.mp member with early | late
    · rcases List.mem_append.mp early with isFront | isNew
      · exact Or.inr (List.mem_append_left _ isFront)
      · exact Or.inl isNew
    · exact Or.inr (List.mem_append_right _ late)
  refine ⟨ahead.older, ?_, ?_, ?_, ?_, ?_, ?_⟩
  · intro inst member type accessed
    rcases memCases inst member with isNew | old
    · rw [noAccess inst isNew] at accessed
      cases accessed
    · exact ahead.widths inst old type accessed
  · rw [same]
    exact ahead.queued
  · rw [same]
    exact ahead.distinct
  · have ordered := List.pairwise_append.mp ahead.injectedFirst
    refine List.pairwise_append.mpr ⟨?_, ordered.2.1, ?_⟩
    · refine List.pairwise_append.mpr ⟨ordered.1, ?_, ?_⟩
      · apply List.pairwise_of_forall_mem_list
        intro earlier _ later member _ _ _
        exact notStore later member
      · intro earlier _ later member _ _ _
        exact notStore later member
    · intro earlier member later isBack
      rcases List.mem_append.mp member with isFront | isNew
      · exact ordered.2.2 earlier isFront later isBack
      · intro _ isStore
        rw [notStore earlier isNew] at isStore
        cases isStore
  · rw [same]
    exact ahead.filtered
  · intro inst member
    rcases memCases inst member with isNew | old
    · intro _ _
      exact passedOver inst isNew
    · exact ahead.passedOver inst old

theorem Ahead.later
    (ahead : Ahead pass decision fresh state front) {nextId : Nat}
    (grows : state.nextId ≤ nextId) :
    Ahead pass decision fresh { state with nextId := nextId } front :=
  { ahead with older := ahead.older.trans grows }

/-- An event call before the loop, as all of them are passed over. -/
theorem Ahead.insert_event
    (noLog : pass.NoLogFunctionDefined)
    (ahead : Ahead pass decision fresh state (front ++ back))
    (function : String) (loc : Option DebugLoc) (event : FnEvents) :
    let events := pass.instrumentFnEvent function state.nextId loc event
    Ahead pass decision fresh { state with nextId := events.nextId }
        (front ++ events.inserted ++ back) ∧
      pending fresh events.inserted = [] ∧
        ∀ inst ∈ events.inserted, fresh ≤ inst.id := by
  intro events
  have calls :
      AddsCall (pass.eventLogFunc function event)
        ⟨state.nextId, loc, []⟩ events :=
    addsCall_instrumentFnEvent function state.nextId loc event
  have facts := insertedForEvent_of_call calls
  have inserted : ∀ inst ∈ events.inserted, fresh ≤ inst.id :=
    fun inst member => ahead.older.trans (facts.ids inst member)
  have isEvent :
      pass.eventLogFunc function event ∈ pass.lfm.eventFunctions :=
    eventLogFunc_mem function event
  have quiet :
      ∀ inst ∈ events.inserted,
        inst.accessedType = none ∧ inst.isStore = false :=
    facts.quiet
  refine ⟨?_, ?_, inserted⟩
  · exact (ahead.later facts.grows).insert
      (fun inst member => (quiet inst member).1)
      (fun inst member => (quiet inst member).2)
      (fun inst member terminatorLoc =>
        facts.inert noLog isEvent decision terminatorLoc inst member)
  · exact pending_eq_nil fun inst member _ => (quiet inst member).2

end Ahead

/-! ## One block -/

section Blocks

variable {pass : AccessInstrumentationPass} {decision : Decision}
variable {fresh : Nat} {state : PassState}

/-- The loop over one block ends, and leaves no argument to log. -/
theorem instrumentBlock_survives
    (noLog : pass.NoLogFunctionDefined) (block : Block)
    (ahead : Ahead pass decision fresh state block.insts) :
    ∃ bound target final,
      (∀ fuel, bound ≤ fuel →
        pass.instrumentBlock fuel decision state block =
          some (target, final)) ∧
        target.terminator = block.terminator ∧
          target.insts.filter (fun inst => inst.id < fresh) =
              block.insts.filter (fun inst => inst.id < fresh) ∧
            (∃ segments : List (Segment Inst),
              target.insts = segments.flatMap Segment.items ∧
                (∀ segment ∈ segments,
                  Instrumented pass decision fresh segment) ∧
                  pending fresh (segments.map Segment.item) =
                    pending fresh block.insts) ∧
              fresh ≤ final.nextId ∧ final.argLogSet = ∅ := by
  let loc := block.terminator.debugLoc
  let ends : IRBuilder :=
    if block.terminator.op = .ret ∧ decision.logsEvents then
      pass.instrumentFnEvent decision.function state.nextId loc .fnEnd
    else
      ⟨state.nextId, loc, []⟩
  have padded : Ahead pass decision fresh state (block.insts ++ []) := by
    rw [List.append_nil]
    exact ahead
  have ready :
      Ahead pass decision fresh { state with nextId := ends.nextId }
          (block.insts ++ ends.inserted) ∧
        pending fresh ends.inserted = [] ∧
          ∀ inst ∈ ends.inserted, fresh ≤ inst.id := by
    by_cases returns : block.terminator.op = .ret ∧ decision.logsEvents
    · have endEvent :=
        padded.insert_event noLog decision.function loc .fnEnd
      simpa only [ends, if_pos returns, List.append_nil] using endEvent
    · simpa [ends, if_neg returns, pending] using ahead
  have traversed :
      ∃ segments final,
        Traversal (pass.visit decision loc)
            { state with nextId := ends.nextId }
            (block.insts ++ ends.inserted) segments final ∧
          (∀ segment ∈ segments,
            Instrumented pass decision fresh segment) ∧
            Ahead pass decision fresh final [] :=
    exists_traversal (Ahead pass decision fresh)
      (Instrumented pass decision fresh)
      (fun _ _ _ reached => visitOk noLog reached loc) ready.1
  rcases traversed with ⟨segments, final, traversal, good, finished⟩
  have items := traversal.map_item
  refine ⟨visits segments,
    { block with insts := segments.flatMap Segment.items }, final, ?_, rfl,
    ?_, ⟨segments, rfl, good, ?_⟩, finished.older, ?_⟩
  · intro fuel enough
    have looped := loop_of_traversal traversal enough []
    simp only [instrumentBlock_eq]
    rw [show (if block.terminator.op = .ret ∧ decision.logsEvents = true then
        pass.instrumentFnEvent decision.function state.nextId
          block.terminator.debugLoc .fnEnd
      else ⟨state.nextId, block.terminator.debugLoc, []⟩) = ends from rfl,
      looped]
    rfl
  · have erased :
        (segments.flatMap Segment.items).filter
            (fun inst => decide (inst.id < fresh)) =
          (segments.map Segment.item).filter
            (fun inst => decide (inst.id < fresh)) := by
      apply filter_items
      intro segment member inst inserted
      have young := (good segment member).inserted inst inserted
      exact decide_eq_false (by omega)
    have endErased :
        ends.inserted.filter (fun inst => decide (inst.id < fresh)) = [] :=
      filter_inserted ready.2.2
    show (segments.flatMap Segment.items).filter _ = _
    rw [erased, items, List.filter_append, endErased, List.append_nil]
  · rw [items, pending_append, ready.2.1, List.append_nil]
  · exact finished.queued

/-- The instructions of a block before the pass has touched it. -/
structure Untouched (fresh : Nat) (block : Block) : Prop where
  original : ∀ inst ∈ block.insts, inst.id < fresh
  widths :
    ∀ inst ∈ block.insts, ∀ type,
      inst.accessedType = some type → type.WidthOk

theorem Untouched.filter
    {block : Block} (untouched : Untouched fresh block) :
    block.insts.filter (fun inst => inst.id < fresh) = block.insts := by
  apply List.filter_eq_self.mpr
  intro inst member
  exact decide_eq_true (untouched.original inst member)

theorem Untouched.pending
    {block : Block} (untouched : Untouched fresh block) :
    pending fresh block.insts = [] :=
  pending_original untouched.original

/-- Behind the entry no argument is left, so a block is visited as it is. -/
theorem Untouched.ahead
    {block : Block} (untouched : Untouched fresh block)
    (older : fresh ≤ state.nextId) (queued : state.argLogSet = ∅) :
    Ahead pass decision fresh state block.insts := by
  have ready :
      Ahead pass decision fresh state ([] ++ [] ++ block.insts) :=
    ahead_of_injected older (List.forall_mem_nil _) untouched.original
      (List.forall_mem_nil _) (List.forall_mem_nil _) untouched.widths queued
      List.nodup_nil (fun some => absurd rfl some)
  simpa using ready

/-- The blocks behind the entry. -/
theorem instrumentBlocks_survive
    (noLog : pass.NoLogFunctionDefined) (blocks : List Block)
    (untouched : ∀ block ∈ blocks, Untouched fresh block)
    (older : fresh ≤ state.nextId) (queued : state.argLogSet = ∅) :
    ∃ bound targets final,
      (∀ fuel, bound ≤ fuel →
        pass.instrumentBlocks fuel decision state blocks =
          some (targets, final)) ∧
        List.Forall₂ (BlockSurvives pass decision fresh []) blocks targets ∧
          fresh ≤ final.nextId ∧ final.argLogSet = ∅ := by
  induction blocks generalizing state with
  | nil =>
      exact ⟨0, [], state, fun _ _ => rfl, .nil, older, queued⟩
  | cons block rest inductionHypothesis =>
      have here := untouched block List.mem_cons_self
      have later : ∀ other ∈ rest, Untouched fresh other :=
        fun other member => untouched other (List.mem_cons_of_mem _ member)
      have ready : Ahead pass decision fresh state block.insts :=
        here.ahead older queued
      rcases instrumentBlock_survives noLog block ready with
        ⟨bound, target, middle, runs, terminator, erased, segments,
          middleOlder, middleQueued⟩
      rcases inductionHypothesis later middleOlder middleQueued with
        ⟨laterBound, targets, final, laterRuns, survive, finalOlder,
          finalQueued⟩
      refine ⟨max bound laterBound, target :: targets, final, ?_,
        .cons ⟨terminator, ?_, ?_⟩ survive, finalOlder, finalQueued⟩
      · intro fuel enough
        simp only [instrumentBlocks_cons, runs fuel (by omega),
          laterRuns fuel (by omega), Option.bind_some, Option.map_some]
      · rw [erased, here.filter]
      · rw [here.pending] at segments
        exact segments

end Blocks

/-! ## The entry block -/

section Entry

variable {pass : AccessInstrumentationPass} {fresh : Nat}

/-- What has to stay at the front of a block. -/
def Inst.Leading (inst : Inst) : Prop :=
  inst.isPhi = true ∨ inst.isLandingPad = true

theorem Inst.Leading.notStore
    {inst : Inst} (leading : inst.Leading) : inst.isStore = false := by
  rcases leading with isPhi | isPad
  · unfold Inst.isPhi at isPhi
    split at isPhi
    · rename_i op
      simp [Inst.isStore, op]
    · cases isPhi
  · unfold Inst.isLandingPad at isPad
    split at isPad
    · rename_i op
      simp [Inst.isStore, op]
    · cases isPad

/-- New instructions go behind phis and a landing pad. -/
theorem insertFirst_split (block : Block) :
    ∃ front back,
      block.insts = front ++ back ∧
        (∀ new, (block.insertFirst new).insts = front ++ new ++ back) ∧
          ∀ inst ∈ front, inst.Leading := by
  have phis :
      ∀ inst ∈ block.insts.takeWhile Inst.isPhi, inst.Leading :=
    fun inst member => Or.inl (List.mem_takeWhile_imp member)
  have joined :
      block.insts.takeWhile Inst.isPhi ++ block.insts.dropWhile Inst.isPhi =
        block.insts :=
    List.takeWhile_append_dropWhile
  cases dropped : block.insts.dropWhile Inst.isPhi with
  | nil =>
      rw [dropped] at joined
      refine ⟨block.insts.takeWhile Inst.isPhi, [], joined.symm, ?_, phis⟩
      intro new
      simp [Block.insertFirst, Block.splitFirstInsertionPt, dropped]
  | cons first rest =>
      rw [dropped] at joined
      cases isPad : first.isLandingPad with
      | false =>
          refine ⟨block.insts.takeWhile Inst.isPhi, first :: rest,
            joined.symm, ?_, phis⟩
          intro new
          simp [Block.insertFirst, Block.splitFirstInsertionPt, dropped,
            isPad]
      | true =>
          refine ⟨block.insts.takeWhile Inst.isPhi ++ [first], rest, ?_, ?_,
            ?_⟩
          · simpa using joined.symm
          · intro new
            simp [Block.insertFirst, Block.splitFirstInsertionPt, dropped,
              isPad]
          · intro inst member
            rcases List.mem_append.mp member with isPhi | last
            · exact phis inst isPhi
            · rw [List.mem_singleton.mp last]
              exact Or.inr isPad

/-- The injected instructions: a slot and a store for every selected
argument. -/
theorem injectArgs_spec
    (pass : AccessInstrumentationPass) (fname : String) (args : List Value)
    (idx : Nat)
    (builder : IRBuilder) (argLogSet : Finset Value)
    (older : fresh ≤ builder.nextId) :
    let result := pass.injectArgs fname idx args builder argLogSet
    let selected := pass.selectedFrom fname idx args
    ∃ new,
      Adds builder result.1 new ∧ pending fresh new = selected ∧
        result.2 = argLogSet ∪ selected.toFinset ∧
          ∀ inst ∈ new,
            (∃ arg ∈ args, ∃ slot, inst.op = .store arg slot) ∨
              ∃ type, inst.op = .alloca type := by
  induction args generalizing idx builder argLogSet with
  | nil =>
      refine ⟨[], Adds.refl builder, rfl, ?_, List.forall_mem_nil _⟩
      simp [injectArgs, selectedFrom]
  | cons arg rest inductionHypothesis =>
      cases selects : pass.insfilt.checkFunctionArgFilter fname idx with
      | false =>
          have continued :=
            inductionHypothesis (idx + 1) builder argLogSet older
          simp only [injectArgs, selects, selectedFrom, List.zipIdx_cons,
            List.filter_cons] at continued ⊢
          rcases continued with ⟨new, adds, pends, set, ops⟩
          refine ⟨new, adds, pends, set, ?_⟩
          intro inst member
          rcases ops inst member with ⟨other, isArg, stores⟩ | slot
          · exact Or.inl ⟨other, List.mem_cons_of_mem _ isArg, stores⟩
          · exact Or.inr slot
      | true =>
          let destPtr := builder.createAlloca arg.getType
          let stored := destPtr.2.createStore arg destPtr.1
          have allocaAdds := adds_insert builder (.alloca arg.getType)
          have storeAdds := adds_insert destPtr.2 (.store arg destPtr.1)
          have bothAdds := allocaAdds.trans storeAdds
          have continued :=
            inductionHypothesis (idx + 1) stored (insert arg argLogSet)
              (older.trans bothAdds.grows)
          simp only [injectArgs, selects, selectedFrom, List.zipIdx_cons,
            List.filter_cons, if_true, List.map_cons] at continued ⊢
          rcases continued with ⟨new, adds, pends, set, ops⟩
          refine ⟨_, bothAdds.trans adds, ?_, ?_, ?_⟩
          · have storeYoung : fresh ≤ destPtr.2.nextId :=
              older.trans allocaAdds.grows
            rw [pending_append, pends]
            simp [pending, storeYoung]
          · rw [List.toFinset_cons, Finset.union_insert,
              ← Finset.insert_union]
            exact set
          · intro inst member
            rcases List.mem_append.mp member with mine | others
            · simp only [List.cons_append, List.nil_append, List.mem_cons,
                List.not_mem_nil, or_false] at mine
              rcases mine with rfl | rfl
              · exact Or.inr ⟨arg.getType, rfl⟩
              · exact Or.inl ⟨arg, List.mem_cons_self, destPtr.1, rfl⟩
            · rcases ops inst others with ⟨other, isArg, stores⟩ | slot
              · exact Or.inl ⟨other, List.mem_cons_of_mem _ isArg, stores⟩
              · exact Or.inr slot

/-- Stores of the selected arguments go into the entry, and into an empty
queue. -/
theorem queueAndInject_spec
    {state : PassState} (function : Function) (entry : Block)
    (older : fresh ≤ state.nextId) (empty : state.argLogSet = ∅) :
    let queued := pass.queueAndInjectArgsToLog function state entry
    let selected := pass.selectedFrom function.name 0 function.args
    ∃ new,
      queued.1 = entry.insertFirst new ∧ pending fresh new = selected ∧
        queued.2.argLogSet = selected.toFinset ∧ fresh ≤ queued.2.nextId ∧
        (∀ inst ∈ new, fresh ≤ inst.id) ∧
        ∀ inst ∈ new,
          (∃ arg ∈ function.args, ∃ slot, inst.op = .store arg slot) ∨
            ∃ type, inst.op = .alloca type := by
  have spec :=
    injectArgs_spec pass function.name function.args 0
      ⟨state.nextId, entry.firstInsertionLoc, []⟩ state.argLogSet older
  simp only at spec
  rcases spec with ⟨new, adds, pends, set, ops⟩
  have inserted :
      (pass.injectArgs function.name 0 function.args
        ⟨state.nextId, entry.firstInsertionLoc, []⟩
          state.argLogSet).1.inserted = new := by
    simpa using adds.inserted
  refine ⟨new, ?_, pends, ?_, older.trans adds.grows,
    fun inst member => older.trans (adds.ids inst member), ops⟩
  · simp only [queueAndInjectArgsToLog, inserted]
  · simp only [queueAndInjectArgsToLog]
    rw [set, empty, Finset.empty_union]

theorem args_nodup (function : Function) : function.args.Nodup := by
  rw [Function.args, List.Nodup, List.pairwise_iff_getElem]
  intro i j iBound jBound before same
  simp only [List.getElem_mapIdx, Value.argument.injEq] at same
  omega

theorem selectedFrom_sublist
    (fname : String) (idx : Nat) (args : List Value) :
    (pass.selectedFrom fname idx args).Sublist args := by
  have kept :
      (pass.selectedFrom fname idx args).Sublist
        ((args.zipIdx idx).map Prod.fst) :=
    List.filter_sublist.map _
  rwa [List.zipIdx_map_fst] at kept

/-- The entry block when the loop over it is about to start. -/
structure Prepared
    (pass : AccessInstrumentationPass) (function : Function) (fresh : Nat)
    (entry : Block) (prepared : Block × PassState) : Prop where
  ahead :
    Ahead pass (pass.decision function) fresh prepared.2 prepared.1.insts
  terminator : prepared.1.terminator = entry.terminator
  erased :
    prepared.1.insts.filter (fun inst => inst.id < fresh) = entry.insts
  pending : pending fresh prepared.1.insts = pass.injectedArgs function

section Preparation

variable {function : Function} {state : PassState} {entry : Block}

theorem prepared_of_untouched
    (untouched : Untouched fresh entry) (older : fresh ≤ state.nextId)
    (queued : state.argLogSet = ∅)
    (unfiltered : (pass.decision function).functionFilter = false) :
    Prepared pass function fresh entry (entry, state) := by
  refine ⟨untouched.ahead older queued, rfl, untouched.filter, ?_⟩
  rw [untouched.pending, injectedArgs, if_neg]
  rw [unfiltered]
  exact Bool.false_ne_true

theorem prepared_queue
    (untouched : Untouched fresh entry) (older : fresh ≤ state.nextId)
    (queued : state.argLogSet = ∅)
    (paramWidths : ∀ arg ∈ function.args, arg.getType.WidthOk)
    (filtered : (pass.decision function).functionFilter = true) :
    Prepared pass function fresh entry
      (pass.queueAndInjectArgsToLog function state entry) := by
  rcases insertFirst_split entry with ⟨front, back, split, inserts, leading⟩
  rcases queueAndInject_spec function entry older queued with
    ⟨new, block, pends, set, olderThen, young, ops⟩
  have original : ∀ inst ∈ front ++ back, inst.id < fresh := by
    rw [← split]
    exact untouched.original
  have selectedNodup :
      (pass.selectedFrom function.name 0 function.args).Nodup :=
    (args_nodup function).sublist (selectedFrom_sublist _ _ _)
  have insts :
      (pass.queueAndInjectArgsToLog function state entry).1.insts =
        front ++ new ++ back := by
    rw [block, inserts]
  refine ⟨?_, rfl, ?_, ?_⟩
  · rw [insts]
    refine ahead_of_injected olderThen ?_ ?_ young ?_ ?_ ?_ ?_
      (fun _ => filtered)
    · exact fun inst member =>
        ⟨original inst (List.mem_append_left _ member),
          (leading inst member).notStore⟩
    · exact fun inst member =>
        original inst (List.mem_append_right _ member)
    · intro inst member notStore terminatorLoc
      rcases ops inst member with ⟨arg, _, slot, op⟩ | ⟨type, op⟩
      · rw [Inst.isStore, op] at notStore
        cases notStore
      · exact inert_of_alloca op _ terminatorLoc
    · intro inst member type accessed
      rcases List.mem_append.mp member with early | late
      · rcases List.mem_append.mp early with isFront | injected
        · exact untouched.widths inst
            (by rw [split]; exact List.mem_append_left _ isFront) type
            accessed
        · rcases ops inst injected with ⟨arg, isArg, slot, op⟩ | ⟨slot, op⟩
          · rw [Inst.accessedType, op] at accessed
            cases accessed
            exact paramWidths arg isArg
          · rw [Inst.accessedType, op] at accessed
            cases accessed
      · exact untouched.widths inst
          (by rw [split]; exact List.mem_append_right _ late) type accessed
    · rw [pends, set]
    · rw [pends]
      exact selectedNodup
  · have newErased :
        new.filter (fun inst => decide (inst.id < fresh)) = [] :=
      filter_inserted young
    have kept := untouched.filter
    rw [split, List.filter_append] at kept
    rw [insts, List.filter_append, List.filter_append, newErased,
      List.append_nil, kept, split]
  · have frontNone : Instrument.pending fresh front = [] :=
      pending_eq_nil fun inst member _ =>
        (leading inst member).notStore
    have backNone : Instrument.pending fresh back = [] :=
      pending_original fun inst member =>
        original inst (List.mem_append_right _ member)
    rw [insts, pending_append, pending_append, frontNone, backNone, pends,
      List.nil_append, List.append_nil, injectedArgs, if_pos filtered]

/-- The begin event goes in front, and is passed over. -/
theorem Prepared.begin
    {prepared : Block × PassState}
    (ready : Prepared pass function fresh entry prepared)
    (noLog : pass.NoLogFunctionDefined) :
    Prepared pass function fresh entry
      (pass.instrumentEntry function prepared.2 prepared.1) := by
  rcases insertFirst_split prepared.1 with ⟨front, back, split, inserts, _⟩
  have ahead := ready.ahead
  rw [split] at ahead
  have event :=
    ahead.insert_event noLog function.name prepared.1.firstInsertionLoc
      .fnBegin
  rcases event with ⟨later, noStores, young⟩
  have insts :
      (pass.instrumentEntry function prepared.2 prepared.1).1.insts =
        front ++
          (pass.instrumentFnEvent function.name prepared.2.nextId
            prepared.1.firstInsertionLoc .fnBegin).inserted ++ back := by
    simp only [instrumentEntry_eq, inserts]
  refine ⟨?_, ready.terminator, ?_, ?_⟩
  · rw [insts]
    exact later
  · have eventErased :
        (pass.instrumentFnEvent function.name prepared.2.nextId
          prepared.1.firstInsertionLoc .fnBegin).inserted.filter
            (fun inst => decide (inst.id < fresh)) = [] :=
      filter_inserted young
    have kept := ready.erased
    rw [split, List.filter_append] at kept
    rw [insts, List.filter_append, List.filter_append, eventErased,
      List.append_nil, kept]
  · have same := ready.pending
    rw [split, pending_append] at same
    rw [insts, pending_append, pending_append, noStores, List.append_nil,
      same]

theorem prepareEntry_prepared
    (noLog : pass.NoLogFunctionDefined)
    (untouched : Untouched fresh entry) (older : fresh ≤ state.nextId)
    (queued : state.argLogSet = ∅)
    (paramWidths : ∀ arg ∈ function.args, arg.getType.WidthOk) :
    Prepared pass function fresh entry
      (pass.prepareEntry function state entry) := by
  have first :
      Prepared pass function fresh entry
        (if (pass.decision function).functionFilter then
          pass.queueAndInjectArgsToLog function state entry
        else
          (entry, state)) := by
    cases filtered : (pass.decision function).functionFilter with
    | true => exact prepared_queue untouched older queued paramWidths filtered
    | false => exact prepared_of_untouched untouched older queued filtered
  simp only [prepareEntry_eq]
  split
  · exact first.begin noLog
  · exact first

end Preparation

end Entry

/-! ## Functions and modules -/

section Module

variable {pass : AccessInstrumentationPass} {fresh : Nat}
variable {state : PassState}

/-- A function before the pass has touched it, with widths it can log. -/
structure FunctionReady (fresh : Nat) (function : Function) : Prop where
  params :
    function.blocks ≠ [] → ∀ param ∈ function.params, param.2.WidthOk
  blocks : ∀ block ∈ function.blocks, Untouched fresh block

theorem FunctionReady.args
    {function : Function} (ready : FunctionReady fresh function)
    (defined : function.blocks ≠ []) :
    ∀ arg ∈ function.args, arg.getType.WidthOk := by
  intro arg member
  rcases List.mem_mapIdx.mp member with ⟨index, bound, rfl⟩
  exact ready.params defined _ (List.getElem_mem bound)

theorem instrumentFunction_survives
    (noLog : pass.NoLogFunctionDefined) {function : Function}
    (ready : FunctionReady fresh function)
    (older : fresh ≤ state.nextId) (queued : state.argLogSet = ∅) :
    ∃ bound target final,
      (∀ fuel, bound ≤ fuel →
        pass.instrumentFunction fuel function state =
          some (target, final)) ∧
        FunctionSurvives pass fresh function target ∧
          fresh ≤ final.nextId ∧ final.argLogSet = ∅ := by
  cases blocks : function.blocks with
  | nil =>
      refine ⟨0, function, state, ?_, ⟨rfl, rfl, ?_⟩, older, queued⟩
      · intro fuel _
        simp only [instrumentFunction_eq, blocks]
      · rw [blocks]
        trivial
  | cons entry rest =>
      have allUntouched := ready.blocks
      rw [blocks] at allUntouched
      have entryUntouched := allUntouched entry List.mem_cons_self
      have restUntouched : ∀ block ∈ rest, Untouched fresh block :=
        fun block member =>
          allUntouched block (List.mem_cons_of_mem _ member)
      have defined : function.blocks ≠ [] := by
        rw [blocks]
        exact List.cons_ne_nil entry rest
      have prepared :=
        prepareEntry_prepared noLog entryUntouched older queued
          (ready.args defined)
      rcases instrumentBlock_survives noLog _ prepared.ahead with
        ⟨bound, target, middle, runs, terminator, erased, segments,
          middleOlder, middleQueued⟩
      have others :
          ∃ bound targets final,
            (∀ fuel, bound ≤ fuel →
              pass.instrumentBlocks fuel (pass.decision function) middle
                rest = some (targets, final)) ∧
              List.Forall₂
                  (BlockSurvives pass (pass.decision function) fresh []) rest
                  targets ∧
                fresh ≤ final.nextId ∧ final.argLogSet = ∅ :=
        instrumentBlocks_survive noLog rest restUntouched middleOlder
          middleQueued
      rcases others with
        ⟨laterBound, targets, final, laterRuns, survive, finalOlder,
          finalQueued⟩
      refine ⟨max bound laterBound,
        { function with blocks := target :: targets }, final, ?_,
        ⟨rfl, rfl, ?_⟩, finalOlder, finalQueued⟩
      · intro fuel enough
        simp only [instrumentFunction_eq, blocks, instrumentBlocks_cons,
          runs fuel (by omega), laterRuns fuel (by omega), Option.bind_some,
          Option.map_some]
      · rw [blocks]
        refine ⟨⟨?_, ?_, ?_⟩, survive⟩
        · rw [terminator, prepared.terminator]
        · rw [erased, prepared.erased]
        · rw [prepared.pending] at segments
          exact segments

theorem instrumentFunctions_survive
    (noLog : pass.NoLogFunctionDefined) (functions : List Function)
    (ready : ∀ function ∈ functions, FunctionReady fresh function)
    (older : fresh ≤ state.nextId) (queued : state.argLogSet = ∅) :
    ∃ bound targets final,
      (∀ fuel, bound ≤ fuel →
        pass.instrumentFunctions fuel state functions =
          some (targets, final)) ∧
        List.Forall₂
          (fun source result =>
            if pass.selects source then
              FunctionSurvives pass fresh source result
            else
              result = source)
          functions targets := by
  induction functions generalizing state with
  | nil => exact ⟨0, [], state, fun _ _ => rfl, .nil⟩
  | cons function rest inductionHypothesis =>
      have here := ready function List.mem_cons_self
      have later : ∀ other ∈ rest, FunctionReady fresh other :=
        fun other member => ready other (List.mem_cons_of_mem _ member)
      have first :
          ∃ bound target middle,
            (∀ fuel, bound ≤ fuel →
              (if pass.selects function then
                  pass.instrumentFunction fuel function state
                else
                  some (function, state)) = some (target, middle)) ∧
              (if pass.selects function then
                FunctionSurvives pass fresh function target
              else
                target = function) ∧
                fresh ≤ middle.nextId ∧ middle.argLogSet = ∅ := by
        cases selects : pass.selects function with
        | false =>
            exact ⟨0, function, state, fun _ _ => rfl, rfl, older, queued⟩
        | true => exact instrumentFunction_survives noLog here older queued
      rcases first with
        ⟨bound, target, middle, runs, survives, middleOlder, middleQueued⟩
      rcases inductionHypothesis later middleOlder middleQueued with
        ⟨laterBound, targets, final, laterRuns, survive⟩
      refine ⟨max bound laterBound, target :: targets, final, ?_,
        .cons survives survive⟩
      intro fuel enough
      simp only [instrumentFunctions_cons, runs fuel (by omega),
        laterRuns fuel (by omega), Option.bind_some, Option.map_some]

/-- The widths of all integers that are passed, loaded or stored. -/
def Module.WidthsOk (module : Module) : Prop :=
  ∀ function ∈ module.functions,
    (∀ param ∈ function.params, param.2.WidthOk) ∧
      ∀ block ∈ function.blocks, ∀ inst ∈ block.insts, ∀ type,
        inst.accessedType = some type → type.WidthOk

theorem functionReady_of_loaded
    {module : Module} (widths : module.WidthsOk) :
    ∀ function ∈ pass.loadedFunctions module,
      FunctionReady module.nextId function := by
  intro function member
  rcases List.mem_append.mp member with defined | declared
  · have ok := widths function defined
    refine ⟨fun _ => ok.1, ?_⟩
    intro block isBlock
    exact ⟨module.older function defined block isBlock, ok.2 block isBlock⟩
  · rcases List.mem_map.mp declared with ⟨callee, _, rfl⟩
    exact ⟨fun body => absurd rfl body, List.forall_mem_nil _⟩

end Module

/-! ## A small program -/

/-- Everything is instrumented, arguments included. -/
def instrumentsAll : AccessInstrumentationPass where
  srcmap := fun _ => 0
  typemap := fun _ => 0
  varmap := fun _ => 0
  fnmap := fun _ => 0
  adm := [⟨"malloc", 0, -1, -1⟩, ⟨"calloc", 1, 0, -1⟩]
  library := ⟨instrumentationLibrary, fun _ => ""⟩
  insfilt :=
    ⟨fun _ => true, fun _ => true, fun _ _ => true, fun _ _ => true⟩
  naming := ⟨fun _ => "i32*", id, fun _ _ => "NA", fun _ => 0, fun _ => id⟩
  unassignedIsArg := fun _ => false
  strayOperand := fun _ _ => .constantInt 0 (.integer 64)

/-- A function that stores its argument, loads it back and allocates. -/
def allocatingFunction : Function :=
  let i : Value := .argument "abc" 0 "i" (.integer 32)
  let slot : Inst := ⟨0, "i.addr", .alloca (.integer 32), none⟩
  let malloc : Callee :=
    ⟨"malloc", [.integer 64], .pointer (.integer 8)⟩
  let insts : List Inst :=
    [slot, ⟨1, "", .store i slot.value, none⟩,
      ⟨2, "", .load slot.value, none⟩,
      ⟨3, "", .call (some malloc) [.constantInt 8 (.integer 64)]
        malloc.returnType, none⟩]
  ⟨"abc", [("i", .integer 32)], [⟨insts, ⟨.ret, none⟩⟩]⟩

def allocatingModule : Module where
  identifier := "main.c"
  functions := [allocatingFunction]
  nextId := 4
  older := by decide

/-- The functions called, instruction by instruction. -/
def calledNames (functions : List Function) : List String :=
  functions.flatMap fun function =>
    function.blocks.flatMap fun block =>
      block.insts.map fun inst =>
        (inst.calledFunction.map Callee.name).getD "-"

-- The injected store, the store and the load are logged, each behind the cast
-- of its address; the load once more loads its value first.
example :
    (instrumentsAll.runOnModule 17 allocatingModule).map calledNames =
      some
        ["logFnBegin", "-", "-", "logAccessI32", "-", "-",
          "-", "logAccessI32", "-", "-", "-", "logAccessI32", "-",
          "malloc", "logAlloc", "logFnEnd"] := by
  decide +kernel

end Dinamite.Instrument
