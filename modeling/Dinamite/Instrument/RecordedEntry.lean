import Dinamite.Instrument.RecordedFunctions

/-!
# Instrumented entries

The entry block holds a slot and a store for every selected argument.  The loop
logs each of these stores as an argument, and nobody sees what they store.
-/

namespace Dinamite.Instrument

open Dinamite.CursorLoop
open AccessInstrumentationPass

variable {Val Mem : Type} {machine : Machine Val Mem}
variable {pass : AccessInstrumentationPass} {decision : Decision}
variable {fresh fuel : Nat} {state final : PassState}
variable {terminatorLoc : Option DebugLoc}

/-! ## Slots -/

/-- A slot for every argument, and a store to it. -/
def slotInsts (debugLoc : Option DebugLoc) : Nat → List Value → List Inst
  | _, [] => []
  | slot, arg :: rest =>
      ⟨slot, "", .alloca arg.getType, debugLoc⟩ ::
        ⟨slot + 1, "", .store arg (slotOf slot arg), debugLoc⟩ ::
          slotInsts debugLoc (slot + 2) rest

/-- What the loop over the arguments injects. -/
theorem injectArgs_eq
    (fname : String) (idx : Nat) (args : List Value) (builder : IRBuilder)
    (argLogSet : Finset Value) :
    pass.injectArgs fname idx args builder argLogSet =
      ({ builder with
          nextId :=
            builder.nextId + 2 * (pass.selectedFrom fname idx args).length
          inserted :=
            builder.inserted ++
              slotInsts builder.debugLoc builder.nextId
                (pass.selectedFrom fname idx args) },
        argLogSet ∪ (pass.selectedFrom fname idx args).toFinset) := by
  induction args generalizing idx builder argLogSet with
  | nil => simp [injectArgs, selectedFrom, slotInsts]
  | cons arg rest inductionHypothesis =>
      cases selects : pass.insfilt.checkFunctionArgFilter fname idx with
      | false =>
          have skipped :
              pass.selectedFrom fname idx (arg :: rest) =
                pass.selectedFrom fname (idx + 1) rest := by
            simp [selectedFrom, List.zipIdx_cons, selects]
          rw [injectArgs, selects, if_neg Bool.false_ne_true,
            inductionHypothesis, skipped]
      | true =>
          have taken :
              pass.selectedFrom fname idx (arg :: rest) =
                arg :: pass.selectedFrom fname (idx + 1) rest := by
            simp [selectedFrom, List.zipIdx_cons, selects]
          rw [injectArgs, selects, if_pos rfl, inductionHypothesis, taken]
          simp only [IRBuilder.createAlloca, IRBuilder.createStore,
            IRBuilder.insert, Inst.value, Inst.getType, slotInsts, slotOf,
            List.length_cons, List.append_assoc, List.cons_append,
            List.nil_append, List.toFinset_cons, Finset.union_insert,
            Finset.insert_union]
          refine Prod.ext ?_ rfl
          simp only [IRBuilder.mk.injEq, true_and]
          exact ⟨by omega, trivial⟩

/-! ## Visits of the injected stores -/

theorem argumentEntries_congr
    (function : String) (debugLoc : Option DebugLoc) (slot : Nat)
    {args : List Value} {left right : Frame Val Mem}
    (evals : ∀ arg ∈ args, machine.eval left arg = machine.eval right arg)
    (memory : left.memory = right.memory) :
    pass.argumentEntries machine function debugLoc slot args left =
      pass.argumentEntries machine function debugLoc slot args right := by
  induction args generalizing slot with
  | nil => rfl
  | cons arg rest inductionHypothesis =>
      rw [argumentEntries, argumentEntries,
        evals arg List.mem_cons_self, memory,
        inductionHypothesis (slot + 2)
          fun other member => evals other (List.mem_cons_of_mem _ member)]

theorem noting_argumentEntries_cons
    (function : String) (debugLoc : Option DebugLoc) (slot : Nat)
    (arg : Value) (rest : List Value) (frame : Frame Val Mem) :
    noting
        (pass.argumentEntries machine function debugLoc (slot + 2) rest)
        (noting
          (pass.argumentEntries machine function debugLoc slot [arg])
          frame) =
      noting
        (pass.argumentEntries machine function debugLoc slot (arg :: rest))
        frame := by
  have later :
      pass.argumentEntries machine function debugLoc (slot + 2) rest
          (noting
            (pass.argumentEntries machine function debugLoc slot [arg])
            frame) =
        pass.argumentEntries machine function debugLoc (slot + 2) rest
          frame :=
    argumentEntries_congr function debugLoc (slot + 2)
      (fun other _ => Machine.eval_logging frame _ other) rfl
  rw [noting, later]
  simp only [noting, Frame.logging, argumentEntries, List.append_nil,
    List.append_assoc]

/-- A slot, what logs the store to it, and the store. -/
theorem means_slot
    (hosts : machine.Hosts pass fresh) {slot nextId : Nat}
    (young : fresh ≤ slot) (reserved : slot < nextId)
    {arg : Value} (below : arg.Below fresh) {debugLoc : Option DebugLoc}
    {function : String} {builder : IRBuilder}
    (built :
      pass.instrumentAccess (slot + 1) function nextId debugLoc arg
        (slotOf slot arg) 'a' = some builder)
    (name otherName : String) (storeId : Nat) :
    Means machine
      (⟨slot, name, .alloca arg.getType, debugLoc⟩ ::
        (builder.inserted ++
          [⟨storeId, otherName, .store arg (slotOf slot arg), debugLoc⟩]))
      fun frame =>
        .goes (noting
          (pass.argumentEntries machine function debugLoc slot [arg])
          frame) := by
  intro left right agree
  have slotYoung : machine.fresh ≤ slot := by
    rw [hosts.fresh]
    exact young
  let reached : Frame Val Mem := left.set slot (.slot slot)
  have allocated :
      machine.step ⟨slot, name, .alloca arg.getType, debugLoc⟩ left =
        .goes reached := by
    simp only [Machine.step, if_pos slotYoung]
    rfl
  have reachedAgrees : left.Agree True machine.fresh reached :=
    left.agree_set slotYoung _
  have holds : machine.eval reached (slotOf slot arg) = .slot slot := by
    simp only [slotOf, Machine.eval, reached, Frame.set,
      Function.update_self]
  have logs :
      Logs machine nextId builder.inserted reached
        (pass.accessEntries machine (slot + 1) function debugLoc arg.getType
          (machine.eval reached arg) (slotOf slot arg) (.slot slot) 'a'
          reached.memory) := by
    rw [← holds]
    exact logs_instrumentAccess_store hosts (Or.inr rfl)
      (below.mono (by omega))
      (show (slotOf slot arg).Below nextId from reserved) built
  rcases logs with ⟨after, ran, logged⟩
  have stillHolds : machine.eval after (slotOf slot arg) = .slot slot := by
    have kept := logged.registers slot reserved
    simp only [slotOf, Machine.eval, ← kept, Frame.logging, reached,
      Frame.set, Function.update_self]
  have stored :
      machine.step
          ⟨storeId, otherName, .store arg (slotOf slot arg), debugLoc⟩
          after = .goes after := by
    simp only [Machine.step, stillHolds]
  rw [Machine.stepAll, allocated, Result.bind_goes, Machine.stepAll_append,
    ran, Result.bind_goes, Machine.stepAll_singleton, stored]
  refine .goes ((logged.mono (by omega)).symm.trans ?_)
  have sameValue : machine.eval reached arg = machine.eval right arg := by
    rw [← hosts.fresh] at below
    exact Machine.eval_congr (reachedAgrees.symm.trans agree) below
  refine (reachedAgrees.symm.trans agree).logging ?_
  intro _
  simp only [argumentEntries, List.append_nil, sameValue,
    (reachedAgrees.symm.trans agree).memory]

/-- The visit of an injected store, whose argument is queued. -/
theorem visit_slot_store
    (filtered : decision.functionFilter = true) {arg : Value}
    {rest : List Value} (distinct : (arg :: rest).Nodup)
    (queue : state.argLogSet = (arg :: rest).toFinset)
    {storeId : Nat} {name : String} {pointer : Value}
    {debugLoc : Option DebugLoc} {nextInst : Option Inst}
    {made : Visit PassState Inst}
    (visited :
      pass.visit decision terminatorLoc state
        ⟨storeId, name, .store arg pointer, debugLoc⟩ nextInst =
          some made) :
    ∃ builder,
      pass.instrumentAccess storeId decision.function state.nextId debugLoc
          arg pointer 'a' = some builder ∧
        made = ⟨builder.inserted, [], ⟨builder.nextId, rest.toFinset⟩⟩ := by
  have consumed :
      checkAndConsumeArg state.argLogSet arg = (true, rest.toFinset) := by
    rw [checkAndConsumeArg_eq, queue, List.toFinset_cons,
      Finset.erase_insert
        (fun later =>
          (List.nodup_cons.mp distinct).1 (List.mem_toFinset.mp later))]
    simp
  simp only [visit_eq, visitStore_eq, filtered, if_true, consumed,
    Bool.and_self, Bool.true_or] at visited
  rcases Option.map_eq_some_iff.mp visited with ⟨builder, built, rfl⟩
  exact ⟨builder, built, rfl⟩

/-- The part of the loop that visits the injected stores. -/
theorem means_slots
    (hosts : machine.Hosts pass fresh) (noLog : pass.NoLogFunctionDefined)
    {args : List Value} (filtered : args ≠ [] → decision.functionFilter = true)
    (below : ∀ arg ∈ args, arg.Below fresh) (distinct : args.Nodup)
    (queue : state.argLogSet = args.toFinset)
    {slot : Nat} (young : fresh ≤ slot)
    (reserved : slot + 2 * args.length ≤ state.nextId)
    {debugLoc : Option DebugLoc} {tail done result : List Inst}
    (ran :
      loop (pass.visit decision terminatorLoc) fuel state done
        (slotInsts debugLoc slot args ++ tail) = some (result, final)) :
    ∃ fewer last made,
      (Means machine made fun frame =>
        .goes (noting
          (pass.argumentEntries machine decision.function debugLoc slot
            args) frame)) ∧
        Settled fresh last ∧
        loop (pass.visit decision terminatorLoc) fewer last (done ++ made)
          tail = some (result, final) := by
  induction args generalizing fuel state done slot with
  | nil =>
      refine ⟨fuel, state, [], means_nothing fun frame => rfl,
        ⟨by simp at reserved; omega, queue⟩, ?_⟩
      rw [List.append_nil]
      exact ran
  | cons arg rest inductionHypothesis =>
      rw [List.length_cons] at reserved
      rw [slotInsts, List.cons_append, List.cons_append] at ran
      rcases loop_past_item
          (fun _ visited => after_inert noLog visited) ran with
        ⟨fewer, atSlot, slotVisited, atStore⟩
      obtain rfl := Option.some.inj slotVisited
      rcases loop_past_item
          (fun _ visited => after_inert noLog visited) atStore with
        ⟨least, made, storeVisited, continued⟩
      rcases visit_slot_store (filtered (List.cons_ne_nil _ _)) distinct
          queue storeVisited with
        ⟨builder, built, rfl⟩
      have grows : state.nextId ≤ builder.nextId :=
        (accessInserted_store (Or.inr rfl) built).1.grows
      have continuedAgain :=
        inductionHypothesis
          (fun _ => filtered (List.cons_ne_nil _ _))
          (fun other member => below other (List.mem_cons_of_mem _ member))
          (List.nodup_cons.mp distinct).2 rfl
          (show fresh ≤ slot + 2 by omega)
          (show slot + 2 + 2 * rest.length ≤ builder.nextId by omega)
          continued
      rcases continuedAgain with ⟨last, lastState, more, means, settled, ended⟩
      have here :=
        means_slot hosts young (show slot < state.nextId by omega)
          (below arg List.mem_cons_self) built "" "" (slot + 1)
      refine ⟨last, lastState,
        (⟨slot, "", .alloca arg.getType, debugLoc⟩ ::
          (builder.inserted ++
            [⟨slot + 1, "", .store arg (slotOf slot arg), debugLoc⟩])) ++
          more, ?_, settled, ?_⟩
      · refine (here.append means).congr ?_
        intro frame
        rw [Result.bind_goes, noting_argumentEntries_cons]
      · simpa using ended

/-! ## The prepared entry -/

theorem notPhi_of_isLandingPad
    {inst : Inst} (isPad : inst.isLandingPad = true) :
    inst.isPhi = false := by
  unfold Inst.isLandingPad at isPad
  split at isPad
  · rename_i op
    simp [Inst.isPhi, op]
  · cases isPad

/-- The insertion point is in front of what was inserted there before. -/
theorem splitFirst_insertFirst
    (block : Block) {new : List Inst}
    (free : ∀ inst ∈ new, ¬ inst.Leading) :
    (block.insertFirst new).splitFirstInsertionPt =
      (block.splitFirstInsertionPt.1,
        new ++ block.splitFirstInsertionPt.2) := by
  cases new with
  | nil => rw [insertFirst_nil, List.nil_append]
  | cons inst rest =>
      have notLeading := free inst List.mem_cons_self
      simp only [Inst.Leading, not_or, Bool.not_eq_true] at notLeading
      rcases notLeading with ⟨notPhi, notPad⟩
      have phis :
          ∀ inst ∈ block.insts.takeWhile Inst.isPhi, inst.isPhi = true :=
        fun inst member => List.mem_takeWhile_imp member
      have takes (others : List Inst) :
          (block.insts.takeWhile Inst.isPhi ++ others).takeWhile
              Inst.isPhi =
            block.insts.takeWhile Inst.isPhi ++
              others.takeWhile Inst.isPhi :=
        List.takeWhile_append_of_pos phis
      have drops (others : List Inst) :
          (block.insts.takeWhile Inst.isPhi ++ others).dropWhile
              Inst.isPhi =
            others.dropWhile Inst.isPhi :=
        List.dropWhile_append_of_pos phis
      cases dropped : block.insts.dropWhile Inst.isPhi with
      | nil =>
          simp [Block.insertFirst, Block.splitFirstInsertionPt, dropped,
            takes, drops, notPhi, notPad]
      | cons head back =>
          cases isPad : head.isLandingPad with
          | true =>
              simp [Block.insertFirst, Block.splitFirstInsertionPt, dropped,
                takes, drops, isPad, notPhi_of_isLandingPad isPad]
          | false =>
              simp [Block.insertFirst, Block.splitFirstInsertionPt, dropped,
                takes, drops, isPad, notPhi, notPad]

theorem insts_insertFirst (block : Block) (new : List Inst) :
    (block.insertFirst new).insts =
      block.splitFirstInsertionPt.1 ++ new ++
        block.splitFirstInsertionPt.2 :=
  rfl

theorem not_leading_slotInsts
    (debugLoc : Option DebugLoc) (slot : Nat) (args : List Value) :
    ∀ inst ∈ slotInsts debugLoc slot args, ¬ inst.Leading := by
  induction args generalizing slot with
  | nil => exact List.forall_mem_nil _
  | cons arg rest inductionHypothesis =>
      intro inst member
      rcases List.mem_cons.mp member with rfl | more
      · simp [Inst.Leading, Inst.isPhi, Inst.isLandingPad]
      · rcases List.mem_cons.mp more with rfl | later
        · simp [Inst.Leading, Inst.isPhi, Inst.isLandingPad]
        · exact inductionHypothesis (slot + 2) inst later

/-- What goes in front of everything that is injected. -/
def beginEvent
    (pass : AccessInstrumentationPass) (decision : Decision) (nextId : Nat)
    (debugLoc : Option DebugLoc) : IRBuilder :=
  if decision.logsEvents then
    pass.instrumentFnEvent decision.function nextId debugLoc .fnBegin
  else
    ⟨nextId, debugLoc, []⟩

/-- The entry with its slots. -/
theorem queued_eq
    (function : Function) (entry : Block) (empty : state.argLogSet = ∅) :
    (if (pass.decision function).functionFilter then
        pass.queueAndInjectArgsToLog function state entry
      else
        (entry, state)) =
      (entry.insertFirst
          (slotInsts entry.firstInsertionLoc state.nextId
            (pass.injectedArgs function)),
        ⟨state.nextId + 2 * (pass.injectedArgs function).length,
          (pass.injectedArgs function).toFinset⟩) := by
  unfold injectedArgs
  split
  · rw [queueAndInjectArgsToLog, injectArgs_eq, empty]
    simp only [List.nil_append, Finset.empty_union]
  · rw [slotInsts, insertFirst_nil, List.toFinset_nil, ← empty]
    rfl

/-- The prepared entry, from front to back. -/
theorem prepareEntry_insts
    (function : Function) (entry : Block) (empty : state.argLogSet = ∅) :
    ∃ nextId debugLoc,
      state.nextId + 2 * (pass.injectedArgs function).length ≤ nextId ∧
        pass.prepareEntry function state entry =
          ({ entry with
              insts :=
                entry.splitFirstInsertionPt.1 ++
                  ((beginEvent pass (pass.decision function) nextId
                      debugLoc).inserted ++
                    (slotInsts entry.firstInsertionLoc state.nextId
                        (pass.injectedArgs function) ++
                      entry.splitFirstInsertionPt.2)) },
            ⟨(beginEvent pass (pass.decision function) nextId
                debugLoc).nextId,
              (pass.injectedArgs function).toFinset⟩) := by
  have split :=
    splitFirst_insertFirst entry
      (not_leading_slotInsts entry.firstInsertionLoc state.nextId
        (pass.injectedArgs function))
  refine ⟨_, (entry.insertFirst
      (slotInsts entry.firstInsertionLoc state.nextId
        (pass.injectedArgs function))).firstInsertionLoc, le_refl _, ?_⟩
  rw [prepareEntry_eq]
  simp only [queued_eq function entry empty]
  unfold beginEvent
  by_cases logs : (pass.decision function).logsEvents = true
  · simp only [if_pos logs, instrumentEntry_eq]
    rw [Block.insertFirst, split]
    simp only [List.append_assoc]
    rfl
  · simp only [if_neg logs]
    rw [Block.insertFirst]
    simp only [List.append_assoc, List.nil_append]

/-! ## The entry after the loop -/

theorem beginEvent_younger (nextId : Nat) (debugLoc : Option DebugLoc) :
    nextId ≤ (beginEvent pass decision nextId debugLoc).nextId := by
  unfold beginEvent
  split
  · exact Nat.le_succ _
  · exact le_refl _

theorem beginEvent_inert
    (noLog : pass.NoLogFunctionDefined) (nextId : Nat)
    (debugLoc : Option DebugLoc) :
    ∀ inst ∈ (beginEvent pass decision nextId debugLoc).inserted,
      Inert (pass.visit decision terminatorLoc) inst := by
  unfold beginEvent
  split
  · intro inst member
    obtain rfl := List.mem_singleton.mp member
    exact inert_of_event noLog
      (eventLogFunc_mem decision.function .fnBegin) rfl decision
      terminatorLoc
  · exact List.forall_mem_nil _

theorem means_beginEvent
    (hosts : machine.Hosts pass fresh) {nextId : Nat}
    (young : fresh ≤ nextId) (debugLoc : Option DebugLoc) :
    Means machine (beginEvent pass decision nextId debugLoc).inserted
      fun frame =>
        .goes (noting (pass.eventEntries machine decision .fnBegin)
          frame) := by
  unfold beginEvent
  by_cases logs : decision.logsEvents = true
  · rw [if_pos logs]
    exact means_of_logs
      (fun frame => logs_instrumentFnEvent hosts _ .fnBegin logs)
      (hosts.older young)
      (fun left right agree => eventEntries_congr agree .fnBegin)
  · rw [if_neg logs]
    exact means_nothing fun frame => by simp [eventEntries, logs]

theorem inert_of_leading
    {inst : Inst} (leading : inst.Leading) (decision : Decision)
    (terminatorLoc : Option DebugLoc) :
    Inert (pass.visit decision terminatorLoc) inst := by
  intro state nextInst
  rcases leading with isPhi | isPad
  · unfold Inst.isPhi at isPhi
    split at isPhi
    · rename_i op
      simp only [visit_eq, op]
    · cases isPhi
  · unfold Inst.isLandingPad at isPad
    split at isPad
    · rename_i op
      simp only [visit_eq, op]
    · cases isPad

/-- Only arguments of the function are stored. -/
theorem injectedArgs_subset (function : Function) :
    (pass.injectedArgs function).Sublist function.args := by
  unfold injectedArgs
  split
  · exact selectedFrom_sublist function.name 0 function.args
  · exact List.nil_sublist _

theorem below_injectedArgs (mark : Nat) (function : Function) :
    ∀ arg ∈ pass.injectedArgs function, arg.Below mark := by
  intro arg member
  have isArg := (injectedArgs_subset function).mem member
  rcases List.mem_mapIdx.mp isArg with ⟨index, inRange, rfl⟩
  trivial

theorem functionFilter_of_injectedArgs
    {function : Function} (some : pass.injectedArgs function ≠ []) :
    (pass.decision function).functionFilter = true := by
  by_contra unfiltered
  exact some (if_neg unfiltered)

theorem splitFirst_append (block : Block) :
    block.splitFirstInsertionPt.1 ++ block.splitFirstInsertionPt.2 =
      block.insts := by
  have inserted := insts_insertFirst block []
  rw [insertFirst_nil, List.append_nil] at inserted
  exact inserted.symm

theorem leading_of_split (block : Block) :
    ∀ inst ∈ block.splitFirstInsertionPt.1, inst.Leading := by
  have phis :
      ∀ inst ∈ block.insts.takeWhile Inst.isPhi, inst.Leading :=
    fun inst member => Or.inl (List.mem_takeWhile_imp member)
  unfold Block.splitFirstInsertionPt
  dsimp only
  split
  · exact phis
  · split
    case isTrue isPad =>
      intro inst member
      rcases List.mem_append.mp member with isPhi | last
      · exact phis inst isPhi
      · rw [List.mem_singleton.mp last]
        exact Or.inr isPad
    case isFalse => exact phis

/-- The entry: the loop leaves its front alone, logs the arguments, and goes
on as in any other block. -/
theorem means_instrumentEntry
    (hosts : machine.Hosts pass fresh) (noLog : pass.NoLogFunctionDefined)
    {function : Function} {entry target : Block}
    (sound : ∀ inst ∈ entry.insts, inst.Sound pass fresh)
    (settled : Settled fresh state)
    (ran :
      pass.instrumentBlock fuel (pass.decision function)
          (pass.prepareEntry function state entry).2
          (pass.prepareEntry function state entry).1 =
        some (target, final)) :
    Settled fresh final ∧
      Code.Agree True machine.fresh (machine.code target)
        (pass.recordEntry machine state.nextId function entry) := by
  rcases @prepareEntry_insts pass state function entry settled.empty with
    ⟨nextId, debugLoc, reserved, prepared⟩
  rw [prepared] at ran
  rw [instrumentBlock_eq] at ran
  rcases Option.map_eq_some_iff.mp ran with ⟨⟨insts, last⟩, looped, equal⟩
  rcases Prod.mk.inj equal with ⟨rfl, rfl⟩
  have original := splitFirst_append entry
  have frontSound :
      ∀ inst ∈ entry.splitFirstInsertionPt.1,
        inst.OperandsBelow machine.fresh := by
    intro inst member
    rw [hosts.fresh]
    refine (sound inst ?_).operands
    rw [← original]
    exact List.mem_append_left _ member
  have backSound :
      ∀ inst ∈ entry.splitFirstInsertionPt.2, inst.Sound pass fresh := by
    intro inst member
    refine sound inst ?_
    rw [← original]
    exact List.mem_append_right _ member
  have older := settled.older
  have beginGrows :
      nextId ≤
        (beginEvent pass (pass.decision function) nextId
          debugLoc).nextId :=
    beginEvent_younger nextId debugLoc
  simp only [List.append_assoc] at looped
  rcases loop_after_inert
      (fun inst member =>
        inert_of_leading (leading_of_split entry inst member) _ _)
      looped with
    ⟨fuelFront, pastFront⟩
  rcases loop_after_inert (beginEvent_inert noLog nextId debugLoc)
      pastFront with
    ⟨fuelBegin, pastBegin⟩
  have endGrows :=
    (@endEvent_younger pass (pass.decision function)
      (beginEvent pass (pass.decision function) nextId debugLoc).nextId
      entry.terminator).grows
  have slots :=
    means_slots hosts noLog
      (fun some => functionFilter_of_injectedArgs some)
      (below_injectedArgs fresh function)
      ((injectedArgs_subset function).nodup (args_nodup function)) rfl older
      ((reserved.trans beginGrows).trans endGrows) pastBegin
  rcases slots with ⟨fuelSlots, atBack, made, means, settledBack, pastSlots⟩
  rcases means_loop_end hosts noLog backSound settledBack entry
      ((older.trans (Nat.le_of_add_right_le reserved)).trans beginGrows)
      pastSlots with
    ⟨settledLast, more, isMade, meansBack⟩
  refine ⟨settledLast, rfl, ?_⟩
  have insts_eq :
      insts =
        entry.splitFirstInsertionPt.1 ++
          ((beginEvent pass (pass.decision function) nextId
            debugLoc).inserted ++ (made ++ more)) := by
    simpa using isMade
  have begun :
      Means machine
        (beginEvent pass (pass.decision function) nextId debugLoc).inserted
        fun frame =>
          .goes (noting
            (pass.eventEntries machine (pass.decision function) .fnBegin)
            frame) :=
    means_beginEvent hosts (older.trans (Nat.le_of_add_right_le reserved))
      debugLoc
  have all :=
    (means_insts frontSound).append (begun.append (means.append meansBack))
  change Means machine insts
    (pass.recordEntry machine state.nextId function entry).body
  rw [insts_eq]
  exact all.congr fun frame => rfl

end Dinamite.Instrument
