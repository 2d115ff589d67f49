import Dinamite.Instrument.ControlFlow
import Dinamite.Instrument.Outcomes
import Dinamite.Instrument.Survival

/-!
# Runs of the pass

What holds whenever the pass returns: rules for the blocks of a function and
the functions of a module, and the state every function starts in.
-/

namespace Dinamite.Instrument

open Dinamite.CursorLoop
open AccessInstrumentationPass

/-! ## Blocks -/

namespace AccessInstrumentationPass

variable (pass : AccessInstrumentationPass)

/-- What goes in front of the terminator of a block. -/
def endEvent
    (decision : Decision) (nextId : Nat) (terminator : Terminator) :
    IRBuilder :=
  if terminator.op = .ret ∧ decision.logsEvents then
    pass.instrumentFnEvent decision.function nextId terminator.debugLoc
      .fnEnd
  else
    ⟨nextId, terminator.debugLoc, []⟩

end AccessInstrumentationPass

section Rules

variable {pass : AccessInstrumentationPass} {fuel : Nat}

/-- The rule for one block. -/
theorem instrumentBlock_invariant
    {decision : Decision}
    (Invariant : PassState → List Inst → List Inst → Prop)
    (step : ∀ state done item rest made,
      VisitOutcome pass decision state item made →
        Invariant state done (item :: rest) →
          Invariant made.state (done ++ made.before ++ [item])
            (made.after ++ rest))
    {state final : PassState} {block target : Block}
    (ran :
      pass.instrumentBlock fuel decision state block =
        some (target, final))
    (holds :
      Invariant
        { state with
          nextId :=
            (pass.endEvent decision state.nextId
              block.terminator).nextId }
        []
        (block.insts ++
          (pass.endEvent decision state.nextId
            block.terminator).inserted)) :
    target.terminator = block.terminator ∧
      Invariant final target.insts [] := by
  rw [instrumentBlock_eq] at ran
  rcases Option.map_eq_some_iff.mp ran with ⟨⟨insts, last⟩, looped, equal⟩
  rcases Prod.mk.inj equal with ⟨rfl, rfl⟩
  refine ⟨rfl, ?_⟩
  exact loop_invariant Invariant
    (fun _ _ _ _ _ visited reached =>
      step _ _ _ _ _ (outcome_of_visit visited) reached)
    looped holds

/-- Induction on the blocks of a function, from the front. -/
theorem instrumentBlocks_induction
    {decision : Decision}
    (Motive : List Block → List Block → PassState → Prop)
    (extend : ∀ sources targets state block target next,
      pass.instrumentBlock fuel decision state block =
          some (target, next) →
        Motive sources targets state →
          Motive (sources ++ [block]) (targets ++ [target]) next)
    {sources targets blocks results : List Block}
    {state final : PassState}
    (ran :
      pass.instrumentBlocks fuel decision state blocks =
        some (results, final))
    (start : Motive sources targets state) :
    Motive (sources ++ blocks) (targets ++ results) final := by
  induction blocks generalizing sources targets state results with
  | nil =>
      rcases Prod.mk.inj (Option.some.inj ran) with ⟨rfl, rfl⟩
      simpa using start
  | cons block blocks inductionHypothesis =>
      rw [instrumentBlocks_cons] at ran
      rcases Option.bind_eq_some_iff.mp ran with
        ⟨⟨target, next⟩, first, others⟩
      rcases Option.map_eq_some_iff.mp others with
        ⟨⟨laterTargets, last⟩, continued, equal⟩
      rcases Prod.mk.inj equal with ⟨rfl, rfl⟩
      have later :=
        inductionHypothesis continued
          (extend sources targets state block target next first start)
      simpa using later

/-- A function with a body: the prepared entry, and then the other blocks. -/
theorem instrumentFunction_cases
    {function target : Function} {state final : PassState}
    (ran :
      pass.instrumentFunction fuel function state = some (target, final)) :
    (function.blocks = [] ∧ target = function ∧ final = state) ∨
      ∃ entry rest first middle others,
        function.blocks = entry :: rest ∧
          pass.instrumentBlock fuel (pass.decision function)
              (pass.prepareEntry function state entry).2
              (pass.prepareEntry function state entry).1 =
            some (first, middle) ∧
          pass.instrumentBlocks fuel (pass.decision function) middle rest =
            some (others, final) ∧
          target = { function with blocks := first :: others } := by
  cases blocks : function.blocks with
  | nil =>
      simp only [instrumentFunction_eq, blocks] at ran
      rcases Prod.mk.inj (Option.some.inj ran) with ⟨rfl, rfl⟩
      exact Or.inl ⟨rfl, rfl, rfl⟩
  | cons entry rest =>
      simp only [instrumentFunction_eq, blocks, instrumentBlocks_cons] at ran
      rcases Option.map_eq_some_iff.mp ran with ⟨⟨results, last⟩, all, equal⟩
      rcases Prod.mk.inj equal with ⟨rfl, rfl⟩
      rcases Option.bind_eq_some_iff.mp all with
        ⟨⟨first, middle⟩, entryRan, continued⟩
      rcases Option.map_eq_some_iff.mp continued with
        ⟨⟨others, final⟩, othersRan, joined⟩
      rcases Prod.mk.inj joined with ⟨rfl, rfl⟩
      exact Or.inr
        ⟨entry, rest, first, middle, others, rfl, entryRan, othersRan, rfl⟩

/-- Induction on the functions of a module, from the front. -/
theorem instrumentFunctions_induction
    (Motive : List Function → List Function → PassState → Prop)
    (extend : ∀ sources targets state function target next,
      (if pass.selects function then
          pass.instrumentFunction fuel function state
        else
          some (function, state)) = some (target, next) →
        Motive sources targets state →
          Motive (sources ++ [function]) (targets ++ [target]) next)
    {sources targets functions results : List Function}
    {state final : PassState}
    (ran :
      pass.instrumentFunctions fuel state functions =
        some (results, final))
    (start : Motive sources targets state) :
    Motive (sources ++ functions) (targets ++ results) final := by
  induction functions generalizing sources targets state results with
  | nil =>
      rcases Prod.mk.inj (Option.some.inj ran) with ⟨rfl, rfl⟩
      simpa using start
  | cons function functions inductionHypothesis =>
      rw [instrumentFunctions_cons] at ran
      rcases Option.bind_eq_some_iff.mp ran with
        ⟨⟨target, next⟩, first, others⟩
      rcases Option.map_eq_some_iff.mp others with
        ⟨⟨laterTargets, last⟩, continued, equal⟩
      rcases Prod.mk.inj equal with ⟨rfl, rfl⟩
      have later :=
        inductionHypothesis continued
          (extend sources targets state function target next first start)
      simpa using later

end Rules

/-! ## The queue of arguments -/

/-- The value a store stores. -/
def Inst.storedValue (inst : Inst) : Option Value :=
  match inst.op with
  | .store value _ => some value
  | _ => none

theorem storedValue_of_not_store
    {inst : Inst} (notStore : inst.isStore = false) :
    inst.storedValue = none := by
  unfold Inst.isStore at notStore
  split at notStore
  · cases notStore
  · rename_i noStore
    unfold Inst.storedValue
    split
    · rename_i value pointer op
      exact absurd op (noStore value pointer)
    · rfl

def storedValues (insts : List Inst) : List Value :=
  insts.filterMap Inst.storedValue

theorem storedValues_append (first second : List Inst) :
    storedValues (first ++ second) =
      storedValues first ++ storedValues second :=
  List.filterMap_append

theorem storedValues_eq_nil
    {insts : List Inst}
    (notStore : ∀ inst ∈ insts, inst.isStore = false) :
    storedValues insts = [] :=
  List.filterMap_eq_nil_iff.mpr fun inst member =>
    storedValue_of_not_store (notStore inst member)

section Queue

variable {pass : AccessInstrumentationPass} {decision : Decision}
variable {state : PassState} {item : Inst}
variable {made : Visit PassState Inst}

theorem checkAndConsumeArg_eq
    (argLogSet : Finset Value) (value : Value) :
    checkAndConsumeArg argLogSet value =
      (decide (value ∈ argLogSet), argLogSet.erase value) := by
  unfold checkAndConsumeArg
  split
  case isTrue queued => rw [decide_eq_true queued]
  case isFalse notQueued =>
    rw [decide_eq_false notQueued, Finset.erase_eq_of_notMem notQueued]

/-- A store takes its value out of the queue, and nothing else changes the
queue. -/
theorem VisitOutcome.argLogSet
    (outcome : VisitOutcome pass decision state item made) :
    made.state.argLogSet =
      if decision.functionFilter then
        state.argLogSet \ item.storedValue.toFinset
      else
        state.argLogSet := by
  have store :
      ∀ value pointer, item.op = .store value pointer →
        (pass.storeIsArg decision state item value).2 =
          if decision.functionFilter then
            state.argLogSet \ item.storedValue.toFinset
          else
            state.argLogSet := by
    intro value pointer op
    have stored : item.storedValue = some value := by
      simp only [Inst.storedValue, op]
    unfold storeIsArg
    split
    · rw [checkAndConsumeArg_eq, stored, Option.toFinset_some,
        Finset.sdiff_singleton_eq_erase]
    · rfl
  have other :
      item.isStore = false →
        state.argLogSet =
          if decision.functionFilter then
            state.argLogSet \ item.storedValue.toFinset
          else
            state.argLogSet := by
    intro notStore
    rw [storedValue_of_not_store notStore, Option.toFinset_none,
      Finset.sdiff_empty, ite_self]
  cases outcome with
  | passed notStore => exact other notStore
  | storePassed op _ => exact store _ _ op
  | storeLogged op _ _ _ => exact store _ _ op
  | loadLogged op _ _ => exact other (by simp [Inst.isStore, op])
  | called notStore _ _ _ _ => exact other notStore

/-- A queued argument belongs to a function whose events are logged, and is
stored ahead. -/
def Queued
    (decision : Decision) (state : PassState) (rest : List Inst) : Prop :=
  ∀ value ∈ state.argLogSet,
    decision.functionFilter = true ∧ value ∈ storedValues rest

theorem queued_of_empty
    {rest : List Inst} (empty : state.argLogSet = ∅) :
    Queued decision state rest := by
  intro value member
  rw [empty] at member
  cases member

theorem Queued.empty (queued : Queued decision state []) :
    state.argLogSet = ∅ := by
  apply Finset.eq_empty_of_forall_notMem
  intro value member
  cases (queued value member).2

theorem Queued.step
    {rest : List Inst}
    (queued : Queued decision state (item :: rest))
    (outcome : VisitOutcome pass decision state item made) :
    Queued decision made.state (made.after ++ rest) := by
  intro value member
  rw [outcome.argLogSet] at member
  split at member
  case isTrue filtered =>
    rcases Finset.mem_sdiff.mp member with ⟨before, notHere⟩
    rcases queued value before with ⟨_, ahead⟩
    refine ⟨filtered, ?_⟩
    rw [storedValues_append]
    apply List.mem_append_right
    have stored := List.mem_filterMap.mp ahead
    rcases stored with ⟨inst, isAhead, stores⟩
    rcases List.mem_cons.mp isAhead with rfl | later
    · rw [stores] at notHere
      exact absurd (by simp) notHere
    · exact List.mem_filterMap.mpr ⟨inst, later, stores⟩
  case isFalse unfiltered =>
    exact absurd (queued value member).1 unfiltered

end Queue

/-! ## The state between blocks and functions -/

/-- Ids below `fresh` belong to the program, and no argument is queued. -/
structure Settled (fresh : Nat) (state : PassState) : Prop where
  older : fresh ≤ state.nextId
  empty : state.argLogSet = ∅

section Settled

variable {pass : AccessInstrumentationPass} {fuel fresh : Nat}

theorem endEvent_younger
    (decision : Decision) (nextId : Nat) (terminator : Terminator) :
    Younger nextId (pass.endEvent decision nextId terminator) := by
  unfold endEvent
  split
  · rcases addsCall_inserted
        (addsCall_instrumentFnEvent decision.function nextId
          terminator.debugLoc .fnEnd) with
      ⟨grows, ids, _⟩
    exact ⟨grows, ids⟩
  · exact ⟨le_refl _, List.forall_mem_nil _⟩

/-- Behind a block no argument is queued, if every queued one is stored in
it. -/
theorem settled_of_instrumentBlock
    {decision : Decision} {state final : PassState} {block target : Block}
    (ran :
      pass.instrumentBlock fuel decision state block =
        some (target, final))
    (older : fresh ≤ state.nextId)
    (queued : Queued decision state block.insts) :
    Settled fresh final := by
  have ended :=
    instrumentBlock_invariant
      (fun state _ rest => fresh ≤ state.nextId ∧ Queued decision state rest)
      (fun _ _ _ _ _ outcome reached =>
        ⟨reached.1.trans outcome.grows, reached.2.step outcome⟩)
      ran
      ⟨older.trans (endEvent_younger _ _ _).grows, by
        intro value member
        rcases queued value member with ⟨filtered, stored⟩
        refine ⟨filtered, ?_⟩
        rw [storedValues_append]
        exact List.mem_append_left _ stored⟩
  exact ⟨ended.2.1, ended.2.2.empty⟩

theorem pending_subset_storedValues
    (fresh : Nat) (insts : List Inst) :
    ∀ value ∈ pending fresh insts, value ∈ storedValues insts := by
  intro value member
  rcases List.mem_filterMap.mp member with ⟨inst, inList, stores⟩
  refine List.mem_filterMap.mpr ⟨inst, inList, ?_⟩
  split at stores
  · rename_i stored pointer op
    split at stores
    · simpa only [Inst.storedValue, op] using stores
    · cases stores
  · cases stores

end Settled

/-! ## The prepared entry -/

namespace AccessInstrumentationPass

variable (pass : AccessInstrumentationPass)

/-- The call that logs an event of the function, with its id. -/
def EventCall (function : String) (event : FnEvents) (inst : Inst) : Prop :=
  inst.op = .call (some (pass.eventLogFunc function event))
    [getConstantFromInt (pass.fnmap (pass.naming.demangle function))
      ((pass.eventLogFunc function event).getParamType 0)]
    (pass.eventLogFunc function event).returnType

end AccessInstrumentationPass

section Entry

variable {pass : AccessInstrumentationPass} {fresh : Nat}

theorem instrumentFnEvent_inserted
    (function : String) (nextId : Nat) (debugLoc : Option DebugLoc)
    (event : FnEvents) :
    ∃ call,
      (pass.instrumentFnEvent function nextId debugLoc event).inserted =
          [call] ∧
        call.id = nextId ∧ pass.EventCall function event call :=
  ⟨_, rfl, rfl, rfl⟩

theorem insertFirst_nil (block : Block) : block.insertFirst [] = block := by
  rcases insertFirst_split block with ⟨front, back, split, inserts, _⟩
  have insts := inserts []
  rw [List.append_nil, ← split] at insts
  calc
    block.insertFirst [] =
        { block with insts := (block.insertFirst []).insts } := rfl
    _ = block := by rw [insts]

theorem mem_insertFirst
    {block : Block} {new : List Inst} {inst : Inst} :
    inst ∈ (block.insertFirst new).insts ↔
      inst ∈ block.insts ∨ inst ∈ new := by
  rcases insertFirst_split block with ⟨front, back, split, inserts, _⟩
  rw [inserts, split]
  simp only [List.mem_append]
  tauto

/-- The entry block before the loops: stores of the selected arguments, and in
front of them the begin event. -/
structure EntryPrepared
    (pass : AccessInstrumentationPass) (function : Function) (fresh : Nat)
    (entry : Block) (injected begins : List Inst)
    (prepared : Block × PassState) : Prop where
  block : prepared.1 = (entry.insertFirst injected).insertFirst begins
  older : fresh ≤ prepared.2.nextId
  queue : prepared.2.argLogSet = (pass.injectedArgs function).toFinset
  injectedValues : pending fresh injected = pass.injectedArgs function
  injectedIds : ∀ inst ∈ injected, fresh ≤ inst.id
  injectedOps :
    ∀ inst ∈ injected,
      (∃ value pointer, inst.op = .store value pointer) ∨
        ∃ type, inst.op = .alloca type
  beginEvent :
    (pass.decision function).logsEvents = true →
      ∃ call, begins = [call] ∧ fresh ≤ call.id ∧
        pass.EventCall function.name .fnBegin call
  noEvent : (pass.decision function).logsEvents = false → begins = []

theorem entryPrepared
    (function : Function) {state : PassState} (entry : Block)
    (settled : Settled fresh state) :
    ∃ injected begins,
      EntryPrepared pass function fresh entry injected begins
        (pass.prepareEntry function state entry) := by
  have queued :
      ∃ injected,
        let step :=
          if (pass.decision function).functionFilter then
            pass.queueAndInjectArgsToLog function state entry
          else
            (entry, state)
        step.1 = entry.insertFirst injected ∧ fresh ≤ step.2.nextId ∧
          step.2.argLogSet = (pass.injectedArgs function).toFinset ∧
          pending fresh injected = pass.injectedArgs function ∧
          (∀ inst ∈ injected, fresh ≤ inst.id) ∧
          ∀ inst ∈ injected,
            (∃ value pointer, inst.op = .store value pointer) ∨
              ∃ type, inst.op = .alloca type := by
    unfold injectedArgs
    split
    · rcases @queueAndInject_spec pass fresh state function entry settled.older
          settled.empty with
        ⟨new, block, pends, set, older, young, ops⟩
      refine ⟨new, block, older, set, pends, young, ?_⟩
      intro inst member
      rcases ops inst member with ⟨arg, _, slot, op⟩ | slot
      · exact Or.inl ⟨arg, slot, op⟩
      · exact Or.inr slot
    · refine ⟨[], (insertFirst_nil entry).symm, settled.older, ?_, rfl,
        List.forall_mem_nil _, List.forall_mem_nil _⟩
      rw [settled.empty, List.toFinset_nil]
  rcases queued with ⟨injected, block, older, set, pends, young, ops⟩
  simp only [prepareEntry_eq]
  split
  case isTrue logs =>
    rcases @instrumentFnEvent_inserted pass function.name
        (if (pass.decision function).functionFilter then
          pass.queueAndInjectArgsToLog function state entry
        else
          (entry, state)).2.nextId
        (if (pass.decision function).functionFilter then
          pass.queueAndInjectArgsToLog function state entry
        else
          (entry, state)).1.firstInsertionLoc .fnBegin with
      ⟨call, inserted, id, eventCall⟩
    refine ⟨injected, [call], ?_, older.trans (Nat.le_succ _), set, pends,
      young, ops, fun _ => ⟨call, rfl, ?_, eventCall⟩, ?_⟩
    · simp only [instrumentEntry_eq, inserted]
      rw [block]
    · rw [id]
      exact older
    · intro noLogs
      rw [logs] at noLogs
      cases noLogs
  case isFalse noLogs =>
    refine ⟨injected, [], ?_, older, set, pends, young, ops, ?_,
      fun _ => rfl⟩
    · rw [insertFirst_nil]
      exact block
    · intro logs
      exact absurd logs noLogs

/-- Every queued argument is stored in the prepared entry. -/
theorem EntryPrepared.queued
    {function : Function} {entry : Block} {injected begins : List Inst}
    {prepared : Block × PassState}
    (ready :
      EntryPrepared pass function fresh entry injected begins prepared) :
    Queued (pass.decision function) prepared.2 prepared.1.insts := by
  intro value member
  rw [ready.queue, List.mem_toFinset] at member
  refine ⟨?_, ?_⟩
  · by_contra unfiltered
    simp [injectedArgs, unfiltered] at member
  · rw [← ready.injectedValues] at member
    rcases
        List.mem_filterMap.mp (pending_subset_storedValues _ _ _ member) with
      ⟨inst, inInjected, stores⟩
    refine List.mem_filterMap.mpr ⟨inst, ?_, stores⟩
    rw [ready.block, mem_insertFirst, mem_insertFirst]
    exact Or.inl (Or.inr inInjected)

end Entry

/-! ## One function of a run -/

section Functions

variable {pass : AccessInstrumentationPass} {fuel fresh : Nat}

theorem settled_of_instrumentBlocks
    {decision : Decision} {state final : PassState}
    {blocks results : List Block}
    (ran :
      pass.instrumentBlocks fuel decision state blocks =
        some (results, final))
    (settled : Settled fresh state) : Settled fresh final :=
  @instrumentBlocks_induction pass fuel decision
    (fun _ _ state => Settled fresh state)
    (fun _ _ _ _ _ _ blockRan before =>
      settled_of_instrumentBlock blockRan before.older
        (queued_of_empty before.empty))
    [] [] blocks results state final ran settled

theorem settled_of_instrumentFunction
    {function target : Function} {state final : PassState}
    (ran :
      pass.instrumentFunction fuel function state = some (target, final))
    (settled : Settled fresh state) : Settled fresh final := by
  rcases instrumentFunction_cases ran with
    ⟨_, _, rfl⟩ | ⟨entry, rest, first, middle, others, _, entryRan,
      othersRan, _⟩
  · exact settled
  · rcases @entryPrepared pass fresh function state entry settled with
      ⟨injected, begins, ready⟩
    exact settled_of_instrumentBlocks othersRan
      (settled_of_instrumentBlock entryRan ready.older ready.queued)

theorem settled_of_instrumentFunctions
    {functions results : List Function} {state final : PassState}
    (ran :
      pass.instrumentFunctions fuel state functions =
        some (results, final))
    (settled : Settled fresh state) : Settled fresh final := by
  refine @instrumentFunctions_induction pass fuel
    (fun _ _ state => Settled fresh state) ?_ [] [] functions results state
    final ran settled
  intro sources targets state function target next functionRan before
  split at functionRan
  · exact settled_of_instrumentFunction functionRan before
  · rcases Prod.mk.inj (Option.some.inj functionRan) with ⟨_, rfl⟩
    exact before

/-- In a run of the pass over the module, the pass comes to the function in the
first state, makes the target of it, and goes on in the second state. -/
structure Instruments
    (pass : AccessInstrumentationPass) (fuel : Nat) (module : Module)
    (source : Function) (state : PassState)
    (target : Function) (final : PassState) : Prop where
  loaded : pass.insfilt.checkFileFilter module.identifier = true
  selected : pass.selects source = true
  reached :
    ∃ earlier later targets,
      pass.loadedFunctions module = earlier ++ source :: later ∧
        pass.instrumentFunctions fuel ⟨module.nextId, ∅⟩ earlier =
          some (targets, state)
  runs : pass.instrumentFunction fuel source state = some (target, final)

section Instruments

variable {module : Module} {source target : Function}
variable {state final : PassState}

theorem Instruments.settled
    (instruments : Instruments pass fuel module source state target final) :
    Settled module.nextId state := by
  rcases instruments.reached with ⟨earlier, later, targets, _, ran⟩
  exact settled_of_instrumentFunctions ran ⟨le_refl _, rfl⟩

/-- The instructions of the program are older than the pass. -/
theorem Instruments.original
    (instruments : Instruments pass fuel module source state target final) :
    ∀ block ∈ source.blocks, ∀ inst ∈ block.insts,
      inst.id < module.nextId := by
  rcases instruments.reached with ⟨earlier, later, targets, functions, _⟩
  have loaded : source ∈ pass.loadedFunctions module := by
    rw [functions]
    simp
  rcases List.mem_append.mp loaded with defined | declared
  · exact module.older source defined
  · rcases List.mem_map.mp declared with ⟨callee, _, rfl⟩
    exact List.forall_mem_nil _

theorem Instruments.eq_of_no_body
    (instruments : Instruments pass fuel module source state target final)
    (noBody : source.blocks = []) : target = source := by
  rcases instrumentFunction_cases instruments.runs with
    ⟨_, same, _⟩ | ⟨_, _, _, _, _, blocks, _⟩
  · exact same
  · rw [noBody] at blocks
    cases blocks

/-- The run through a body: the prepared entry, and then the other blocks. -/
theorem Instruments.of_body
    (instruments : Instruments pass fuel module source state target final)
    {entry : Block} {rest : List Block}
    (body : source.blocks = entry :: rest) :
    ∃ injected begins prepared first middle others,
      target = { source with blocks := first :: others } ∧
        EntryPrepared pass source module.nextId entry injected begins
          prepared ∧
        pass.instrumentBlock fuel (pass.decision source) prepared.2
          prepared.1 = some (first, middle) ∧
        Settled module.nextId middle ∧
        pass.instrumentBlocks fuel (pass.decision source) middle rest =
          some (others, final) := by
  rcases instrumentFunction_cases instruments.runs with
    ⟨noBody, _, _⟩ | ⟨entryBlock, restBlocks, first, middle, others, blocks,
      entryRan, othersRan, same⟩
  · rw [noBody] at body
    cases body
  · rcases List.cons.inj (blocks.symm.trans body) with ⟨rfl, rfl⟩
    rcases @entryPrepared pass module.nextId source state entryBlock
        instruments.settled with
      ⟨injected, begins, ready⟩
    exact ⟨injected, begins, _, first, middle, others, same, ready, entryRan,
      settled_of_instrumentBlock entryRan ready.older ready.queued,
      othersRan⟩

end Instruments

end Functions

/-! ## Entries without predecessors -/

/-- What the verifier guarantees of an entry block: nothing branches to it, so
that it has no phis and no landing pad. -/
structure Function.EntryVerified (function : Function) : Prop where
  noPredecessor : ∀ block, ¬ function.Edge block 0
  noPhi :
    ∀ entry ∈ function.blocks.head?, ∀ inst ∈ entry.insts,
      inst.isPhi = false ∧ inst.isLandingPad = false

/-- New instructions go to the front of a block without phis and landing
pads. -/
theorem insertFirst_front
    {block : Block}
    (noPhi : ∀ inst ∈ block.insts,
      inst.isPhi = false ∧ inst.isLandingPad = false)
    (new : List Inst) :
    (block.insertFirst new).insts = new ++ block.insts := by
  cases insts : block.insts with
  | nil => simp [Block.insertFirst, Block.splitFirstInsertionPt, insts]
  | cons first rest =>
      rcases noPhi first (by simp [insts]) with ⟨notPhi, notPad⟩
      simp [Block.insertFirst, Block.splitFirstInsertionPt, insts, notPhi,
        notPad]

theorem EntryPrepared.insts
    {pass : AccessInstrumentationPass} {fresh : Nat}
    {function : Function} {entry : Block} {injected begins : List Inst}
    {prepared : Block × PassState}
    (ready :
      EntryPrepared pass function fresh entry injected begins prepared)
    (noPhi : ∀ inst ∈ entry.insts,
      inst.isPhi = false ∧ inst.isLandingPad = false) :
    prepared.1.insts = begins ++ injected ++ entry.insts := by
  have injectedFront := insertFirst_front noPhi injected
  rw [ready.block, insertFirst_front, injectedFront, List.append_assoc]
  rw [injectedFront]
  intro inst member
  rcases List.mem_append.mp member with isInjected | original
  · rcases ready.injectedOps inst isInjected with
      ⟨value, pointer, op⟩ | ⟨type, op⟩
    · simp [Inst.isPhi, Inst.isLandingPad, op]
    · simp [Inst.isPhi, Inst.isLandingPad, op]
  · exact noPhi inst original

end Dinamite.Instrument
