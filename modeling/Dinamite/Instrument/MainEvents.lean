import Dinamite.Instrument.Selection

/-!
# The events of `main`

`main` is exempt from the function filter: it sets the log up on entry and
takes it down on return.  It is not exempt from the size gate in front of that
filter.
-/

namespace Dinamite.Instrument

open Dinamite.CursorLoop
open AccessInstrumentationPass

/-! ## Calls in front of the program and behind it -/

/-- A call of the log function that only inserted instructions precede. -/
def Leads (fresh : Nat) (log : Callee) (insts : List Inst) : Prop :=
  ∃ front call back, insts = front ++ call :: back ∧
    (∀ inst ∈ front, fresh ≤ inst.id) ∧
    fresh ≤ call.id ∧ call.calledFunction = some log

/-- A call of the log function that only inserted instructions follow. -/
def Closes (fresh : Nat) (log : Callee) (insts : List Inst) : Prop :=
  ∃ front call back, insts = front ++ call :: back ∧
    (∀ inst ∈ back, fresh ≤ inst.id) ∧
    fresh ≤ call.id ∧ call.calledFunction = some log

section Insertion

variable {fresh : Nat} {log : Callee}
variable {done before after rest : List Inst} {item : Inst}

theorem Leads.insert
    (leads : Leads fresh log (done ++ item :: rest))
    (young : ∀ inst ∈ before ++ after, fresh ≤ inst.id) :
    Leads fresh log (done ++ before ++ [item] ++ (after ++ rest)) := by
  rcases leads with ⟨front, call, back, same, frontYoung, callYoung, calls⟩
  rcases split_insert same with ⟨newFront, newBack, split, inFront, _⟩
  refine ⟨newFront, call, newBack, split, ?_, callYoung, calls⟩
  intro inst member
  rcases inFront inst member with old | new
  · exact frontYoung inst old
  · exact young inst new

theorem Closes.insert
    (closes : Closes fresh log (done ++ item :: rest))
    (young : ∀ inst ∈ before ++ after, fresh ≤ inst.id) :
    Closes fresh log (done ++ before ++ [item] ++ (after ++ rest)) := by
  rcases closes with ⟨front, call, back, same, backYoung, callYoung, calls⟩
  rcases split_insert same with ⟨newFront, newBack, split, _, inBack⟩
  refine ⟨newFront, call, newBack, split, ?_, callYoung, calls⟩
  intro inst member
  rcases inBack inst member with old | new
  · exact backYoung inst old
  · exact young inst new

theorem Leads.append
    {insts : List Inst} (leads : Leads fresh log insts)
    (more : List Inst) : Leads fresh log (insts ++ more) := by
  rcases leads with ⟨front, call, back, rfl, young, calls⟩
  exact ⟨front, call, back ++ more, by simp, young, calls⟩

/-- Without inserted instructions no call leads. -/
theorem not_leads_of_original
    {insts : List Inst} (original : ∀ inst ∈ insts, inst.id < fresh) :
    ¬ Leads fresh log insts := by
  intro leads
  rcases leads with ⟨front, call, back, same, _, young, _⟩
  have old := original call (by rw [same]; simp)
  exact absurd old (not_lt.mpr young)

end Insertion

/-- What the program is to do in `main`: set the log up before anything of its
own, and take it down before every return. -/
structure MainBracketed
    (pass : AccessInstrumentationPass) (fresh : Nat) (main : Function) :
    Prop where
  begins :
    ∃ entry, main.blocks.head? = some entry ∧
      Leads fresh pass.lfm.initLogFunc entry.insts
  ends :
    ∀ block ∈ main.blocks, block.terminator.op = .ret →
      Closes fresh pass.lfm.exitLogFunc block.insts

section Blocks

variable {pass : AccessInstrumentationPass} {decision : Decision}
variable {fuel fresh : Nat} {state final : PassState}

/-- What insertions keep holds behind the loop over a block. -/
theorem kept_of_instrumentBlock
    {Kept : List Inst → Prop}
    (insert : ∀ done item rest before after,
      Kept (done ++ item :: rest) →
        (∀ inst ∈ before ++ after, fresh ≤ inst.id) →
          Kept (done ++ before ++ [item] ++ (after ++ rest)))
    {block target : Block}
    (ran :
      pass.instrumentBlock fuel decision state block =
        some (target, final))
    (older : fresh ≤ state.nextId)
    (holds :
      Kept
        (block.insts ++
          (pass.endEvent decision state.nextId
            block.terminator).inserted)) :
    Kept target.insts := by
  have ended :=
    instrumentBlock_invariant
      (fun now done rest => fresh ≤ now.nextId ∧ Kept (done ++ rest))
      ?_ ran ⟨older.trans (endEvent_younger _ _ _).grows, holds⟩
  · have kept := ended.2.2
    rw [List.append_nil] at kept
    exact kept
  · intro now done item rest made outcome reached
    rcases reached with ⟨olderNow, kept⟩
    refine ⟨olderNow.trans outcome.grows, ?_⟩
    apply insert done item rest made.before made.after kept
    intro inst member
    exact olderNow.trans (outcome.ids inst member)

theorem eventLogFunc_main (event : FnEvents) :
    pass.eventLogFunc "main" event =
      match event with
      | .fnBegin => pass.lfm.initLogFunc
      | .fnEnd => pass.lfm.exitLogFunc := by
  cases event with
  | fnBegin => rfl
  | fnEnd => rfl

theorem calledFunction_of_eventCall
    {function : String} {event : FnEvents} {call : Inst}
    (isEvent : pass.EventCall function event call) :
    call.calledFunction = some (pass.eventLogFunc function event) :=
  calledFunction_of_logsEvent isEvent

theorem Decision.logsEvents_of_main
    (isMain : decision.function = "main") : decision.logsEvents = true := by
  rw [Decision.logsEvents, isMain, decide_eq_true rfl, Bool.or_true]

theorem closes_of_instrumentBlock
    {block target : Block}
    (ran :
      pass.instrumentBlock fuel decision state block =
        some (target, final))
    (older : fresh ≤ state.nextId)
    (isMain : decision.function = "main")
    (returns : target.terminator.op = .ret) :
    Closes fresh pass.lfm.exitLogFunc target.insts := by
  rcases filter_of_instrumentBlock ran older with ⟨sameTerminator, _⟩
  rw [sameTerminator] at returns
  rcases @instrumentFnEvent_inserted pass decision.function state.nextId
    block.terminator.debugLoc .fnEnd with ⟨call, inserted, id, isEvent⟩
  have ends :
      (pass.endEvent decision state.nextId block.terminator).inserted =
        [call] := by
    rw [endEvent, if_pos ⟨returns, Decision.logsEvents_of_main isMain⟩,
      inserted]
  apply kept_of_instrumentBlock (fun _ _ _ _ _ => Closes.insert) ran older
  refine ⟨block.insts, call, [], by rw [ends], List.forall_mem_nil _, ?_, ?_⟩
  · rw [id]
    exact older
  · rw [calledFunction_of_eventCall isEvent, isMain, eventLogFunc_main]

theorem closes_of_instrumentBlocks
    {blocks results : List Block}
    (ran :
      pass.instrumentBlocks fuel decision state blocks =
        some (results, final))
    (settled : Settled fresh state)
    (isMain : decision.function = "main") :
    ∀ block ∈ results, block.terminator.op = .ret →
      Closes fresh pass.lfm.exitLogFunc block.insts := by
  have all :=
    @instrumentBlocks_induction pass fuel decision
      (fun _ targets state => Settled fresh state ∧
        ∀ block ∈ targets, block.terminator.op = .ret →
          Closes fresh pass.lfm.exitLogFunc block.insts)
      ?_ [] [] blocks results state final ran ⟨settled, nofun⟩
  · exact all.2
  · intro sources targets now block target next blockRan reached
    rcases reached with ⟨settledNow, closed⟩
    refine ⟨settled_of_instrumentBlock blockRan settledNow.older
      (queued_of_empty settledNow.empty), ?_⟩
    intro other member returns
    rcases List.mem_append.mp member with earlier | last
    · exact closed other earlier returns
    · rw [List.mem_singleton.mp last] at returns ⊢
      exact closes_of_instrumentBlock blockRan settledNow.older isMain
        returns

end Blocks

/-! ## Runs -/

section Runs

variable {pass : AccessInstrumentationPass} {fuel : Nat} {module : Module}
variable {main target : Function} {state final : PassState}

/-- A `main` that the pass comes to is bracketed. -/
theorem mainBracketed_of_instruments
    (instruments : Instruments pass fuel module main state target final)
    (isMain : main.name = "main") (body : main.blocks ≠ [])
    (verified : main.EntryVerified) :
    MainBracketed pass module.nextId target := by
  rcases List.exists_cons_of_ne_nil body with ⟨entry, rest, blocks⟩
  rcases instruments.of_body blocks with
    ⟨injected, begins, prepared, first, middle, others, rfl, ready,
      entryRan, middleSettled, othersRan⟩
  have sameName : (pass.decision main).function = "main" := isMain
  rcases ready.beginEvent (Decision.logsEvents_of_main sameName) with
    ⟨call, rfl, younger, isEvent⟩
  have noPhi :
      ∀ inst ∈ entry.insts,
        inst.isPhi = false ∧ inst.isLandingPad = false :=
    verified.noPhi entry (by rw [blocks]; rfl)
  have leads :
      Leads module.nextId pass.lfm.initLogFunc prepared.1.insts := by
    rw [ready.insts noPhi]
    refine ⟨[], call, injected ++ entry.insts, by simp,
      List.forall_mem_nil _, younger, ?_⟩
    rw [calledFunction_of_eventCall isEvent, isMain, eventLogFunc_main]
  constructor
  · refine ⟨first, rfl, ?_⟩
    exact kept_of_instrumentBlock (fun _ _ _ _ _ => Leads.insert) entryRan
      ready.older (leads.append _)
  · intro block member returns
    rcases List.mem_cons.mp member with isFirst | later
    · rw [isFirst] at returns ⊢
      exact closes_of_instrumentBlock entryRan ready.older sameName returns
    · exact closes_of_instrumentBlocks othersRan middleSettled sameName
        block later returns

/-- A run over functions, cut at one of them. -/
theorem instrumentFunctions_at
    {earlier later results : List Function} {source : Function}
    {start : PassState}
    (ran :
      pass.instrumentFunctions fuel start (earlier ++ source :: later) =
        some (results, final)) :
    ∃ targets state target next others,
      pass.instrumentFunctions fuel start earlier = some (targets, state) ∧
        (if pass.selects source then
            pass.instrumentFunction fuel source state
          else
            some (source, state)) = some (target, next) ∧
        results = targets ++ target :: others ∧
        targets.length = earlier.length := by
  induction earlier generalizing start results with
  | nil =>
      rw [List.nil_append, instrumentFunctions_cons] at ran
      rcases Option.bind_eq_some_iff.mp ran with
        ⟨⟨target, next⟩, first, continued⟩
      rcases Option.map_eq_some_iff.mp continued with
        ⟨⟨others, last⟩, _, equal⟩
      have same := (Prod.mk.inj equal).1
      exact ⟨[], start, target, next, others, rfl, first, same.symm, rfl⟩
  | cons function earlier inductionHypothesis =>
      rw [List.cons_append, instrumentFunctions_cons] at ran
      rcases Option.bind_eq_some_iff.mp ran with
        ⟨⟨result, middle⟩, first, continued⟩
      rcases Option.map_eq_some_iff.mp continued with
        ⟨⟨remaining, last⟩, remainingRan, equal⟩
      rcases Prod.mk.inj equal with ⟨rfl, rfl⟩
      rcases inductionHypothesis remainingRan with
        ⟨targets, state, target, next, others, earlierRan, step, split,
          length⟩
      refine ⟨result :: targets, state, target, next, others, ?_, step, ?_,
        ?_⟩
      · simp only [instrumentFunctions_cons, first, Option.bind_some,
          earlierRan, Option.map_some]
      · rw [split, List.cons_append]
      · rw [List.length_cons, List.length_cons, length]

theorem exists_split_of_getElem?
    {α : Type} {items : List α} {index : Nat} {item : α}
    (isItem : items[index]? = some item) :
    ∃ earlier later, items = earlier ++ item :: later ∧
      earlier.length = index := by
  rcases List.getElem?_eq_some_iff.mp isItem with ⟨inRange, isAt⟩
  refine ⟨items.take index, items.drop (index + 1), ?_, ?_⟩
  · rw [← isAt, ← List.drop_eq_getElem_cons inRange, List.take_append_drop]
  · rw [List.length_take, min_eq_left (le_of_lt inRange)]

/-- A run over a module leaves a function as it is, or instruments it. -/
theorem runOnModule_at
    {functions : List Function} {source : Function}
    (loaded : pass.insfilt.checkFileFilter module.identifier = true)
    (ran : pass.runOnModule fuel module = some functions)
    {index : Nat} (defined : module.functions[index]? = some source) :
    ∃ target, functions[index]? = some target ∧
      ((pass.selects source = true ∧
          ∃ state final,
            Instruments pass fuel module source state target final) ∨
        (pass.selects source = false ∧ target = source)) := by
  rcases exists_split_of_getElem? defined with ⟨earlier, later, split, place⟩
  have loadedSplit :
      pass.loadedFunctions module =
        earlier ++ source ::
          (later ++ (pass.loadedFunctions module).drop
            module.functions.length) := by
    calc
      pass.loadedFunctions module =
          module.functions ++ (pass.loadedFunctions module).drop
            module.functions.length := by
        rw [loadedFunctions, List.drop_left]
      _ = _ := by
        nth_rewrite 1 [split]
        rw [List.append_assoc, List.cons_append]
  rw [runOnModule_eq, if_pos loaded] at ran
  rcases Option.map_eq_some_iff.mp ran with ⟨⟨results, last⟩, all, same⟩
  obtain rfl : results = functions := same
  rw [loadedSplit] at all
  rcases instrumentFunctions_at all with
    ⟨targets, state, target, next, others, earlierRan, step, rfl, length⟩
  refine ⟨target, ?_, ?_⟩
  · rw [← place, ← length, List.getElem?_append_right (le_refl _),
      Nat.sub_self, List.getElem?_cons_zero]
  · by_cases selected : pass.selects source = true
    · rw [if_pos selected] at step
      exact Or.inl ⟨selected, state, next, loaded, selected,
        ⟨_, _, _, loadedSplit, earlierRan⟩, step⟩
    · rw [if_neg selected] at step
      rcases Prod.mk.inj (Option.some.inj step) with ⟨rfl, rfl⟩
      exact Or.inr ⟨Bool.eq_false_iff.mpr selected, rfl⟩

theorem isLogFunction_main : pass.lfm.isLogFunction "main" = false := by
  rw [Bool.eq_false_iff]
  intro isLog
  have different :
      ∀ callee ∈ pass.lfm.accessFunctions ++ pass.lfm.eventFunctions,
        "main" ≠ callee.name := by
    intro callee member same
    have sameFamily : family callee.name = "main".toList := by
      rw [← same]
      rfl
    rcases List.mem_append.mp member with access | event
    · rw [family_of_mem_accessFunctions access] at sameFamily
      exact absurd sameFamily (by decide)
    · have listed := family_of_mem_eventFunctions event
      rw [sameFamily] at listed
      exact absurd listed (by decide)
  rw [LogFunctionManager.isLogFunction, Bool.or_eq_true, Bool.or_eq_true,
    decide_eq_true_iff, decide_eq_true_iff, List.any_eq_true] at isLog
  rcases isLog with (isPtr | isAlloc) | ⟨callee, inTable, same⟩
  · exact different _ (by simp [LogFunctionManager.accessFunctions]) isPtr
  · exact different _
      (List.mem_append_right _ LogFunctionManager.allocLogFunc_mem) isAlloc
  · rw [decide_eq_true_iff] at same
    refine different callee ?_ same
    simp [LogFunctionManager.accessFunctions, inTable]

theorem selects_main_iff (isMain : main.name = "main") :
    pass.selects main = true ↔
      pass.insfilt.checkFunctionSize main = true := by
  rw [selects, isMain, isLogFunction_main, Bool.not_false, Bool.true_and]

/-- `main` is bracketed just if it passes the size gate. -/
theorem main_bracketed_iff
    {document : Filter.InstrumentationFilter}
    {findFunctionBackedges : Function → List (Nat × Nat)}
    (filtered :
      pass.insfilt = .measuring document findFunctionBackedges)
    (loaded : document.checkFileFilter module.identifier = true)
    {functions : List Function}
    (ran : pass.runOnModule fuel module = some functions)
    {index : Nat} (defined : module.functions[index]? = some main)
    (isMain : main.name = "main") (body : main.blocks ≠ [])
    (verified : main.EntryVerified) :
    (∃ target, functions[index]? = some target ∧
        MainBracketed pass module.nextId target) ↔
      document.PassesSize "main"
        (fnSize document findFunctionBackedges main) := by
  have passesFile :
      pass.insfilt.checkFileFilter module.identifier = true := by
    rw [filtered]
    exact loaded
  have size :
      pass.insfilt.checkFunctionSize main = true ↔
        document.PassesSize "main"
          (fnSize document findFunctionBackedges main) := by
    rw [filtered, ← isMain,
      ← Filter.InstrumentationFilter.checkFunctionSize_eq_true_iff]
    rfl
  rw [← size, ← selects_main_iff isMain]
  rcases runOnModule_at passesFile ran defined with
    ⟨target, isTarget, ⟨selected, _, _, instruments⟩ | ⟨dropped, rfl⟩⟩
  · exact iff_of_true
      ⟨target, isTarget, mainBracketed_of_instruments instruments isMain body
        verified⟩
      selected
  · refine iff_of_false ?_ (Bool.eq_false_iff.mp dropped)
    intro bracketed
    rcases bracketed with ⟨found, isFound, ⟨entry, isEntry, leads⟩, _⟩
    obtain rfl := Option.some.inj (isTarget.symm.trans isFound)
    refine not_leads_of_original ?_ leads
    exact module.older _ (List.mem_of_getElem? defined) entry
      (List.mem_of_head? isEntry)

end Runs

/-! ## A small `main` -/

def smallMain : Function where
  name := "main"
  params := []
  blocks := [⟨[], ⟨.ret, none⟩⟩]

def mainModule : Module where
  identifier := "main.c"
  functions := [smallMain]
  nextId := 0
  older := by decide

theorem smallMain_verified : smallMain.EntryVerified := by
  refine ⟨?_, by decide⟩
  intro block edge
  have present : block < 1 := edge.source_present
  obtain rfl : block = 0 := by omega
  exact absurd edge (by decide)

def minimumDocument (minimum : Int) : Filter.InstrumentationFilter where
  filters := .object [("minimum_function_size".toList, .int minimum)]
  loaded := true

def mainPass (minimum : Int) : AccessInstrumentationPass :=
  { instrumentsAll with
    insfilt := .measuring (minimumDocument minimum) fun _ => [] }

theorem smallMain_bracketed :
    ∃ functions,
      (mainPass 0).runOnModule 3 mainModule = some functions ∧
        ((∃ target, functions[0]? = some target ∧
            MainBracketed (mainPass 0) 0 target) ↔
          (minimumDocument 0).PassesSize "main"
            (fnSize (minimumDocument 0) (fun _ => []) smallMain)) := by
  have returns :
      ((mainPass 0).runOnModule 3 mainModule).isSome := by
    decide +kernel
  rcases Option.isSome_iff_exists.mp returns with ⟨functions, ran⟩
  exact ⟨functions, ran,
    main_bracketed_iff rfl (by decide +kernel) ran rfl rfl (by decide)
      smallMain_verified⟩

/-- With a minimum of ten lines, `main` is left as it is. -/
theorem smallMain_dropped :
    ¬ ∀ (document : Filter.InstrumentationFilter)
        (pass : AccessInstrumentationPass) (fuel : Nat) (module : Module)
        (functions : List Function) (main : Function) (index : Nat),
      pass.insfilt = .measuring document (fun _ => []) →
        document.checkFileFilter module.identifier = true →
        pass.runOnModule fuel module = some functions →
        module.functions[index]? = some main → main.name = "main" →
        main.blocks ≠ [] → main.EntryVerified →
          ∃ target, functions[index]? = some target ∧
            MainBracketed pass module.nextId target := by
  intro always
  have returns :
      ((mainPass 10).runOnModule 3 mainModule).isSome := by
    decide +kernel
  rcases Option.isSome_iff_exists.mp returns with ⟨functions, ran⟩
  rcases always (minimumDocument 10) (mainPass 10) 3 mainModule functions
    smallMain 0 rfl (by decide +kernel) ran rfl rfl (by decide)
    smallMain_verified with ⟨target, isTarget, ⟨entry, isEntry, leads⟩, _⟩
  have unchanged :
      ((mainPass 10).runOnModule 3 mainModule).bind (·[0]?) =
        some smallMain := by
    decide +kernel
  rw [ran, Option.bind_some, isTarget] at unchanged
  obtain rfl := Option.some.inj unchanged
  obtain rfl := Option.some.inj isEntry
  have noInsts : ∀ inst ∈ ([] : List Inst), inst.id < 0 :=
    List.forall_mem_nil _
  exact not_leads_of_original noInsts leads

end Dinamite.Instrument
