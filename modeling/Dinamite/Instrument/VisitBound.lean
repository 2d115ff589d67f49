import Dinamite.Instrument.MappedPass
import Dinamite.Instrument.Survival

/-!
# How long the pass takes

The loop over the instructions of a block visits what it inserts ahead of its
cursor, but that is never more than the four instructions that log an
allocation, and visiting these inserts nothing.  So the number of visits is
linear in the code, whatever ids are handed out.
-/

namespace Dinamite.Instrument

open Dinamite.CursorLoop

/-! ## What goes behind an instruction -/

theorem length_createCast
    (builder : IRBuilder) (op : CastOp) (value : Value) (type : Ty) :
    (builder.createCast op value type).2.inserted.length ≤
      builder.inserted.length + 1 := by
  unfold IRBuilder.createCast
  split
  · exact Nat.le_succ _
  · split
    · exact Nat.le_succ _
    · simp [IRBuilder.insert]

theorem length_createZExtOrBitCast
    (builder : IRBuilder) (value : Value) (type : Ty) :
    (builder.createZExtOrBitCast value type).2.inserted.length ≤
      builder.inserted.length + 1 := by
  unfold IRBuilder.createZExtOrBitCast
  split
  · exact length_createCast builder _ value type
  · exact length_createCast builder _ value type

theorem length_createCall
    (builder : IRBuilder) (callee : Callee) (args : List Value) :
    (builder.createCall callee args).inserted.length =
      builder.inserted.length + 1 := by
  simp [IRBuilder.createCall, IRBuilder.insert]

namespace AccessInstrumentationPass

variable {pass : AccessInstrumentationPass}

/-- Three casts and the call. -/
theorem length_instrumentAlloc
    (nextId : Nat) (ci : Inst) (fn : Callee) (args : List Value)
    (nextInst : Option Inst) (insertionLoc : Option DebugLoc) :
    (pass.instrumentAlloc nextId ci fn args nextInst
      insertionLoc).inserted.length ≤ 4 := by
  cases defined : pass.adm.getAllocDef fn.name with
  | none =>
      rw [instrumentAlloc_undefined defined]
      exact Nat.zero_le _
  | some adef =>
      simp only [instrumentAlloc_eq, defined, length_createCall]
      refine Nat.succ_le_succ ((length_createZExtOrBitCast _ _ _).trans ?_)
      refine Nat.succ_le_succ ((length_createZExtOrBitCast _ _ _).trans ?_)
      exact Nat.succ_le_succ (length_createCast _ _ _ _)

/-- Only behind a call is there anything. -/
theorem after_of_visit
    {decision : Decision} {terminatorLoc : Option DebugLoc}
    {state : PassState} {inst : Inst} {nextInst : Option Inst}
    {made : Visit PassState Inst}
    (visited :
      pass.visit decision terminatorLoc state inst nextInst = some made) :
    made.after = [] ∨
      ∃ fn args insertionLoc,
        made.after =
          (pass.instrumentAlloc state.nextId inst fn args nextInst
            insertionLoc).inserted := by
  rcases inst with ⟨id, name, op, debugLoc⟩
  cases op with
  | store value pointer =>
      simp only [visit_eq, visitStore_eq] at visited
      generalize
        (if decision.functionFilter = true then
          checkAndConsumeArg state.argLogSet value
        else
          (pass.unassignedIsArg id, state.argLogSet)) = isArg at visited
      split at visited
      · rcases Option.map_eq_some_iff.mp visited with ⟨builder, _, rfl⟩
        exact Or.inl rfl
      · obtain rfl := Option.some.inj visited
        exact Or.inl rfl
  | load pointer =>
      simp only [visit_eq, visitLoad_eq] at visited
      split at visited
      · rcases Option.map_eq_some_iff.mp visited with ⟨builder, _, rfl⟩
        exact Or.inl rfl
      · obtain rfl := Option.some.inj visited
        exact Or.inl rfl
  | call callee args type =>
      cases callee with
      | none =>
          obtain rfl := Option.some.inj visited
          exact Or.inl rfl
      | some fn =>
          simp only [visit_eq, visitCall_eq] at visited
          obtain rfl := Option.some.inj visited
          by_cases allocates : decision.allocFilter = true
          · exact Or.inr ⟨fn, args, _, by rw [if_pos allocates]⟩
          · exact Or.inl (by rw [if_neg allocates])
  | _ =>
      obtain rfl := Option.some.inj visited
      exact Or.inl rfl

theorem after_short
    {decision : Decision} {terminatorLoc : Option DebugLoc}
    {state : PassState} {inst : Inst} {nextInst : Option Inst}
    {made : Visit PassState Inst}
    (visited :
      pass.visit decision terminatorLoc state inst nextInst = some made) :
    made.after.length ≤ 4 := by
  rcases after_of_visit visited with isNil | ⟨fn, args, loc, isAlloc⟩
  · rw [isNil]
    exact Nat.zero_le _
  · rw [isAlloc]
    exact length_instrumentAlloc _ _ _ _ _ _

theorem after_inert
    (noLog : pass.NoLogFunctionDefined)
    {decision : Decision} {terminatorLoc : Option DebugLoc}
    {state : PassState} {inst : Inst} {nextInst : Option Inst}
    {made : Visit PassState Inst}
    (visited :
      pass.visit decision terminatorLoc state inst nextInst = some made) :
    ∀ new ∈ made.after, Inert (pass.visit decision terminatorLoc) new := by
  rcases after_of_visit visited with isNil | ⟨fn, args, loc, isAlloc⟩
  · rw [isNil]
    exact List.forall_mem_nil _
  · rw [isAlloc]
    cases defined : pass.adm.getAllocDef fn.name with
    | none =>
        rw [instrumentAlloc_undefined defined]
        exact List.forall_mem_nil _
    | some adef =>
        have inserted :=
          insertedForEvent_of_call
            (instrumentAlloc_defined defined state.nextId inst args nextInst
              loc)
        exact inserted.inert noLog LogFunctionManager.allocLogFunc_mem
          decision terminatorLoc

/-! ## Fuel that is enough for every map -/

theorem instrumentBlock_of_enough
    (noLog : pass.NoLogFunctionDefined)
    {fuel : Nat} {decision : Decision} {state : PassState} {block : Block}
    {result : Block × PassState}
    (ran : pass.instrumentBlock fuel decision state block = some result)
    {enough : Nat} (more : 5 * (block.insts.length + 1) ≤ enough) :
    pass.instrumentBlock enough decision state block = some result := by
  rw [instrumentBlock_eq] at ran ⊢
  rcases Option.map_eq_some_iff.mp ran with ⟨made, looped, rfl⟩
  refine Option.map_eq_some_iff.mpr ⟨made, ?_, rfl⟩
  refine loop_of_short
    (fun _ _ _ _ visited => after_short visited)
    (fun _ _ _ _ visited => after_inert noLog visited) looped ?_
  have ends :
      (if block.terminator.op = .ret ∧ decision.logsEvents = true then
        pass.instrumentFnEvent decision.function state.nextId
          block.terminator.debugLoc .fnEnd
      else
        ⟨state.nextId, block.terminator.debugLoc, []⟩).inserted.length ≤
          1 := by
    split
    · simp [instrumentFnEvent_eq, length_createCall]
    · exact Nat.zero_le _
  rw [List.length_append]
  omega

theorem instrumentBlocks_of_enough
    (noLog : pass.NoLogFunctionDefined)
    {fuel : Nat} {decision : Decision} {state : PassState}
    {blocks : List Block} {result : List Block × PassState}
    (ran : pass.instrumentBlocks fuel decision state blocks = some result)
    {enough : Nat}
    (more : ∀ block ∈ blocks, 5 * (block.insts.length + 1) ≤ enough) :
    pass.instrumentBlocks enough decision state blocks = some result := by
  induction blocks generalizing state result with
  | nil => exact ran
  | cons block rest inductionHypothesis =>
      rw [instrumentBlocks_cons] at ran
      rcases Option.bind_eq_some_iff.mp ran with ⟨first, here, continued⟩
      rcases Option.map_eq_some_iff.mp continued with ⟨others, there, rfl⟩
      have hereEnough :=
        instrumentBlock_of_enough noLog here
          (more block List.mem_cons_self)
      have thereEnough :=
        inductionHypothesis there
          fun other member => more other (List.mem_cons_of_mem _ member)
      simp only [instrumentBlocks_cons, hereEnough, Option.bind_some,
        thereEnough, Option.map_some]

theorem length_injectArgs
    (fname : String) (idx : Nat) (args : List Value) (builder : IRBuilder)
    (argLogSet : Finset Value) :
    (pass.injectArgs fname idx args builder
        argLogSet).1.inserted.length ≤
      builder.inserted.length + 2 * args.length := by
  induction args generalizing idx builder argLogSet with
  | nil => exact Nat.le_refl _
  | cons arg rest inductionHypothesis =>
      unfold injectArgs
      split
      · refine (inductionHypothesis _ _ _).trans ?_
        simp only [IRBuilder.createStore, IRBuilder.createAlloca,
          IRBuilder.insert, List.length_append, List.length_cons,
          List.length_nil]
        omega
      · refine (inductionHypothesis _ _ _).trans ?_
        simp only [List.length_cons]
        omega

end AccessInstrumentationPass

theorem length_insertFirst (block : Block) (new : List Inst) :
    (block.insertFirst new).insts.length =
      block.insts.length + new.length := by
  rcases insertFirst_split block with ⟨front, back, split, inserted, _⟩
  rw [inserted, split]
  simp only [List.length_append]
  omega

/-- Two instructions for every parameter, a begin and an end event, and what is
there already. -/
def Function.visitBound (function : Function) : Nat :=
  5 * ((function.blocks.map fun block => block.insts.length).sum +
    2 * function.params.length + 2)

def Module.visitBound (module : Module) : Nat :=
  (module.functions.map Function.visitBound).sum

namespace AccessInstrumentationPass

variable {pass : AccessInstrumentationPass}

theorem length_prepareEntry
    (function : Function) (state : PassState) (entry : Block) :
    (pass.prepareEntry function state entry).1.insts.length ≤
      entry.insts.length + 2 * function.params.length + 1 := by
  have queued :
      (if (pass.decision function).functionFilter = true then
        pass.queueAndInjectArgsToLog function state entry
      else
        (entry, state)).1.insts.length ≤
          entry.insts.length + 2 * function.params.length := by
    split
    · have injected :
          (pass.injectArgs function.name 0 function.args
              ⟨state.nextId, entry.firstInsertionLoc, []⟩
              state.argLogSet).1.inserted.length ≤
            0 + 2 * function.args.length :=
        length_injectArgs _ _ _ _ _
      have args : function.args.length = function.params.length := by
        simp [Function.args]
      simp only [queueAndInjectArgsToLog, length_insertFirst]
      rw [args] at injected
      omega
    · exact Nat.le_add_right _ _
  rw [prepareEntry_eq]
  dsimp only
  split
  · simp only [instrumentEntry_eq, length_insertFirst, instrumentFnEvent_eq,
      length_createCall, List.length_nil]
    omega
  · omega

theorem length_le_sum
    {blocks : List Block} {block : Block} (member : block ∈ blocks) :
    block.insts.length ≤
      (blocks.map fun block => block.insts.length).sum :=
  List.le_sum_of_mem (List.mem_map_of_mem member)

theorem instrumentFunction_of_enough
    (noLog : pass.NoLogFunctionDefined)
    {fuel : Nat} {function : Function} {state : PassState}
    {result : Function × PassState}
    (ran : pass.instrumentFunction fuel function state = some result)
    {enough : Nat}
    (more : function.blocks ≠ [] → function.visitBound ≤ enough) :
    pass.instrumentFunction enough function state = some result := by
  rw [instrumentFunction_eq] at ran ⊢
  cases blocks : function.blocks with
  | nil =>
      simp only [blocks] at ran ⊢
      exact ran
  | cons entry rest =>
      simp only [blocks] at ran ⊢
      rcases Option.map_eq_some_iff.mp ran with ⟨made, ranBlocks, rfl⟩
      refine Option.map_eq_some_iff.mpr ⟨made, ?_, rfl⟩
      have room := more (by rw [blocks]; exact List.cons_ne_nil _ _)
      rw [Function.visitBound, blocks, List.map_cons, List.sum_cons] at room
      refine instrumentBlocks_of_enough noLog ranBlocks ?_
      intro block member
      rcases List.mem_cons.mp member with rfl | isRest
      · have prepared :
            (pass.prepareEntry function state entry).1.insts.length ≤
              entry.insts.length + 2 * function.params.length + 1 :=
          length_prepareEntry function state entry
        omega
      · have long := length_le_sum isRest
        omega

theorem instrumentFunctions_of_enough
    (noLog : pass.NoLogFunctionDefined)
    {fuel : Nat} {state : PassState} {functions : List Function}
    {result : List Function × PassState}
    (ran : pass.instrumentFunctions fuel state functions = some result)
    {enough : Nat}
    (more : ∀ function ∈ functions,
      function.blocks ≠ [] → function.visitBound ≤ enough) :
    pass.instrumentFunctions enough state functions = some result := by
  induction functions generalizing state result with
  | nil => exact ran
  | cons function rest inductionHypothesis =>
      rw [instrumentFunctions_cons] at ran
      rcases Option.bind_eq_some_iff.mp ran with ⟨first, here, continued⟩
      rcases Option.map_eq_some_iff.mp continued with ⟨others, there, rfl⟩
      have thereEnough :=
        inductionHypothesis there
          fun other member => more other (List.mem_cons_of_mem _ member)
      have hereEnough :
          (if pass.selects function then
              pass.instrumentFunction enough function state
            else
              some (function, state)) = some first := by
        by_cases selected : pass.selects function = true
        · rw [if_pos selected] at here ⊢
          exact instrumentFunction_of_enough noLog here
            (more function List.mem_cons_self)
        · rw [if_neg selected] at here ⊢
          exact here
      simp only [instrumentFunctions_cons, hereEnough, Option.bind_some,
        thereEnough, Option.map_some]

/-- A result does not depend on the fuel. -/
theorem runOnModule_of_enough
    (noLog : pass.NoLogFunctionDefined)
    {fuel : Nat} {module : Module} {result : List Function}
    (ran : pass.runOnModule fuel module = some result)
    {enough : Nat} (more : module.visitBound ≤ enough) :
    pass.runOnModule enough module = some result := by
  rw [runOnModule_eq] at ran ⊢
  by_cases admitted : pass.insfilt.checkFileFilter module.identifier = true
  · rw [if_pos admitted] at ran ⊢
    rcases Option.map_eq_some_iff.mp ran with ⟨made, instrumented, rfl⟩
    refine Option.map_eq_some_iff.mpr ⟨made, ?_, rfl⟩
    refine instrumentFunctions_of_enough noLog instrumented ?_
    intro function member body
    rcases List.mem_append.mp member with defined | declared
    · exact (List.le_sum_of_mem (List.mem_map_of_mem defined)).trans more
    · rcases List.mem_map.mp declared with ⟨callee, _, rfl⟩
      exact absurd rfl body
  · rw [if_neg admitted] at ran ⊢
    exact ran

/-- The pass ends within a number of visits that is linear in the code. -/
theorem exists_runOnModule
    (noLog : pass.NoLogFunctionDefined) {module : Module}
    (widths : module.WidthsOk)
    {fuel : Nat} (enough : module.visitBound ≤ fuel) :
    ∃ target, pass.runOnModule fuel module = some target := by
  by_cases admitted : pass.insfilt.checkFileFilter module.identifier = true
  · have survive :
        ∃ bound targets final,
          (∀ fuel, bound ≤ fuel →
            pass.instrumentFunctions fuel ⟨module.nextId, ∅⟩
              (pass.loadedFunctions module) = some (targets, final)) ∧
            _ :=
      instrumentFunctions_survive noLog _ (functionReady_of_loaded widths)
        (le_refl _) rfl
    rcases survive with ⟨bound, targets, final, runs, _⟩
    have ran : pass.runOnModule bound module = some targets := by
      rw [runOnModule_eq, if_pos admitted, runs bound (le_refl bound),
        Option.map_some]
    exact ⟨targets, runOnModule_of_enough noLog ran enough⟩
  · exact ⟨module.functions, by rw [runOnModule_eq, if_neg admitted]⟩

end AccessInstrumentationPass

/-! ## The pass with its maps -/

namespace MappedPass

variable {State : Type} (mapped : MappedPass State)

/-- The pass with its maps always returns, and what it returns is explained by
the maps as it leaves them. -/
theorem runOnModule_returns
    (noLog : mapped.pass.NoLogFunctionDefined) {module : Module}
    (widths : module.WidthsOk)
    {fuel : Nat} (enough : module.visitBound ≤ fuel) (ids : State) :
    ∃ functions later,
      mapped.runOnModule fuel ids module = some (functions, later) ∧
        mapped.maps.Extends ids later ∧
          ∀ answers, mapped.maps.Explains later answers →
            (mapped.pass.withMaps answers).runOnModule fuel module =
              some functions := by
  cases ran : mapped.runOnModule fuel ids module with
  | none =>
      have hindsight :
          ∃ answers,
            mapped.maps.Explains (mapped.finalMaps fuel ids module)
              answers :=
        MemoTable.exists_explains _
      rcases hindsight with ⟨answers, explains⟩
      have sameNoLog :
          (mapped.pass.withMaps answers).NoLogFunctionDefined :=
        noLog
      rcases AccessInstrumentationPass.exists_runOnModule sameNoLog widths
          enough with
        ⟨target, returned⟩
      have stopped :=
        (mapped.runOnModule_explained explains).symm.trans returned
      rw [ran] at stopped
      cases stopped
  | some made =>
      obtain ⟨functions, later⟩ := made
      obtain rfl := mapped.eq_finalMaps_of_runOnModule ran
      refine ⟨functions, _, rfl, mapped.extends_finalMaps fuel ids module, ?_⟩
      intro answers explains
      rw [mapped.runOnModule_explained explains, ran, Option.map_some]

/-- It returns what some pass returns whose maps are plain functions. -/
theorem exists_withMaps
    (noLog : mapped.pass.NoLogFunctionDefined) {module : Module}
    (widths : module.WidthsOk)
    {fuel : Nat} (enough : module.visitBound ≤ fuel) (ids : State) :
    ∃ functions later answers,
      mapped.runOnModule fuel ids module = some (functions, later) ∧
        (mapped.pass.withMaps answers).runOnModule fuel module =
          some functions := by
  rcases mapped.runOnModule_returns noLog widths enough ids with
    ⟨functions, later, returned, _, explained⟩
  have hindsight : ∃ answers, mapped.maps.Explains later answers :=
    MemoTable.exists_explains later
  rcases hindsight with ⟨answers, explains⟩
  exact ⟨functions, later, answers, returned, explained answers explains⟩

end MappedPass

end Dinamite.Instrument
