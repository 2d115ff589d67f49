import Dinamite.Instrument.CompiledRuns
import Dinamite.Instrument.InsertedTypes

/-!
# The types of the instrumented module

The loop visits what it has inserted itself, so everything in front of and
behind the cursor has to stay such that it can be visited.  A typed module is
typed when the pass returns it.
-/

namespace Dinamite.Instrument

open Dinamite.CursorLoop
open Dinamite.Maps (Config)
open AccessInstrumentationPass

def Function.AllInsts (Holds : Inst → Prop) (function : Function) : Prop :=
  ∀ block ∈ function.blocks, ∀ inst ∈ block.insts, Holds inst

/-! ## The loop -/

section Runs

variable {pass : AccessInstrumentationPass} {rules : TypeRules}
variable {decision : Decision} {state final : PassState} {fuel : Nat}
variable (noLog : pass.NoLogFunctionDefined)

include noLog

/-- What a builder inserts can itself be visited. -/
theorem checked_of_typed
    {builder : IRBuilder} (typed : builder.Typed rules pass.logs) :
    ∀ inst ∈ builder.inserted, pass.Checked rules inst := by
  intro inst member
  rcases typed inst member with ⟨ofOp, calls⟩
  refine ⟨ofOp, ?_⟩
  intro fn args type op adef defined
  have isLog : fn ∈ pass.logs := calls fn (by rw [Inst.calledFunction, op])
  rw [noLog fn isLog] at defined
  cases defined

variable (declared : pass.library.getFunction = instrumentationLibrary)

include declared

theorem checked_visit
    {terminatorLoc : Option DebugLoc} {item : Inst} {nextInst : Option Inst}
    {made : Visit PassState Inst}
    (visited :
      pass.visit decision terminatorLoc state item nextInst = some made)
    (checked : pass.Checked rules item) :
    ∀ inst ∈ made.before ++ made.after, pass.Checked rules inst := by
  have typed := checked.typed
  cases visitInserts_of_visit visited with
  | nothing => exact List.forall_mem_nil _
  | store op stores instrumented =>
      rw [op] at typed
      rcases typed with ⟨pointee, ofValue, ofPointer⟩
      rw [List.append_nil]
      exact checked_of_typed noLog
        (typed_instrumentAccess declared instrumented ofValue ofPointer
          (by rw [pointee]; rfl) fun isRead => absurd stores isRead)
  | load op instrumented =>
      rw [op] at typed
      rcases typed with ⟨isPointer, ofPointer⟩
      rw [List.append_nil]
      exact checked_of_typed noLog
        (typed_instrumentAccess declared instrumented ofPointer ofPointer
          isPointer fun _ => isPointer)
  | call op =>
      intro inst member
      rcases List.mem_append.mp member with before | after
      · refine checked_of_typed noLog ?_ inst before
        unfold exitBuilder
        split
        · exact typed_instrumentExit declared _ item _
        · exact typed_empty _ item.debugLoc
      · refine checked_of_typed noLog ?_ inst after
        unfold allocBuilder
        split
        · exact typed_instrumentAlloc declared op checked state.nextId
            nextInst _
        · exact typed_empty state.nextId _

theorem checked_instrumentBlock
    {block target : Block}
    (ran :
      pass.instrumentBlock fuel decision state block = some (target, final))
    (checked : ∀ inst ∈ block.insts, pass.Checked rules inst) :
    ∀ inst ∈ target.insts, pass.Checked rules inst := by
  rw [instrumentBlock_eq] at ran
  rcases Option.map_eq_some_iff.mp ran with ⟨⟨insts, last⟩, looped, equal⟩
  rcases Prod.mk.inj equal with ⟨rfl, rfl⟩
  have ofEnd :
      (pass.endEvent decision state.nextId block.terminator).Typed rules
        pass.logs := by
    unfold endEvent
    split
    · exact typed_instrumentFnEvent declared decision.function state.nextId
        block.terminator.debugLoc .fnEnd
    · exact typed_empty state.nextId block.terminator.debugLoc
  have start :
      ∀ inst ∈ [] ++
          (block.insts ++
            (pass.endEvent decision state.nextId
              block.terminator).inserted),
        pass.Checked rules inst := by
    rw [List.nil_append]
    exact List.forall_mem_append.mpr
      ⟨checked, checked_of_typed noLog ofEnd⟩
  have kept :=
    loop_invariant
      (fun _ done rest => ∀ inst ∈ done ++ rest, pass.Checked rules inst)
      (fun state done item rest made visited reached => by
        rcases List.forall_mem_append.mp reached with ⟨behind, ahead⟩
        rcases List.forall_mem_cons.mp ahead with ⟨ofItem, ofRest⟩
        rcases List.forall_mem_append.mp
            (checked_visit noLog declared visited ofItem) with
          ⟨before, after⟩
        have passed :
            ∀ inst ∈ done ++ made.before ++ [item],
              pass.Checked rules inst :=
          List.forall_mem_append.mpr
            ⟨List.forall_mem_append.mpr ⟨behind, before⟩,
              List.forall_mem_singleton.mpr ofItem⟩
        exact List.forall_mem_append.mpr
          ⟨passed, List.forall_mem_append.mpr ⟨after, ofRest⟩⟩)
      looped start
  rwa [List.append_nil] at kept

theorem checked_instrumentBlocks
    {blocks targets : List Block}
    (ran :
      pass.instrumentBlocks fuel decision state blocks =
        some (targets, final))
    (checked :
      ∀ block ∈ blocks, ∀ inst ∈ block.insts, pass.Checked rules inst) :
    ∀ target ∈ targets, ∀ inst ∈ target.insts, pass.Checked rules inst := by
  refine @instrumentBlocks_induction pass fuel decision
    (fun sources targets _ =>
      (∀ block ∈ sources, ∀ inst ∈ block.insts,
        pass.Checked rules inst) →
        ∀ target ∈ targets, ∀ inst ∈ target.insts,
          pass.Checked rules inst)
    ?_ [] [] blocks targets state final ran
    (fun _ => List.forall_mem_nil _) checked
  intro sources targets state block target next instrumented earlier all
  rcases List.forall_mem_append.mp all with ⟨before, last⟩
  refine List.forall_mem_append.mpr ⟨earlier before, ?_⟩
  rw [List.forall_mem_singleton] at last ⊢
  exact checked_instrumentBlock noLog declared instrumented last

/-! ## Functions -/

omit noLog declared in
/-- Every selected argument is stored to a place of its type. -/
theorem typed_injectArgs
    (fname : String) {args : List Value}
    (ofArgs : ∀ arg ∈ args, rules.ValueTyped arg) (idx : Nat)
    {builder : IRBuilder} (typed : builder.Typed rules pass.logs)
    (argLogSet : Finset Value) :
    (pass.injectArgs fname idx args builder argLogSet).1.Typed rules
      pass.logs := by
  induction args generalizing idx builder argLogSet with
  | nil => exact typed
  | cons arg args inductionHypothesis =>
      rcases List.forall_mem_cons.mp ofArgs with ⟨ofArg, ofOthers⟩
      unfold injectArgs
      split
      · have place := makes_createAlloca typed arg.getType
        exact inductionHypothesis ofOthers (idx + 1)
          (typed_createStore place.builder place.type ofArg place.value) _
      · exact inductionHypothesis ofOthers (idx + 1) typed argLogSet

theorem checked_prepareEntry
    (function : Function) {entry : Block}
    (checked : ∀ inst ∈ entry.insts, pass.Checked rules inst) :
    ∀ inst ∈ (pass.prepareEntry function state entry).1.insts,
      pass.Checked rules inst := by
  have insertFirst :
      ∀ {block : Block} {builder : IRBuilder},
        (∀ inst ∈ block.insts, pass.Checked rules inst) →
          builder.Typed rules pass.logs →
            ∀ inst ∈ (block.insertFirst builder.inserted).insts,
              pass.Checked rules inst := by
    intro block builder ofBlock typed inst member
    rcases mem_insertFirst.mp member with original | new
    · exact ofBlock inst original
    · exact checked_of_typed noLog typed inst new
  have ofArgs : ∀ arg ∈ function.args, rules.ValueTyped arg := by
    intro arg member
    rcases List.mem_mapIdx.mp member with ⟨index, bound, rfl⟩
    trivial
  have queued :
      ∀ inst ∈
          (if (pass.decision function).functionFilter then
            pass.queueAndInjectArgsToLog function state entry
          else
            (entry, state)).1.insts,
        pass.Checked rules inst := by
    split
    · exact insertFirst checked
        (typed_injectArgs function.name ofArgs 0 (typed_empty _ _) _)
    · exact checked
  rw [prepareEntry_eq]
  dsimp only
  split
  · exact insertFirst queued
      (typed_instrumentFnEvent declared function.name _ _ .fnBegin)
  · exact queued

theorem checked_instrumentFunction
    {function target : Function}
    (ran :
      pass.instrumentFunction fuel function state = some (target, final))
    (checked : function.AllInsts (pass.Checked rules)) :
    target.AllInsts (pass.Checked rules) := by
  rcases instrumentFunction_cases ran with
    ⟨_, rfl, _⟩ | ⟨entry, rest, first, middle, others, blocks, entryRan,
      othersRan, rfl⟩
  · exact checked
  · unfold Function.AllInsts at checked
    rw [blocks] at checked
    rcases List.forall_mem_cons.mp checked with ⟨ofEntry, ofRest⟩
    exact List.forall_mem_cons.mpr
      ⟨checked_instrumentBlock noLog declared entryRan
          (checked_prepareEntry noLog declared function ofEntry),
        checked_instrumentBlocks noLog declared othersRan ofRest⟩

theorem checked_instrumentFunctions
    {functions targets : List Function}
    (ran :
      pass.instrumentFunctions fuel state functions = some (targets, final))
    (checked :
      ∀ function ∈ functions, function.AllInsts (pass.Checked rules)) :
    ∀ target ∈ targets, target.AllInsts (pass.Checked rules) := by
  refine @instrumentFunctions_induction pass fuel
    (fun sources targets _ =>
      (∀ function ∈ sources, function.AllInsts (pass.Checked rules)) →
        ∀ target ∈ targets, target.AllInsts (pass.Checked rules))
    ?_ [] [] functions targets state final ran
    (fun _ => List.forall_mem_nil _) checked
  intro sources targets state function target next instrumented earlier all
  rcases List.forall_mem_append.mp all with ⟨before, last⟩
  refine List.forall_mem_append.mpr ⟨earlier before, ?_⟩
  rw [List.forall_mem_singleton] at last ⊢
  split at instrumented
  · exact checked_instrumentFunction noLog declared instrumented last
  · rcases Prod.mk.inj (Option.some.inj instrumented) with ⟨rfl, rfl⟩
    exact last

theorem checked_runOnModule
    {module : Module} {functions : List Function}
    (ran : pass.runOnModule fuel module = some functions)
    (checked :
      ∀ function ∈ module.functions,
        function.AllInsts (pass.Checked rules)) :
    ∀ function ∈ functions, function.AllInsts (pass.Checked rules) := by
  rw [runOnModule_eq] at ran
  split at ran
  · rcases Option.map_eq_some_iff.mp ran with
      ⟨⟨targets, final⟩, instrumented, rfl⟩
    refine checked_instrumentFunctions noLog declared instrumented ?_
    refine List.forall_mem_append.mpr ⟨checked, ?_⟩
    intro function member
    rcases List.mem_map.mp member with ⟨callee, _, rfl⟩
    exact List.forall_mem_nil _
  · obtain rfl := Option.some.inj ran
    exact checked

end Runs

/-- What the pass returns for a typed module is typed, whatever ids its maps
give, if the allocators are as their definitions describe them. -/
theorem compiled_program_typed
    {State : Type} (mapped : MappedPass State) (rules : TypeRules)
    (module : Module) (noLog : mapped.pass.NoLogFunctionDefined)
    (widths : module.WidthsOk)
    (declared : mapped.pass.library.getFunction = instrumentationLibrary)
    (checked :
      ∀ function ∈ module.functions,
        function.AllInsts (mapped.pass.Checked rules))
    {fuel : Nat} (enough : module.visitBound ≤ fuel) (ids : State) :
    ∃ functions later,
      mapped.runOnModule fuel ids module = some (functions, later) ∧
        ∀ function ∈ functions,
          function.AllInsts fun inst => rules.OpTyped inst.op := by
  rcases mapped.exists_withMaps noLog widths enough ids with
    ⟨functions, later, answers, returned, ran⟩
  refine ⟨functions, later, returned, ?_⟩
  have sameNoLog : (mapped.pass.withMaps answers).NoLogFunctionDefined :=
    noLog
  have sameLibrary :
      (mapped.pass.withMaps answers).library.getFunction =
        instrumentationLibrary :=
    declared
  have sameChecked :
      ∀ function ∈ module.functions,
        function.AllInsts
          ((mapped.pass.withMaps answers).Checked rules) := by
    intro function isFunction block isBlock inst isInst
    have ofInst := checked function isFunction block isBlock inst isInst
    exact ⟨ofInst.typed, ofInst.described⟩
  intro function isFunction block isBlock inst isInst
  have ofInst :=
    checked_runOnModule sameNoLog sameLibrary ran sameChecked function
      isFunction block isBlock inst isInst
  exact ofInst.typed

/-- No cast and no call beyond those that are inserted. -/
def strictRules : TypeRules :=
  ⟨fun _ _ _ => False, fun _ => False⟩

theorem allocatingModule_checked :
    ∀ function ∈ allocatingModule.functions,
      function.AllInsts (instrumentsAll.Checked strictRules) := by
  intro function isFunction block isBlock inst isInst
  rw [List.mem_singleton.mp isFunction] at isBlock
  rw [List.mem_singleton.mp isBlock] at isInst
  simp only [List.mem_cons, List.not_mem_nil, or_false] at isInst
  rcases isInst with rfl | rfl | rfl | rfl
  · refine ⟨trivial, ?_⟩
    intro fn args type isCall
    cases isCall
  · refine ⟨⟨rfl, trivial, trivial⟩, ?_⟩
    intro fn args type isCall
    cases isCall
  · refine ⟨⟨rfl, trivial⟩, ?_⟩
    intro fn args type isCall
    cases isCall
  · refine ⟨⟨List.forall_mem_singleton.mpr rfl, ?_⟩, ?_⟩
    · intro fn isCallee
      obtain rfl := Option.some.inj isCallee
      exact ⟨rfl, Or.inl rfl⟩
    · intro fn args type isCall adef defined
      cases isCall
      obtain rfl := Option.some.inj defined
      exact ⟨rfl, ⟨_, rfl, le_refl 64⟩, fun num => absurd rfl num⟩

theorem compiled_program_typed_allocating :
    ∃ functions later,
      (compilingPass Config.source instrumentsAll).runOnModule 45
          (fun _ => firstCompiler) allocatingModule =
          some (functions, later) ∧
        ∀ function ∈ functions,
          function.AllInsts fun inst => strictRules.OpTyped inst.op :=
  compiled_program_typed (compilingPass Config.source instrumentsAll)
    strictRules allocatingModule instrumentsAll_noLog
    allocatingModule_widths rfl allocatingModule_checked (by decide)
    fun _ => firstCompiler

end Dinamite.Instrument
