import Dinamite.Instrument.Scopes

/-!
# Scopes of instrumented blocks

Around an instruction the pass inserts what uses the operands of it, and behind
a call also its result.  So every block can be entered with the same values in
scope as before, whatever the pass has added to it.
-/

namespace Dinamite.Instrument

open Dinamite.CursorLoop
open AccessInstrumentationPass

/-! ## What is inserted -/

section Inserted

variable {pass : AccessInstrumentationPass} {scope : Set Value}
variable {builder : IRBuilder}

theorem scoped_logAccess
    (within : Scoped scope builder.inserted)
    {accessed destination : Value}
    (ofAccessed :
      accessed.Available (scope ∪ valuesOf builder.inserted))
    (ofDestination :
      destination.Available (scope ∪ valuesOf builder.inserted))
    (site : Nat) (function : String) (afunc : Callee) (accessType : Char) :
    Scoped scope
      (pass.logAccess builder site function afunc accessed destination
        accessType).inserted := by
  have address :=
    offers_createCast within .bitCast (afunc.getParamType 0) ofDestination
  have cast :=
    offers_castAccessed address.within (afunc.getParamType 1)
      (address.keeps ofAccessed)
  rw [logAccess_eq]
  refine scoped_insert cast.within _ ?_
  intro arg member
  simp only [Inst.operands, IRBuilder.insert, List.mem_cons,
    List.not_mem_nil, or_false] at member
  rcases member with rfl | rfl | rfl | rfl | rfl | rfl | rfl | rfl
  · exact cast.keeps address.value
  · exact cast.value
  all_goals exact available_getConstantFromInt _ _

/-- What goes before an access uses its operands. -/
theorem scoped_instrumentAccess
    {site nextId : Nat} {function : String} {debugLoc : Option DebugLoc}
    {first last : Value} {accessType : Char}
    (made :
      pass.instrumentAccess site function nextId debugLoc first last
        accessType = some builder)
    (ofFirst : first.Available scope) (ofLast : last.Available scope) :
    Scoped scope builder.inserted := by
  have grows :
      ∀ insts, scope ⊆ scope ∪ valuesOf insts :=
    fun _ => Set.subset_union_left
  have within : Scoped scope (IRBuilder.mk nextId debugLoc []).inserted :=
    trivial
  have accessed :
      Offers scope ⟨nextId, debugLoc, []⟩
        (if accessType = 'w' ∨ accessType = 'a' then
          (first, ⟨nextId, debugLoc, []⟩)
        else
          (IRBuilder.mk nextId debugLoc []).createLoad first) := by
    split
    · exact offers_same within (ofFirst.mono (grows _))
    · exact offers_insert within (.load first)
        (List.forall_mem_singleton.mpr (ofFirst.mono (grows _)))
  rw [instrumentAccess_eq] at made
  dsimp only at made
  generalize
    (if accessType = 'w' ∨ accessType = 'a' then
      (first, IRBuilder.mk nextId debugLoc [])
    else
      (IRBuilder.mk nextId debugLoc []).createLoad first) = start
    at made accessed
  cases found : pass.lfm.getLogFunction start.1.getType function with
  | function afunc =>
      rw [found] at made
      obtain rfl := Option.some.inj made
      exact scoped_logAccess accessed.within accessed.value
        (ofLast.mono (grows _)) site function afunc accessType
  | none =>
      rw [found] at made
      obtain rfl := Option.some.inj made
      exact accessed.within
  | exit =>
      rw [found] at made
      cases made

/-- What goes after a call uses its operands and its result. -/
theorem scoped_instrumentAlloc
    {ci : Inst} {fn : Callee} {args : List Value} {type : Ty}
    (op : ci.op = .call (some fn) args type)
    (ofArgs : ∀ arg ∈ args, arg.Available scope) (result : ci.value ∈ scope)
    (fits : pass.Fits ci) (nextId : Nat) (nextInst : Option Inst)
    (insertionLoc : Option DebugLoc) :
    Scoped scope
      (pass.instrumentAlloc nextId ci fn args nextInst
        insertionLoc).inserted := by
  have grows :
      ∀ insts, scope ⊆ scope ∪ valuesOf insts :=
    fun _ => Set.subset_union_left
  have operand :
      ∀ {index : Int}, (operandAt args index).isSome →
        (pass.getArgOperand ci args index).Available scope := by
    intro index present
    rcases Option.isSome_iff_exists.mp present with ⟨value, isArg⟩
    rw [getArgOperand_of_operandAt isArg]
    exact ofArgs value (mem_of_operandAt isArg)
  cases defined : pass.adm.getAllocDef fn.name with
  | none =>
      rw [instrumentAlloc_undefined defined]
      trivial
  | some adef =>
      rcases fits.call op defined with ⟨sized, numbered⟩
      have num :
          (if adef.numIdx ≠ -1 then pass.getArgOperand ci args adef.numIdx
            else
              getConstantFromInt 1
                (pass.lfm.allocLogFunc.getParamType 2)).Available scope := by
        split
        case isTrue counts => exact operand (numbered counts)
        case isFalse _ => exact available_getConstantFromInt _ _
      let start : IRBuilder := ⟨nextId, insertionLoc, []⟩
      have within : Scoped scope start.inserted := trivial
      have address :=
        offers_createCast within .bitCast
          (pass.lfm.allocLogFunc.getParamType 0)
          (show ci.value.Available _ from grows _ result)
      have size :=
        offers_createZExtOrBitCast address.within
          (pass.lfm.allocLogFunc.getParamType 1)
          ((operand sized).mono (grows _))
      have count :=
        offers_createZExtOrBitCast size.within
          (pass.lfm.allocLogFunc.getParamType 2) (num.mono (grows _))
      simp only [instrumentAlloc_eq, defined]
      refine scoped_insert count.within _ ?_
      intro arg member
      simp only [Inst.operands, IRBuilder.insert, List.mem_cons,
        List.not_mem_nil, or_false] at member
      rcases member with rfl | rfl | rfl | rfl | rfl | rfl | rfl
      · exact count.keeps (size.keeps address.value)
      · exact count.keeps size.value
      · exact count.value
      all_goals exact available_getConstantFromInt _ _

theorem scoped_instrumentFnEvent
    (function : String) (nextId : Nat) (debugLoc : Option DebugLoc)
    (event : FnEvents) :
    Scoped scope
      (pass.instrumentFnEvent function nextId debugLoc event).inserted :=
  ⟨List.forall_mem_singleton.mpr (available_getConstantFromInt _ _),
    trivial⟩

theorem scoped_instrumentExit (nextId : Nat) (ci : Inst) (fn : Callee) :
    Scoped scope (pass.instrumentExit nextId ci fn).inserted := by
  unfold instrumentExit
  split
  · exact ⟨List.forall_mem_singleton.mpr (available_getConstantFromInt _ _),
      trivial⟩
  · trivial

end Inserted

/-! ## Blocks -/

/-- What a visit inserts uses what the visited instruction could use. -/
structure VisitScoped (item : Inst) (made : Visit PassState Inst) :
    Prop where
  before : ∀ {scope : Set Value},
    (∀ operand ∈ item.operands, operand.Available scope) →
      Scoped scope made.before
  after : ∀ {scope : Set Value},
    (∀ operand ∈ item.operands, operand.Available scope) →
      item.value ∈ scope → Scoped scope made.after

/-- Values that are in scope in front of the block can be used in it as
before, and it makes its own values as before. -/
structure BlockKept (args : Set Value) (source target : Block) : Prop where
  terminator : target.terminator = source.terminator
  values : valuesOf source.insts ⊆ valuesOf target.insts
  within : ∀ {scope : Set Value}, args ⊆ scope →
    Scoped scope source.insts → Scoped scope target.insts

section Blocks

variable {pass : AccessInstrumentationPass} {decision : Decision}
variable {state final : PassState} {fuel : Nat} {args : Set Value}

theorem scoped_visit
    {terminatorLoc : Option DebugLoc} {item : Inst} {nextInst : Option Inst}
    {made : Visit PassState Inst}
    (visited :
      pass.visit decision terminatorLoc state item nextInst = some made)
    (fits : pass.Fits item) : VisitScoped item made := by
  cases visitInserts_of_visit visited with
  | nothing => exact ⟨fun _ => trivial, fun _ _ => trivial⟩
  | @store value pointer _ _ _ op _ instrumented =>
      have operands : item.operands = [value, pointer] := by
        rw [Inst.operands, op]
      refine ⟨fun available => ?_, fun _ _ => trivial⟩
      rw [operands] at available
      rcases List.forall_mem_cons.mp available with ⟨ofValue, others⟩
      exact scoped_instrumentAccess instrumented ofValue
        (List.forall_mem_singleton.mp others)
  | @load pointer _ _ op instrumented =>
      have operands : item.operands = [pointer] := by
        rw [Inst.operands, op]
      refine ⟨fun available => ?_, fun _ _ => trivial⟩
      rw [operands, List.forall_mem_singleton] at available
      exact scoped_instrumentAccess instrumented available available
  | @call fn args _ _ _ _ op =>
      have operands : item.operands = args := by
        rw [Inst.operands, op]
      refine ⟨fun _ => ?_, fun available result => ?_⟩
      · unfold exitBuilder
        split
        · exact scoped_instrumentExit _ item fn
        · trivial
      · rw [operands] at available
        unfold allocBuilder
        split
        · exact scoped_instrumentAlloc op available result fits state.nextId
            nextInst _
        · trivial

/-- One round of the loop. -/
theorem scoped_round
    {scope : Set Value} {done rest : List Inst} {item : Inst}
    {made : Visit PassState Inst} (visit : VisitScoped item made)
    (within : Scoped scope (done ++ item :: rest)) :
    Scoped scope
      (done ++ made.before ++ [item] ++ (made.after ++ rest)) := by
  rcases scoped_append.mp within with ⟨_, operands, _⟩
  have withBefore :
      Scoped scope (done ++ made.before ++ [item] ++ rest) := by
    have inserted := scoped_insert_middle within (visit.before operands)
    simpa only [List.append_assoc, List.singleton_append] using inserted
  have grows :
      scope ∪ valuesOf done ⊆
        scope ∪ valuesOf (done ++ made.before ++ [item]) := by
    refine Set.union_subset_union_right scope ?_
    rw [List.append_assoc, valuesOf_append]
    exact Set.subset_union_left
  have result :
      item.value ∈ scope ∪ valuesOf (done ++ made.before ++ [item]) :=
    Or.inr (mem_valuesOf (List.mem_append_right _ List.mem_cons_self))
  have inserted :=
    scoped_insert_middle withBefore
      (visit.after
        (fun operand member => (operands operand member).mono grows) result)
  simpa only [List.append_assoc] using inserted

variable (noLog : pass.NoLogFunctionDefined)

include noLog

/-- The calls that are inserted are those of no allocator. -/
theorem fits_of_log
    {inst : Inst}
    (logs :
      ∀ fn, inst.calledFunction = some fn →
        fn ∈ pass.lfm.accessFunctions ++ pass.lfm.eventFunctions) :
    pass.Fits inst := by
  unfold AccessInstrumentationPass.Fits
  split
  · rename_i fn args type op
    intro adef defined
    have called : inst.calledFunction = some fn := by
      rw [Inst.calledFunction, op]
    rw [noLog fn (logs fn called)] at defined
    cases defined
  · trivial

theorem fits_instrumentFnEvent
    (function : String) (nextId : Nat) (debugLoc : Option DebugLoc)
    (event : FnEvents) :
    ∀ inst ∈ (pass.instrumentFnEvent function nextId debugLoc
        event).inserted, pass.Fits inst := by
  intro inst member
  obtain rfl := List.mem_singleton.mp member
  refine fits_of_log noLog fun fn called => ?_
  obtain rfl := Option.some.inj called
  exact List.mem_append_right _ (eventLogFunc_mem function event)

theorem VisitOutcome.fits_after
    {item : Inst} {made : Visit PassState Inst}
    (outcome : VisitOutcome pass decision state item made) :
    ∀ inst ∈ made.after, pass.Fits inst := by
  cases outcome with
  | called notStore afterYounger beforeYounger beforeEvents afterEvents =>
      intro inst member
      refine fits_of_log noLog fun fn called => ?_
      rcases (afterEvents inst member).2 fn called with rfl | rfl
      · exact List.mem_append_right _ LogFunctionManager.exitLogFunc_mem
      · exact List.mem_append_right _ LogFunctionManager.allocLogFunc_mem
  | passed | storePassed | storeLogged | loadLogged =>
      exact List.forall_mem_nil _

theorem kept_instrumentBlock
    {block target : Block}
    (ran :
      pass.instrumentBlock fuel decision state block = some (target, final))
    (fits : ∀ inst ∈ block.insts, pass.Fits inst) :
    BlockKept args block target := by
  rw [instrumentBlock_eq] at ran
  rcases Option.map_eq_some_iff.mp ran with ⟨⟨insts, last⟩, looped, equal⟩
  rcases Prod.mk.inj equal with ⟨rfl, rfl⟩
  let ends := pass.endEvent decision state.nextId block.terminator
  refine ⟨rfl, ?_, ?_⟩
  · have kept :=
      loop_invariant
        (fun _ done rest => ∀ inst ∈ block.insts, inst ∈ done ++ rest)
        (fun _ done item rest made _ reached inst member => by
          have earlier := reached inst member
          simp only [List.mem_append, List.mem_cons, List.not_mem_nil,
            or_false] at earlier ⊢
          tauto)
        looped
        (fun inst member =>
          List.mem_append_right _ (List.mem_append_left _ member))
    rintro value ⟨inst, member, rfl⟩
    have survives := kept inst member
    rw [List.append_nil] at survives
    exact mem_valuesOf survives
  · intro scope _ within
    have withEnd : Scoped scope (block.insts ++ ends.inserted) := by
      refine scoped_append.mpr ⟨within, ?_⟩
      unfold ends endEvent
      split
      · exact scoped_instrumentFnEvent _ _ _ .fnEnd
      · trivial
    have fitsEnd : ∀ inst ∈ ends.inserted, pass.Fits inst := by
      unfold ends endEvent
      split
      · exact fits_instrumentFnEvent noLog _ _ _ .fnEnd
      · exact List.forall_mem_nil _
    have kept :=
      loop_invariant
        (fun _ done rest =>
          Scoped scope (done ++ rest) ∧ ∀ inst ∈ rest, pass.Fits inst)
        (fun _ done item rest made visited reached => by
          rcases reached with ⟨inScope, fitsAhead⟩
          rcases List.forall_mem_cons.mp fitsAhead with ⟨ofItem, ofRest⟩
          refine ⟨scoped_round (scoped_visit visited ofItem) inScope, ?_⟩
          exact List.forall_mem_append.mpr
            ⟨(outcome_of_visit visited).fits_after noLog, ofRest⟩)
        looped
        ⟨withEnd, List.forall_mem_append.mpr ⟨fits, fitsEnd⟩⟩
    rcases kept with ⟨inScope, _⟩
    rwa [List.append_nil] at inScope

theorem kept_instrumentBlocks
    {blocks targets : List Block}
    (ran :
      pass.instrumentBlocks fuel decision state blocks =
        some (targets, final))
    (fits : ∀ block ∈ blocks, ∀ inst ∈ block.insts, pass.Fits inst) :
    List.Forall₂ (BlockKept args) blocks targets := by
  refine @instrumentBlocks_induction pass fuel decision
    (fun sources targets _ =>
      (∀ block ∈ sources, ∀ inst ∈ block.insts, pass.Fits inst) →
        List.Forall₂ (BlockKept args) sources targets)
    ?_ [] [] blocks targets state final ran (fun _ => .nil) fits
  intro sources targets state block target next instrumented earlier all
  rcases List.forall_mem_append.mp all with ⟨before, last⟩
  have one : BlockKept args block target :=
    kept_instrumentBlock noLog instrumented
      (List.forall_mem_singleton.mp last)
  exact List.rel_append (earlier before) (.cons one .nil)

end Blocks

/-! ## The entry -/

section Entry

variable {pass : AccessInstrumentationPass} {state : PassState}
variable {args : Set Value} {first second third : Block}

theorem BlockKept.refl (block : Block) : BlockKept args block block :=
  ⟨rfl, subset_refl _, fun _ within => within⟩

theorem BlockKept.trans
    (kept : BlockKept args first second)
    (keptOn : BlockKept args second third) : BlockKept args first third :=
  ⟨keptOn.terminator.trans kept.terminator, kept.values.trans keptOn.values,
    fun inScope within => keptOn.within inScope (kept.within inScope within)⟩

theorem kept_insertFirst
    (block : Block) {new : List Inst}
    (inserted : ∀ {scope : Set Value}, args ⊆ scope → Scoped scope new) :
    BlockKept args block (block.insertFirst new) := by
  rcases insertFirst_split block with ⟨front, back, split, inserts, _⟩
  refine ⟨rfl, ?_, ?_⟩
  · rintro value ⟨inst, member, rfl⟩
    exact mem_valuesOf (mem_insertFirst.mpr (Or.inl member))
  · intro scope inScope within
    rw [inserts]
    rw [split] at within
    exact scoped_insert_middle within
      (inserted (inScope.trans Set.subset_union_left))

/-- The stores of the arguments use these and the slots in front of them. -/
theorem scoped_injectArgs
    (fname : String) {values : List Value} {scope : Set Value}
    (available : ∀ arg ∈ values, arg.Available scope) (idx : Nat)
    {builder : IRBuilder} (within : Scoped scope builder.inserted)
    (argLogSet : Finset Value) :
    Scoped scope
      (pass.injectArgs fname idx values builder argLogSet).1.inserted := by
  induction values generalizing idx builder argLogSet with
  | nil => exact within
  | cons arg values inductionHypothesis =>
      rcases List.forall_mem_cons.mp available with ⟨ofArg, ofOthers⟩
      unfold injectArgs
      split
      · have place :
            Offers scope builder (builder.createAlloca arg.getType) :=
          offers_insert within (.alloca arg.getType) (List.forall_mem_nil _)
        have stored :
            Scoped scope
              ((builder.createAlloca arg.getType).2.createStore arg
                (builder.createAlloca arg.getType).1).inserted := by
          refine scoped_insert place.within (.store arg _) ?_
          refine List.forall_mem_cons.mpr
            ⟨ofArg.mono Set.subset_union_left, ?_⟩
          exact List.forall_mem_singleton.mpr place.value
        exact inductionHypothesis ofOthers (idx + 1) stored _
      · exact inductionHypothesis ofOthers (idx + 1) within argLogSet

theorem fits_injectArgs
    (fname : String) (values : List Value) (idx : Nat)
    {builder : IRBuilder}
    (fits : ∀ inst ∈ builder.inserted, pass.Fits inst)
    (argLogSet : Finset Value) :
    ∀ inst ∈ (pass.injectArgs fname idx values builder
        argLogSet).1.inserted, pass.Fits inst := by
  induction values generalizing idx builder argLogSet with
  | nil => exact fits
  | cons arg values inductionHypothesis =>
      unfold injectArgs
      split
      · refine inductionHypothesis (idx + 1) ?_ _
        intro inst member
        rcases List.mem_append.mp member with earlier | store
        · rcases List.mem_append.mp earlier with before | place
          · exact fits inst before
          · obtain rfl := List.mem_singleton.mp place
            trivial
        · obtain rfl := List.mem_singleton.mp store
          trivial
      · exact inductionHypothesis (idx + 1) fits argLogSet

/-- The arguments, as operands. -/
def Function.argValues (function : Function) : Set Value :=
  {value | value ∈ function.args}

theorem kept_prepareEntry
    (noLog : pass.NoLogFunctionDefined) (function : Function) {entry : Block}
    (fits : ∀ inst ∈ entry.insts, pass.Fits inst) :
    BlockKept function.argValues entry
        (pass.prepareEntry function state entry).1 ∧
      ∀ inst ∈ (pass.prepareEntry function state entry).1.insts,
        pass.Fits inst := by
  have available :
      ∀ {scope : Set Value}, function.argValues ⊆ scope →
        ∀ arg ∈ function.args, arg.Available scope := by
    intro scope inScope arg member
    have named := inScope member
    rcases List.mem_mapIdx.mp member with ⟨index, bound, rfl⟩
    exact named
  have queued :
      BlockKept function.argValues entry
          (if (pass.decision function).functionFilter then
            pass.queueAndInjectArgsToLog function state entry
          else
            (entry, state)).1 ∧
        ∀ inst ∈
            (if (pass.decision function).functionFilter then
              pass.queueAndInjectArgsToLog function state entry
            else
              (entry, state)).1.insts,
          pass.Fits inst := by
    split
    · refine ⟨kept_insertFirst entry fun inScope =>
        scoped_injectArgs function.name (available inScope) 0 (by trivial) _,
        ?_⟩
      intro inst member
      rcases mem_insertFirst.mp member with original | new
      · exact fits inst original
      · exact fits_injectArgs function.name function.args 0
          (List.forall_mem_nil _) _ inst new
    · exact ⟨.refl entry, fits⟩
  rw [prepareEntry_eq]
  dsimp only
  split
  · rcases queued with ⟨kept, fitsQueued⟩
    refine ⟨kept.trans (kept_insertFirst _ fun _ =>
      scoped_instrumentFnEvent function.name _ _ .fnBegin), ?_⟩
    intro inst member
    rcases mem_insertFirst.mp member with original | new
    · exact fitsQueued inst original
    · exact fits_instrumentFnEvent noLog function.name _ _ .fnBegin inst new
  · exact queued

end Entry

end Dinamite.Instrument
