import Dinamite.Filter.InstrumentationFilter
import Dinamite.Instrument.Balance

/-!
# Logging the arguments

The stores that are put at the front of the entry take their arguments out of
the queue before the loop comes to the stores of the program.
-/

namespace Dinamite.Instrument

open Dinamite.CursorLoop
open AccessInstrumentationPass

namespace AccessInstrumentationPass

variable (pass : AccessInstrumentationPass)

/-- A call that logs an access of the given kind. -/
def logsKind (kind : Char) (inst : Inst) : Bool :=
  match inst.op with
  | .call (some callee) (_ :: _ :: accessType :: _) _ =>
      pass.lfm.accessFunctions.contains callee &&
        decide (accessType =
          getConstantFromInt kind.toNat (callee.getParamType 2))
  | _ => false

/-- An instruction of the program, an inserted begin event of the function or
an inserted call that logs an argument. -/
def programOrArgument
    (fresh : Nat) (function : String) (inst : Inst) : Bool :=
  decide (inst.id < fresh) ||
    (decide (inst.calledFunction =
        some (pass.eventLogFunc function .fnBegin)) ||
      pass.logsKind 'a' inst)

end AccessInstrumentationPass

/-! ## What an instruction leaves -/

/-- What the loop has to leave for an instruction it visits. -/
inductive Due where
  | kept (inst : Inst)
  | argument (value : Value)

namespace AccessInstrumentationPass

variable (pass : AccessInstrumentationPass)

def due (fresh : Nat) (function : String) (inst : Inst) : Option Due :=
  if pass.programOrArgument fresh function inst then
    some (.kept inst)
  else
    match inst.storedValue with
    | some value =>
        if pass.lfm.hasLogFunction value.getType function then
          some (.argument value)
        else
          none
    | none => none

/-- The inserted call logs an argument. -/
def LogsArgument
    (fresh : Nat) (function : String) (insts : List Inst) (call : Inst)
    (value : Value) : Prop :=
  fresh ≤ call.id ∧ pass.LogsValue function value 'a' insts call

def Meets
    (fresh : Nat) (function : String) (insts : List Inst) (inst : Inst) :
    Due → Prop
  | .kept item => inst = item
  | .argument value => pass.LogsArgument fresh function insts inst value

end AccessInstrumentationPass

section Kinds

variable {pass : AccessInstrumentationPass} {fresh : Nat}
variable {function : String}

theorem Meets.mono
    {insts more : List Inst} (included : insts ⊆ more) {inst : Inst}
    {what : Due} (meets : pass.Meets fresh function insts inst what) :
    pass.Meets fresh function more inst what := by
  cases what with
  | kept item => exact meets
  | argument value => exact ⟨meets.1, meets.2.mono included⟩

theorem getConstantFromInt_injective
    {first second : Int} {type : Ty}
    (same : getConstantFromInt first type = getConstantFromInt second type) :
    first = second := by
  unfold getConstantFromInt at same
  split at same
  · simpa using same
  · simpa using same

theorem logsKind_eq_false
    {inst : Inst} (kind : Char)
    (noAccess : ∀ callee, inst.calledFunction = some callee →
      callee ∉ pass.lfm.accessFunctions) :
    pass.logsKind kind inst = false := by
  unfold logsKind
  split
  · rename_i callee first second accessType rest type op
    have notIn := noAccess callee (by simp only [Inst.calledFunction, op])
    have notContained :
        pass.lfm.accessFunctions.contains callee = false := by
      simpa using notIn
    rw [notContained, Bool.false_and]
  · rfl

theorem logsKind_of_logsValue
    {value : Value} {kind : Char} {insts : List Inst} {call : Inst}
    (logs : pass.LogsValue function value kind insts call) (other : Char) :
    pass.logsKind other call = decide (other = kind) := by
  rcases logs with ⟨afunc, builder, address, rest, found, _, op⟩
  have isAccess : pass.lfm.accessFunctions.contains afunc = true :=
    List.contains_iff_mem.mpr (LogFunctionManager.logFunction_mem found)
  simp only [logsKind, op, isAccess, Bool.true_and]
  apply decide_eq_decide.mpr
  constructor
  · intro same
    have codes := getConstantFromInt_injective same
    exact Char.toNat_inj.mp (by exact_mod_cast codes.symm)
  · intro same
    subst same
    rfl

/-- What a visit or an end event calls is no begin event. -/
theorem ne_begin_of_inserted
    {callee : Callee}
    (inserted : (callee ∈ pass.lfm.accessFunctions ∨
        callee = pass.lfm.exitLogFunc ∨ callee = pass.lfm.allocLogFunc) ∨
      callee = pass.lfm.fnEndLogFunc) :
    callee ≠ pass.eventLogFunc function .fnBegin := by
  have inFamily :
      family callee.name ∈
        ["logAcce".toList, "logExit".toList, "logAllo".toList,
          "logFnEn".toList] := by
    rcases inserted with byVisit | rfl
    · have listed := family_of_inserted byVisit
      simp only [List.mem_cons, List.not_mem_nil, or_false] at listed
      rcases listed with same | same | same <;>
        · rw [same]
          decide
    · rw [lfm, family_fnEnd]
      decide
  have beginFamily :
      family (pass.eventLogFunc function .fnBegin).name ∈
        ["logInit".toList, "logFnBe".toList] := by
    unfold eventLogFunc
    split
    · rw [lfm, family_init]
      decide
    · split
      · rw [lfm, family_init]
        decide
      · rw [lfm, family_fnBegin]
        decide
  intro same
  subst same
  simp only [List.mem_cons, List.not_mem_nil, or_false] at beginFamily
  rcases beginFamily with same | same
  · rw [same] at inFamily
    exact absurd inFamily (by decide)
  · rw [same] at inFamily
    exact absurd inFamily (by decide)

/-- An inserted instruction without a call that matters. -/
theorem programOrArgument_eq_false
    {inst : Inst} (young : fresh ≤ inst.id)
    (calls : ∀ callee, inst.calledFunction = some callee →
      callee = pass.lfm.exitLogFunc ∨ callee = pass.lfm.allocLogFunc ∨
        callee = pass.lfm.fnEndLogFunc) :
    pass.programOrArgument fresh function inst = false := by
  have notArgument : pass.logsKind 'a' inst = false := by
    apply logsKind_eq_false
    intro callee called
    rcases calls callee called with rfl | rfl | rfl
    · exact not_access_of_event LogFunctionManager.exitLogFunc_mem
    · exact not_access_of_event LogFunctionManager.allocLogFunc_mem
    · exact not_access_of_event LogFunctionManager.fnEndLogFunc_mem
  have notBegin :
      inst.calledFunction ≠ some (pass.eventLogFunc function .fnBegin) := by
    intro called
    rcases calls _ called with isExit | isAlloc | isEnd
    · exact ne_begin_of_inserted (Or.inl (Or.inr (Or.inl isExit))) rfl
    · exact ne_begin_of_inserted (Or.inl (Or.inr (Or.inr isAlloc))) rfl
    · exact ne_begin_of_inserted (Or.inr isEnd) rfl
  simp [programOrArgument, not_lt.mpr young, notArgument, notBegin]

theorem programOrArgument_of_logsValue
    {value : Value} {kind : Char} {insts : List Inst} {call : Inst}
    (young : fresh ≤ call.id)
    (logs : pass.LogsValue function value kind insts call) :
    pass.programOrArgument fresh function call = decide ('a' = kind) := by
  have notBegin :
      call.calledFunction ≠
        some (pass.eventLogFunc function .fnBegin) := by
    rcases logs with ⟨afunc, _, _, _, found, _, op⟩
    simp only [Inst.calledFunction, op]
    intro same
    exact ne_begin_of_inserted
      (Or.inl (Or.inl (LogFunctionManager.logFunction_mem found)))
      (Option.some.inj same)
  simp [programOrArgument, not_lt.mpr young, notBegin,
    logsKind_of_logsValue logs]

/-- What is kept of the instructions in front of an access. -/
theorem AccessInserted.kept
    {value : Value} {kind : Char} {insts : List Inst}
    (inserted : AccessInserted pass function value kind insts)
    (young : ∀ inst ∈ insts, fresh ≤ inst.id) :
    List.Forall₂ (pass.Meets fresh function insts)
      (insts.filter (pass.programOrArgument fresh function))
      (if kind = 'a' ∧ pass.lfm.hasLogFunction value.getType function then
        [.argument value]
      else
        []) := by
  have quietErased :
      ∀ quiet ⊆ insts, (∀ inst ∈ quiet, inst.Quiet) →
        quiet.filter (pass.programOrArgument fresh function) = [] := by
    intro quiet included noCall
    apply List.filter_eq_nil_iff.mpr
    intro inst member
    rw [programOrArgument_eq_false (young inst (included member))]
    · exact Bool.false_ne_true
    · intro callee called
      rw [(noCall inst member).1] at called
      cases called
  cases inserted with
  | @logged quiet call noCall logs =>
      have callYoung : fresh ≤ call.id := young call (by simp)
      have found :
          pass.lfm.hasLogFunction value.getType function = true := by
        rcases logs with ⟨afunc, _, _, _, found, _⟩
        simp [LogFunctionManager.hasLogFunction, found]
      rw [List.filter_append,
        quietErased quiet (List.subset_append_left _ _) noCall,
        List.nil_append]
      by_cases isArgument : kind = 'a'
      · subst isArgument
        rw [if_pos ⟨rfl, found⟩, List.filter_cons_of_pos, List.filter_nil]
        · exact .cons
            ⟨callYoung, logs.mono (List.subset_append_left _ _)⟩ .nil
        · rw [programOrArgument_of_logsValue callYoung logs]
          rfl
      · rw [if_neg (fun both => isArgument both.1), List.filter_cons_of_neg,
          List.filter_nil]
        · exact .nil
        · rw [programOrArgument_of_logsValue callYoung logs]
          simpa using Ne.symm isArgument
  | unlogged noCall noFunction =>
      rw [quietErased insts (List.Subset.refl _) noCall, if_neg]
      · exact .nil
      · rw [noFunction]
        exact fun both => Bool.false_ne_true both.2

end Kinds

/-! ## The loop -/

/-- Before a visit in a function whose arguments are logged: the queue holds
what the injected stores ahead store, and the stores of the program come after
them. -/
structure Injected
    (fresh : Nat) (state : PassState) (rest : List Inst) : Prop where
  older : fresh ≤ state.nextId
  queue : state.argLogSet = (pending fresh rest).toFinset
  distinct : (pending fresh rest).Nodup
  injectedFirst :
    rest.Pairwise fun earlier later =>
      earlier.id < fresh → earlier.isStore = true →
        fresh ≤ later.id → later.isStore = false

section Loop

variable {pass : AccessInstrumentationPass} {decision : Decision}
variable {fuel fresh : Nat} {state final : PassState} {item : Inst}
variable {rest : List Inst} {made : Visit PassState Inst}

theorem isStore_of_store
    {value pointer : Value} (op : item.op = .store value pointer) :
    item.isStore = true ∧ item.storedValue = some value := by
  simp [Inst.isStore, Inst.storedValue, op]

/-- Nothing is queued at a store of the program. -/
theorem Injected.pending_eq_nil
    (injected : Injected fresh state (item :: rest))
    (original : item.id < fresh) (isStore : item.isStore = true) :
    pending fresh rest = [] := by
  rcases List.pairwise_cons.mp injected.injectedFirst with ⟨later, _⟩
  exact Instrument.pending_eq_nil fun inst member =>
    later inst member original isStore

theorem pending_after
    (outcome : VisitOutcome pass decision state item made) :
    pending fresh (made.after ++ rest) = pending fresh rest := by
  rw [pending_append, Instrument.pending_eq_nil, List.nil_append]
  exact fun inst member _ =>
    outcome.not_store inst (List.mem_append_right _ member)

/-- The queue after a visit. -/
theorem Injected.queue_step
    (injected : Injected fresh state (item :: rest))
    (outcome : VisitOutcome pass decision state item made)
    (filtered : decision.functionFilter = true) :
    made.state.argLogSet = (pending fresh rest).toFinset := by
  rw [outcome.argLogSet, if_pos filtered, injected.queue]
  cases op : item.op with
  | store value pointer =>
      rcases isStore_of_store op with ⟨isStore, stored⟩
      rw [stored, pending_cons_store op]
      by_cases young : fresh ≤ item.id
      · have distinct := injected.distinct
        rw [pending_cons_store op, if_pos young, List.nodup_cons] at distinct
        rw [if_pos young, List.toFinset_cons, Option.toFinset_some,
          Finset.sdiff_singleton_eq_erase, Finset.erase_insert]
        exact fun member => distinct.1 (List.mem_toFinset.mp member)
      · rw [if_neg young,
          injected.pending_eq_nil (not_le.mp young) isStore]
        simp
  | _ =>
      have notStore : item.isStore = false := by
        simp [Inst.isStore, op]
      rw [pending_cons_other notStore, storedValue_of_not_store notStore,
        Option.toFinset_none, Finset.sdiff_empty]

theorem Injected.step
    (injected : Injected fresh state (item :: rest))
    (outcome : VisitOutcome pass decision state item made)
    (filtered : decision.functionFilter = true) :
    Injected fresh made.state (made.after ++ rest) := by
  have afterNoStore : ∀ inst ∈ made.after, inst.isStore = false :=
    fun inst member => outcome.not_store inst (List.mem_append_right _ member)
  rcases List.pairwise_cons.mp injected.injectedFirst with ⟨_, restFirst⟩
  refine ⟨injected.older.trans outcome.grows, ?_, ?_, ?_⟩
  · rw [pending_after outcome, injected.queue_step outcome filtered]
  · rw [pending_after outcome]
    have distinct := injected.distinct
    cases isStore : item.isStore with
    | false => rwa [pending_cons_other isStore] at distinct
    | true =>
        have suffix :
            (pending fresh rest).Sublist (pending fresh (item :: rest)) :=
          (List.sublist_cons_self item rest).filterMap _
        exact distinct.sublist suffix
  · rw [List.pairwise_append]
    refine ⟨?_, restFirst, ?_⟩
    · apply List.pairwise_of_forall_mem_list
      intro earlier _ later member _ _ _
      exact afterNoStore later member
    · intro earlier member later _ _ isStore
      rw [afterNoStore earlier member] at isStore
      cases isStore

theorem due_of_not_store (notStore : item.isStore = false) (name : String) :
    pass.due fresh name item =
      if pass.programOrArgument fresh name item then
        some (.kept item)
      else
        none := by
  rw [due, storedValue_of_not_store notStore]

/-- An instruction that is kept as it stands, or not at all. -/
theorem meets_self
    (notStore : item.isStore = false) (name : String) (insts : List Inst) :
    List.Forall₂ (pass.Meets fresh name insts)
      ([item].filter (pass.programOrArgument fresh name))
      (pass.due fresh name item).toList := by
  rw [due_of_not_store notStore, List.filter_cons, List.filter_nil]
  split
  · exact .cons rfl .nil
  · exact .nil

theorem filter_events
    {insts : List Inst} (young : ∀ inst ∈ insts, fresh ≤ inst.id)
    (events : ∀ inst ∈ insts, EventInst pass inst) (name : String) :
    insts.filter (pass.programOrArgument fresh name) = [] ∧
      insts.filterMap (pass.due fresh name) = [] := by
  have notKept :
      ∀ inst ∈ insts,
        pass.programOrArgument fresh name inst = false := by
    intro inst member
    apply programOrArgument_eq_false (young inst member)
    intro callee called
    have event := (events inst member).2 callee called
    tauto
  refine ⟨?_, ?_⟩
  · apply List.filter_eq_nil_iff.mpr
    intro inst member
    rw [notKept inst member]
    exact Bool.false_ne_true
  · apply List.filterMap_eq_nil_iff.mpr
    intro inst member
    rw [due_of_not_store (events inst member).1, notKept inst member]
    rfl

/-- Just the injected stores take an argument out of the queue. -/
theorem Injected.isArg_eq
    {value pointer : Value} (op : item.op = .store value pointer)
    (injected : Injected fresh state (item :: rest))
    (filtered : decision.functionFilter = true) :
    (pass.storeIsArg decision state item value).1 =
      decide (fresh ≤ item.id) := by
  rw [storeIsArg, if_pos filtered, checkAndConsumeArg_eq, injected.queue,
    pending_cons_store op]
  apply decide_eq_decide.mpr
  by_cases young : fresh ≤ item.id
  · rw [if_pos young]
    simp [young]
  · have nonePending :=
      injected.pending_eq_nil (not_le.mp young) (isStore_of_store op).1
    rw [if_neg young, nonePending]
    simp [young]

/-- A store of the program is kept, and nothing in front of it. -/
theorem meets_program_store
    {value : Value} (original : item.id < fresh) {name : String}
    {before : List Inst}
    (young : ∀ inst ∈ before, fresh ≤ inst.id)
    (inserted :
      before = [] ∨ AccessInserted pass name value 'w' before) :
    List.Forall₂ (pass.Meets fresh name before)
      ((before ++ [item]).filter (pass.programOrArgument fresh name))
      (pass.due fresh name item).toList := by
  have kept : pass.programOrArgument fresh name item = true := by
    simp [programOrArgument, original]
  have beforeErased :
      before.filter (pass.programOrArgument fresh name) = [] := by
    rcases inserted with rfl | access
    · rfl
    · have meets := access.kept young
      rw [if_neg (fun both => absurd both.1 (by decide))] at meets
      exact List.forall₂_nil_right_iff.mp meets
  rw [List.filter_append, beforeErased, List.nil_append,
    List.filter_cons_of_pos kept, List.filter_nil, due, if_pos kept]
  exact .cons rfl .nil

/-- An injected store leaves the log call of its argument. -/
theorem meets_injected_store
    {value pointer : Value} (op : item.op = .store value pointer)
    (itemYoung : fresh ≤ item.id) {name : String} {before : List Inst}
    (young : ∀ inst ∈ before, fresh ≤ inst.id)
    (inserted : AccessInserted pass name value 'a' before) :
    List.Forall₂ (pass.Meets fresh name before)
      ((before ++ [item]).filter (pass.programOrArgument fresh name))
      (pass.due fresh name item).toList := by
  rcases isStore_of_store op with ⟨_, stored⟩
  have notKept : pass.programOrArgument fresh name item = false := by
    apply programOrArgument_eq_false itemYoung
    intro callee called
    simp [Inst.calledFunction, op] at called
  have meets := inserted.kept young
  rw [List.filter_append,
    List.filter_cons_of_neg (by rw [notKept]; exact Bool.false_ne_true),
    List.filter_nil, List.append_nil, due, notKept, stored]
  simp only [Bool.false_eq_true, if_false]
  split
  case isTrue found =>
    rw [if_pos ⟨rfl, found⟩] at meets
    exact meets
  case isFalse notFound =>
    rw [if_neg (fun both => notFound both.2)] at meets
    exact meets

/-- A store of the program is logged as a write, an injected one as an
argument. -/
theorem meets_store
    {value pointer : Value} (op : item.op = .store value pointer)
    (injected : Injected fresh state (item :: rest))
    (filtered : decision.functionFilter = true)
    {before : List Inst}
    (young : ∀ inst ∈ before, fresh ≤ inst.id)
    (inserted :
      (storeLogged decision (pass.storeIsArg decision state item value).1 =
          false ∧ before = []) ∨
        AccessInserted pass decision.function value
          (storeKind (pass.storeIsArg decision state item value).1)
          before) :
    List.Forall₂ (pass.Meets fresh decision.function before)
      ((before ++ [item]).filter
        (pass.programOrArgument fresh decision.function))
      (pass.due fresh decision.function item).toList := by
  rw [injected.isArg_eq op filtered] at inserted
  by_cases itemYoung : fresh ≤ item.id
  · rw [decide_eq_true itemYoung] at inserted
    apply meets_injected_store op itemYoung young
    rcases inserted with ⟨notLogged, _⟩ | access
    · simp [storeLogged, filtered] at notLogged
    · exact access
  · rw [decide_eq_false itemYoung] at inserted
    apply meets_program_store (not_le.mp itemYoung) young
    rcases inserted with ⟨_, nothing⟩ | access
    · exact Or.inl nothing
    · exact Or.inr access

/-- One visit leaves what is due. -/
theorem VisitOutcome.meets
    (outcome : VisitOutcome pass decision state item made)
    (injected : Injected fresh state (item :: rest))
    (filtered : decision.functionFilter = true) :
    List.Forall₂ (pass.Meets fresh decision.function made.before)
        ((made.before ++ [item]).filter
          (pass.programOrArgument fresh decision.function))
        (pass.due fresh decision.function item).toList ∧
      made.after.filterMap (pass.due fresh decision.function) = [] := by
  have young :
      ∀ inst ∈ made.before ++ made.after, fresh ≤ inst.id :=
    fun inst member => injected.older.trans (outcome.ids inst member)
  cases outcome with
  | passed notStore => exact ⟨meets_self notStore _ _, rfl⟩
  | storePassed op notLogged =>
      exact ⟨meets_store op injected filtered nofun
        (Or.inl ⟨notLogged, rfl⟩), rfl⟩
  | storeLogged op logged younger inserted =>
      refine ⟨meets_store op injected filtered ?_ (Or.inr inserted), rfl⟩
      exact fun inst member => young inst (List.mem_append_left _ member)
  | loadLogged op younger inserted =>
      have notStore : item.isStore = false := by
        simp [Inst.isStore, op]
      have kept :=
        inserted.kept fun inst member =>
          young inst (List.mem_append_left _ member)
      rw [if_neg (fun both => absurd both.1 (by decide))] at kept
      rw [List.filter_append, List.forall₂_nil_right_iff.mp kept]
      exact ⟨meets_self notStore _ _, rfl⟩
  | called notStore afterYounger beforeYounger beforeEvents afterEvents =>
      rcases filter_events
          (fun inst member => young inst (List.mem_append_left _ member))
          beforeEvents decision.function with
        ⟨beforeErased, _⟩
      rcases filter_events
          (fun inst member => young inst (List.mem_append_right _ member))
          afterEvents decision.function with
        ⟨_, afterErased⟩
      rw [List.filter_append, beforeErased]
      exact ⟨meets_self notStore _ _, afterErased⟩

/-- The end event is due nothing and is no store. -/
theorem endEvent_erased
    (nextId : Nat) (terminator : Terminator) (older : fresh ≤ nextId) :
    let ends := (pass.endEvent decision nextId terminator).inserted
    ends.filterMap (pass.due fresh decision.function) = [] ∧
      ∀ inst ∈ ends, inst.isStore = false := by
  simp only [endEvent]
  split
  · rcases @instrumentFnEvent_inserted pass decision.function nextId
        terminator.debugLoc .fnEnd with
      ⟨call, inserted, id, event⟩
    have notStore : call.isStore = false := by
      simp [Inst.isStore, show call.op = _ from event]
    have notKept :
        pass.programOrArgument fresh decision.function call = false := by
      apply programOrArgument_eq_false (by rw [id]; exact older)
      intro callee called
      simp only [Inst.calledFunction, show call.op = _ from event,
        Option.some.injEq] at called
      subst called
      unfold eventLogFunc
      split
      · exact Or.inl rfl
      · split
        · exact Or.inl rfl
        · exact Or.inr (Or.inr rfl)
    rw [inserted]
    refine ⟨?_, ?_⟩
    · rw [List.filterMap_cons, due_of_not_store notStore, notKept]
      rfl
    · intro inst member
      rw [List.mem_singleton.mp member]
      exact notStore
  · exact ⟨rfl, List.forall_mem_nil _⟩

/-- The end event changes nothing for the queue. -/
theorem Injected.append_end
    (injected : Injected fresh state rest) (terminator : Terminator) :
    let ends := pass.endEvent decision state.nextId terminator
    Injected fresh { state with nextId := ends.nextId }
      (rest ++ ends.inserted) := by
  intro ends
  rcases @endEvent_erased pass decision fresh state.nextId terminator
      injected.older with
    ⟨_, endNoStore⟩
  have noneAtEnd : pending fresh ends.inserted = [] :=
    Instrument.pending_eq_nil fun inst member _ => endNoStore inst member
  refine ⟨?_, ?_, ?_, ?_⟩
  · exact injected.older.trans (endEvent_younger _ _ _).grows
  · rw [pending_append, noneAtEnd, List.append_nil]
    exact injected.queue
  · rw [pending_append, noneAtEnd, List.append_nil]
    exact injected.distinct
  · rw [List.pairwise_append]
    refine ⟨injected.injectedFirst, ?_, ?_⟩
    · apply List.pairwise_of_forall_mem_list
      intro _ _ later member _ _ _
      exact endNoStore later member
    · intro _ _ later member _ _ _
      exact endNoStore later member

/-- The loop leaves what is due for the instructions of the block. -/
theorem meets_of_instrumentBlock
    {block target : Block}
    (ran :
      pass.instrumentBlock fuel decision state block =
        some (target, final))
    (injected : Injected fresh state block.insts)
    (filtered : decision.functionFilter = true) :
    List.Forall₂ (pass.Meets fresh decision.function target.insts)
      (target.insts.filter
        (pass.programOrArgument fresh decision.function))
      (block.insts.filterMap (pass.due fresh decision.function)) := by
  rcases @endEvent_erased pass decision fresh state.nextId block.terminator
      injected.older with
    ⟨endErased, _⟩
  have ended :=
    instrumentBlock_invariant
      (fun now done rest => Injected fresh now rest ∧
        ∃ met,
          List.Forall₂ (pass.Meets fresh decision.function done)
              (done.filter
                (pass.programOrArgument fresh decision.function)) met ∧
            met ++ rest.filterMap (pass.due fresh decision.function) =
              block.insts.filterMap (pass.due fresh decision.function))
      ?_ ran ?_
  · rcases ended with ⟨_, _, met, meets, all⟩
    rw [← all, List.filterMap_nil, List.append_nil]
    exact meets
  · intro now done item rest made outcome holds
    rcases holds with ⟨injectedNow, met, meets, all⟩
    rcases outcome.meets injectedNow filtered with ⟨one, afterErased⟩
    refine ⟨injectedNow.step outcome filtered,
      met ++ (pass.due fresh decision.function item).toList, ?_, ?_⟩
    · have earlier :=
        meets.imp fun _ _ =>
          Meets.mono (List.subset_append_left done (made.before ++ [item]))
      have here :=
        one.imp fun _ _ =>
          Meets.mono
            (List.Subset.trans (List.subset_append_left made.before [item])
              (List.subset_append_right done (made.before ++ [item])))
      rw [List.append_assoc, List.filter_append]
      exact List.rel_append earlier here
    · rw [List.filterMap_append, afterErased, List.nil_append,
        List.append_assoc, ← all]
      cases due : pass.due fresh decision.function item with
      | none => rw [List.filterMap_cons_none due]; rfl
      | some what => rw [List.filterMap_cons_some due]; rfl
  · refine ⟨injected.append_end block.terminator, [], .nil, ?_⟩
    rw [List.nil_append, List.filterMap_append, endErased, List.append_nil]

/-- Instructions of the program are due as they stand. -/
theorem due_original
    {insts : List Inst} (original : ∀ inst ∈ insts, inst.id < fresh)
    (name : String) :
    insts.filterMap (pass.due fresh name) = insts.map .kept := by
  rw [← List.filterMap_eq_map]
  apply List.filterMap_congr
  intro inst member
  have kept : pass.programOrArgument fresh name inst = true := by
    simp [programOrArgument, original inst member]
  rw [due, if_pos kept]
  rfl

theorem eq_of_meets_kept
    {name : String} {insts left items : List Inst}
    (meets :
      List.Forall₂ (pass.Meets fresh name insts) left (items.map .kept)) :
    left = items := by
  rw [List.forall₂_map_right_iff] at meets
  exact List.forall₂_eq_eq_eq ▸ meets

/-- The begin event, the calls for the arguments and the program. -/
theorem split_of_meets
    {name : String} {insts left items : List Inst} {begins : Inst}
    {args : List Value}
    (meets :
      List.Forall₂ (pass.Meets fresh name insts) left
        ([.kept begins] ++ args.map .argument ++ items.map .kept)) :
    ∃ calls,
      left = begins :: calls ++ items ∧
        List.Forall₂ (pass.LogsArgument fresh name insts) calls args := by
  have front := List.forall₂_take_append _ _ _ meets
  have back := List.forall₂_drop_append _ _ _ meets
  rw [List.singleton_append, List.forall₂_cons_right_iff] at front
  rcases front with ⟨first, calls, rfl, logged, taken⟩
  rw [List.forall₂_map_right_iff] at logged
  refine ⟨calls, ?_, logged⟩
  rw [← eq_of_meets_kept back, ← taken]
  exact (List.take_append_drop _ left).symm

/-- Behind the entry only the program is left. -/
theorem program_of_instrumentBlocks
    {blocks results : List Block}
    (ran :
      pass.instrumentBlocks fuel decision state blocks =
        some (results, final))
    (settled : Settled fresh state)
    (filtered : decision.functionFilter = true)
    (original :
      ∀ block ∈ blocks, ∀ inst ∈ block.insts, inst.id < fresh) :
    List.Forall₂
      (fun block result =>
        result.insts.filter
            (pass.programOrArgument fresh decision.function) = block.insts)
      blocks results := by
  have all :=
    @instrumentBlocks_induction pass fuel decision
      (fun sources targets now => Settled fresh now ∧
        ((∀ block ∈ sources, ∀ inst ∈ block.insts, inst.id < fresh) →
          List.Forall₂
            (fun block result =>
              result.insts.filter
                  (pass.programOrArgument fresh decision.function) =
                block.insts)
            sources targets))
      ?_ [] [] blocks results state final ran ⟨settled, fun _ => .nil⟩
  · exact all.2 original
  · intro sources targets now block target next blockRan holds
    rcases holds with ⟨settledNow, programs⟩
    refine ⟨settled_of_instrumentBlock blockRan settledNow.older
      (queued_of_empty settledNow.empty), ?_⟩
    intro original
    have blockOriginal := original block (by simp)
    have injected : Injected fresh now block.insts := by
      have nonePending := pending_original blockOriginal
      refine ⟨settledNow.older, ?_, ?_, ?_⟩
      · rw [settledNow.empty, nonePending, List.toFinset_nil]
      · rw [nonePending]
        exact List.nodup_nil
      · apply List.pairwise_of_forall_mem_list
        intro _ _ later member _ _ young
        exact absurd (blockOriginal later member) (not_lt.mpr young)
    have meets := meets_of_instrumentBlock blockRan injected filtered
    rw [due_original blockOriginal] at meets
    refine List.rel_append (programs ?_)
      (.cons (eq_of_meets_kept meets) .nil)
    exact fun other member =>
      original other (List.mem_append_left _ member)

end Loop

/-! ## Runs -/

/-- The entry block behind the pass: the begin event, a call for every selected
argument that can be logged, in their order, and then the program. -/
structure EntryLogged
    (pass : AccessInstrumentationPass) (fresh : Nat) (function : Function)
    (entry first : Block) (begins : Inst) (calls : List Inst) : Prop where
  kept :
    first.insts.filter (pass.programOrArgument fresh function.name) =
      begins :: calls ++ entry.insts
  younger : fresh ≤ begins.id
  beginEvent : pass.EventCall function.name .fnBegin begins
  argumentCalls :
    List.Forall₂ (pass.LogsArgument fresh function.name first.insts) calls
      ((pass.selectedFrom function.name 0 function.args).filter fun arg =>
        pass.lfm.hasLogFunction arg.getType function.name)

section Runs

variable {pass : AccessInstrumentationPass} {fuel : Nat} {module : Module}
variable {source target : Function} {state final : PassState}

/-- What is due for the stores of the arguments. -/
theorem due_injected
    {fresh : Nat} {insts : List Inst} (name : String)
    (young : ∀ inst ∈ insts, fresh ≤ inst.id)
    (ops : ∀ inst ∈ insts,
      (∃ value pointer, inst.op = .store value pointer) ∨
        ∃ type, inst.op = .alloca type) :
    insts.filterMap (pass.due fresh name) =
      ((pending fresh insts).filter fun arg =>
        pass.lfm.hasLogFunction arg.getType name).map .argument := by
  induction insts with
  | nil => rfl
  | cons inst insts inductionHypothesis =>
      have later :=
        inductionHypothesis
          (fun other member => young other (List.mem_cons_of_mem _ member))
          (fun other member => ops other (List.mem_cons_of_mem _ member))
      have here := young inst List.mem_cons_self
      have noCall : inst.calledFunction = none := by
        rcases ops inst List.mem_cons_self with ⟨_, _, op⟩ | ⟨_, op⟩
        · simp [Inst.calledFunction, op]
        · simp [Inst.calledFunction, op]
      have notKept : pass.programOrArgument fresh name inst = false := by
        apply programOrArgument_eq_false here
        intro callee called
        rw [noCall] at called
        cases called
      rcases ops inst List.mem_cons_self with ⟨value, pointer, op⟩ | ⟨_, op⟩
      · rcases isStore_of_store op with ⟨_, stored⟩
        rw [pending_cons_store op, if_pos here, List.filterMap_cons, later,
          due, notKept, stored, List.filter_cons]
        cases found : pass.lfm.hasLogFunction value.getType name with
        | true => simp [found]
        | false => simp [found]
      · have notStore : inst.isStore = false := by
          simp [Inst.isStore, op]
        rw [pending_cons_other notStore, List.filterMap_cons, later,
          due_of_not_store notStore, notKept]
        rfl

/-- The entry block when the loop over it starts. -/
theorem injected_of_prepared
    {fresh : Nat} {entry : Block} {injected begins : List Inst}
    {prepared : Block × PassState}
    (ready :
      EntryPrepared pass source fresh entry injected begins prepared)
    (insts : prepared.1.insts = begins ++ injected ++ entry.insts)
    (beginYoung : ∀ inst ∈ begins, fresh ≤ inst.id)
    (beginNoStore : ∀ inst ∈ begins, inst.isStore = false)
    (original : ∀ inst ∈ entry.insts, inst.id < fresh) :
    Injected fresh prepared.2 prepared.1.insts := by
  have pends : pending fresh prepared.1.insts = pass.injectedArgs source := by
    rw [insts, pending_append, pending_append, ready.injectedValues,
      pending_original original,
      pending_eq_nil fun inst member _ => beginNoStore inst member,
      List.nil_append, List.append_nil]
  refine ⟨ready.older, ?_, ?_, ?_⟩
  · rw [pends, ready.queue]
  · rw [pends, injectedArgs]
    split
    · exact (args_nodup source).sublist (selectedFrom_sublist _ _ _)
    · exact List.nodup_nil
  · rw [insts, List.pairwise_append]
    refine ⟨?_, ?_, ?_⟩
    · apply List.pairwise_of_forall_mem_list
      intro earlier member _ _ isOld
      rcases List.mem_append.mp member with inBegins | inInjected
      · exact absurd isOld (not_lt.mpr (beginYoung earlier inBegins))
      · exact absurd isOld
          (not_lt.mpr (ready.injectedIds earlier inInjected))
    · apply List.pairwise_of_forall_mem_list
      intro _ _ later member _ _ young
      exact absurd (original later member) (not_lt.mpr young)
    · intro _ _ later member _ _ young
      exact absurd (original later member) (not_lt.mpr young)

/-- Each selected argument that can be logged is logged once, on entry, behind
the begin event and in front of the program, and no other store is logged as an
argument. -/
theorem arguments_logged_on_entry
    (instruments : Instruments pass fuel module source state target final)
    (filtered : (pass.decision source).functionFilter = true)
    (verified : source.EntryVerified) {entry : Block} {rest : List Block}
    (body : source.blocks = entry :: rest) :
    ∃ first others begins calls,
      target.blocks = first :: others ∧
        EntryLogged pass module.nextId source entry first begins calls ∧
        List.Forall₂
          (fun block result =>
            result.insts.filter
                (pass.programOrArgument module.nextId source.name) =
              block.insts)
          rest others ∧
        final.argLogSet = ∅ := by
  rcases instruments.of_body body with
    ⟨injected, begins, prepared, first, middle, others, rfl, ready, entryRan,
      middleSettled, othersRan⟩
  have logsEvents : (pass.decision source).logsEvents = true := by
    simp [Decision.logsEvents, filtered]
  rcases ready.beginEvent logsEvents with ⟨call, rfl, younger, event⟩
  have callOp := show call.op = _ from event
  have original := instruments.original
  rw [body] at original
  have entryOriginal := original entry List.mem_cons_self
  have insts := ready.insts (verified.noPhi entry (by rw [body]; rfl))
  have beginNoStore : ∀ inst ∈ [call], inst.isStore = false := by
    intro inst member
    rw [List.mem_singleton.mp member]
    simp [Inst.isStore, callOp]
  have ahead :=
    injected_of_prepared ready insts (by simpa using younger) beginNoStore
      entryOriginal
  have callKept :
      pass.programOrArgument module.nextId source.name call = true := by
    simp [programOrArgument, Inst.calledFunction, callOp]
  have callDue :
      [call].filterMap
          (pass.due module.nextId (pass.decision source).function) =
        [.kept call] := by
    rw [List.filterMap_cons, due, show (pass.decision source).function =
      source.name from rfl, callKept]
    rfl
  -- the begin event, the arguments and the program are due
  have meets := meets_of_instrumentBlock entryRan ahead filtered
  rw [insts, List.filterMap_append, List.filterMap_append,
    due_original entryOriginal,
    due_injected _ ready.injectedIds ready.injectedOps,
    ready.injectedValues, injectedArgs, if_pos filtered, callDue] at meets
  rcases split_of_meets meets with ⟨calls, kept, argumentCalls⟩
  have program :=
    program_of_instrumentBlocks othersRan middleSettled filtered
      fun block member => original block (List.mem_cons_of_mem _ member)
  exact ⟨first, others, call, calls, rfl,
    ⟨kept, younger, event, argumentCalls⟩, program,
    (settled_of_instrumentBlocks othersRan middleSettled).empty⟩

end Runs

/-! ## A filter document -/

/-- The decisions of a filter document, given the measured sizes. -/
def InstrumentationFilter.ofDocument
    (document : Filter.InstrumentationFilter) (size : Function → Nat) :
    InstrumentationFilter where
  checkFileFilter := document.checkFileFilter
  checkFunctionSize := fun function =>
    (document.checkFunctionSize function.name (size function)).1
  checkFunctionFilter := document.checkFunctionFilter
  checkFunctionArgFilter := document.checkFunctionArgFilter

/-- Events of one function and its first argument. -/
def argumentDocument : Filter.InstrumentationFilter :=
  Filter.InstrumentationFilter.loadFilterData {} <| some
    ("\x7b\"whitelist\": \x7b\"function_filters\": \x7b\"abc\": " ++
      "\x7b\"events\": [\"function\"], \"arguments\": [0]" ++
      "\x7d\x7d\x7d\x7d").toList

def argumentPass : AccessInstrumentationPass :=
  { instrumentsAll with
    insfilt := .ofDocument argumentDocument fun _ => 0 }

example :
    argumentPass.selectedFrom "abc" 0 allocatingFunction.args =
      [.argument "abc" 0 "i" (.integer 32)] := by
  decide +kernel

theorem allocatingFunction_entry_logged :
    ∃ target final,
      Instruments argumentPass 17 allocatingModule allocatingFunction
          ⟨4, ∅⟩ target final ∧
        ∃ first others begins calls,
          target.blocks = first :: others ∧
            EntryLogged argumentPass 4 allocatingFunction
              (allocatingFunction.blocks.head (by decide)) first begins
              calls ∧
            List.Forall₂
              (fun (block result : Block) =>
                result.insts.filter
                    (argumentPass.programOrArgument 4 "abc") =
                  block.insts)
              [] others ∧
            final.argLogSet = ∅ := by
  obtain ⟨target, final, instruments⟩ :=
    @instruments_of_first argumentPass 17 allocatingModule
      allocatingFunction [] (by decide +kernel) (by decide +kernel) rfl
      (by decide +kernel)
  exact ⟨target, final, instruments,
    arguments_logged_on_entry instruments (by decide +kernel)
      allocatingFunction_verified rfl⟩

end Dinamite.Instrument
