import Dinamite.Instrument.Runs

/-!
# Function events along a path

The begin event stands once, in front of the entry block, and an end event in
front of every return.  Paths that leave a function by unwinding have none.
-/

namespace Dinamite.Instrument

open Dinamite.CursorLoop
open AccessInstrumentationPass

/-! ## What runs along a path -/

inductive Step where
  | instruction (inst : Inst)
  | terminator (terminator : Terminator)
  deriving DecidableEq, Repr

def Block.steps (block : Block) : List Step :=
  block.insts.map .instruction ++ [.terminator block.terminator]

namespace Function

def steps (function : Function) (block : Nat) : List Step :=
  ((function.blocks[block]?).map Block.steps).getD []

def executed (function : Function) (path : List Nat) : List Step :=
  path.flatMap function.steps

/-- The path ends in a terminator of this kind. -/
def EndsIn
    (function : Function) (path : List Nat) (op : TerminatorOp) : Prop :=
  ∃ last block, path.getLast? = some last ∧
    function.blocks[last]? = some block ∧ block.terminator.op = op

/-- A path from the entry to where control goes back to a caller, by a return
or by unwinding on. -/
structure ExitPath (function : Function) (path : List Nat) : Prop where
  isPath : function.PathFrom 0 path
  leaves : function.EndsIn path .ret ∨ function.EndsIn path .resume

end Function

/-- The step belongs to the program. -/
def Step.Original (fresh : Nat) : Step → Prop
  | .instruction inst => inst.id < fresh
  | .terminator _ => True

namespace AccessInstrumentationPass

variable (pass : AccessInstrumentationPass)

/-- A call of an event function with an id. -/
def LogsEvent (callee : Callee) (id : Int) (inst : Inst) : Prop :=
  inst.op = .call (some callee)
    [getConstantFromInt id (callee.getParamType 0)] callee.returnType

/-- An instruction of the program or an inserted begin or end event. -/
def programOrEvent (fresh : Nat) (inst : Inst) : Bool :=
  decide (inst.id < fresh) ||
    (decide (inst.calledFunction = some pass.lfm.fnBeginLogFunc) ||
      decide (inst.calledFunction = some pass.lfm.fnEndLogFunc))

def keepsStep (fresh : Nat) : Step → Bool
  | .instruction inst => pass.programOrEvent fresh inst
  | .terminator _ => true

/-- One begin event, then the program, then one end event with the same id in
front of the last terminator. -/
def Balanced (fresh : Nat) (steps : List Step) : Prop :=
  ∃ id begins body ends last,
    steps.filter (pass.keepsStep fresh) =
        .instruction begins :: body ++
          [.instruction ends, .terminator last] ∧
      (∀ step ∈ body, step.Original fresh) ∧
      fresh ≤ begins.id ∧ LogsEvent pass.lfm.fnBeginLogFunc id begins ∧
      fresh ≤ ends.id ∧ LogsEvent pass.lfm.fnEndLogFunc id ends

end AccessInstrumentationPass

theorem calledFunction_of_logsEvent
    {callee : Callee} {id : Int} {inst : Inst}
    (logs : LogsEvent callee id inst) :
    inst.calledFunction = some callee := by
  simp only [Inst.calledFunction, show inst.op = _ from logs]

section Blocks

variable {pass : AccessInstrumentationPass} {decision : Decision}
variable {fuel fresh : Nat} {state final : PassState}

/-- Nothing a visit inserts is a begin or an end event. -/
theorem programOrEvent_inserted
    {item : Inst} {made : Visit PassState Inst}
    (older : fresh ≤ state.nextId)
    (outcome : VisitOutcome pass decision state item made) :
    ∀ inst ∈ made.before ++ made.after,
      pass.programOrEvent fresh inst = false := by
  intro inst member
  have young : ¬ inst.id < fresh := by
    have := outcome.ids inst member
    omega
  have notEvent :
      ∀ callee, inst.calledFunction = some callee →
        family callee.name ∉ ["logFnBe".toList, "logFnEn".toList] := by
    intro callee calls
    have families := family_of_inserted (outcome.calls member calls)
    simp only [List.mem_cons, List.not_mem_nil, or_false] at families
    rcases families with same | same | same <;>
      · rw [same]
        decide
  simp only [programOrEvent, young, decide_false, Bool.false_or,
    Bool.or_eq_false_iff, decide_eq_false_iff_not]
  refine ⟨?_, ?_⟩
  · intro calls
    apply notEvent _ calls
    rw [lfm, family_fnBegin]
    exact List.mem_cons_self
  · intro calls
    apply notEvent _ calls
    rw [lfm, family_fnEnd]
    exact List.mem_cons_of_mem _ List.mem_cons_self

/-- The loop over a block adds no event. -/
theorem filter_of_instrumentBlock
    {block target : Block}
    (ran :
      pass.instrumentBlock fuel decision state block =
        some (target, final))
    (older : fresh ≤ state.nextId) :
    target.terminator = block.terminator ∧
      target.insts.filter (pass.programOrEvent fresh) =
        (block.insts ++
          (pass.endEvent decision state.nextId
            block.terminator).inserted).filter
              (pass.programOrEvent fresh) := by
  have ended :=
    instrumentBlock_invariant
      (fun now done rest => fresh ≤ now.nextId ∧
        (done ++ rest).filter (pass.programOrEvent fresh) =
          (block.insts ++
            (pass.endEvent decision state.nextId
              block.terminator).inserted).filter
                (pass.programOrEvent fresh))
      ?_ ran ?_
  · refine ⟨ended.1, ?_⟩
    simpa using ended.2.2
  · intro now done item rest made outcome reached
    rcases reached with ⟨olderNow, same⟩
    have erased :
        ∀ insts ⊆ made.before ++ made.after,
          insts.filter (pass.programOrEvent fresh) = [] := by
      intro insts included
      apply List.filter_eq_nil_iff.mpr
      intro inst member
      rw [programOrEvent_inserted olderNow outcome inst (included member)]
      exact Bool.false_ne_true
    have beforeErased := erased made.before (List.subset_append_left _ _)
    have afterErased := erased made.after (List.subset_append_right _ _)
    refine ⟨olderNow.trans outcome.grows, ?_⟩
    rw [← same]
    simp only [List.append_assoc, List.filter_append, beforeErased,
      afterErased, List.nil_append, List.filter_cons, List.filter_nil]
    split <;> rfl
  · exact ⟨older.trans (endEvent_younger _ _ _).grows, rfl⟩

/-- What the loop leaves of a block: the events in front of it, its own
instructions, and an end event if it returns. -/
structure Framed
    (pass : AccessInstrumentationPass) (fresh : Nat) (id : Int)
    (begins : List Inst) (source target : Block) (ends : List Inst) :
    Prop where
  terminator : target.terminator = source.terminator
  kept :
    target.insts.filter (pass.programOrEvent fresh) =
      begins ++ source.insts.filter (pass.programOrEvent fresh) ++ ends
  returns :
    source.terminator.op = .ret →
      ∃ call, ends = [call] ∧ fresh ≤ call.id ∧
        LogsEvent pass.lfm.fnEndLogFunc id call
  goesOn : source.terminator.op ≠ .ret → ends = []

/-- The function gets begin and end events, and does not set the log up. -/
structure LogsFunction (function : String) : Prop where
  notMain : function ≠ "main"
  notGlobal : String.ofList (function.toList.take 8) ≠ "_GLOBAL_"

theorem LogsFunction.fnBegin
    {function : String} {call : Inst}
    (logs : LogsFunction function)
    (event : pass.EventCall function .fnBegin call) :
    LogsEvent pass.lfm.fnBeginLogFunc
      (pass.fnmap (pass.naming.demangle function)) call := by
  simpa only [EventCall, LogsEvent, eventLogFunc, logs.notMain,
    logs.notGlobal, if_false] using event

theorem LogsFunction.fnEnd
    {function : String} {call : Inst}
    (logs : LogsFunction function)
    (event : pass.EventCall function .fnEnd call) :
    LogsEvent pass.lfm.fnEndLogFunc
      (pass.fnmap (pass.naming.demangle function)) call := by
  simpa only [EventCall, LogsEvent, eventLogFunc, logs.notMain,
    logs.notGlobal, if_false] using event

theorem programOrEvent_of_logsEvent
    {callee : Callee} {id : Int} {call : Inst}
    (event : callee = pass.lfm.fnBeginLogFunc ∨
      callee = pass.lfm.fnEndLogFunc)
    (logs : LogsEvent callee id call) :
    pass.programOrEvent fresh call = true := by
  have called := calledFunction_of_logsEvent logs
  rcases event with rfl | rfl
  · simp [programOrEvent, called]
  · simp [programOrEvent, called]

theorem framed_of_instrumentBlock
    {source block target : Block} {begins : List Inst}
    (ran :
      pass.instrumentBlock fuel decision state block =
        some (target, final))
    (older : fresh ≤ state.nextId)
    (filtered : decision.functionFilter = true)
    (logs : LogsFunction decision.function)
    (terminator : block.terminator = source.terminator)
    (kept :
      block.insts.filter (pass.programOrEvent fresh) =
        begins ++ source.insts.filter (pass.programOrEvent fresh)) :
    ∃ ends,
      Framed pass fresh (pass.fnmap (pass.naming.demangle decision.function))
        begins source target ends := by
  rcases filter_of_instrumentBlock ran older with ⟨sameTerminator, same⟩
  have logsEvents : decision.logsEvents = true := by
    simp [Decision.logsEvents, filtered]
  rw [List.filter_append, kept] at same
  by_cases returns : source.terminator.op = .ret
  · rcases @instrumentFnEvent_inserted pass decision.function state.nextId
        block.terminator.debugLoc .fnEnd with
      ⟨call, inserted, id, event⟩
    have logged := logs.fnEnd event
    have ends :
        (pass.endEvent decision state.nextId block.terminator).inserted =
          [call] := by
      rw [endEvent, if_pos ⟨by rw [terminator]; exact returns, logsEvents⟩,
        inserted]
    have isKept : [call].filter (pass.programOrEvent fresh) = [call] := by
      rw [List.filter_cons_of_pos, List.filter_nil]
      exact programOrEvent_of_logsEvent (Or.inr rfl) logged
    refine ⟨[call], sameTerminator.trans terminator, ?_, ?_, ?_⟩
    · rw [same, ends, isKept]
    · intro _
      refine ⟨call, rfl, ?_, logged⟩
      rw [id]
      exact older
    · exact fun goesOn => absurd returns goesOn
  · have ends :
        (pass.endEvent decision state.nextId block.terminator).inserted =
          [] := by
      rw [endEvent, if_neg]
      rw [terminator]
      exact fun both => returns both.1
    refine ⟨[], sameTerminator.trans terminator, ?_, ?_, fun _ => rfl⟩
    · rw [same, ends, List.filter_nil]
    · exact fun isReturn => absurd isReturn returns

theorem framed_of_instrumentBlocks
    {blocks results : List Block}
    (ran :
      pass.instrumentBlocks fuel decision state blocks =
        some (results, final))
    (settled : Settled fresh state)
    (filtered : decision.functionFilter = true)
    (logs : LogsFunction decision.function) :
    List.Forall₂
      (fun source target =>
        ∃ ends,
          Framed pass fresh
            (pass.fnmap (pass.naming.demangle decision.function)) [] source
            target ends)
      blocks results := by
  have all :=
    @instrumentBlocks_induction pass fuel decision
      (fun sources targets state => Settled fresh state ∧
        List.Forall₂
          (fun source target =>
            ∃ ends,
              Framed pass fresh
                (pass.fnmap (pass.naming.demangle decision.function)) []
                source target ends)
          sources targets)
      ?_ [] [] blocks results state final ran ⟨settled, .nil⟩
  · exact all.2
  · intro sources targets now block target next blockRan reached
    rcases reached with ⟨settledNow, framed⟩
    have one :=
      framed_of_instrumentBlock blockRan settledNow.older filtered logs rfl
        (List.nil_append _).symm
    exact ⟨settled_of_instrumentBlock blockRan settledNow.older
      (queued_of_empty settledNow.empty),
      List.rel_append framed (.cons one .nil)⟩

end Blocks

/-! ## Functions -/

/-- The begin event in front of the entry, and the events of each block. -/
structure FunctionFramed
    (pass : AccessInstrumentationPass) (fresh : Nat) (id : Int)
    (begins : Inst) (source target : Function) : Prop where
  younger : fresh ≤ begins.id
  logs : LogsEvent pass.lfm.fnBeginLogFunc id begins
  original :
    ∀ block ∈ source.blocks, ∀ inst ∈ block.insts, inst.id < fresh
  length : target.blocks.length = source.blocks.length
  blocks :
    ∀ (index : Nat) (block result : Block),
      source.blocks[index]? = some block →
        target.blocks[index]? = some result →
          ∃ ends,
            Framed pass fresh id (if index = 0 then [begins] else []) block
              result ends

section Functions

variable {pass : AccessInstrumentationPass} {fuel : Nat} {module : Module}
variable {source target : Function} {state final : PassState}

/-- The stores of the arguments are no events. -/
theorem filter_injected
    {fresh : Nat} {entry : Block} {injected begins : List Inst}
    {prepared : Block × PassState}
    (ready :
      EntryPrepared pass source fresh entry injected begins prepared) :
    injected.filter (pass.programOrEvent fresh) = [] := by
  apply List.filter_eq_nil_iff.mpr
  intro inst member
  have young : ¬ inst.id < fresh := by
    have := ready.injectedIds inst member
    omega
  have noCall : inst.calledFunction = none := by
    rcases ready.injectedOps inst member with
      ⟨value, pointer, op⟩ | ⟨type, op⟩
    · simp [Inst.calledFunction, op]
    · simp [Inst.calledFunction, op]
  simp [programOrEvent, young, noCall]

theorem functionFramed
    (instruments : Instruments pass fuel module source state target final)
    (filtered : (pass.decision source).functionFilter = true)
    (logs : LogsFunction source.name)
    (verified : source.EntryVerified) (body : source.blocks ≠ []) :
    ∃ begins,
      FunctionFramed pass module.nextId
        (pass.fnmap (pass.naming.demangle source.name)) begins source
        target := by
  rcases List.exists_cons_of_ne_nil body with ⟨entry, rest, blocks⟩
  rcases instruments.of_body blocks with
    ⟨injected, begins, prepared, first, middle, others, rfl, ready, entryRan,
      middleSettled, othersRan⟩
  have logsEvents : (pass.decision source).logsEvents = true := by
    simp [Decision.logsEvents, filtered]
  rcases ready.beginEvent logsEvents with ⟨call, rfl, younger, event⟩
  have logged := logs.fnBegin event
  have noPhi :
      ∀ inst ∈ entry.insts,
        inst.isPhi = false ∧ inst.isLandingPad = false :=
    verified.noPhi entry (by rw [blocks]; rfl)
  have entryKept :
      prepared.1.insts.filter (pass.programOrEvent module.nextId) =
        [call] ++ entry.insts.filter
          (pass.programOrEvent module.nextId) := by
    rw [ready.insts noPhi, List.filter_append, List.filter_append,
      filter_injected ready, List.append_nil, List.filter_cons_of_pos,
      List.filter_nil]
    exact programOrEvent_of_logsEvent (Or.inl rfl) logged
  have entryFramed :=
    framed_of_instrumentBlock entryRan ready.older filtered logs
      (by rw [ready.block]; rfl) entryKept
  have othersFramed :=
    framed_of_instrumentBlocks othersRan middleSettled filtered logs
  refine ⟨call, younger, logged, instruments.original, ?_, ?_⟩
  · rw [blocks, List.length_cons, List.length_cons, othersFramed.length_eq]
  · intro index block result isBlock isResult
    rw [blocks] at isBlock
    cases index with
    | zero =>
        obtain rfl := Option.some.inj isBlock
        obtain rfl := Option.some.inj isResult
        exact entryFramed
    | succ index =>
        rw [List.getElem?_cons_succ] at isBlock isResult
        rcases List.getElem?_eq_some_iff.mp isBlock with ⟨bound, rfl⟩
        rcases List.getElem?_eq_some_iff.mp isResult with ⟨resultBound, rfl⟩
        exact othersFramed.get bound resultBound

end Functions

/-! ## Paths -/

section Paths

variable {pass : AccessInstrumentationPass} {fresh : Nat} {id : Int}
variable {begins : Inst} {source target : Function}

theorem filter_map_instruction (insts : List Inst) :
    (insts.map Step.instruction).filter (pass.keepsStep fresh) =
      (insts.filter (pass.programOrEvent fresh)).map .instruction := by
  rw [List.filter_map]
  rfl

/-- What is kept of a block of the result. -/
theorem FunctionFramed.steps
    (framed : FunctionFramed pass fresh id begins source target)
    {index : Nat} (present : index < target.blocks.length) :
    ∃ block result ends,
      source.blocks[index]? = some block ∧
        target.blocks[index]? = some result ∧
        Framed pass fresh id (if index = 0 then [begins] else []) block
          result ends ∧
        (target.steps index).filter (pass.keepsStep fresh) =
          (if index = 0 then [begins] else []).map .instruction ++
            block.insts.map .instruction ++ ends.map .instruction ++
              [.terminator result.terminator] ∧
        ∀ inst ∈ block.insts, inst.id < fresh := by
  have isResult := List.getElem?_eq_getElem present
  have sourcePresent : index < source.blocks.length := by
    rw [← framed.length]
    exact present
  have isBlock := List.getElem?_eq_getElem sourcePresent
  rcases framed.blocks index _ _ isBlock isResult with ⟨ends, one⟩
  have original :=
    framed.original _ (List.getElem_mem sourcePresent)
  refine ⟨_, _, ends, isBlock, isResult, one, ?_, original⟩
  have allKept :
      source.blocks[index].insts.filter (pass.programOrEvent fresh) =
        source.blocks[index].insts := by
    apply List.filter_eq_self.mpr
    intro inst member
    simp [programOrEvent, original inst member]
  have kept := one.kept
  rw [allKept] at kept
  simp only [Function.steps, isResult, Option.map_some, Option.getD_some,
    Block.steps, List.filter_append, filter_map_instruction, kept,
    List.map_append]
  rfl

theorem FunctionFramed.absent
    (framed : FunctionFramed pass fresh id begins source target)
    {index : Nat} (absent : ¬ index < target.blocks.length) :
    source.blocks[index]? = none ∧ target.blocks[index]? = none := by
  rw [List.getElem?_eq_none_iff, List.getElem?_eq_none_iff, ← framed.length]
  exact ⟨not_lt.mp absent, not_lt.mp absent⟩

/-- The pass keeps the control flow graph. -/
theorem FunctionFramed.edge
    (framed : FunctionFramed pass fresh id begins source target) :
    target.Edge = source.Edge := by
  funext block next
  by_cases present : block < target.blocks.length
  · rcases framed.steps present with
      ⟨found, result, ends, isBlock, isResult, one, _, _⟩
    simp only [Function.Edge, Function.successors, isBlock, isResult,
      one.terminator]
  · rcases framed.absent present with ⟨noBlock, noResult⟩
    simp only [Function.Edge, Function.successors, noBlock, noResult]

theorem FunctionFramed.endsIn_iff
    (framed : FunctionFramed pass fresh id begins source target)
    {path : List Nat} {op : TerminatorOp} :
    target.EndsIn path op ↔ source.EndsIn path op := by
  unfold Function.EndsIn
  refine exists_congr fun last => ?_
  by_cases present : last < target.blocks.length
  · rcases framed.steps present with
      ⟨found, result, ends, isBlock, isResult, one, _, _⟩
    simp [isBlock, isResult, one.terminator]
  · rcases framed.absent present with ⟨noBlock, noResult⟩
    simp [noBlock, noResult]

theorem FunctionFramed.exitPath_iff
    (framed : FunctionFramed pass fresh id begins source target)
    {path : List Nat} : target.ExitPath path ↔ source.ExitPath path := by
  constructor
  · intro exits
    rcases exits with ⟨⟨starts, edges, present⟩, leaves⟩
    rw [framed.edge] at edges
    rw [framed.length] at present
    rw [framed.endsIn_iff, framed.endsIn_iff] at leaves
    exact ⟨⟨starts, edges, present⟩, leaves⟩
  · intro exits
    rcases exits with ⟨⟨starts, edges, present⟩, leaves⟩
    rw [← framed.edge] at edges
    rw [← framed.length] at present
    rw [← framed.endsIn_iff, ← framed.endsIn_iff] at leaves
    exact ⟨⟨starts, edges, present⟩, leaves⟩

theorem endsIn_cons
    {function : Function} {block next : Nat} {later : List Nat}
    {op : TerminatorOp} (starts : later.head? = some next) :
    function.EndsIn (block :: later) op ↔ function.EndsIn later op := by
  cases later with
  | nil => cases starts
  | cons first rest => simp [Function.EndsIn]

theorem endsIn_singleton
    {function : Function} {index : Nat} {block : Block}
    {op : TerminatorOp} (isBlock : function.blocks[index]? = some block) :
    function.EndsIn [index] op ↔ block.terminator.op = op := by
  simp [Function.EndsIn, isBlock]

/-- A path executes the begin event if it starts at the entry, then the
program, and then the end event if it ends in a return. -/
theorem FunctionFramed.executed
    (framed : FunctionFramed pass fresh id begins source target)
    (noPredecessor : ∀ block, ¬ source.Edge block 0)
    {start : Nat} {path : List Nat} (isPath : target.PathFrom start path) :
    ∃ body ends last,
      (target.executed path).filter (pass.keepsStep fresh) =
          (if start = 0 then [begins] else []).map .instruction ++ body ++
            List.map .instruction ends ++ [.terminator last] ∧
        (∀ step ∈ body, step.Original fresh) ∧
        (target.EndsIn path .ret →
          ∃ call, ends = [call] ∧ fresh ≤ call.id ∧
            LogsEvent pass.lfm.fnEndLogFunc id call) ∧
        (¬ target.EndsIn path .ret → ends = []) := by
  induction path generalizing start with
  | nil => cases isPath.starts
  | cons index later inductionHypothesis =>
      obtain rfl : index = start := Option.some.inj isPath.starts
      rcases framed.steps (isPath.present index List.mem_cons_self) with
        ⟨block, result, ends, _, isResult, one, steps, original⟩
      have programSteps :
          ∀ step ∈ block.insts.map Step.instruction,
            step.Original fresh := by
        intro step member
        rcases List.mem_map.mp member with ⟨inst, inBlock, rfl⟩
        exact original inst inBlock
      rw [Function.executed, List.flatMap_cons, List.filter_append, steps]
      rcases isPath.cases with single | ⟨next, _, split, edge, continued⟩
      · obtain rfl := (List.cons.inj single).2
        refine ⟨_, ends, result.terminator, ?_, programSteps, ?_, ?_⟩
        · rw [List.flatMap_nil, List.filter_nil, List.append_nil]
        · intro returns
          apply one.returns
          rw [← one.terminator]
          exact (endsIn_singleton isResult).mp returns
        · intro goesOn
          apply one.goesOn
          rw [← one.terminator]
          exact fun returns => goesOn ((endsIn_singleton isResult).mpr returns)
      · obtain rfl := (List.cons.inj split).2
        -- only a branch goes on, so this block has no end event
        have goesOn : block.terminator.op ≠ .ret := by
          rw [← one.terminator]
          intro returns
          simp only [Function.Edge, Function.successors, isResult, returns,
            TerminatorOp.successors] at edge
          cases edge
        -- nothing goes back to the entry, so there is no second begin event
        have notEntry : next ≠ 0 := by
          intro same
          subst same
          rw [framed.edge] at edge
          exact noPredecessor index edge
        rcases inductionHypothesis continued with
          ⟨body, laterEnds, last, kept, bodyOriginal, returns, others⟩
        refine ⟨block.insts.map .instruction ++
          .terminator result.terminator :: body, laterEnds, last, ?_, ?_, ?_,
          ?_⟩
        · rw [Function.executed, if_neg notEntry] at kept
          rw [kept, one.goesOn goesOn]
          simp
        · intro step member
          rcases List.mem_append.mp member with here | further
          · exact programSteps step here
          · rcases List.mem_cons.mp further with rfl | inLater
            · trivial
            · exact bodyOriginal step inLater
        · rw [endsIn_cons continued.starts]
          exact returns
        · rw [endsIn_cons continued.starts]
          exact others

theorem FunctionFramed.balanced_of_return
    (framed : FunctionFramed pass fresh id begins source target)
    (noPredecessor : ∀ block, ¬ source.Edge block 0)
    {path : List Nat} (isPath : target.PathFrom 0 path)
    (returns : target.EndsIn path .ret) :
    pass.Balanced fresh (target.executed path) := by
  rcases framed.executed noPredecessor isPath with
    ⟨body, ends, last, kept, original, ended, _⟩
  rcases ended returns with ⟨call, rfl, younger, logs⟩
  refine ⟨id, begins, body, call, last, ?_, original, framed.younger,
    framed.logs, younger, logs⟩
  rw [kept]
  simp

/-- Without a return, the step in front of the last terminator belongs to the
program. -/
theorem FunctionFramed.not_balanced_of_goesOn
    (framed : FunctionFramed pass fresh id begins source target)
    (noPredecessor : ∀ block, ¬ source.Edge block 0)
    {path : List Nat} (isPath : target.PathFrom 0 path)
    (goesOn : ¬ target.EndsIn path .ret) :
    ¬ pass.Balanced fresh (target.executed path) := by
  rcases framed.executed noPredecessor isPath with
    ⟨body, ends, last, kept, original, _, others⟩
  obtain rfl := others goesOn
  intro balanced
  rcases balanced with
    ⟨_, first, inner, end_, final, same, _, _, _, younger, _⟩
  have split :
      Step.instruction begins :: body ++ [.terminator last] =
        .instruction first :: inner ++ [.instruction end_] ++
          [.terminator final] := by
    calc
      _ = (target.executed path).filter (pass.keepsStep fresh) := by
        rw [kept]
        simp
      _ = _ := by
        rw [same]
        simp
  have front := (List.append_inj' split rfl).1
  have bodyEq : body = inner ++ [.instruction end_] :=
    (List.cons.inj front).2
  have isOriginal : (Step.instruction end_).Original fresh :=
    original _ (by rw [bodyEq]; simp)
  exact absurd isOriginal (not_lt.mpr younger)

end Paths

/-! ## Runs -/

section Runs

variable {pass : AccessInstrumentationPass} {fuel : Nat} {module : Module}
variable {source target : Function} {state final : PassState}

theorem Instruments.body_of_exitPath
    (instruments : Instruments pass fuel module source state target final)
    {path : List Nat} (exits : target.ExitPath path) :
    source.blocks ≠ [] := by
  intro noBody
  obtain rfl := instruments.eq_of_no_body noBody
  have bound :=
    exits.isPath.present 0 (List.mem_of_head? exits.isPath.starts)
  rw [noBody] at bound
  cases bound

/-- The events of a path from the entry to where control leaves the function
balance just if it leaves by a return. -/
theorem events_balance_iff
    (instruments : Instruments pass fuel module source state target final)
    (filtered : (pass.decision source).functionFilter = true)
    (logs : LogsFunction source.name) (verified : source.EntryVerified)
    {path : List Nat} (exits : target.ExitPath path) :
    pass.Balanced module.nextId (target.executed path) ↔
      target.EndsIn path .ret := by
  rcases functionFramed instruments filtered logs verified
      (instruments.body_of_exitPath exits) with
    ⟨begins, framed⟩
  constructor
  · intro balanced
    by_contra goesOn
    exact framed.not_balanced_of_goesOn verified.noPredecessor exits.isPath
      goesOn balanced
  · exact framed.balanced_of_return verified.noPredecessor exits.isPath

/-- A run of the pass that begins with the function. -/
theorem instruments_of_first
    {functions : List Function}
    (loaded : pass.insfilt.checkFileFilter module.identifier = true)
    (selected : pass.selects source = true)
    (first : module.functions = source :: functions)
    (runs :
      (pass.instrumentFunction fuel source ⟨module.nextId, ∅⟩).isSome) :
    ∃ target final,
      Instruments pass fuel module source ⟨module.nextId, ∅⟩ target
        final := by
  rcases Option.isSome_iff_exists.mp runs with ⟨⟨target, final⟩, ran⟩
  have isFirst :
      ∃ later, pass.loadedFunctions module = [] ++ source :: later := by
    rw [loadedFunctions, first]
    exact ⟨_, rfl⟩
  rcases isFirst with ⟨later, split⟩
  exact ⟨target, final, loaded, selected, ⟨[], later, [], split, rfl⟩, ran⟩

end Runs

theorem allocatingFunction_verified : allocatingFunction.EntryVerified := by
  refine ⟨?_, by decide⟩
  intro block edge
  have present : block < 1 := edge.source_present
  obtain rfl : block = 0 := by omega
  exact absurd edge (by decide)

theorem allocatingFunction_balanced :
    ∃ target final,
      Instruments instrumentsAll 17 allocatingModule allocatingFunction
          ⟨4, ∅⟩ target final ∧
        target.ExitPath [0] ∧
        (instrumentsAll.Balanced 4 (target.executed [0]) ↔
          target.EndsIn [0] .ret) := by
  obtain ⟨target, final, instruments⟩ :=
    @instruments_of_first instrumentsAll 17 allocatingModule
      allocatingFunction [] (by decide) (by decide +kernel) rfl
      (by decide +kernel)
  have logs : LogsFunction allocatingFunction.name :=
    ⟨by decide, by decide⟩
  obtain ⟨begins, framed⟩ :=
    functionFramed instruments rfl logs allocatingFunction_verified
      (by decide)
  have exits : target.ExitPath [0] :=
    framed.exitPath_iff.mpr
      ⟨.singleton (by decide), Or.inl ⟨0, _, rfl, rfl, rfl⟩⟩
  exact ⟨target, final, instruments, exits,
    events_balance_iff instruments rfl logs allocatingFunction_verified
      exits⟩

/-! ## Unwinding -/

/-- A function that calls another one and, if that throws, cleans up and
unwinds on. -/
def unwindingFunction : Function where
  name := "guarded"
  params := []
  blocks :=
    [⟨[], ⟨.branch [1, 2], none⟩⟩, ⟨[], ⟨.ret, none⟩⟩,
      ⟨[⟨0, "", .landingPad (.literalStruct "{ i8*, i32 }"), none⟩],
        ⟨.resume, none⟩⟩]

def unwindingModule : Module where
  identifier := "main.cpp"
  functions := [unwindingFunction]
  nextId := 1
  older := by decide

theorem unwindingFunction_verified : unwindingFunction.EntryVerified := by
  refine ⟨?_, by decide⟩
  intro block edge
  have present : block < 3 := edge.source_present
  interval_cases block <;> exact absurd edge (by decide)

/-- Control leaves the function with the begin event logged and no end
event. -/
theorem unwinding_misses_end :
    ∃ target final,
      Instruments instrumentsAll 9 unwindingModule unwindingFunction
          ⟨1, ∅⟩ target final ∧
        (instrumentsAll.decision unwindingFunction).functionFilter = true ∧
        LogsFunction unwindingFunction.name ∧
        unwindingFunction.EntryVerified ∧ target.ExitPath [0, 2] ∧
        ¬ instrumentsAll.Balanced 1 (target.executed [0, 2]) := by
  obtain ⟨target, final, instruments⟩ :=
    @instruments_of_first instrumentsAll 9 unwindingModule
      unwindingFunction [] (by decide) (by decide +kernel) rfl
      (by decide +kernel)
  have logs : LogsFunction unwindingFunction.name :=
    ⟨by decide, by decide⟩
  have verified := unwindingFunction_verified
  rcases functionFramed instruments rfl logs verified (by decide) with
    ⟨begins, framed⟩
  have exits : target.ExitPath [0, 2] :=
    framed.exitPath_iff.mpr
      ⟨.cons (by decide) (by decide) (.singleton (by decide)),
        Or.inr ⟨2, _, rfl, rfl, rfl⟩⟩
  refine ⟨target, final, instruments, rfl, logs, verified, exits, ?_⟩
  apply framed.not_balanced_of_goesOn verified.noPredecessor exits.isPath
  rw [framed.endsIn_iff]
  intro returned
  rcases returned with ⟨last, block, isLast, isBlock, returns⟩
  obtain rfl := Option.some.inj isLast
  obtain rfl := Option.some.inj isBlock
  cases returns

end Dinamite.Instrument
