import Dinamite.Instrument.RecordedBlocks

/-!
# Instrumented functions

Running the blocks that the loops leave does what the recorded runs of the
blocks do, and the entry also records the begin of the function and its
arguments.
-/

namespace Dinamite.Instrument

open Dinamite.CursorLoop
open AccessInstrumentationPass

variable {Val Mem : Type} {machine : Machine Val Mem}
variable {pass : AccessInstrumentationPass} {decision : Decision}
variable {fresh fuel : Nat} {state final : PassState}
variable {terminatorLoc : Option DebugLoc}

/-! ## The instructions of the program -/

/-- What follows the instructions of the program does not pass for the
`bitcast` behind an allocation. -/
def NoCastFirst (insts : List Inst) : Prop :=
  ∀ inst ∈ insts.head?, inst.isCast = false

theorem allocTypeName_of_not_cast
    {inst : Inst} (notCast : inst.isCast = false) :
    pass.allocTypeName (some inst) = "void" := by
  unfold allocTypeName
  split
  · rename_i operand type op
    have isOp : inst.op = .cast .bitCast operand type := Option.some.inj op
    simp [Inst.isCast, isOp] at notCast
  · rfl

theorem allocTypeName_append
    {rest tail : List Inst} (noCast : NoCastFirst tail) :
    pass.allocTypeName (rest ++ tail).head? =
      pass.allocTypeName rest.head? := by
  cases rest with
  | cons inst rest => rfl
  | nil =>
      cases tail with
      | nil => rfl
      | cons inst tail =>
          exact allocTypeName_of_not_cast (noCast inst rfl)

theorem recordOne_next
    {inst : Inst} {nextInst other : Option Inst}
    (same : pass.allocTypeName nextInst = pass.allocTypeName other)
    (frame : Frame Val Mem) :
    recordOne pass machine decision inst nextInst frame =
      recordOne pass machine decision inst other frame := by
  have entries :
      pass.entriesAfter machine decision inst nextInst =
        pass.entriesAfter machine decision inst other := by
    funext after
    unfold entriesAfter
    split
    · simp only [allocEntries, same]
    · rfl
  rw [recordOne, entries, recordOne]

/-- The part of the loop that visits instructions of the program. -/
theorem means_loop
    (hosts : machine.Hosts pass fresh) (noLog : pass.NoLogFunctionDefined)
    {insts tail done result : List Inst}
    (sound : ∀ inst ∈ insts, inst.Sound pass fresh)
    (noCast : NoCastFirst tail) (settled : Settled fresh state)
    (ran :
      loop (pass.visit decision terminatorLoc) fuel state done
        (insts ++ tail) = some (result, final)) :
    ∃ fewer last made,
      Means machine made (pass.recordAll machine decision insts) ∧
        Settled fresh last ∧
        loop (pass.visit decision terminatorLoc) fewer last (done ++ made)
          tail = some (result, final) := by
  induction insts generalizing fuel state done with
  | nil =>
      refine ⟨fuel, state, [], means_nil, settled, ?_⟩
      rw [List.append_nil]
      exact ran
  | cons inst rest inductionHypothesis =>
      rw [List.cons_append] at ran
      rcases loop_past_item
          (fun _ visited => after_inert noLog visited) ran with
        ⟨fewer, made, visited, continued⟩
      have outcome : VisitOutcome pass decision state inst made :=
        outcome_of_visit visited
      have settledNext : Settled fresh made.state := by
        refine ⟨settled.older.trans outcome.grows, ?_⟩
        rw [outcome.argLogSet, settled.empty]
        simp
      rcases inductionHypothesis
          (fun other member => sound other (List.mem_cons_of_mem _ member))
          settledNext continued with
        ⟨least, last, more, means, settledLast, later⟩
      refine ⟨least, last, (made.before ++ inst :: made.after) ++ more, ?_,
        settledLast, ?_⟩
      · have here :=
          means_visit hosts settled.older settled.empty
            (sound inst List.mem_cons_self) visited
        refine (here.append means).congr ?_
        intro frame
        rw [recordAll_cons, recordOne_next (allocTypeName_append noCast)]
      · rw [← List.append_assoc]
        exact later

/-! ## The end of a block -/

theorem endEvent_inert
    (noLog : pass.NoLogFunctionDefined) (nextId : Nat)
    (terminator : Terminator) :
    ∀ inst ∈ (pass.endEvent decision nextId terminator).inserted,
      Inert (pass.visit decision terminatorLoc) inst := by
  unfold endEvent
  split
  · intro inst member
    obtain rfl := List.mem_singleton.mp member
    exact inert_of_event noLog
      (eventLogFunc_mem decision.function .fnEnd) rfl decision terminatorLoc
  · exact List.forall_mem_nil _

theorem endEvent_noCast (nextId : Nat) (terminator : Terminator) :
    NoCastFirst (pass.endEvent decision nextId terminator).inserted := by
  unfold endEvent
  split
  · intro inst isFirst
    obtain rfl := Option.some.inj isFirst
    rfl
  · intro inst isFirst
    cases isFirst

theorem eventEntries_congr
    {mark : Nat} {left right : Frame Val Mem}
    (agree : left.Agree True mark right) (event : FnEvents) :
    pass.eventEntries machine decision event left =
      pass.eventEntries machine decision event right := by
  simp only [eventEntries, agree.memory]

theorem means_endEvent
    (hosts : machine.Hosts pass fresh) {nextId : Nat}
    (young : fresh ≤ nextId) (block : Block) :
    Means machine (pass.endEvent decision nextId block.terminator).inserted
      fun frame => .goes (pass.recordEnd machine decision block frame) := by
  unfold endEvent recordEnd
  by_cases returns : block.terminator.op = .ret
  · by_cases logs : decision.logsEvents = true
    · simp only [if_pos (And.intro returns logs), if_pos returns]
      exact means_of_logs
        (fun frame => logs_instrumentFnEvent hosts _ .fnEnd logs)
        (hosts.older young)
        (fun left right agree => eventEntries_congr agree .fnEnd)
    · have quiet :
          ¬ (block.terminator.op = .ret ∧ decision.logsEvents = true) :=
        fun both => logs both.2
      simp only [if_neg quiet, if_pos returns]
      exact means_nothing fun frame => by simp [eventEntries, logs]
  · have quiet :
        ¬ (block.terminator.op = .ret ∧ decision.logsEvents = true) :=
      fun both => returns both.1
    simp only [if_neg quiet, if_neg returns]
    exact means_nil

theorem loop_nil
    {done result : List Inst}
    (ran :
      loop (pass.visit decision terminatorLoc) fuel state done [] =
        some (result, final)) : result = done ∧ final = state := by
  cases fuel <;>
  · rcases Prod.mk.inj (Option.some.inj ran) with ⟨rfl, rfl⟩
    exact ⟨rfl, rfl⟩

/-- The end of the loop: the rest of the program, and the end event. -/
theorem means_loop_end
    (hosts : machine.Hosts pass fresh) (noLog : pass.NoLogFunctionDefined)
    {insts done result : List Inst}
    (sound : ∀ inst ∈ insts, inst.Sound pass fresh)
    (settled : Settled fresh state) (block : Block) {nextId : Nat}
    (young : fresh ≤ nextId)
    (ran :
      loop (pass.visit decision terminatorLoc) fuel state done
        (insts ++
          (pass.endEvent decision nextId block.terminator).inserted) =
        some (result, final)) :
    Settled fresh final ∧
      ∃ made, result = done ++ made ∧
        Means machine made fun frame =>
          (pass.recordAll machine decision insts frame).bind fun after =>
            .goes (pass.recordEnd machine decision block after) := by
  rcases means_loop hosts noLog sound (endEvent_noCast _ _) settled ran with
    ⟨fewer, last, made, means, settledLast, atEnd⟩
  have closing :
      loop (pass.visit decision terminatorLoc) fewer last (done ++ made)
        ((pass.endEvent decision nextId block.terminator).inserted ++ []) =
          some (result, final) := by
    rw [List.append_nil]
    exact atEnd
  rcases loop_after_inert (endEvent_inert noLog nextId block.terminator)
      closing with
    ⟨least, ended⟩
  rcases loop_nil ended with ⟨rfl, rfl⟩
  refine ⟨settledLast, made ++ _, by rw [List.append_assoc], ?_⟩
  exact means.append (means_endEvent hosts young block)

/-- A block that is not the entry. -/
theorem means_instrumentBlock
    (hosts : machine.Hosts pass fresh) (noLog : pass.NoLogFunctionDefined)
    {block target : Block}
    (sound : ∀ inst ∈ block.insts, inst.Sound pass fresh)
    (settled : Settled fresh state)
    (ran :
      pass.instrumentBlock fuel decision state block =
        some (target, final)) :
    Settled fresh final ∧
      Code.Agree True machine.fresh (machine.code target)
        (pass.recordBlock machine decision block) := by
  rw [instrumentBlock_eq] at ran
  rcases Option.map_eq_some_iff.mp ran with ⟨⟨insts, last⟩, looped, equal⟩
  rcases Prod.mk.inj equal with ⟨rfl, rfl⟩
  have grown :
      Settled fresh
        { state with
          nextId :=
            (pass.endEvent decision state.nextId
              block.terminator).nextId } :=
    ⟨settled.older.trans (endEvent_younger _ _ _).grows, settled.empty⟩
  rcases means_loop_end hosts noLog sound grown block settled.older
      looped with
    ⟨settledLast, made, isMade, means⟩
  refine ⟨settledLast, rfl, ?_⟩
  rw [List.nil_append] at isMade
  subst isMade
  exact means

theorem means_instrumentBlocks
    (hosts : machine.Hosts pass fresh) (noLog : pass.NoLogFunctionDefined)
    {blocks targets : List Block}
    (sound : ∀ block ∈ blocks, ∀ inst ∈ block.insts, inst.Sound pass fresh)
    (settled : Settled fresh state)
    (ran :
      pass.instrumentBlocks fuel decision state blocks =
        some (targets, final)) :
    List.Forall₂ (Code.Agree True machine.fresh) (targets.map machine.code)
      (blocks.map (pass.recordBlock machine decision)) := by
  induction blocks generalizing state targets with
  | nil =>
      rcases Prod.mk.inj (Option.some.inj ran) with ⟨rfl, rfl⟩
      exact .nil
  | cons block rest inductionHypothesis =>
      rw [instrumentBlocks_cons] at ran
      rcases Option.bind_eq_some_iff.mp ran with
        ⟨⟨target, next⟩, here, continued⟩
      rcases Option.map_eq_some_iff.mp continued with
        ⟨⟨others, last⟩, there, equal⟩
      rcases Prod.mk.inj equal with ⟨rfl, rfl⟩
      rcases means_instrumentBlock hosts noLog
          (sound block List.mem_cons_self) settled here with
        ⟨settledNext, agree⟩
      exact .cons agree
        (inductionHypothesis
          (fun other member => sound other (List.mem_cons_of_mem _ member))
          settledNext there)

end Dinamite.Instrument
