import Dinamite.Instrument.Linkage
import Dinamite.Instrument.RecordedEntry

/-!
# Runs between `logInit` and `logExit`

A recorded run of `main` or of a static initialiser sets the log up first and
takes it down last; the functions that it calls only add records, unless they
leave the program through `exit`, which takes the log down as well.
-/

namespace Dinamite.Instrument

open AccessInstrumentationPass
open Dinamite.Text

variable {Val Mem : Type}

/-! ## Machines whose other code keeps to the rules -/

/-- What the program calls may log records, and take the log down where it
does not come back. -/
def Effect.Orderly (link : Linkage Val Mem) : Effect Val Mem → Prop
  | .returns _ _ log => link.Plain log
  | .halts _ log => link.Ends log

/-- A return always returns and logs nothing; no other terminator leaves the
function, and none goes to its entry. -/
def Control.Orderly
    (link : Linkage Val Mem) (op : TerminatorOp)
    (log : List (Entry Val Mem)) : Control Val → Prop
  | .goto block => op ≠ .ret ∧ block ≠ 0 ∧ link.Plain log
  | .leave _ => op = .ret ∧ log = []
  | .halt => op ≠ .ret ∧ link.Ends log

/-- The functions of the instrumentation library. -/
def libraryFunctions : List Callee :=
  linkedLibrary.loadFunctions.accessFunctions ++
    linkedLibrary.loadFunctions.eventFunctions

structure Machine.Orderly
    (machine : Machine Val Mem) (link : Linkage Val Mem) : Prop where
  reads : link.Reads machine
  isLog : ∀ callee, machine.isLog callee = true → callee ∈ libraryFunctions
  execute : ∀ inst seen, (machine.execute inst seen).Orderly link
  exit : ∀ (inst : Inst) (callee : Callee),
    inst.calledFunction = some callee → callee.name = "exit" →
      ∀ seen, ∃ memory, machine.execute inst seen = .halts memory []
  terminate : ∀ function index op seen,
    (machine.terminate function index op seen).1.Orderly link op
      (machine.terminate function index op seen).2.2

/-- `exit` has no body, and what has one is orderly unless the process starts
with it. -/
structure Bodies.Orderly
    (link : Linkage Val Mem) (bodies : Bodies Val Mem) : Prop where
  exit : bodies "exit" = none
  inner : ∀ name body, bodies name = some body → isTopLevel name = false →
    ∀ args memory, (body args memory).Orderly link

/-- An instruction that calls neither the library nor a function that the
process starts with. -/
def Inst.Inner (inst : Inst) : Prop :=
  ∀ callee, inst.calledFunction = some callee →
    callee ∉ libraryFunctions ∧ isTopLevel callee.name = false

instance (inst : Inst) : Decidable inst.Inner :=
  inferInstanceAs (Decidable (∀ callee ∈ inst.calledFunction,
    callee ∉ libraryFunctions ∧ isTopLevel callee.name = false))

/-! ## What instructions add to the log -/

/-- The log is continued with records; where control does not come back, it
may be taken down. -/
def Result.Adds
    (link : Linkage Val Mem) (before : List (Entry Val Mem)) :
    Result Val Mem → Prop
  | .goes frame => ∃ new, frame.log = before ++ new ∧ link.Plain new
  | .halts _ log => ∃ new, log = before ++ new ∧ link.Ends new

section Adds

variable {link : Linkage Val Mem} {machine : Machine Val Mem}
variable {pass : AccessInstrumentationPass} {decision : Decision}
variable {frame : Frame Val Mem}

theorem adds_goes
    {before : List (Entry Val Mem)} (same : frame.log = before) :
    (Result.goes frame).Adds link before :=
  ⟨[], by rw [same, List.append_nil], Linkage.plain_nil⟩

/-- Records in front of what is added. -/
theorem Result.Adds.behind
    {result : Result Val Mem} {before new : List (Entry Val Mem)}
    (adds : result.Adds link (before ++ new)) (plain : link.Plain new) :
    result.Adds link before := by
  cases result with
  | goes after =>
      rcases adds with ⟨later, log, others⟩
      exact ⟨new ++ later, by rw [log, List.append_assoc],
        plain.append others⟩
  | halts memory log =>
      rcases adds with ⟨later, log, others⟩
      exact ⟨new ++ later, by rw [log, List.append_assoc],
        plain.ends others⟩

theorem Result.Adds.bind
    {result : Result Val Mem} {before : List (Entry Val Mem)}
    {next : Frame Val Mem → Result Val Mem}
    (adds : result.Adds link before)
    (continued : ∀ after, (next after).Adds link after.log) :
    (result.bind next).Adds link before := by
  cases result with
  | goes after =>
      rcases adds with ⟨new, log, plain⟩
      have there := continued after
      rw [log] at there
      exact there.behind plain
  | halts memory log => exact adds

theorem adds_after
    (inst : Inst) {effect : Effect Val Mem} (orderly : effect.Orderly link) :
    (frame.after inst effect).Adds link frame.log := by
  cases effect with
  | returns result memory log =>
      cases result with
      | none => exact ⟨log, rfl, orderly⟩
      | some result => exact ⟨log, rfl, orderly⟩
  | halts memory log => exact ⟨log, rfl, orderly⟩

variable (orderly : machine.Orderly link)
variable (bodies : Bodies.Orderly link machine.enter)
include orderly

theorem adds_runProgram (inst : Inst) :
    (machine.runProgram inst frame).Adds link frame.log :=
  adds_after inst (orderly.execute inst _)

include bodies

theorem adds_step {inst : Inst} (inner : inst.Inner) :
    (machine.step inst frame).Adds link frame.log := by
  unfold Machine.step
  split
  · exact adds_goes rfl
  · split
    · exact adds_goes rfl
    · exact adds_goes rfl
  · exact adds_goes rfl
  · rename_i callee args type op
    have called : inst.calledFunction = some callee := by
      rw [Inst.calledFunction, op]
    have notLog : ¬ machine.isLog callee = true :=
      fun isLog => (inner callee called).1 (orderly.isLog callee isLog)
    rw [if_neg notLog]
    split
    · rename_i body entered
      exact adds_after inst
        (bodies.inner _ body entered (inner callee called).2 _ _)
    · exact adds_runProgram orderly inst
  · split
    · exact adds_goes rfl
    · exact adds_runProgram orderly inst
  · exact adds_runProgram orderly inst

/-- A call of `exit` adds nothing and does not come back. -/
theorem step_exit
    (frame : Frame Val Mem) {inst : Inst} {callee : Callee}
    {args : List Value} {type : Ty} (inner : inst.Inner)
    (op : inst.op = .call (some callee) args type)
    (isExit : callee.name = "exit") :
    ∃ memory, machine.step inst frame = .halts memory frame.log := by
  have called : inst.calledFunction = some callee := by
    rw [Inst.calledFunction, op]
  have notLog : ¬ machine.isLog callee = true :=
    fun isLog => (inner callee called).1 (orderly.isLog callee isLog)
  rcases orderly.exit inst callee called isExit
      (frame.seen machine.fresh) with
    ⟨memory, halts⟩
  refine ⟨memory, ?_⟩
  simp only [Machine.step, op, if_neg notLog, isExit, bodies.exit,
    Machine.runProgram, halts, Frame.after, List.append_nil]

/-! ## What recorded code adds to the log -/

variable (linked : pass.library = linkedLibrary)
include linked

/-- An instruction of the program with what is noted in front of it. -/
theorem adds_noted
    (decision : Decision) (frame : Frame Val Mem) {inst : Inst}
    (inner : inst.Inner) :
    (machine.step inst
      (noting (pass.entriesBefore machine decision inst) frame)).Adds link
        frame.log := by
  have reads := orderly.reads
  have plainBefore
      (plain : link.Plain (pass.entriesBefore machine decision inst frame)) :
      (machine.step inst
        (noting (pass.entriesBefore machine decision inst) frame)).Adds
          link frame.log :=
    (adds_step orderly bodies inner).behind plain
  cases op : inst.op with
  | store value pointer =>
      refine plainBefore ?_
      rw [AccessInstrumentationPass.entriesBefore, op]
      exact plain_storeEntries linked reads inst value pointer
  | load pointer =>
      refine plainBefore ?_
      rw [AccessInstrumentationPass.entriesBefore, op]
      exact plain_loadEntries linked reads inst pointer
  | call callee args type =>
      cases callee with
      | none =>
          refine plainBefore ?_
          rw [AccessInstrumentationPass.entriesBefore, op]
          exact Linkage.plain_nil
      | some fn =>
          have before :
              pass.entriesBefore machine decision inst frame =
                pass.exitEntries machine decision fn frame := by
            rw [AccessInstrumentationPass.entriesBefore, op]
          by_cases due : decision.logsEvents ∧ fn.name = "exit"
          · rcases step_exit orderly bodies
                (noting (pass.entriesBefore machine decision inst) frame)
                inner op due.2 with
              ⟨memory, halts⟩
            rw [halts]
            refine ⟨_, rfl, Or.inr ?_⟩
            rw [before]
            exact exits_exitEntries linked due
          · refine plainBefore ?_
            rw [before, AccessInstrumentationPass.exitEntries, if_neg due]
            exact Linkage.plain_nil
  | _ =>
      refine plainBefore ?_
      rw [AccessInstrumentationPass.entriesBefore, op]
      exact Linkage.plain_nil

omit orderly bodies in
theorem plain_entriesAfter (inst : Inst) (nextInst : Option Inst) :
    link.Plain
      (pass.entriesAfter machine decision inst nextInst frame) := by
  unfold AccessInstrumentationPass.entriesAfter
  split
  · exact plain_allocEntries linked _ _ _ _
  · exact Linkage.plain_nil

theorem adds_recordAll
    (decision : Decision) (frame : Frame Val Mem) {insts : List Inst}
    (inner : ∀ inst ∈ insts, inst.Inner) :
    (pass.recordAll machine decision insts frame).Adds link frame.log := by
  induction insts generalizing frame with
  | nil => exact adds_goes rfl
  | cons inst rest inductionHypothesis =>
      have noted :=
        adds_noted orderly bodies linked decision frame
          (inner inst List.mem_cons_self)
      refine noted.bind fun after => ?_
      have continued :=
        inductionHypothesis
          (noting (pass.entriesAfter machine decision inst rest.head?) after)
          fun other member => inner other (List.mem_cons_of_mem inst member)
      exact continued.behind
        (plain_entriesAfter linked inst rest.head?)

end Adds

/-! ## Functions that the program calls -/

/-- A block that only adds to the log. -/
def Code.Adds (link : Linkage Val Mem) (code : Code Val Mem) : Prop :=
  ∀ frame, (code.body frame).Adds link frame.log

section Inner

variable {link : Linkage Val Mem} {machine : Machine Val Mem}
variable {pass : AccessInstrumentationPass}

/-- A run that starts with records has an orderly effect. -/
theorem orderly_run
    (orderly : machine.Orderly link) {codes : List (Code Val Mem)}
    (adds : ∀ code ∈ codes, code.Adds link) (function : String)
    (steps index : Nat) {frame : Frame Val Mem}
    (plain : link.Plain frame.log) :
    (machine.run function codes steps index frame).effect.Orderly link := by
  induction steps generalizing index frame with
  | zero => exact Or.inl plain
  | succ steps inductionHypothesis =>
      simp only [Machine.run]
      cases found : codes[index]? with
      | none => exact Or.inl plain
      | some block =>
          have here := adds block (List.mem_of_getElem? found) frame
          dsimp only
          cases ran : block.body frame with
          | halts memory log =>
              rw [ran] at here
              rcases here with ⟨new, rfl, ends⟩
              exact plain.ends ends
          | goes after =>
              rw [ran] at here
              rcases here with ⟨new, log, more⟩
              have plainAfter : link.Plain after.log := by
                rw [log]
                exact plain.append more
              have ended :=
                orderly.terminate function index block.terminator
                  (after.seen machine.fresh)
              dsimp only
              split
              · rename_i next isNext
                rw [isNext] at ended
                exact inductionHypothesis next
                  (plainAfter.append ended.2.2)
              · rename_i result isResult
                rw [isResult] at ended
                rw [ended.2, List.append_nil]
                exact plainAfter
              · rename_i isHalt
                rw [isHalt] at ended
                exact plainAfter.ends ended.2

variable (orderly : machine.Orderly link)
variable (bodies : Bodies.Orderly link machine.enter)
include orderly bodies

theorem adds_stepAll
    {insts : List Inst} (inner : ∀ inst ∈ insts, inst.Inner)
    (frame : Frame Val Mem) :
    (machine.stepAll insts frame).Adds link frame.log := by
  induction insts generalizing frame with
  | nil => exact adds_goes rfl
  | cons inst rest inductionHypothesis =>
      exact (adds_step orderly bodies (inner inst List.mem_cons_self)).bind
        fun after => inductionHypothesis
          (fun other member => inner other (List.mem_cons_of_mem inst member))
          after

variable (linked : pass.library = linkedLibrary)
include linked

/-- The instructions of a block, with the end event behind them. -/
theorem adds_recordRest
    {decision : Decision} (called : isTopLevel decision.function = false)
    (block : Block) {insts : List Inst}
    (inner : ∀ inst ∈ insts, inst.Inner) (frame : Frame Val Mem) :
    ((pass.recordAll machine decision insts frame).bind fun after =>
        .goes (pass.recordEnd machine decision block after)).Adds link
      frame.log := by
  refine (adds_recordAll orderly bodies linked decision frame inner).bind
    fun after => ?_
  unfold AccessInstrumentationPass.recordEnd
  split
  · exact ⟨_, rfl, plain_eventEntries linked called .fnEnd⟩
  · exact adds_goes rfl

theorem adds_recordEntry
    (slot : Nat) {function : Function}
    (called : isTopLevel function.name = false) {entry : Block}
    (inner : ∀ inst ∈ entry.insts, inst.Inner) :
    (pass.recordEntry machine slot function entry).Adds link := by
  intro frame
  have original := splitFirst_append entry
  have front : ∀ inst ∈ entry.splitFirstInsertionPt.1, inst.Inner := by
    intro inst member
    refine inner inst ?_
    rw [← original]
    exact List.mem_append_left _ member
  have back : ∀ inst ∈ entry.splitFirstInsertionPt.2, inst.Inner := by
    intro inst member
    refine inner inst ?_
    rw [← original]
    exact List.mem_append_right _ member
  refine (adds_stepAll orderly bodies front frame).bind fun first => ?_
  have isCalled : isTopLevel (pass.decision function).function = false :=
    called
  exact ((adds_recordRest orderly bodies linked isCalled entry back _).behind
    (plain_argumentEntries linked orderly.reads _ _ _ _)).behind
      (plain_eventEntries linked isCalled .fnBegin)

end Inner

/-! ## Functions that the process starts with -/

namespace Linkage

variable (link : Linkage Val Mem)

/-- The log is set up, and records follow. -/
def Opened (log : List (Entry Val Mem)) : Prop :=
  ∃ (functionId : Int) (calls : List LoggedCall),
    (∀ logged ∈ calls, logged.summary.KindKnown) ∧
      link.Logs log (.logInit functionId :: calls.map TextAction.log)

/-- The log is set up and taken down, with records in between. -/
def Cycled (log : List (Entry Val Mem)) : Prop :=
  ∃ cycle : Cycle,
    (∀ logged ∈ cycle.calls, logged.summary.KindKnown) ∧
      link.Logs log cycle.actions

variable {link} {log new : List (Entry Val Mem)}

theorem Opened.append (opened : link.Opened log) (plain : link.Plain new) :
    link.Opened (log ++ new) := by
  rcases opened with ⟨functionId, calls, known, logs⟩
  rcases plain with ⟨others, othersKnown, othersLogs⟩
  refine ⟨functionId, calls ++ others, ?_, ?_⟩
  · intro logged member
    exact (List.mem_append.mp member).elim (known logged)
      (othersKnown logged)
  · rw [List.map_append, ← List.cons_append]
    exact logs.append othersLogs

theorem Opened.exits (opened : link.Opened log) (exits : link.Exits new) :
    link.Cycled (log ++ new) := by
  rcases opened with ⟨initId, calls, known, logs⟩
  rcases exits with ⟨others, exitId, othersKnown, othersLogs⟩
  refine ⟨⟨initId, calls ++ others, exitId⟩, ?_, ?_⟩
  · intro logged member
    exact (List.mem_append.mp member).elim (known logged)
      (othersKnown logged)
  · rw [Cycle.actions, List.map_append, List.append_assoc,
      ← List.cons_append]
    exact logs.append othersLogs

theorem Opened.ends (opened : link.Opened log) (ends : link.Ends new) :
    link.Opened (log ++ new) ∨ link.Cycled (log ++ new) :=
  ends.imp opened.append opened.exits

end Linkage

/-- How the body of a block goes on from a log that is set up. -/
def Result.Brackets
    (link : Linkage Val Mem) (op : TerminatorOp) : Result Val Mem → Prop
  | .goes frame =>
      if op = .ret then link.Cycled frame.log else link.Opened frame.log
  | .halts _ log => link.Opened log ∨ link.Cycled log

/-- A block that takes the log down in front of a return. -/
def Code.Brackets (link : Linkage Val Mem) (code : Code Val Mem) : Prop :=
  ∀ frame, link.Opened frame.log →
    (code.body frame).Brackets link code.terminator

/-- A function that comes back leaves a whole cycle. -/
def Behaviour.Bracketed (link : Linkage Val Mem) :
    Behaviour Val Mem → Prop
  | .runs _ log => log = [] ∨ link.Opened log
  | .leaves _ _ log => link.Cycled log
  | .halts _ log => link.Opened log ∨ link.Cycled log

section TopLevel

variable {link : Linkage Val Mem} {machine : Machine Val Mem}
variable {pass : AccessInstrumentationPass}

/-- From the end of a block on. -/
theorem bracketed_of_block
    (orderly : machine.Orderly link) {codes : List (Code Val Mem)}
    {function : String} {steps index : Nat}
    (later : ∀ next frame, next ≠ 0 → link.Opened frame.log →
      (machine.run function codes steps next frame).Bracketed link)
    {block : Code Val Mem} (found : codes[index]? = some block)
    {frame : Frame Val Mem}
    (brackets : (block.body frame).Brackets link block.terminator) :
    (machine.run function codes (steps + 1) index frame).Bracketed
      link := by
  simp only [Machine.run, found]
  cases ran : block.body frame with
  | halts memory log =>
      rw [ran] at brackets
      exact brackets
  | goes after =>
      rw [ran] at brackets
      have ended :=
        orderly.terminate function index block.terminator
          (after.seen machine.fresh)
      dsimp only
      split
      · rename_i next isNext
        rw [isNext] at ended
        have opened : link.Opened after.log := by
          simpa only [Result.Brackets, if_neg ended.1] using brackets
        exact later next _ ended.2.1 (opened.append ended.2.2)
      · rename_i result isResult
        rw [isResult] at ended
        have cycled : link.Cycled after.log := by
          simpa only [Result.Brackets, if_pos ended.1] using brackets
        rw [ended.2, List.append_nil]
        exact cycled
      · rename_i isHalt
        rw [isHalt] at ended
        have opened : link.Opened after.log := by
          simpa only [Result.Brackets, if_neg ended.1] using brackets
        exact opened.ends ended.2

/-- A run that goes on behind the entry. -/
theorem bracketed_of_opened
    (orderly : machine.Orderly link) {entry : Code Val Mem}
    {rest : List (Code Val Mem)}
    (brackets : ∀ code ∈ rest, code.Brackets link) (function : String)
    (steps : Nat) {index : Nat} (behind : index ≠ 0) {frame : Frame Val Mem}
    (opened : link.Opened frame.log) :
    (machine.run function (entry :: rest) steps index frame).Bracketed
      link := by
  induction steps generalizing index frame with
  | zero => exact Or.inr opened
  | succ steps inductionHypothesis =>
      cases found : (entry :: rest)[index]? with
      | none =>
          simp only [Machine.run, found]
          exact Or.inl opened
      | some block =>
          have member : block ∈ rest := by
            obtain ⟨position, rfl⟩ := Nat.exists_eq_succ_of_ne_zero behind
            exact List.mem_of_getElem? (by simpa using found)
          exact bracketed_of_block orderly
            (fun next after isBehind => inductionHypothesis isBehind)
            found (brackets block member frame opened)

theorem bracketed_run
    (orderly : machine.Orderly link) {entry : Code Val Mem}
    {rest : List (Code Val Mem)}
    (brackets : ∀ code ∈ rest, code.Brackets link) (function : String)
    (steps : Nat) {frame : Frame Val Mem} (empty : frame.log = [])
    (starts : (entry.body frame).Brackets link entry.terminator) :
    (machine.run function (entry :: rest) steps 0 frame).Bracketed
      link := by
  cases steps with
  | zero => exact Or.inl empty
  | succ steps =>
      exact bracketed_of_block orderly
        (fun next after behind =>
          bracketed_of_opened orderly brackets function steps behind)
        rfl starts

variable (orderly : machine.Orderly link)
variable (bodies : Bodies.Orderly link machine.enter)
variable (linked : pass.library = linkedLibrary)
include orderly bodies linked

/-- The instructions of a block of such a function, with the end event behind
them. -/
theorem brackets_recordRest
    {decision : Decision} (topLevel : isTopLevel decision.function = true)
    (logs : decision.logsEvents = true) (block : Block) {insts : List Inst}
    (inner : ∀ inst ∈ insts, inst.Inner) {frame : Frame Val Mem}
    (opened : link.Opened frame.log) :
    ((pass.recordAll machine decision insts frame).bind fun after =>
        .goes (pass.recordEnd machine decision block after)).Brackets link
      block.terminator.op := by
  have adds := adds_recordAll orderly bodies linked decision frame inner
  cases ran : pass.recordAll machine decision insts frame with
  | halts memory log =>
      rw [ran] at adds
      rcases adds with ⟨new, rfl, ends⟩
      exact opened.ends ends
  | goes after =>
      rw [ran] at adds
      rcases adds with ⟨new, log, plain⟩
      have openedAfter : link.Opened after.log := by
        rw [log]
        exact opened.append plain
      simp only [Result.bind, Result.Brackets,
        AccessInstrumentationPass.recordEnd]
      by_cases returns : block.terminator.op = .ret
      · rw [if_pos returns, if_pos returns]
        rcases logs_endEntries linked topLevel logs after with
          ⟨functionId, ended⟩
        exact openedAfter.exits
          ⟨[], functionId, List.forall_mem_nil _, ended⟩
      · rw [if_neg returns, if_neg returns]
        exact openedAfter

theorem starts_recordEntry
    (slot : Nat) {function : Function}
    (topLevel : isTopLevel function.name = true)
    (logs : (pass.decision function).logsEvents = true) {entry : Block}
    (noPhi : entry.splitFirstInsertionPt.1 = [])
    (inner : ∀ inst ∈ entry.insts, inst.Inner) {frame : Frame Val Mem}
    (empty : frame.log = []) :
    ((pass.recordEntry machine slot function entry).body frame).Brackets
      link entry.terminator.op := by
  have back : entry.splitFirstInsertionPt.2 = entry.insts := by
    have original := splitFirst_append entry
    rwa [noPhi, List.nil_append] at original
  have isTop : isTopLevel (pass.decision function).function = true :=
    topLevel
  have begun : link.Opened
      (noting (pass.eventEntries machine (pass.decision function) .fnBegin)
        frame).log := by
    rcases logs_beginEntries linked isTop logs frame with
      ⟨functionId, started⟩
    refine ⟨functionId, [], List.forall_mem_nil _, ?_⟩
    rw [noting, Frame.logging, empty, List.nil_append]
    exact started
  have args :
      link.Plain
        (pass.argumentEntries machine function.name entry.firstInsertionLoc
          slot (pass.injectedArgs function)
          (noting
            (pass.eventEntries machine (pass.decision function) .fnBegin)
            frame)) :=
    plain_argumentEntries linked orderly.reads function.name
      entry.firstInsertionLoc slot (pass.injectedArgs function)
  simp only [AccessInstrumentationPass.recordEntry, noPhi, back,
    Machine.stepAll, Result.bind]
  exact brackets_recordRest orderly bodies linked isTop logs entry inner
    (begun.append args)

end TopLevel

end Dinamite.Instrument
