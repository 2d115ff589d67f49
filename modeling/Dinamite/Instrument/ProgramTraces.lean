import Dinamite.Instrument.BracketedRuns
import Dinamite.Instrument.RecordedRuns
import Dinamite.Trace.OneThread

/-!
# The trace of a program

What a process leaves in its trace file when it calls the static initialisers
of a program and then `main`, with the instrumentation library in its text form
and in its binary form.
-/

namespace Dinamite.Instrument

open AccessInstrumentationPass
open Dinamite.Text
open Dinamite.Trace (TimedCall TimedCycle InTime traceSystem records)

variable {Val Mem : Type}

/-! ## Programs -/

/-- Nothing in the program calls the library, `main` or a static initialiser,
and `exit` is not one of its functions. -/
structure Module.Ordinary (module : Module) : Prop where
  inner : ∀ function ∈ module.functions, ∀ block ∈ function.blocks,
    ∀ inst ∈ block.insts, inst.Inner
  exit : ∀ function ∈ module.functions,
    function.name = "exit" → function.blocks = []

/-- `main` or a static initialiser that is instrumented.  As in every function
the entry has no phi and no landing pad. -/
def Module.Starts
    (pass : AccessInstrumentationPass) (module : Module) (name : String) :
    Prop :=
  isTopLevel name = true ∧
    ∃ function entry rest,
      module.functions.find? (fun other => other.name = name) =
          some function ∧
        function.blocks = entry :: rest ∧
          entry.splitFirstInsertionPt.1 = [] ∧
            pass.selects function = true ∧
              (pass.decision function).logsEvents = true

section Programs

variable {link : Linkage Val Mem} {machine : Machine Val Mem}
variable {pass : AccessInstrumentationPass} {module : Module}
variable {routines : List Routine}

theorem Machine.Orderly.entering
    (orderly : machine.Orderly link) (bodies : Bodies Val Mem) :
    (machine.entering bodies).Orderly link :=
  ⟨orderly.reads, orderly.isLog, orderly.execute, orderly.exit,
    orderly.terminate⟩

/-- A function that the program may call. -/
structure Routine.Inner
    (link : Linkage Val Mem) (machine : Machine Val Mem)
    (routine : Routine) : Prop where
  exit : routine.name = "exit" →
    ∀ bodies, routine.codes (machine.entering bodies) = []
  adds : isTopLevel routine.name = false →
    ∀ bodies, Bodies.Orderly link bodies →
      ∀ code ∈ routine.codes (machine.entering bodies), code.Adds link

/-- The functions of a program are orderly at every depth of calls. -/
theorem bodies_orderly
    (orderly : machine.Orderly link)
    (inner : ∀ routine ∈ routines, routine.Inner link machine)
    (steps depth : Nat) :
    Bodies.Orderly link (machine.bodies routines steps depth) := by
  induction depth with
  | zero => exact ⟨rfl, fun _ _ absent => by cases absent⟩
  | succ depth inductionHypothesis =>
      constructor
      · simp only [Machine.bodies, Option.map_eq_none_iff, Machine.call]
        cases found : lookup routines "exit" with
        | none => rfl
        | some routine =>
            have member := List.mem_of_find?_eq_some found
            have isExit : routine.name = "exit" := by
              simpa using List.find?_some found
            exact if_pos ((inner routine member).exit isExit _)
      · intro name body entered notTop args memory
        simp only [Machine.bodies] at entered
        rcases Option.map_eq_some_iff.mp entered with
          ⟨behaviour, called, rfl⟩
        simp only [Machine.call] at called
        cases found : lookup routines name with
        | none => simp [found] at called
        | some routine =>
            have member := List.mem_of_find?_eq_some found
            have isName : routine.name = name := by
              simpa using List.find?_some found
            simp only [found] at called
            split at called
            · cases called
            · obtain rfl := Option.some.inj called
              exact orderly_run (orderly.entering _)
                ((inner routine member).adds (by rw [isName]; exact notTop)
                  _ inductionHypothesis)
                name steps 0 Linkage.plain_nil

/-- What is recorded of a function of an ordinary program. -/
theorem recorded_inner
    (orderly : machine.Orderly link) (linked : pass.library = linkedLibrary)
    (slot : Nat) {function : Function}
    (inner : ∀ block ∈ function.blocks, ∀ inst ∈ block.insts, inst.Inner)
    (exit : function.name = "exit" → function.blocks = []) :
    (pass.recorded slot function).Inner link machine := by
  constructor
  · intro isExit bodies
    simp only [recorded, exit isExit]
  · intro notTop bodies bodiesOrderly code member
    have entered := orderly.entering bodies
    have called : isTopLevel function.name = false := notTop
    have isCalled : isTopLevel (pass.decision function).function = false :=
      called
    simp only [recorded] at member
    cases blocks : function.blocks with
    | nil =>
        rw [blocks] at member
        cases member
    | cons entry rest =>
        rw [blocks] at member inner
        dsimp only at member
        split at member
        · rcases List.mem_cons.mp member with rfl | isLater
          · exact adds_recordEntry entered bodiesOrderly linked slot called
              (inner entry List.mem_cons_self)
          · rcases List.mem_map.mp isLater with ⟨block, isBlock, rfl⟩
            intro frame
            exact adds_recordRest entered bodiesOrderly linked isCalled block
              (inner block (List.mem_cons_of_mem entry isBlock)) frame
        · rcases List.mem_map.mp member with ⟨block, isBlock, rfl⟩
          exact adds_stepAll entered bodiesOrderly (inner block isBlock)

/-- The first recorded function of a name records the first function of it. -/
theorem lookup_recorded
    {functions : List Function} (slots : Nat → Nat) {name : String}
    {function : Function}
    (found : functions.find? (fun other => other.name = name) =
      some function) :
    ∃ slot,
      lookup (functions.mapIdx fun index other =>
        pass.recorded (slots index) other) name =
          some (pass.recorded slot function) := by
  induction functions generalizing slots with
  | nil => cases found
  | cons first rest inductionHypothesis =>
      unfold lookup at inductionHypothesis ⊢
      rw [List.mapIdx_cons]
      by_cases here : first.name = name
      · rw [List.find?_cons_of_pos (by simpa using here)] at found
        obtain rfl := Option.some.inj found
        exact ⟨slots 0, List.find?_cons_of_pos (decide_eq_true here)⟩
      · rw [List.find?_cons_of_neg (by simpa using here)] at found
        rcases inductionHypothesis (fun index => slots (index + 1)) found with
          ⟨slot, later⟩
        refine ⟨slot, Eq.trans (List.find?_cons_of_neg ?_) later⟩
        exact fun same => here (of_decide_eq_true same)

/-- A function that the process starts with brackets what it logs. -/
theorem bracketed_behaviour
    (orderly : machine.Orderly link) (linked : pass.library = linkedLibrary)
    (admitted : pass.insfilt.checkFileFilter module.identifier = true)
    (ordinary : module.Ordinary) {name : String}
    (starts : module.Starts pass name) (slots : Nat → Nat)
    (steps depth : Nat) :
    ∃ body,
      machine.behaviour (pass.recordedModule slots module) steps depth
          name = some body ∧
        ∀ args memory, (body args memory).Bracketed link := by
  rcases starts with
    ⟨topLevel, function, entry, rest, found, blocks, noPhi, selected, logs⟩
  have isName : function.name = name := by
    simpa using List.find?_some found
  have inner := ordinary.inner function (List.mem_of_find?_eq_some found)
  rw [blocks] at inner
  have routinesInner :
      ∀ routine ∈ pass.recordedModule slots module,
        routine.Inner link machine := by
    intro routine member
    rw [recordedModule, if_pos admitted] at member
    rcases List.mem_mapIdx.mp member with ⟨index, inRange, rfl⟩
    have isFunction := List.getElem_mem inRange
    exact recorded_inner orderly linked (slots index)
      (ordinary.inner _ isFunction) (ordinary.exit _ isFunction)
  have bodies := bodies_orderly orderly routinesInner steps depth
  let entered :=
    machine.entering
      (machine.bodies (pass.recordedModule slots module) steps depth)
  have enteredOrderly : entered.Orderly link := orderly.entering _
  rcases lookup_recorded slots found with ⟨slot, isRoutine⟩
  have codes :
      (pass.recorded slot function).codes entered =
        pass.recordEntry entered slot function entry ::
          rest.map (pass.recordBlock entered (pass.decision function)) := by
    simp only [recorded, blocks, if_pos selected]
  refine ⟨fun args memory =>
    entered.run name ((pass.recorded slot function).codes entered) steps 0
      (entered.start args memory), ?_, ?_⟩
  · unfold Machine.behaviour Machine.call
    have looked :
        lookup (pass.recordedModule slots module) name =
          some (pass.recorded slot function) := by
      rw [recordedModule, if_pos admitted]
      exact isRoutine
    rw [looked]
    exact if_neg (by rw [codes]; exact List.cons_ne_nil _ _)
  · intro args memory
    rw [codes]
    have isTop : isTopLevel function.name = true := by
      rw [isName]
      exact topLevel
    have isTopDecision :
        isTopLevel (pass.decision function).function = true := isTop
    refine bracketed_run enteredOrderly ?_ name steps rfl
      (starts_recordEntry enteredOrderly bodies linked slot isTop logs noPhi
        (inner entry List.mem_cons_self) rfl)
    intro code member
    rcases List.mem_map.mp member with ⟨block, isBlock, rfl⟩
    intro frame opened
    exact brackets_recordRest enteredOrderly bodies linked isTopDecision logs
      block (inner block (List.mem_cons_of_mem entry isBlock)) opened

end Programs

/-! ## Processes -/

def Behaviour.behind (log : List (Entry Val Mem)) :
    Behaviour Val Mem → Behaviour Val Mem
  | .runs memory later => .runs memory (log ++ later)
  | .leaves result memory later => .leaves result memory (log ++ later)
  | .halts memory later => .halts memory (log ++ later)

/-- Calls from outside of the program, each with the memory that the one before
has left.  One that does not come back is the last. -/
def Machine.process
    (machine : Machine Val Mem) (routines : List Routine)
    (steps depth : Nat) :
    List (String × List (Content Val)) → Mem → Option (Behaviour Val Mem)
  | [], memory => some (.leaves none memory [])
  | call :: rest, memory =>
      (machine.behaviour routines steps depth call.1).bind fun body =>
        match body call.2 memory with
        | .leaves _ later log =>
            (process machine routines steps depth rest later).map
              (Behaviour.behind log)
        | ended => some ended

/-- `logInit` and records, or nothing. -/
def IsBegun (begun : List TextAction) : Prop :=
  begun = [] ∨ ∃ (initId : Int) (calls : List LoggedCall),
    begun = .logInit initId :: calls.map TextAction.log

/-- Whole cycles, and perhaps one that was begun. -/
structure Linkage.Cycles
    (link : Linkage Val Mem) (log : List (Entry Val Mem))
    (cycles : List Cycle) (begun : List TextAction) : Prop where
  known : ∀ cycle ∈ cycles, ∀ logged ∈ cycle.calls,
    logged.summary.KindKnown
  isBegun : IsBegun begun
  logs : link.Logs log (cycles.flatMap Cycle.actions ++ begun)

/-- A process logs at most one cycle for each of its calls, and one that comes
back has logged a whole one for each. -/
structure Behaviour.Whole
    (behaviour : Behaviour Val Mem) (count : Nat) (cycles : List Cycle)
    (begun : List TextAction) : Prop where
  few : cycles.length ≤ count
  leaves : ∀ result memory log, behaviour = .leaves result memory log →
    cycles.length = count ∧ begun = []

section Processes

variable {link : Linkage Val Mem} {machine : Machine Val Mem}

theorem cycles_nil : link.Cycles [] [] [] :=
  ⟨List.forall_mem_nil _, Or.inl rfl, rfl⟩

theorem Linkage.Opened.cycles
    {log : List (Entry Val Mem)} (opened : link.Opened log) :
    ∃ begun, link.Cycles log [] begun := by
  rcases opened with ⟨initId, calls, _, logs⟩
  exact ⟨_, List.forall_mem_nil _, Or.inr ⟨initId, calls, rfl⟩, logs⟩

theorem Linkage.Cycled.cycles
    {log : List (Entry Val Mem)} (cycled : link.Cycled log) :
    ∃ cycle, link.Cycles log [cycle] [] := by
  rcases cycled with ⟨cycle, known, logs⟩
  refine ⟨cycle, ?_, Or.inl rfl, ?_⟩
  · intro other member
    rw [List.mem_singleton.mp member]
    exact known
  · rwa [List.flatMap_singleton, List.append_nil]

/-- One more cycle in front. -/
theorem Linkage.Cycles.behind
    {log later : List (Entry Val Mem)} {cycles : List Cycle}
    {begun : List TextAction} (more : link.Cycles later cycles begun)
    {cycle : Cycle} (first : link.Cycles log [cycle] []) :
    link.Cycles (log ++ later) (cycle :: cycles) begun := by
  refine ⟨?_, more.isBegun, ?_⟩
  · intro other member
    rcases List.mem_cons.mp member with rfl | isLater
    · exact first.known other List.mem_cons_self
    · exact more.known other isLater
  · have here := first.logs
    rw [List.flatMap_singleton, List.append_nil] at here
    rw [List.flatMap_cons, List.append_assoc]
    exact here.append more.logs

theorem Behaviour.log_behind
    (behaviour : Behaviour Val Mem) (log : List (Entry Val Mem)) :
    (behaviour.behind log).log = log ++ behaviour.log := by
  cases behaviour <;> rfl

theorem Behaviour.Whole.behind
    {behaviour : Behaviour Val Mem} {count : Nat} {cycles : List Cycle}
    {begun : List TextAction} (whole : behaviour.Whole count cycles begun)
    (log : List (Entry Val Mem)) (cycle : Cycle) :
    (behaviour.behind log).Whole (count + 1) (cycle :: cycles) begun := by
  refine ⟨Nat.succ_le_succ whole.few, ?_⟩
  intro result memory all same
  cases behaviour with
  | runs => cases same
  | halts => cases same
  | leaves result' memory' later =>
      have here := whole.leaves _ _ _ rfl
      exact ⟨by rw [List.length_cons, here.1], here.2⟩

/-- A process that calls bracketed functions logs cycles. -/
theorem cycles_of_process
    {routines : List Routine} {steps depth : Nat}
    {calls : List (String × List (Content Val))}
    (bracketed : ∀ call ∈ calls, ∃ body,
      machine.behaviour routines steps depth call.1 = some body ∧
        ∀ args memory, (body args memory).Bracketed link)
    (memory : Mem) :
    ∃ ended cycles begun,
      machine.process routines steps depth calls memory = some ended ∧
        link.Cycles ended.log cycles begun ∧
          ended.Whole calls.length cycles begun := by
  induction calls generalizing memory with
  | nil =>
      exact ⟨_, [], [], rfl, cycles_nil, le_refl 0,
        fun _ _ _ _ => ⟨rfl, rfl⟩⟩
  | cons call rest inductionHypothesis =>
      rcases bracketed call List.mem_cons_self with ⟨body, isBody, brackets⟩
      have here := brackets call.2 memory
      simp only [Machine.process, isBody, Option.bind_some]
      cases ran : body call.2 memory with
      | runs last log =>
          rw [ran] at here
          have stands : ∃ begun, link.Cycles log [] begun := by
            rcases here with rfl | opened
            · exact ⟨[], cycles_nil⟩
            · exact opened.cycles
          rcases stands with ⟨begun, isCut⟩
          exact ⟨_, [], begun, rfl, isCut, Nat.zero_le _,
            fun _ _ _ same => by cases same⟩
      | halts last log =>
          rw [ran] at here
          have stands :
              ∃ cycles begun,
                link.Cycles log cycles begun ∧ cycles.length ≤ 1 := by
            rcases here with opened | cycled
            · rcases opened.cycles with ⟨begun, isCut⟩
              exact ⟨[], begun, isCut, Nat.zero_le 1⟩
            · rcases cycled.cycles with ⟨cycle, isWhole⟩
              exact ⟨[cycle], [], isWhole, le_refl 1⟩
          rcases stands with ⟨cycles, begun, isCut, few⟩
          exact ⟨_, cycles, begun, rfl, isCut,
            few.trans (Nat.succ_le_succ (Nat.zero_le _)),
            fun _ _ _ same => by cases same⟩
      | leaves result later log =>
          rw [ran] at here
          rcases Linkage.Cycled.cycles here with ⟨cycle, first⟩
          rcases inductionHypothesis
              (fun other member =>
                bracketed other (List.mem_cons_of_mem call member))
              later with
            ⟨ended, cycles, begun, continued, more, whole⟩
          refine ⟨ended.behind log, cycle :: cycles, begun, ?_, ?_,
            whole.behind log cycle⟩
          · simp only [continued, Option.map_some]
          · rw [Behaviour.log_behind]
            exact more.behind first

end Processes

/-! ## The text trace -/

/-- The text library never prints to a closed file.  The file has the lines of
the records since the last `logInit`, also when the process was cut. -/
structure TextTrace
    (start : Option (List Char)) (cycles : List Cycle)
    (begun : List TextAction) (final : TextState) : Prop where
  ran :
    (textSystem start).run (textSystem start).initial
      (cycles.flatMap Cycle.actions ++ begun) = some final
  ended : ∀ earlier last, cycles = earlier ++ [last] → begun = [] →
    final = .closed (some (traceText last.calls))
  cut : ∀ initId calls, begun = .logInit initId :: calls.map .log →
    final = .writing (traceText calls)

theorem exists_textTrace
    (start : Option (List Char)) (cycles : List Cycle)
    {begun : List TextAction} (isBegun : IsBegun begun) :
    ∃ final, TextTrace start cycles begun final := by
  have cyclesRun :
      ∃ file,
        (textSystem start).run (.closed start)
            (cycles.flatMap Cycle.actions) = some (.closed file) ∧
          ∀ earlier last, cycles = earlier ++ [last] →
            file = some (traceText last.calls) := by
    rcases List.eq_nil_or_concat cycles with rfl | ⟨earlier, last, rfl⟩
    · refine ⟨start, rfl, ?_⟩
      intro earlier last same
      simp at same
    · rw [List.concat_eq_append]
      refine ⟨_, run_cycles start start earlier last, ?_⟩
      intro others other same
      have sameLast := List.append_inj' same rfl
      rw [List.singleton_inj.mp sameLast.2]
  rcases cyclesRun with ⟨file, ran, lastText⟩
  rcases isBegun with rfl | ⟨initId, calls, rfl⟩
  · refine ⟨.closed file, ?_, ?_, ?_⟩
    · rw [List.append_nil]
      exact ran
    · intro earlier last same _
      rw [lastText earlier last same]
    · intro initId calls same
      cases same
  · refine ⟨.writing (traceText calls), ?_, ?_, ?_⟩
    · have logged := run_log start calls []
      have begun :
          (textSystem start).run (.closed file)
              (.logInit initId :: calls.map TextAction.log) =
            some (.writing (traceText calls)) :=
        (textSystem start).run_cons_eq_some.mpr ⟨_, rfl, logged⟩
      exact (textSystem start).run_append_eq_some.mpr ⟨_, ran, begun⟩
    · intro earlier last _ same
      cases same
    · intro otherId others same
      have logInjective : Function.Injective TextAction.log :=
        fun _ _ same => TextAction.log.inj same
      rw [List.map_injective_iff.mpr logInjective (List.cons.inj same).2]

/-! ## The binary trace -/

/-- The calls of a cycle with their times. -/
structure TimedAs (cycle : Cycle) (timed : TimedCycle) : Prop where
  initId : timed.initId = cycle.initId
  exitId : timed.exitId = cycle.exitId
  calls : timed.calls.map TimedCall.call =
    cycle.calls.map LoggedCall.call

theorem length_of_timedAs
    {cycles : List Cycle} {timed : List TimedCycle}
    (same : List.Forall₂ TimedAs cycles timed) :
    (timed.flatMap TimedCycle.calls).length =
      (cycles.flatMap Cycle.calls).length := by
  induction same with
  | nil => rfl
  | cons first _ inductionHypothesis =>
      have lengths := congrArg List.length first.calls
      rw [List.length_map, List.length_map] at lengths
      rw [List.flatMap_cons, List.flatMap_cons, List.length_append,
        List.length_append, lengths, inductionHypothesis]

/-- The calls of a cycle that was begun with their times, and what the library
is asked to do. -/
inductive BegunAs :
    List TextAction → List TimedCall → List (Trace.Action Unit) → Prop
  | nothing : BegunAs [] [] []
  | opened (initId : Int) {calls : List LoggedCall} {timed : List TimedCall}
      (same : timed.map TimedCall.call = calls.map LoggedCall.call) :
      BegunAs (.logInit initId :: calls.map TextAction.log) timed
        (.logInit initId :: timed.flatMap TimedCall.actions)

/-- The binary library is never stuck, also when the process was cut.  When it
was not, the file of thread id 1 has one record for each call, in order and
with its time, exactly when no more than a buffer of them came before the last
cycle; and always when there was a single call from outside. -/
structure BinaryTrace
    (runtime : Trace.Runtime) (clock : Trace.Timespec) (count : Nat)
    (cycles : List Cycle) (begun : List TextAction)
    (timed : List TimedCycle) (rest : List (Trace.Action Unit))
    (final : Trace.Machine Unit) : Prop where
  ran :
    (traceSystem Unit runtime clock).run
        (traceSystem Unit runtime clock).initial
        (timed.flatMap TimedCycle.actions ++ rest) =
      some final
  complete : ∀ earlier last, cycles = earlier ++ [last] → begun = [] →
    ((final.slots 1).file.getD [] =
        records (timed.flatMap TimedCycle.calls) ↔
      (earlier.flatMap Cycle.calls).length ≤ Trace.bufferSize)
  single : count ≤ 1 → begun = [] →
    (final.slots 1).file.getD [] = records (timed.flatMap TimedCycle.calls)

section Binary

variable {runtime : Trace.Runtime} {clock : Trace.Timespec} {count : Nat}

/-- Cycles that are all whole. -/
theorem binaryTrace_of_whole
    (admits : runtime.Admits) {cycles : List Cycle}
    (few : cycles.length ≤ count) {timed : List TimedCycle}
    (same : List.Forall₂ TimedAs cycles timed)
    (inTime : InTime clock (timed.flatMap TimedCycle.calls)) :
    ∃ final, BinaryTrace runtime clock count cycles [] timed [] final := by
  rcases List.eq_nil_or_concat cycles with rfl | ⟨earlier, last, rfl⟩
  · obtain rfl := List.forall₂_nil_left_iff.mp same
    refine ⟨_, rfl, ?_, fun _ _ => rfl⟩
    intro earlier last isNil
    simp at isNil
  · rw [List.concat_eq_append] at same few ⊢
    have front := List.forall₂_take_append timed earlier [last] same.flip
    have back := List.forall₂_drop_append timed earlier [last] same.flip
    rcases List.forall₂_cons_right_iff.mp back with
      ⟨final, none, _, isLast, split⟩
    rw [List.forall₂_nil_right_iff.mp isLast] at split
    have whole := List.take_append_drop earlier.length timed
    rw [split] at whole
    rw [← whole] at inTime ⊢
    rcases Trace.one_thread_trace clock admits _ final inTime with
      ⟨ended, ran, complete⟩
    rw [length_of_timedAs front.flip] at complete
    refine ⟨ended, ?_, ?_, ?_⟩
    · rw [List.append_nil]
      exact ran
    · intro others other isSplit _
      rw [← (List.append_inj' isSplit rfl).1]
      exact complete
    · intro one _
      have noEarlier : earlier = [] := by
        rw [List.length_append, List.length_singleton] at few
        exact List.eq_nil_of_length_eq_zero (by omega)
      refine complete.mpr ?_
      rw [noEarlier]
      exact Nat.zero_le _

theorem exists_binaryTrace
    (admits : runtime.Admits) {cycles : List Cycle}
    (few : cycles.length ≤ count) {begun : List TextAction}
    {timed : List TimedCycle} {later : List TimedCall}
    {rest : List (Trace.Action Unit)}
    (same : List.Forall₂ TimedAs cycles timed)
    (isBegun : BegunAs begun later rest)
    (inTime : InTime clock (timed.flatMap TimedCycle.calls ++ later)) :
    ∃ final,
      BinaryTrace runtime clock count cycles begun timed rest final := by
  cases isBegun with
  | nothing =>
      rw [List.append_nil] at inTime
      exact binaryTrace_of_whole admits few same inTime
  | opened initId _ =>
      rcases Trace.run_begun clock admits timed initId later inTime with
        ⟨final, ran⟩
      refine ⟨final, ran, ?_, ?_⟩
      · intro earlier last _ nothing
        cases nothing
      · intro _ nothing
        cases nothing

end Binary

end Dinamite.Instrument
