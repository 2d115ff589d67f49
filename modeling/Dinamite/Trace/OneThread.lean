import Dinamite.Trace.Completeness

/-!
# A single thread

A program that logs from one thread only: all its records go to one file, one
for each call and in the order of the calls, with the time of the call.
-/

namespace Dinamite.Trace

open Dinamite.BlockLog Dinamite.Transition

universe u

/-! ## One call -/

section Call

variable {Thread : Type u} [DecidableEq Thread]

/-- What a logging call makes of the machine when no other thread runs. -/
def Machine.logging
    (runtime : Runtime) (machine : Machine Thread) (thread : Thread)
    (log : LogCall) : Machine Thread :=
  let filled := machine.gettid runtime thread
  let entry :=
    log.entry filled.1 (dinamiteTimeNanoseconds (some machine.clock))
  let chosen :=
    (filled.2.setPhase thread (.stamped entry)).gettid runtime thread
  ((chosen.2.setPhase thread (.inserting entry chosen.1)).insertOrWrite
    runtime thread entry chosen.1).setPhase thread .idle

theorem setPhase_setPhase
    (machine : Machine Thread) (thread : Thread) (first second : Phase) :
    (machine.setPhase thread first).setPhase thread second =
      machine.setPhase thread second := by
  simp [Machine.setPhase]

theorem run_loggingCall_eq
    (runtime : Runtime) (clock : Timespec) {machine : Machine Thread}
    {thread : Thread} (idle : (machine.threads thread).phase = .idle)
    (log : LogCall) :
    (traceSystem Thread runtime clock).run machine (loggingCall thread log) =
      some (machine.logging runtime thread log) := by
  have sameClock := (machine.gettid_frame runtime thread).2.2.1
  simp only [loggingCall, System.run, traceSystem, step, idle,
    Option.bind_some, Machine.setPhase_self, setPhase_setPhase]
  rw [Machine.logging, ← sameClock]
  rfl

/-- The returned id is the cached one from then on. -/
theorem gettid_tls
    (runtime : Runtime) (machine : Machine Thread) (thread : Thread) :
    ((machine.gettid runtime thread).2.threads thread).tls =
      (machine.gettid runtime thread).1 := by
  by_cases unset : (machine.threads thread).tls = 0
  · rw [Machine.gettid_fresh unset]
    simp [Machine.setTls]
  · rw [Machine.gettid_cached unset]

/-- A call stores one record, under the id of its second `gettid`. -/
theorem logging_stores
    (runtime : Runtime) (machine : Machine Thread) (thread : Thread)
    (log : LogCall) {first second : Int}
    (filled : (machine.gettid runtime thread).1 = first)
    (chosen : ∀ phase,
      (((machine.gettid runtime thread).2.setPhase thread phase).gettid
        runtime thread).1 = second)
    (ok : okTid second = true) :
    let next := machine.logging runtime thread log
    let entry :=
      log.entry first (dinamiteTimeNanoseconds (some machine.clock))
    (next.threads thread).phase = .idle ∧
      (next.threads thread).tls = second ∧
        next.clock = machine.clock ∧
          next.accepted second = machine.accepted second ++ [entry] ∧
            next.slots second =
              (machine.slots second).insertOrWrite bufferSize
                (runtime.malloc second) entry := by
  intro next entry
  let stamped :=
    (machine.gettid runtime thread).2.setPhase thread (.stamped entry)
  let inserting :=
    (stamped.gettid runtime thread).2.setPhase thread
      (.inserting entry second)
  have isNext :
      next =
        (inserting.insertOrWrite runtime thread entry second).setPhase thread
          .idle := by
    simp only [next, Machine.logging, filled, chosen]
    rfl
  have frame := machine.gettid_frame runtime thread
  have stampedFrame := stamped.gettid_frame runtime thread
  have slots : inserting.slots = machine.slots :=
    stampedFrame.1.trans frame.1
  have stores : inserting.stores = machine.stores :=
    stampedFrame.2.1.trans frame.2.1
  have clock : inserting.clock = machine.clock :=
    stampedFrame.2.2.1.trans frame.2.2.1
  have tls : (inserting.threads thread).tls = second := by
    rw [Machine.setPhase_tls, gettid_tls]
    exact chosen _
  rw [isNext]
  refine ⟨Machine.setPhase_self _, ?_, ?_, ?_, ?_⟩
  · rw [Machine.setPhase_tls]
    simpa only [Machine.insertOrWrite, ok, if_true] using tls
  · simp only [Machine.insertOrWrite, ok, if_true]
    exact clock
  · rw [Machine.accepted_setPhase, Machine.accepted_insertOrWrite ok,
      if_pos rfl, Machine.accepted_of_stores stores]
  · simp only [Machine.insertOrWrite, ok, if_true, Machine.setPhase, slots,
      Function.update_self]

end Call

/-! ## The calls of a program -/

/-- A logging call and when it is made. -/
structure TimedCall where
  now : Timespec
  call : LogCall

/-- The clock may have advanced before the call. -/
def TimedCall.actions (timed : TimedCall) : List (Action Unit) :=
  .step (.tick timed.now) :: loggingCall () timed.call

def TimedCall.entry (tid : Int) (timed : TimedCall) : Logentry :=
  timed.call.entry tid (dinamiteTimeNanoseconds (some timed.now))

/-- The records of the calls.  The first call draws id 0 when it fills its
record and id 1 when it stores it. -/
def records : List TimedCall → List Logentry
  | [] => []
  | first :: rest => first.entry 0 :: rest.map (TimedCall.entry 1)

theorem records_append
    (calls : List TimedCall) (timed : TimedCall) :
    records (calls ++ [timed]) =
      records calls ++ [timed.entry (if calls = [] then 0 else 1)] := by
  cases calls with
  | nil => rfl
  | cons first rest => simp [records]

/-- The clock does not go back. -/
def InTime (clock : Timespec) (calls : List TimedCall) : Prop :=
  (clock.nanoseconds :: calls.map fun timed => timed.now.nanoseconds).Pairwise
    (· ≤ ·)

/-- Neither of the first two ids is excluded. -/
def Runtime.Admits (runtime : Runtime) : Prop :=
  runtime.excludeTid 0 = false ∧ runtime.excludeTid 1 = false

/-- The thread has made these calls and is in none. -/
structure Machine.Resting
    (machine : Machine Unit) (calls : List TimedCall) (late : Bool) :
    Prop where
  idle : (machine.threads ()).phase = .idle
  ids : if calls = [] then
      (machine.threads ()).tls = 0 ∧ machine.nextId = 0
    else
      (machine.threads ()).tls = 1
  accepted : machine.accepted 1 = records calls
  surviving : Surviving late (machine.slots 1) (machine.accepted 1)

theorem resting_initial (clock : Timespec) :
    (Machine.initial clock).Resting [] false :=
  ⟨rfl, ⟨rfl, rfl⟩, rfl, Slot.sized_initial bufferSize,
    stage_initial bufferSize⟩

section Program

variable {runtime : Runtime} {machine : Machine Unit}
variable {calls : List TimedCall} {late : Bool}

/-- The ids of a call. -/
theorem Machine.Resting.gettids
    (resting : machine.Resting calls late) (admits : runtime.Admits) :
    (machine.gettid runtime ()).1 = (if calls = [] then 0 else 1) ∧
      ∀ phase,
        (((machine.gettid runtime ()).2.setPhase () phase).gettid runtime
          ()).1 = 1 := by
  have ids := resting.ids
  by_cases first : calls = []
  · rw [if_pos first] at ids ⊢
    have zero : runtime.tidOf machine.nextId = 0 := by
      rw [ids.2, Runtime.tidOf, admits.1]
      rfl
    rw [Machine.gettid_fresh ids.1, zero]
    refine ⟨rfl, fun phase => ?_⟩
    rw [Machine.gettid_fresh (by simp [Machine.setTls])]
    have one : wrapInt (machine.nextId + 1) = 1 := by
      rw [ids.2]
      rfl
    change runtime.tidOf (wrapInt (machine.nextId + 1)) = 1
    rw [one, Runtime.tidOf, admits.2]
    rfl
  · rw [if_neg first] at ids ⊢
    have cached : (machine.threads ()).tls ≠ 0 := by
      rw [ids]
      decide
    rw [Machine.gettid_cached cached, ids]
    refine ⟨rfl, fun phase => ?_⟩
    rw [Machine.gettid_cached (by simp [ids])]
    simp [ids]

theorem run_timedCall
    (clock : Timespec) (resting : machine.Resting calls late)
    (admits : runtime.Admits) {timed : TimedCall}
    (later : machine.clock.nanoseconds ≤ timed.now.nanoseconds) :
    ∃ next,
      (traceSystem Unit runtime clock).run machine timed.actions =
          some next ∧
        next.clock = timed.now ∧ next.Resting (calls ++ [timed]) late := by
  let ticked : Machine Unit := { machine with clock := timed.now }
  have still : ticked.Resting calls late :=
    ⟨resting.idle, resting.ids, resting.accepted, resting.surviving⟩
  have tick :
      (traceSystem Unit runtime clock).step machine
        (.step (.tick timed.now)) = some ticked := by
    simp only [traceSystem, step, if_pos later, ticked]
  have ids := still.gettids admits
  have stored :=
    logging_stores runtime ticked () timed.call ids.1 ids.2 (by decide)
  refine ⟨ticked.logging runtime () timed.call, ?_, stored.2.2.1, ?_⟩
  · exact (System.run_cons_eq_some _).mpr
      ⟨ticked, tick, run_loggingCall_eq runtime clock still.idle timed.call⟩
  · refine ⟨stored.1, ?_, ?_, ?_⟩
    · rw [if_neg (by simp)]
      exact stored.2.1
    · rw [stored.2.2.2.1, still.accepted, records_append]
      rfl
    · rw [stored.2.2.2.1, stored.2.2.2.2]
      exact surviving_insertOrWrite late _ _ _ _ still.surviving

theorem InTime.front
    {clock : Timespec} {front back : List TimedCall}
    (inTime : InTime clock (front ++ back)) : InTime clock front := by
  refine List.Pairwise.sublist ?_ inTime
  rw [List.map_append]
  exact (List.sublist_append_left _ _).cons_cons _

theorem InTime.tail
    {clock : Timespec} {timed : TimedCall} {rest : List TimedCall}
    (inTime : InTime clock (timed :: rest)) : InTime timed.now rest :=
  (List.pairwise_cons.mp inTime).2

theorem run_timedCalls
    (clock : Timespec) (resting : machine.Resting calls late)
    (admits : runtime.Admits) {more : List TimedCall}
    (inTime : InTime machine.clock more) :
    ∃ next,
      (traceSystem Unit runtime clock).run machine
          (more.flatMap TimedCall.actions) = some next ∧
        next.Resting (calls ++ more) late ∧
          ∀ after, InTime machine.clock (more ++ after) →
            InTime next.clock after := by
  induction more generalizing machine calls with
  | nil => exact ⟨machine, rfl, by rwa [List.append_nil], fun _ same => same⟩
  | cons timed rest inductionHypothesis =>
      have notBefore := (List.pairwise_cons.mp inTime).1 _ List.mem_cons_self
      rcases run_timedCall clock resting admits notBefore with
        ⟨middle, ran, atMiddle, restingMiddle⟩
      have laterOnes : InTime middle.clock rest := by
        rw [atMiddle]
        exact inTime.tail
      rcases inductionHypothesis restingMiddle laterOnes with
        ⟨next, continued, restingNext, after⟩
      refine ⟨next, ?_, ?_, ?_⟩
      · rw [List.flatMap_cons]
        exact (System.run_append_eq_some _).mpr ⟨middle, ran, continued⟩
      · rwa [List.append_assoc] at restingNext
      · intro others whole
        refine after others ?_
        rw [atMiddle]
        exact whole.tail

/-! ## Cycles -/

/-- `logInit`, logging calls with their times, and `logExit`. -/
structure TimedCycle where
  initId : Int
  calls : List TimedCall
  exitId : Int

def TimedCycle.actions (cycle : TimedCycle) : List (Action Unit) :=
  .logInit cycle.initId ::
    (cycle.calls.flatMap TimedCall.actions ++ [.logExit cycle.exitId])

theorem length_records (calls : List TimedCall) :
    (records calls).length = calls.length := by
  cases calls <;> simp [records]

/-- The exit comes late when it finds more than a buffer of records. -/
theorem Machine.Resting.logExit (resting : machine.Resting calls late) :
    machine.logExit.Resting calls
      (late || decide (bufferSize < calls.length)) := by
  have closed := surviving_exit resting.surviving
  refine ⟨resting.idle, resting.ids, resting.accepted, ?_⟩
  rw [Machine.logExit_slots, if_pos (by decide), Machine.accepted_logExit]
  rwa [resting.accepted, length_records, ← resting.accepted] at closed

/-- Up to the exit of a cycle. -/
theorem run_untilExit
    (clock : Timespec) (resting : machine.Resting calls late)
    (admits : runtime.Admits) {cycle : TimedCycle}
    (inTime : InTime machine.clock cycle.calls) :
    ∃ next : Machine Unit,
      (traceSystem Unit runtime clock).run machine cycle.actions =
          some next.logExit ∧
        next.Resting (calls ++ cycle.calls) late ∧
          ∀ after, InTime machine.clock (cycle.calls ++ after) →
            InTime next.clock after := by
  rcases run_timedCalls clock resting admits inTime with
    ⟨next, ran, restingNext, after⟩
  have exited :
      (traceSystem Unit runtime clock).run next [.logExit cycle.exitId] =
        some next.logExit := by
    simp only [System.run, traceSystem, Option.bind_some]
  refine ⟨next, ?_, restingNext, after⟩
  have continued := (System.run_append_eq_some _).mpr ⟨next, ran, exited⟩
  exact (System.run_cons_eq_some _).mpr ⟨machine, rfl, continued⟩

/-- Whole cycles; the flag is about the exit that found most records, which is
the last one. -/
theorem run_timedCycles
    (clock : Timespec)
    (resting : machine.Resting calls (decide (bufferSize < calls.length)))
    (admits : runtime.Admits) {cycles : List TimedCycle}
    (inTime : InTime machine.clock (cycles.flatMap TimedCycle.calls)) :
    let all := calls ++ cycles.flatMap TimedCycle.calls
    ∃ next,
      (traceSystem Unit runtime clock).run machine
          (cycles.flatMap TimedCycle.actions) = some next ∧
        next.Resting all (decide (bufferSize < all.length)) ∧
          ∀ after,
            InTime machine.clock
                (cycles.flatMap TimedCycle.calls ++ after) →
              InTime next.clock after := by
  induction cycles generalizing machine calls with
  | nil =>
      exact ⟨machine, rfl, by simpa using resting, fun _ same => same⟩
  | cons cycle rest inductionHypothesis =>
      rw [List.flatMap_cons] at inTime
      rcases run_untilExit clock resting admits inTime.front with
        ⟨middle, ran, restingMiddle, after⟩
      have closed := restingMiddle.logExit
      have late :
          (decide (bufferSize < calls.length) ||
              decide (bufferSize < (calls ++ cycle.calls).length)) =
            decide (bufferSize < (calls ++ cycle.calls).length) := by
        rw [← Bool.decide_or, List.length_append]
        exact decide_eq_decide.mpr (by omega)
      rw [late] at closed
      rcases inductionHypothesis closed (after _ inTime) with
        ⟨next, continued, restingNext, afterAll⟩
      refine ⟨next, ?_, ?_, ?_⟩
      · rw [List.flatMap_cons]
        exact (System.run_append_eq_some _).mpr ⟨_, ran, continued⟩
      · rw [List.flatMap_cons, ← List.append_assoc]
        exact restingNext
      · intro others whole
        refine afterAll others (after _ ?_)
        rwa [List.flatMap_cons, List.append_assoc] at whole

/-- Whole cycles and one that goes on are never stuck. -/
theorem run_begun
    (clock : Timespec) (admits : runtime.Admits) (cycles : List TimedCycle)
    (initId : Int) (begun : List TimedCall)
    (inTime : InTime clock (cycles.flatMap TimedCycle.calls ++ begun)) :
    ∃ final,
      (traceSystem Unit runtime clock).run
          (traceSystem Unit runtime clock).initial
          (cycles.flatMap TimedCycle.actions ++
            .logInit initId :: begun.flatMap TimedCall.actions) =
        some final := by
  rcases run_timedCycles clock (resting_initial clock) admits
      inTime.front with
    ⟨middle, ran, resting, after⟩
  rcases run_timedCalls clock resting admits (after _ inTime) with
    ⟨final, continued, _, _⟩
  have opened :
      (traceSystem Unit runtime clock).run middle
          (.logInit initId :: begun.flatMap TimedCall.actions) =
        some final :=
    (System.run_cons_eq_some _).mpr ⟨middle, rfl, continued⟩
  exact ⟨final, (System.run_append_eq_some _).mpr ⟨middle, ran, opened⟩⟩

/-- The file of a single thread has one record for each call, in order, when
no exit but the last came after more records than a buffer holds. -/
theorem one_thread_trace
    (clock : Timespec) (admits : runtime.Admits)
    (earlier : List TimedCycle) (last : TimedCycle)
    (inTime :
      InTime clock ((earlier ++ [last]).flatMap TimedCycle.calls)) :
    ∃ final,
      (traceSystem Unit runtime clock).run
          (traceSystem Unit runtime clock).initial
          ((earlier ++ [last]).flatMap TimedCycle.actions) = some final ∧
        ((final.slots 1).file.getD [] =
            records ((earlier ++ [last]).flatMap TimedCycle.calls) ↔
          (earlier.flatMap TimedCycle.calls).length ≤ bufferSize) := by
  have whole :
      InTime clock (earlier.flatMap TimedCycle.calls ++ last.calls) := by
    simpa using inTime
  rcases run_timedCycles clock (resting_initial clock) admits
      whole.front with
    ⟨middle, ran, restingMiddle, after⟩
  rw [List.nil_append] at restingMiddle
  rcases run_untilExit clock restingMiddle admits (after _ whole) with
    ⟨next, lastRan, restingNext, _⟩
  refine ⟨next.logExit, ?_, ?_⟩
  · rw [List.flatMap_append, List.flatMap_singleton]
    exact (System.run_append_eq_some _).mpr ⟨middle, ran, lastRan⟩
  · have usable : 0 ≤ (1 : Int) ∧ (1 : Int) < maxThreads := by decide
    let one : UsableTid := ⟨1, usable⟩
    have surviving :
        Surviving _ (next.slots one) (next.accepted one) :=
      restingNext.surviving
    have complete := contents_logExit_iff surviving
    rw [restingNext.accepted] at complete
    rw [List.flatMap_append, List.flatMap_singleton, complete,
      decide_eq_false_iff_not, not_lt]

end Program

end Dinamite.Trace
