import Dinamite.Trace.Records
import Dinamite.Trace.Slots
import Dinamite.Transition

/-!
# Threads that log

The binary back end as a machine: any number of threads call the logging
functions, every call is cut into the steps between which another thread may
run, and the clock advances in between.  A store touches one slot only and is
one step.
-/

namespace Dinamite.Trace

open Dinamite.Transition

universe u

def maxThreads : Int := 128

def bufferSize : Nat := 4 * 4096

/-- The environment of the program: which ids `DINAMITE_EXCLUDE_TID` excludes,
and what a fresh buffer holds. -/
structure Runtime where
  excludeTid : Int → Bool
  malloc : Int → Nat → Logentry

/-- The thread id a drawn id becomes: an invalid one if it is excluded. -/
def Runtime.tidOf (runtime : Runtime) (id : Int) : Int :=
  if runtime.excludeTid id then maxThreads else id

/-- Where a thread stands in a logging call: the fill function has the thread
id; the record is complete; `insertOrWrite` has the thread id. -/
inductive Phase where
  | idle
  | filled (call : LogCall) (tid : Int)
  | stamped (entry : Logentry)
  | inserting (entry : Logentry) (tid : Int)

/-- `tls` is the value of the thread-local key, 0 while it is unset. -/
structure ThreadState where
  tls : Int := 0
  phase : Phase := .idle

/-- A record that `insertOrWrite` accepted. -/
structure Stored (Thread : Type u) where
  thread : Thread
  tid : Int
  entry : Logentry

/-- The last three components are histories, oldest entry first: the ids
`__dinamite_get_next_id` handed out, the results of `__dinamite_gettid`, and
the records stored. -/
structure Machine (Thread : Type u) where
  nextId : Int
  threads : Thread → ThreadState
  clock : Timespec
  slots : Int → Slot Logentry
  drawn : List (Thread × Int)
  gettids : List (Thread × Int)
  stores : List (Stored Thread)

/-- Assignment to an `int`. -/
def wrapInt (value : Int) : Int :=
  (BitVec.ofInt 32 value).toInt

def okTid (tid : Int) : Bool :=
  !decide (tid > maxThreads - 1)

inductive Step (Thread : Type u) where
  | call (thread : Thread) (log : LogCall)
  | stamp (thread : Thread)
  | choose (thread : Thread)
  | store (thread : Thread)
  | tick (now : Timespec)

inductive Action (Thread : Type u) where
  | step (step : Step Thread)
  | logInit (functionId : Int)
  | logExit (functionId : Int)

namespace Machine

variable {Thread : Type u}

/-- The records accepted for a thread id, in order. -/
def accepted [DecidableEq Thread]
    (machine : Machine Thread) (tid : Int) : List Logentry :=
  (machine.stores.filter fun stored => stored.tid = tid).map Stored.entry

variable [DecidableEq Thread]

def setPhase
    (machine : Machine Thread) (thread : Thread) (phase : Phase) :
    Machine Thread :=
  { machine with
    threads := Function.update machine.threads thread
      { machine.threads thread with phase := phase } }

def setTls
    (machine : Machine Thread) (thread : Thread) (tid : Int) :
    Machine Thread :=
  { machine with
    threads := Function.update machine.threads thread
      { machine.threads thread with tls := tid } }

/-- `next_id++` under the mutex. -/
def getNextId (machine : Machine Thread) (thread : Thread) :
    Int × Machine Thread :=
  (machine.nextId,
    { machine with
      nextId := wrapInt (machine.nextId + 1)
      drawn := machine.drawn ++ [(thread, machine.nextId)] })

def gettid
    (runtime : Runtime) (machine : Machine Thread) (thread : Thread) :
    Int × Machine Thread :=
  let cached := (machine.threads thread).tls
  if cached = 0 then
    let next := machine.getNextId thread
    let tid := runtime.tidOf next.1
    (tid,
      { next.2.setTls thread tid with
        gettids := machine.gettids ++ [(thread, tid)] })
  else
    (cached,
      { machine with gettids := machine.gettids ++ [(thread, cached)] })

/-- The store of `insertOrWrite`; records for invalid ids are dropped. -/
def insertOrWrite
    (runtime : Runtime) (machine : Machine Thread) (thread : Thread)
    (entry : Logentry) (tid : Int) : Machine Thread :=
  if okTid tid then
    { machine with
      slots := Function.update machine.slots tid
        ((machine.slots tid).insertOrWrite bufferSize
          (runtime.malloc tid) entry)
      stores := machine.stores ++ [⟨thread, tid, entry⟩] }
  else
    machine

/-- The loop over all thread ids. -/
def logExit (machine : Machine Thread) : Machine Thread :=
  { machine with
    slots := (List.range maxThreads.toNat).foldl
      (fun slots (tid : Nat) =>
        Function.update slots (tid : Int) (slots tid).exit)
      machine.slots }

/-- Before the program starts. -/
def initial (clock : Timespec) : Machine Thread where
  nextId := 0
  threads := fun _ => {}
  clock := clock
  slots := fun _ => .initial
  drawn := []
  gettids := []
  stores := []

end Machine

section Systems

variable {Thread : Type u} [DecidableEq Thread]

/-- One step of a logging call, or of the clock. -/
def step (runtime : Runtime) (machine : Machine Thread) :
    Step Thread → Option (Machine Thread)
  | .call thread log =>
      match (machine.threads thread).phase with
      | .idle =>
          let found := machine.gettid runtime thread
          some (found.2.setPhase thread (.filled log found.1))
      | _ => none
  | .stamp thread =>
      match (machine.threads thread).phase with
      | .filled log tid =>
          let now := dinamiteTimeNanoseconds (some machine.clock)
          some (machine.setPhase thread (.stamped (log.entry tid now)))
      | _ => none
  | .choose thread =>
      match (machine.threads thread).phase with
      | .stamped entry =>
          let found := machine.gettid runtime thread
          some (found.2.setPhase thread (.inserting entry found.1))
      | _ => none
  | .store thread =>
      match (machine.threads thread).phase with
      | .inserting entry tid =>
          some ((machine.insertOrWrite runtime thread entry tid).setPhase
            thread .idle)
      | _ => none
  | .tick now =>
      if machine.clock.nanoseconds ≤ now.nanoseconds then
        some { machine with clock := now }
      else
        none

/-- Threads that log, and nothing else. -/
def loggingSystem
    (Thread : Type u) [DecidableEq Thread]
    (runtime : Runtime) (clock : Timespec) :
    System (Machine Thread) (Step Thread) where
  initial := .initial clock
  step := step runtime

/-- Threads that log, with calls of `logInit` and `logExit` in between. -/
def traceSystem
    (Thread : Type u) [DecidableEq Thread]
    (runtime : Runtime) (clock : Timespec) :
    System (Machine Thread) (Action Thread) where
  initial := .initial clock
  step := fun machine action =>
    match action with
    | .step taken => step runtime machine taken
    | .logInit _ => some machine
    | .logExit _ => some machine.logExit

end Systems

/-! ## What one step does -/

section Steps

variable {Thread : Type u} [DecidableEq Thread]

/-- Every way a step can go. -/
inductive Outcome (runtime : Runtime) (machine : Machine Thread) :
    Step Thread → Machine Thread → Prop
  | call {thread : Thread} {log : LogCall}
      (idle : (machine.threads thread).phase = .idle) :
      Outcome runtime machine (.call thread log)
        ((machine.gettid runtime thread).2.setPhase thread
          (.filled log (machine.gettid runtime thread).1))
  | stamp {thread : Thread} {log : LogCall} {tid : Int}
      (filled : (machine.threads thread).phase = .filled log tid) :
      Outcome runtime machine (.stamp thread)
        (machine.setPhase thread (.stamped (log.entry tid
          (dinamiteTimeNanoseconds (some machine.clock)))))
  | choose {thread : Thread} {entry : Logentry}
      (stamped : (machine.threads thread).phase = .stamped entry) :
      Outcome runtime machine (.choose thread)
        ((machine.gettid runtime thread).2.setPhase thread
          (.inserting entry (machine.gettid runtime thread).1))
  | store {thread : Thread} {entry : Logentry} {tid : Int}
      (inserting :
        (machine.threads thread).phase = .inserting entry tid) :
      Outcome runtime machine (.store thread)
        ((machine.insertOrWrite runtime thread entry tid).setPhase
          thread .idle)
  | tick {now : Timespec}
      (later : machine.clock.nanoseconds ≤ now.nanoseconds) :
      Outcome runtime machine (.tick now) { machine with clock := now }

theorem outcome_of_step
    {runtime : Runtime} {machine next : Machine Thread}
    {taken : Step Thread}
    (stepped : step runtime machine taken = some next) :
    Outcome runtime machine taken next := by
  cases taken with
  | call thread log =>
      simp only [step] at stepped
      split at stepped
      · rename_i idle
        obtain rfl := Option.some.inj stepped
        exact .call idle
      · cases stepped
  | stamp thread =>
      simp only [step] at stepped
      split at stepped
      · rename_i log tid filled
        obtain rfl := Option.some.inj stepped
        exact .stamp filled
      · cases stepped
  | choose thread =>
      simp only [step] at stepped
      split at stepped
      · rename_i entry stamped
        obtain rfl := Option.some.inj stepped
        exact .choose stamped
      · cases stepped
  | store thread =>
      simp only [step] at stepped
      split at stepped
      · rename_i entry tid inserting
        obtain rfl := Option.some.inj stepped
        exact .store inserting
      · cases stepped
  | tick now =>
      simp only [step] at stepped
      split at stepped
      · rename_i later
        obtain rfl := Option.some.inj stepped
        exact .tick later
      · cases stepped

namespace Machine

variable {runtime : Runtime} {machine : Machine Thread} {thread : Thread}

@[simp]
theorem setPhase_self (phase : Phase) :
    ((machine.setPhase thread phase).threads thread).phase = phase := by
  simp [setPhase]

theorem setPhase_of_ne
    {other : Thread} (different : other ≠ thread) (phase : Phase) :
    (machine.setPhase thread phase).threads other =
      machine.threads other := by
  simp [setPhase, different]

@[simp]
theorem setPhase_tls (phase : Phase) (other : Thread) :
    ((machine.setPhase thread phase).threads other).tls =
      (machine.threads other).tls := by
  by_cases same : other = thread
  · subst same
    simp [setPhase]
  · rw [setPhase_of_ne same]

/-- The cached id is returned again. -/
theorem gettid_cached
    (cached : (machine.threads thread).tls ≠ 0) :
    machine.gettid runtime thread =
      ((machine.threads thread).tls,
        { machine with
          gettids := machine.gettids ++
            [(thread, (machine.threads thread).tls)] }) := by
  simp [gettid, cached]

/-- Without a cached id the next one is drawn and cached. -/
theorem gettid_fresh
    (unset : (machine.threads thread).tls = 0) :
    machine.gettid runtime thread =
      (runtime.tidOf machine.nextId,
        { (machine.getNextId thread).2.setTls thread
            (runtime.tidOf machine.nextId) with
          gettids := machine.gettids ++
            [(thread, runtime.tidOf machine.nextId)] }) := by
  simp [gettid, unset, getNextId]

/-- `gettid` only looks after ids. -/
theorem gettid_frame
    (runtime : Runtime) (machine : Machine Thread) (thread : Thread) :
    (machine.gettid runtime thread).2.slots = machine.slots ∧
      (machine.gettid runtime thread).2.stores = machine.stores ∧
        (machine.gettid runtime thread).2.clock = machine.clock ∧
          ∀ other, ((machine.gettid runtime thread).2.threads other).phase =
            (machine.threads other).phase := by
  by_cases unset : (machine.threads thread).tls = 0
  · rw [gettid_fresh unset]
    refine ⟨rfl, rfl, rfl, ?_⟩
    intro other
    by_cases same : other = thread
    · subst same
      simp [getNextId, setTls]
    · simp [getNextId, setTls, same]
  · rw [gettid_cached unset]
    exact ⟨rfl, rfl, rfl, fun _ => rfl⟩

theorem gettid_gettids
    (runtime : Runtime) (machine : Machine Thread) (thread : Thread) :
    (machine.gettid runtime thread).2.gettids =
      machine.gettids ++ [(thread, (machine.gettid runtime thread).1)] := by
  by_cases unset : (machine.threads thread).tls = 0
  · rw [gettid_fresh unset]
  · rw [gettid_cached unset]

end Machine

end Steps

end Dinamite.Trace
