import Dinamite.Trace.Completeness
import Dinamite.Trace.ThreadIds

/-!
# Who writes a trace file, and what its records say

A record stores a thread id that its thread was given when the fill function
asked, and goes to the buffer of one it was given when `insertOrWrite` asked.
The invariant below keeps both, and the time, for records on their way and
records stored.
-/

namespace Dinamite.Trace

open Dinamite.BlockLog Dinamite.Transition

universe u

section Histories

variable {Thread : Type u} [DecidableEq Thread]
variable {runtime : Runtime} {clock : Timespec}
variable {machine next : Machine Thread}

namespace Machine

omit [DecidableEq Thread] in
/-- The record stores a thread id its thread was given. -/
def Attributed
    (machine : Machine Thread) (thread : Thread) (entry : Logentry) :
    Prop :=
  ∃ tid, (thread, tid) ∈ machine.gettids ∧ entry.threadId = toChar tid

/-- The record is the thread's latest. -/
structure Latest
    (machine : Machine Thread) (thread : Thread) (entry : Logentry) :
    Prop where
  attributed : machine.Attributed thread entry
  past : entry.timestamp.toNat ≤ machine.clock.nanoseconds
  after :
    ∀ stored ∈ machine.stores, stored.thread = thread →
      stored.entry.timestamp ≤ entry.timestamp

/-- What a thread has in hand between the steps of a call. -/
def InHand (machine : Machine Thread) (thread : Thread) : Phase → Prop
  | .idle => True
  | .filled _ tid => (thread, tid) ∈ machine.gettids
  | .stamped entry => machine.Latest thread entry
  | .inserting entry tid =>
      machine.Latest thread entry ∧ (thread, tid) ∈ machine.gettids

end Machine

/-- A record in a buffer: its place, its thread id and its time. -/
structure Filed
    (machine : Machine Thread) (stored : Stored Thread) : Prop where
  ok : okTid stored.tid = true
  given : (stored.thread, stored.tid) ∈ machine.gettids
  attributed : machine.Attributed stored.thread stored.entry
  past : stored.entry.timestamp.toNat ≤ machine.clock.nanoseconds

structure Orderly (machine : Machine Thread) : Prop where
  inHand :
    ∀ thread, machine.InHand thread (machine.threads thread).phase
  filed : ∀ stored ∈ machine.stores, Filed machine stored
  sorted :
    machine.stores.Pairwise fun earlier later =>
      earlier.thread = later.thread →
        earlier.entry.timestamp ≤ later.entry.timestamp

omit [DecidableEq Thread] in
theorem orderly_initial (clock : Timespec) :
    Orderly (Machine.initial clock : Machine Thread) :=
  ⟨fun _ => trivial, List.forall_mem_nil _, List.Pairwise.nil⟩

/-- No thread id given is taken back, and the clock does not go back. -/
structure Later (machine next : Machine Thread) : Prop where
  gettids : ∀ result ∈ machine.gettids, result ∈ next.gettids
  clock : machine.clock.nanoseconds ≤ next.clock.nanoseconds

/-- Nothing is stored, and nothing known is lost. -/
structure Quiet (machine next : Machine Thread) : Prop where
  stores : next.stores = machine.stores
  gettids : ∀ result ∈ machine.gettids, result ∈ next.gettids
  clock : machine.clock.nanoseconds ≤ next.clock.nanoseconds

omit [DecidableEq Thread] in
theorem Quiet.of_same
    (stores : next.stores = machine.stores)
    (gettids : next.gettids = machine.gettids)
    (clock : next.clock = machine.clock) :
    Quiet machine next := by
  refine ⟨stores, ?_, ?_⟩
  · intro result member
    rw [gettids]
    exact member
  · rw [clock]

/-- `__dinamite_gettid`, whatever the thread does with the result. -/
theorem quiet_gettid (thread : Thread) (phase : Phase) :
    Quiet machine
      ((machine.gettid runtime thread).2.setPhase thread phase) := by
  have frame := Machine.gettid_frame runtime machine thread
  refine ⟨frame.2.1, ?_, ?_⟩
  · intro result member
    have grown := Machine.gettid_gettids runtime machine thread
    show result ∈ (machine.gettid runtime thread).2.gettids
    rw [grown]
    exact List.mem_append_left _ member
  · show _ ≤ (machine.gettid runtime thread).2.clock.nanoseconds
    rw [frame.2.2.1]

theorem given_gettid (thread : Thread) (phase : Phase) :
    (thread, (machine.gettid runtime thread).1) ∈
      ((machine.gettid runtime thread).2.setPhase thread phase).gettids := by
  have grown := Machine.gettid_gettids runtime machine thread
  show _ ∈ (machine.gettid runtime thread).2.gettids
  rw [grown]
  exact List.mem_append_right _ List.mem_cons_self

section Quiet

omit [DecidableEq Thread]

theorem Later.attributed
    (later : Later machine next) {thread : Thread} {entry : Logentry}
    (attributed : machine.Attributed thread entry) :
    next.Attributed thread entry := by
  rcases attributed with ⟨tid, given, signed⟩
  exact ⟨tid, later.gettids _ given, signed⟩

theorem Later.filed
    (later : Later machine next) {stored : Stored Thread}
    (filed : Filed machine stored) :
    Filed next stored :=
  ⟨filed.ok, later.gettids _ filed.given, later.attributed filed.attributed,
    filed.past.trans later.clock⟩

theorem Quiet.later (quiet : Quiet machine next) : Later machine next :=
  ⟨quiet.gettids, quiet.clock⟩

theorem Quiet.latest
    (quiet : Quiet machine next) {thread : Thread} {entry : Logentry}
    (latest : machine.Latest thread entry) :
    next.Latest thread entry := by
  refine ⟨quiet.later.attributed latest.attributed,
    latest.past.trans quiet.clock, ?_⟩
  rw [quiet.stores]
  exact latest.after

theorem Quiet.inHand
    (quiet : Quiet machine next) {thread : Thread} {phase : Phase}
    (inHand : machine.InHand thread phase) :
    next.InHand thread phase := by
  cases phase with
  | idle => trivial
  | filled log tid => exact quiet.gettids _ inHand
  | stamped entry => exact quiet.latest inHand
  | inserting entry tid =>
      exact ⟨quiet.latest inHand.1, quiet.gettids _ inHand.2⟩

/-- A quiet step keeps the histories in order if every thread it moves has the
right thing in hand. -/
theorem Orderly.quiet
    (orderly : Orderly machine) (quiet : Quiet machine next)
    (moved :
      ∀ thread,
        (next.threads thread).phase = (machine.threads thread).phase ∨
          next.InHand thread (next.threads thread).phase) :
    Orderly next := by
  refine ⟨?_, ?_, ?_⟩
  · intro thread
    rcases moved thread with same | ready
    · rw [same]
      exact quiet.inHand (orderly.inHand thread)
    · exact ready
  · intro stored member
    rw [quiet.stores] at member
    exact quiet.later.filed (orderly.filed stored member)
  · rw [quiet.stores]
    exact orderly.sorted

end Quiet

/-- Moving one thread of a machine to a phase it is ready for. -/
theorem moved_setPhase
    {reached : Machine Thread} {thread : Thread} {phase : Phase}
    (unmoved :
      ∀ other,
        (reached.threads other).phase = (machine.threads other).phase)
    (ready : (reached.setPhase thread phase).InHand thread phase) :
    ∀ other,
      ((reached.setPhase thread phase).threads other).phase =
          (machine.threads other).phase ∨
        (reached.setPhase thread phase).InHand other
          ((reached.setPhase thread phase).threads other).phase := by
  intro other
  by_cases same : other = thread
  · subst same
    rw [Machine.setPhase_self]
    exact Or.inr ready
  · rw [Machine.setPhase_of_ne same]
    exact Or.inl (unmoved other)

/-! ### The store -/

section Store

variable {thread : Thread} {entry : Logentry} {tid : Int}

theorem stores_of_store (ok : okTid tid = true) :
    ((machine.insertOrWrite runtime thread entry tid).setPhase thread
        .idle).stores =
      machine.stores ++ [⟨thread, tid, entry⟩] := by
  simp [Machine.setPhase, Machine.insertOrWrite, ok]

theorem later_of_store (ok : okTid tid = true) :
    Later machine
      ((machine.insertOrWrite runtime thread entry tid).setPhase thread
        .idle) := by
  refine ⟨?_, ?_⟩
  · intro result member
    simpa [Machine.setPhase, Machine.insertOrWrite, ok] using member
  · simp [Machine.setPhase, Machine.insertOrWrite, ok]

omit [DecidableEq Thread] in
/-- A record in another thread's hand is later than that thread's own stores
only. -/
theorem Machine.Latest.of_store
    {other : Thread} {record : Logentry}
    (latest : machine.Latest other record) (later : Later machine next)
    (stores : next.stores = machine.stores ++ [⟨thread, tid, entry⟩])
    (different : other ≠ thread) :
    next.Latest other record := by
  refine ⟨later.attributed latest.attributed,
    latest.past.trans later.clock, ?_⟩
  intro stored member isOther
  rw [stores] at member
  rcases List.mem_append.mp member with before | last
  · exact latest.after stored before isOther
  · rw [List.mem_singleton.mp last] at isOther
    exact absurd isOther.symm different

omit [DecidableEq Thread] in
theorem Machine.InHand.of_store
    {other : Thread} {phase : Phase}
    (inHand : machine.InHand other phase) (later : Later machine next)
    (stores : next.stores = machine.stores ++ [⟨thread, tid, entry⟩])
    (different : other ≠ thread) :
    next.InHand other phase := by
  cases phase with
  | idle => trivial
  | filled log asked => exact later.gettids _ inHand
  | stamped record =>
      exact Machine.Latest.of_store inHand later stores different
  | inserting record asked =>
      exact ⟨inHand.1.of_store later stores different,
        later.gettids _ inHand.2⟩

theorem Orderly.store
    (orderly : Orderly machine)
    (inserting : (machine.threads thread).phase = .inserting entry tid)
    (ok : okTid tid = true) :
    Orderly
      ((machine.insertOrWrite runtime thread entry tid).setPhase thread
        .idle) := by
  have hand := orderly.inHand thread
  rw [inserting] at hand
  have latest : machine.Latest thread entry := hand.1
  have filed : Filed machine ⟨thread, tid, entry⟩ :=
    ⟨ok, hand.2, latest.attributed, latest.past⟩
  let after :=
    (machine.insertOrWrite runtime thread entry tid).setPhase thread .idle
  have later : Later machine after := later_of_store ok
  have stores : after.stores = machine.stores ++ [⟨thread, tid, entry⟩] :=
    stores_of_store ok
  refine ⟨?_, ?_, ?_⟩
  · intro other
    by_cases same : other = thread
    · subst same
      rw [Machine.setPhase_self]
      trivial
    · have threads :
          (machine.insertOrWrite runtime thread entry tid).threads =
            machine.threads := by
        simp [Machine.insertOrWrite, ok]
      rw [Machine.setPhase_of_ne same, threads]
      exact (orderly.inHand other).of_store later stores same
  · intro stored member
    have grown : stored ∈ machine.stores ++ [⟨thread, tid, entry⟩] := by
      rw [← stores]
      exact member
    rcases List.mem_append.mp grown with before | last
    · exact later.filed (orderly.filed stored before)
    · rw [List.mem_singleton.mp last]
      exact later.filed filed
  · show after.stores.Pairwise _
    rw [stores]
    refine List.pairwise_append.mpr
      ⟨orderly.sorted, List.pairwise_singleton _ _, ?_⟩
    intro earlier member later last
    rw [List.mem_singleton.mp last]
    exact latest.after earlier member

end Store

theorem orderly_of_outcome
    {taken : Step Thread} (outcome : Outcome runtime machine taken next)
    (orderly : Orderly machine) :
    Orderly next := by
  cases outcome with
  | @call thread log idle =>
      have unmoved := (Machine.gettid_frame runtime machine thread).2.2.2
      refine orderly.quiet (quiet_gettid thread _)
        (moved_setPhase unmoved ?_)
      exact given_gettid thread _
  | @stamp thread log tid filled =>
      have given := orderly.inHand thread
      rw [filled] at given
      refine orderly.quiet (Quiet.of_same rfl rfl rfl)
        (moved_setPhase (fun _ => rfl) ?_)
      refine ⟨⟨tid, given, entry_threadId log tid _⟩, ?_, ?_⟩
      · rw [entry_timestamp, dinamiteTimeNanoseconds_toNat]
        exact le_refl _
      · intro stored member _
        rw [entry_timestamp, BitVec.le_def, dinamiteTimeNanoseconds_toNat]
        exact (orderly.filed stored member).past
  | @choose thread entry stamped =>
      have unmoved := (Machine.gettid_frame runtime machine thread).2.2.2
      have latest := orderly.inHand thread
      rw [stamped] at latest
      have quiet :
          Quiet machine
            ((machine.gettid runtime thread).2.setPhase thread
              (.inserting entry (machine.gettid runtime thread).1)) :=
        quiet_gettid thread _
      refine orderly.quiet quiet (moved_setPhase unmoved ?_)
      exact ⟨quiet.latest latest, given_gettid thread _⟩
  | @store thread entry tid inserting =>
      cases ok : okTid tid with
      | true => exact orderly.store inserting ok
      | false =>
          have dropped :
              machine.insertOrWrite runtime thread entry tid = machine := by
            simp [Machine.insertOrWrite, ok]
          rw [dropped]
          exact orderly.quiet (Quiet.of_same rfl rfl rfl)
            (moved_setPhase (fun _ => rfl) trivial)
  | tick later =>
      refine orderly.quiet ⟨rfl, fun _ known => known, later⟩ ?_
      exact fun _ => Or.inl rfl

theorem orderly_of_execution
    (execution : Execution (traceSystem Thread runtime clock)) :
    Orderly execution.final := by
  refine (traceSystem Thread runtime clock).run_invariant Orderly ?_
    execution.valid (orderly_initial clock)
  intro machine action next stepped orderly
  cases action with
  | step taken => exact orderly_of_outcome (outcome_of_step stepped) orderly
  | logInit functionId =>
      obtain rfl := Option.some.inj stepped
      exact orderly
  | logExit functionId =>
      obtain rfl := Option.some.inj stepped
      exact orderly.quiet (Quiet.of_same rfl rfl rfl)
        (fun _ => Or.inl rfl)

/-! ## One writer per file -/

/-- Two threads never store to one buffer, stores stay inside the arrays, and
the records of a file are in the order of their time. -/
structure OneWriter (machine : Machine Thread) : Prop where
  writer :
    ∀ first ∈ machine.stores, ∀ second ∈ machine.stores,
      first.tid = second.tid → first.thread = second.thread
  inside :
    ∀ stored ∈ machine.stores, 0 ≤ stored.tid ∧ stored.tid < maxThreads
  sorted :
    ∀ tid : UsableTid,
      ((machine.slots tid).file.getD []).Pairwise fun earlier later =>
        earlier.timestamp ≤ later.timestamp

/-- The records accepted for a thread id are in the order of their time, once
they are all one thread's. -/
theorem accepted_sorted
    (orderly : Orderly machine)
    (writer :
      ∀ first ∈ machine.stores, ∀ second ∈ machine.stores,
        first.tid = second.tid → first.thread = second.thread)
    (tid : Int) :
    (machine.accepted tid).Pairwise fun earlier later =>
      earlier.timestamp ≤ later.timestamp := by
  rw [Machine.accepted, List.pairwise_map]
  refine (orderly.sorted.sublist List.filter_sublist).imp_of_mem ?_
  intro earlier later earlierMember laterMember ordered
  rcases List.mem_filter.mp earlierMember with ⟨earlierStored, earlierTid⟩
  rcases List.mem_filter.mp laterMember with ⟨laterStored, laterTid⟩
  have sameTid : earlier.tid = later.tid := by
    rw [of_decide_eq_true earlierTid, of_decide_eq_true laterTid]
  exact ordered (writer earlier earlierStored later laterStored sameTid)

/-- However the threads are scheduled and whatever ids are excluded, a trace
file has one writer. -/
theorem one_writer_per_file
    [Fintype Thread] (fewThreads : Fintype.card Thread < 2 ^ 31)
    (execution : Execution (traceSystem Thread runtime clock)) :
    OneWriter execution.final := by
  have issued := issued_of_run (run_ids execution.valid)
  have orderly := orderly_of_execution execution
  have few : execution.final.ids.drawn.length ≤ 2 ^ 31 := by
    have counted := issued.drawn_length_le fewThreads
    omega
  have writer :
      ∀ first ∈ execution.final.stores,
        ∀ second ∈ execution.final.stores,
          first.tid = second.tid → first.thread = second.thread := by
    intro first firstMember second secondMember sameTid
    have firstFiled := orderly.filed first firstMember
    have secondGiven := (orderly.filed second secondMember).given
    rw [← sameTid] at secondGiven
    exact issued.holder_unique few firstFiled.ok firstFiled.given
      secondGiven
  refine ⟨writer, ?_, ?_⟩
  · intro stored member
    have filed := orderly.filed stored member
    exact issued.usable few filed.ok filed.given
  · intro tid
    exact (accepted_sorted orderly writer tid).sublist
      (file_sublist_accepted execution tid)

/-- The logging calls of two threads, one inside the other. -/
def nestedCalls : List (Action Bool) :=
  [.step (.call false (.logFnBegin 0)), .step (.stamp false)] ++
    loggingCall true (.logFnBegin 1) ++
      [.step (.choose false), .step (.store false), .logExit 0]

theorem one_writer_of_nested_calls :
    OneWriter
      (Run.mk nestedCalls _ rfl :
        Execution (traceSystem Bool recordsAll bootTime)).final :=
  one_writer_per_file (by decide) _

/-! ## Thread identity -/

/-- Every thread has been given one id, and the records in a buffer or a file
store the id it belongs to. -/
structure IdentityKept (machine : Machine Thread) : Prop where
  oneId : OneIdEach machine.gettids
  stored :
    ∀ stored ∈ machine.stores, stored.entry.threadId.toInt = stored.tid
  written :
    ∀ tid : UsableTid, ∀ record ∈ (machine.slots tid).file.getD [],
      record.threadId.toInt = tid

omit [DecidableEq Thread] in
/-- With one id each, a thread signs with the id it stores under. -/
theorem stored_threadId
    (orderly : Orderly machine) (oneId : OneIdEach machine.gettids)
    {stored : Stored Thread} (member : stored ∈ machine.stores)
    (inside : 0 ≤ stored.tid ∧ stored.tid < maxThreads) :
    stored.entry.threadId.toInt = stored.tid := by
  have filed := orderly.filed stored member
  rcases filed.attributed with ⟨tid, given, signed⟩
  have sameTid : tid = stored.tid :=
    oneId stored.thread tid stored.tid given filed.given
  have upper : stored.tid ≤ 127 := by
    have below := inside.2
    simp only [maxThreads] at below
    omega
  rw [signed, sameTid]
  exact toChar_toInt inside.1 upper

/-- Threads keep their identity exactly when id 0 is excluded, or the first
thread to ask for an id asks only once. -/
theorem identity_kept_iff
    (execution : Execution (traceSystem Thread runtime clock))
    (fewIds : execution.final.drawn.length < 128) :
    IdentityKept execution.final ↔
      runtime.excludeTid 0 = true ∨
        FirstAsksOnce (callers execution.actions) := by
  have asked := run_ids execution.valid
  have issued := issued_of_run asked
  have orderly := orderly_of_execution execution
  have few : execution.final.ids.drawn.length ≤ 2 ^ 31 := by
    have counted : execution.final.ids.drawn.length < 128 := fewIds
    omega
  have oneEach := oneIdEach_iff asked few
  constructor
  · intro kept
    exact oneEach.mp kept.oneId
  · intro condition
    have oneId : OneIdEach execution.final.gettids :=
      oneEach.mpr condition
    have stored :
        ∀ stored ∈ execution.final.stores,
          stored.entry.threadId.toInt = stored.tid := by
      intro stored member
      have filed := orderly.filed stored member
      exact stored_threadId orderly oneId member
        (issued.usable few filed.ok filed.given)
    refine ⟨oneId, stored, ?_⟩
    intro tid record written
    have accepted : record ∈ execution.final.accepted tid :=
      (file_sublist_accepted execution tid).subset written
    rcases List.mem_map.mp accepted with ⟨source, member, isRecord⟩
    rcases List.mem_filter.mp member with ⟨sourceStored, sourceTid⟩
    rw [← isRecord, stored source sourceStored]
    exact of_decide_eq_true sourceTid

/-- The same with id 0 excluded: the first thread's records are dropped. -/
def recordsFromOne : Runtime :=
  { recordsAll with excludeTid := fun id => id = 0 }

theorem identity_kept_without_zero :
    IdentityKept
        (Run.mk (loggingCall () (.logFnBegin 0)) _ rfl :
          Execution (traceSystem Unit recordsFromOne bootTime)).final ↔
      recordsFromOne.excludeTid 0 = true ∨
        FirstAsksOnce
          (callers (loggingCall () (.logFnBegin 0))) :=
  identity_kept_iff
    (Run.mk (loggingCall () (.logFnBegin 0)) _ rfl :
      Execution (traceSystem Unit recordsFromOne bootTime)) (by decide)

/-- The first record of a program is signed by thread 0 and stored for
thread 1. -/
theorem first_record_changes_identity :
    ∃ execution : Execution (traceSystem Unit recordsAll bootTime),
      execution.actions = loggingCall () (.logFnBegin 0) ∧
        execution.final.drawn.length < 128 ∧
          execution.final.gettids = [((), 0), ((), 1)] ∧
            ¬ IdentityKept execution.final := by
  refine ⟨⟨loggingCall () (.logFnBegin 0), _, rfl⟩, rfl, by decide, by decide,
    ?_⟩
  intro kept
  have same : (0 : Int) = 1 := by
    apply kept.oneId () 0 1
    · decide
    · decide
  cases same

end Histories

end Dinamite.Trace
