import Dinamite.Trace.Threads

/-!
# Trace files against the records accepted

Every slot of the machine carries the records accepted for its thread id.
Without an exit, file and buffer together are exactly these records.  With
exits, the last one completes the file exactly when none before it came after
the buffer had been flushed.
-/

namespace Dinamite.Trace

open Dinamite.BlockLog Dinamite.Transition

universe u

theorem bufferSize_pos : 0 < bufferSize := by
  decide

/-- A thread id that can be stored to. -/
abbrev UsableTid :=
  { tid : Int // 0 ≤ tid ∧ tid < maxThreads }

section Slots

variable {Thread : Type u} [DecidableEq Thread]
variable {runtime : Runtime} {machine next : Machine Thread}

namespace Machine

@[simp]
theorem accepted_setPhase
    (thread : Thread) (phase : Phase) (tid : Int) :
    (machine.setPhase thread phase).accepted tid = machine.accepted tid :=
  rfl

@[simp]
theorem accepted_logExit (tid : Int) :
    machine.logExit.accepted tid = machine.accepted tid :=
  rfl

theorem accepted_of_stores
    (same : next.stores = machine.stores) (tid : Int) :
    next.accepted tid = machine.accepted tid := by
  simp only [accepted, same]

theorem accepted_insertOrWrite
    {tid : Int} (ok : okTid tid = true) (thread : Thread)
    (entry : Logentry) (other : Int) :
    (machine.insertOrWrite runtime thread entry tid).accepted other =
      if tid = other then machine.accepted other ++ [entry]
      else machine.accepted other := by
  simp only [insertOrWrite, ok, if_true, accepted, List.filter_append,
    List.map_append]
  by_cases same : tid = other
  · simp [same]
  · simp [same]

private theorem foldl_exit
    (tids : List Nat) (distinct : tids.Nodup)
    (slots : Int → Slot Logentry) (tid : Int) :
    tids.foldl
        (fun slots (position : Nat) =>
          Function.update slots (position : Int) (slots position).exit)
        slots tid =
      if ∃ position ∈ tids, (position : Int) = tid then (slots tid).exit
      else slots tid := by
  induction tids generalizing slots with
  | nil => simp
  | cons head rest inductionHypothesis =>
      rcases List.nodup_cons.mp distinct with ⟨notInRest, restDistinct⟩
      rw [List.foldl_cons, inductionHypothesis restDistinct]
      by_cases isHead : (head : Int) = tid
      · have notLater : ¬ ∃ position ∈ rest, (position : Int) = tid := by
          intro found
          rcases found with ⟨position, member, same⟩
          have positionIsHead : position = head := by
            omega
          exact notInRest (positionIsHead ▸ member)
        subst isHead
        simp [notInRest]
      · have untouched : tid ≠ head := fun same => isHead same.symm
        simp [isHead, Function.update_of_ne untouched]

omit [DecidableEq Thread] in
/-- `logExit` treats every usable slot once. -/
theorem logExit_slots (tid : Int) :
    machine.logExit.slots tid =
      if 0 ≤ tid ∧ tid < maxThreads then (machine.slots tid).exit
      else machine.slots tid := by
  have inRange :
      (∃ position ∈ List.range maxThreads.toNat,
        (position : Int) = tid) ↔ 0 ≤ tid ∧ tid < maxThreads := by
    constructor
    · intro found
      rcases found with ⟨position, member, rfl⟩
      have below := List.mem_range.mp member
      simp only [maxThreads] at below ⊢
      omega
    · intro ⟨nonneg, below⟩
      refine ⟨tid.toNat, List.mem_range.mpr ?_, ?_⟩
      · simp only [maxThreads] at below ⊢
        omega
      · omega
  simp only [logExit, foldl_exit _ List.nodup_range, inRange]

end Machine

/-- A step leaves a slot and its records alone, or stores one record. -/
theorem slot_of_outcome
    {taken : Step Thread} (outcome : Outcome runtime machine taken next)
    (tid : Int) :
    (next.slots tid = machine.slots tid ∧
      next.accepted tid = machine.accepted tid) ∨
      ∃ entry,
        next.slots tid =
            (machine.slots tid).insertOrWrite bufferSize
              (runtime.malloc tid) entry ∧
          next.accepted tid = machine.accepted tid ++ [entry] := by
  have gettidLeaves :
      ∀ thread phase,
        ((machine.gettid runtime thread).2.setPhase thread phase).slots
              tid = machine.slots tid ∧
          ((machine.gettid runtime thread).2.setPhase thread
              phase).accepted tid = machine.accepted tid := by
    intro thread phase
    have frame := Machine.gettid_frame runtime machine thread
    exact ⟨congrFun frame.1 tid,
      Machine.accepted_of_stores frame.2.1 tid⟩
  cases outcome with
  | call idle => exact Or.inl (gettidLeaves _ _)
  | stamp filled => exact Or.inl ⟨rfl, rfl⟩
  | choose stamped => exact Or.inl (gettidLeaves _ _)
  | @store thread entry stored inserting =>
      rw [Machine.accepted_setPhase]
      cases ok : okTid stored with
      | false =>
          refine Or.inl ⟨?_, ?_⟩
          · simp [Machine.setPhase, Machine.insertOrWrite, ok]
          · simp [Machine.insertOrWrite, ok]
      | true =>
          rw [Machine.accepted_insertOrWrite ok]
          by_cases same : stored = tid
          · subst same
            refine Or.inr ⟨entry, ?_, if_pos rfl⟩
            simp [Machine.setPhase, Machine.insertOrWrite, ok]
          · refine Or.inl ⟨?_, if_neg same⟩
            have untouched : tid ≠ stored := fun other => same other.symm
            simp [Machine.setPhase, Machine.insertOrWrite, ok,
              Function.update_of_ne untouched]
  | tick later => exact Or.inl ⟨rfl, rfl⟩

/-- What a store into a slot preserves, a step preserves. -/
theorem slot_invariant_of_outcome
    (Invariant : Slot Logentry → List Logentry → Prop)
    (stores :
      ∀ slot accepted malloc entry, Invariant slot accepted →
        Invariant (slot.insertOrWrite bufferSize malloc entry)
          (accepted ++ [entry]))
    {taken : Step Thread} (outcome : Outcome runtime machine taken next)
    {tid : Int} (holds : Invariant (machine.slots tid)
      (machine.accepted tid)) :
    Invariant (next.slots tid) (next.accepted tid) := by
  rcases slot_of_outcome outcome tid with ⟨slot, accepted⟩ | stored
  · rw [slot, accepted]
    exact holds
  · rcases stored with ⟨entry, slot, accepted⟩
    rw [slot, accepted]
    exact stores _ _ _ entry holds

end Slots

/-! ## Runs without an exit -/

/-- The slot is in order, and its log is exactly the accepted records. -/
structure Faithful (slot : Slot Logentry) (accepted : List Logentry) :
    Prop where
  sized : slot.Sized bufferSize
  exact_ : Exact bufferSize slot.log accepted

theorem faithful_insertOrWrite
    (slot : Slot Logentry) (accepted : List Logentry)
    (malloc : Nat → Logentry) (entry : Logentry)
    (faithful : Faithful slot accepted) :
    Faithful (slot.insertOrWrite bufferSize malloc entry)
      (accepted ++ [entry]) := by
  have spec := Slot.insertOrWrite_spec faithful.sized bufferSize_pos
    malloc entry
  refine ⟨spec.1, ?_⟩
  rw [spec.2]
  exact faithful.exact_.push bufferSize_pos entry

section Claims

variable {Thread : Type u} [DecidableEq Thread]
variable {runtime : Runtime} {clock : Timespec}

theorem faithful_of_execution
    (execution : Execution (loggingSystem Thread runtime clock))
    (tid : Int) :
    Faithful (execution.final.slots tid) (execution.final.accepted tid) := by
  have start :
      Faithful (Slot.initial : Slot Logentry) [] :=
    ⟨Slot.sized_initial bufferSize, exact_initial bufferSize⟩
  exact (loggingSystem Thread runtime clock).run_invariant
    (fun machine =>
      Faithful (machine.slots tid) (machine.accepted tid))
    (fun _ _ _ stepped holds =>
      slot_invariant_of_outcome Faithful faithful_insertOrWrite
        (outcome_of_step stepped) holds)
    execution.valid start

/-- Without an exit every buffer is in bounds, every file consists of whole
buffers, file and buffer are the accepted records, and one exit would complete
the file. -/
theorem buffers_refine_append_log
    (execution : Execution (loggingSystem Thread runtime clock))
    (tid : UsableTid) :
    let slot := execution.final.slots tid
    let accepted := execution.final.accepted tid
    (0 ≤ slot.current ∧ slot.current ≤ bufferSize) ∧
      (∀ malloc,
        0 ≤ slot.storeIndex bufferSize malloc ∧
          slot.storeIndex bufferSize malloc < bufferSize) ∧
        bufferSize ∣ (slot.file.getD []).length ∧
          slot.file.getD [] ++ slot.held slot.current = accepted ∧
            (execution.final.logExit.slots tid).file.getD [] =
              accepted := by
  have faithful := faithful_of_execution execution tid
  have sized := faithful.sized
  refine ⟨⟨sized.nonneg, sized.le_size⟩, ?_, faithful.exact_.blocks,
    faithful.exact_.complete, ?_⟩
  · intro malloc
    exact Slot.storeIndex_bounds sized bufferSize_pos
  · have closed := Slot.exit_spec sized
    have complete := faithful.exact_.contents_close
    rw [← closed.2] at complete
    rw [Machine.logExit_slots, if_pos tid.property]
    exact complete

/-! ## Runs with exits -/

/-- The slot is in order, and its log holds accepted records in order. -/
structure InOrder (slot : Slot Logentry) (accepted : List Logentry) :
    Prop where
  sized : slot.Sized bufferSize
  ordered : Ordered slot.log accepted

theorem inOrder_insertOrWrite
    (slot : Slot Logentry) (accepted : List Logentry)
    (malloc : Nat → Logentry) (entry : Logentry)
    (inOrder : InOrder slot accepted) :
    InOrder (slot.insertOrWrite bufferSize malloc entry)
      (accepted ++ [entry]) := by
  have spec := Slot.insertOrWrite_spec inOrder.sized bufferSize_pos
    malloc entry
  refine ⟨spec.1, ?_⟩
  rw [spec.2]
  exact inOrder.ordered.push entry

theorem inOrder_exit
    {slot : Slot Logentry} {accepted : List Logentry}
    (inOrder : InOrder slot accepted) :
    InOrder slot.exit accepted := by
  have spec := Slot.exit_spec inOrder.sized
  refine ⟨spec.1, ?_⟩
  rw [spec.2]
  exact inOrder.ordered.close

/-- However many exits there were, a file never holds anything but accepted
records, in the order in which they were accepted. -/
theorem file_sublist_accepted
    (execution : Execution (traceSystem Thread runtime clock))
    (tid : UsableTid) :
    ((execution.final.slots tid).file.getD []).Sublist
      (execution.final.accepted tid) := by
  have start : InOrder (Slot.initial : Slot Logentry) [] :=
    ⟨Slot.sized_initial bufferSize, ordered_initial⟩
  have inOrder :
      InOrder (execution.final.slots tid)
        (execution.final.accepted tid) := by
    refine (traceSystem Thread runtime clock).run_invariant
      (fun machine => InOrder (machine.slots tid) (machine.accepted tid))
      ?_ execution.valid start
    intro machine action next stepped holds
    cases action with
    | step taken =>
        exact slot_invariant_of_outcome InOrder inOrder_insertOrWrite
          (outcome_of_step stepped) holds
    | logInit functionId =>
        obtain rfl := Option.some.inj stepped
        exact holds
    | logExit functionId =>
        obtain rfl := Option.some.inj stepped
        show InOrder (machine.logExit.slots tid)
          (machine.logExit.accepted tid)
        rw [Machine.logExit_slots, if_pos tid.property]
        exact inOrder_exit holds
  exact inOrder.ordered.contents

/-- The slot is in order, and its log has come this far. -/
structure Surviving
    (late : Bool) (slot : Slot Logentry) (accepted : List Logentry) :
    Prop where
  sized : slot.Sized bufferSize
  stage : Stage bufferSize slot.log accepted late

theorem surviving_insertOrWrite
    (late : Bool) (slot : Slot Logentry) (accepted : List Logentry)
    (malloc : Nat → Logentry) (entry : Logentry)
    (surviving : Surviving late slot accepted) :
    Surviving late (slot.insertOrWrite bufferSize malloc entry)
      (accepted ++ [entry]) := by
  have spec := Slot.insertOrWrite_spec surviving.sized bufferSize_pos
    malloc entry
  refine ⟨spec.1, ?_⟩
  rw [spec.2]
  exact surviving.stage.push bufferSize_pos entry

theorem surviving_exit
    {late : Bool} {slot : Slot Logentry} {accepted : List Logentry}
    (surviving : Surviving late slot accepted) :
    Surviving (late || decide (bufferSize < accepted.length)) slot.exit
      accepted := by
  have spec := Slot.exit_spec surviving.sized
  refine ⟨spec.1, ?_⟩
  rw [spec.2]
  exact surviving.stage.close

/-- No exit among the actions was taken when more than a buffer had been
accepted for the thread id. -/
def OnlyEarlyExits
    (runtime : Runtime) (clock : Timespec) (tid : Int)
    (actions : List (Action Thread)) : Prop :=
  ∀ (reached : Execution (traceSystem Thread runtime clock))
      (functionId : Int),
    reached.actions ++ [.logExit functionId] <+: actions →
      (reached.final.accepted tid).length ≤ bufferSize

theorem onlyEarlyExits_append_iff
    (tid : Int) {actions : List (Action Thread)} (action : Action Thread)
    {machine : Machine Thread}
    (reached : (traceSystem Thread runtime clock).run
      (traceSystem Thread runtime clock).initial actions = some machine) :
    OnlyEarlyExits runtime clock tid (actions ++ [action]) ↔
      OnlyEarlyExits runtime clock tid actions ∧
        ∀ functionId, action = .logExit functionId →
          (machine.accepted tid).length ≤ bufferSize := by
  constructor
  · intro early
    constructor
    · intro earlier functionId isPrefix
      exact early earlier functionId
        (isPrefix.trans (List.prefix_append actions [action]))
    · intro functionId same
      subst same
      exact early ⟨actions, machine, reached⟩ functionId
        (List.prefix_refl _)
  · intro ⟨early, last⟩ earlier functionId isPrefix
    rcases List.prefix_concat_iff.mp isPrefix with whole | shorter
    · rcases List.append_inj' whole rfl with ⟨sameActions, sameAction⟩
      have sameMachine : earlier.final = machine :=
        Option.some.inj (by
          rw [← earlier.valid, ← reached, sameActions])
      rw [sameMachine]
      exact last functionId (List.singleton_inj.mp sameAction).symm
    · exact early earlier functionId shorter

/-- How far the slot of a thread id has come after a run, with the exits of the
run. -/
theorem surviving_of_execution
    (execution : Execution (traceSystem Thread runtime clock))
    (tid : UsableTid) :
    ∃ late,
      Surviving late (execution.final.slots tid)
          (execution.final.accepted tid) ∧
        (late = false ↔
          OnlyEarlyExits runtime clock tid execution.actions) := by
  let Motive : List (Action Thread) → Machine Thread → Prop :=
    fun actions machine =>
      ∃ late,
        Surviving late (machine.slots tid) (machine.accepted tid) ∧
          (late = false ↔ OnlyEarlyExits runtime clock tid actions)
  apply (traceSystem Thread runtime clock).run_induction Motive ?_ ?_
    execution.valid
  · refine ⟨false, ⟨Slot.sized_initial bufferSize,
      stage_initial bufferSize⟩, iff_of_true rfl ?_⟩
    intro reached functionId isPrefix
    have impossible := List.prefix_nil.mp isPrefix
    simp at impossible
  · intro actions machine action next reached stepped holds
    rcases holds with ⟨late, surviving, early⟩
    have earlyIff :=
      onlyEarlyExits_append_iff tid.val action reached
    cases action with
    | step taken =>
        refine ⟨late, ?_, ?_⟩
        · exact slot_invariant_of_outcome (Surviving late)
            (surviving_insertOrWrite late) (outcome_of_step stepped)
            surviving
        · rw [earlyIff, early]
          simp
    | logInit functionId =>
        obtain rfl := Option.some.inj stepped
        refine ⟨late, surviving, ?_⟩
        rw [earlyIff, early]
        simp
    | logExit functionId =>
        obtain rfl := Option.some.inj stepped
        have closed := surviving_exit surviving
        refine ⟨late || decide (bufferSize <
          (machine.accepted tid).length), ?_, ?_⟩
        · rw [Machine.logExit_slots, if_pos tid.property,
            Machine.accepted_logExit]
          exact closed
        · rw [earlyIff, ← early]
          simp

theorem contents_logExit_iff
    {late : Bool} {machine : Machine Thread} {tid : UsableTid}
    (surviving : Surviving late (machine.slots tid)
      (machine.accepted tid)) :
    (machine.logExit.slots tid).file.getD [] = machine.accepted tid ↔
      late = false := by
  have closed := Slot.exit_spec surviving.sized
  have complete := surviving.stage.contents_close_eq_iff bufferSize_pos
  rw [← closed.2] at complete
  rw [Machine.logExit_slots, if_pos tid.property]
  exact complete

/-- A logging call from its beginning to its end. -/
def loggingCall (thread : Thread) (log : LogCall) : List (Action Thread) :=
  [.step (.call thread log), .step (.stamp thread),
    .step (.choose thread), .step (.store thread)]

/-- A thread with a cached id that logs stores one record. -/
theorem run_loggingCall
    (runtime : Runtime) (clock : Timespec)
    {machine : Machine Thread} {thread : Thread} {tid : Int}
    (idle : (machine.threads thread).phase = .idle)
    (cached : (machine.threads thread).tls = tid)
    (nonzero : tid ≠ 0) (ok : okTid tid = true) (log : LogCall) :
    ∃ next entry,
      (traceSystem Thread runtime clock).run machine
          (loggingCall thread log) = some next ∧
        (next.threads thread).phase = .idle ∧
          (next.threads thread).tls = tid ∧
            next.accepted tid = machine.accepted tid ++ [entry] := by
  have returned :
      ∀ reached : Machine Thread, (reached.threads thread).tls = tid →
        reached.gettid runtime thread =
          (tid, { reached with
            gettids := reached.gettids ++ [(thread, tid)] }) := by
    intro reached same
    have known : (reached.threads thread).tls ≠ 0 := same ▸ nonzero
    rw [Machine.gettid_cached known, same]
  let entry :=
    log.entry tid (dinamiteTimeNanoseconds (some machine.clock))
  let called : Machine Thread :=
    { machine with gettids := machine.gettids ++ [(thread, tid)] }
  let stamped : Machine Thread :=
    (called.setPhase thread (.filled log tid)).setPhase thread
      (.stamped entry)
  have stampedTls : (stamped.threads thread).tls = tid := by
    simpa [stamped, called] using cached
  let chosen : Machine Thread :=
    { stamped with gettids := stamped.gettids ++ [(thread, tid)] }
  let inserting := chosen.setPhase thread (.inserting entry tid)
  let next :=
    (inserting.insertOrWrite runtime thread entry tid).setPhase thread .idle
  have first :
      step runtime machine (.call thread log) =
        some (called.setPhase thread (.filled log tid)) := by
    simp only [step, idle, returned machine cached]
    rfl
  have second :
      step runtime (called.setPhase thread (.filled log tid))
        (.stamp thread) = some stamped := by
    simp only [step, Machine.setPhase_self]
    rfl
  have third :
      step runtime stamped (.choose thread) = some inserting := by
    simp only [step, stamped, Machine.setPhase_self]
    rw [returned stamped stampedTls]
  have fourth : step runtime inserting (.store thread) = some next := by
    simp only [step, inserting, Machine.setPhase_self]
    rfl
  refine ⟨next, entry, ?_, Machine.setPhase_self _, ?_, ?_⟩
  · simp only [loggingCall, System.run, traceSystem, first, second, third,
      fourth, Option.bind_some]
  · have sameTls :
        ((inserting.insertOrWrite runtime thread entry tid).threads
          thread).tls = (inserting.threads thread).tls := by
      simp [Machine.insertOrWrite, ok]
    simpa [next, sameTls, inserting, chosen] using stampedTls
  · have stored :
        (inserting.insertOrWrite runtime thread entry tid).accepted tid =
          if tid = tid then inserting.accepted tid ++ [entry]
          else inserting.accepted tid :=
      Machine.accepted_insertOrWrite ok thread entry tid
    rw [if_pos rfl] at stored
    exact stored

/-- The exit that ends a run leaves all accepted records in the file exactly
when no exit before it came with more than a buffer accepted. -/
theorem exits_complete_file_iff
    (execution : Execution (traceSystem Thread runtime clock))
    (tid : UsableTid) :
    (execution.final.logExit.slots tid).file.getD [] =
        execution.final.accepted tid ↔
      OnlyEarlyExits runtime clock tid execution.actions := by
  rcases surviving_of_execution execution tid with ⟨late, surviving, early⟩
  rw [contents_logExit_iff surviving, early]

end Claims

/-! ### An exit that comes too late -/

/-- Nothing is excluded. -/
def recordsAll : Runtime where
  excludeTid := fun _ => false
  malloc := fun _ _ => (LogCall.logFnBegin 0).entry 0 0

def bootTime : Timespec :=
  ⟨0, 0, by decide, by decide⟩

/-- One thread that logs so many times. -/
def loggedTimes (count : Nat) : List (Action Unit) :=
  (List.replicate count (loggingCall () (.logFnBegin 0))).flatten

theorem loggedTimes_succ (count : Nat) :
    loggedTimes (count + 1) =
      loggedTimes count ++ loggingCall () (.logFnBegin 0) := by
  simp [loggedTimes, List.replicate_succ']

/-- The first call of the thread caches id 1, and all its records go there. -/
theorem run_loggedTimes (count : Nat) :
    ∃ machine,
      (traceSystem Unit recordsAll bootTime).run
          (.initial bootTime) (loggedTimes (count + 1)) = some machine ∧
        (machine.threads ()).phase = .idle ∧
          (machine.threads ()).tls = 1 ∧
            (machine.accepted 1).length = count + 1 := by
  induction count with
  | zero => exact ⟨_, rfl, rfl, rfl, rfl⟩
  | succ count inductionHypothesis =>
      rcases inductionHypothesis with ⟨machine, earlier, idle, cached, length⟩
      have stored :=
        run_loggingCall recordsAll bootTime idle cached (by decide)
          (by decide) (.logFnBegin 0)
      rcases stored with ⟨next, entry, last, idleAgain, kept, appended⟩
      refine ⟨next, ?_, idleAgain, kept, ?_⟩
      · rw [loggedTimes_succ]
        exact (System.run_append_eq_some _).mpr ⟨machine, earlier, last⟩
      · rw [appended, List.length_append, length]
        rfl

/-- A second exit after 16385 records truncates the file and writes the one
record that is still in the buffer. -/
theorem second_exit_loses_records :
    ∃ execution : Execution (traceSystem Unit recordsAll bootTime),
      execution.actions =
          loggedTimes (bufferSize + 1) ++ [.logExit 0] ∧
        (execution.final.logExit.slots 1).file.getD [] ≠
          execution.final.accepted 1 := by
  rcases run_loggedTimes bufferSize with ⟨machine, logged, _, _, length⟩
  let reached : Execution (traceSystem Unit recordsAll bootTime) :=
    ⟨loggedTimes (bufferSize + 1), machine, logged⟩
  have exited :
      (traceSystem Unit recordsAll bootTime).run (.initial bootTime)
        (loggedTimes (bufferSize + 1) ++ [.logExit 0]) =
          some machine.logExit :=
    (System.run_append_eq_some _).mpr ⟨machine, logged, rfl⟩
  let execution : Execution (traceSystem Unit recordsAll bootTime) :=
    ⟨_, _, exited⟩
  let one : UsableTid := ⟨1, by decide⟩
  have survived := surviving_of_execution execution one
  rcases survived with ⟨late, surviving, early⟩
  have notEarly : late ≠ false := by
    intro isEarly
    have bounded :=
      early.mp isEarly reached 0 (List.prefix_refl _)
    have tooMany : (machine.accepted 1).length ≤ bufferSize := bounded
    omega
  refine ⟨execution, rfl, ?_⟩
  intro complete
  exact notEarly ((contents_logExit_iff surviving).mp complete)

end Dinamite.Trace
