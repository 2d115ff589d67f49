import Dinamite.Trace.Threads

/-!
# Handing out thread ids

`__dinamite_gettid` by itself: a shared counter, and for every thread a cached
id that reads as unset while it is 0.  The machine runs this system, with one
action for each call of `__dinamite_gettid`; everything known about thread ids
is derived from it.
-/

namespace Dinamite.Trace

open Dinamite.Transition

universe u

/-! ## The counter -/

theorem wrapInt_eq_bmod (value : Int) :
    wrapInt value = value.bmod (2 ^ 32) := by
  rw [wrapInt, BitVec.toInt_ofInt]

theorem wrapInt_succ (value : Int) :
    wrapInt (wrapInt value + 1) = wrapInt (value + 1) := by
  simp only [wrapInt_eq_bmod]
  exact Int.bmod_add_bmod

theorem wrapInt_of_small
    {position : Nat} (small : position < 2 ^ 31) :
    wrapInt position = position := by
  rw [wrapInt_eq_bmod]
  exact Int.bmod_eq_of_le (by omega) (by omega)

/-- After its first value the counter is 0 again only when it has run through
all values of an `int`. -/
theorem wrapInt_ne_zero
    {position : Nat} (positive : 0 < position)
    (small : position < 2 ^ 32) :
    wrapInt position ≠ 0 := by
  rw [wrapInt_eq_bmod]
  intro zero
  have divides : ((2 ^ 32 : Nat) : Int) ∣ position :=
    Int.dvd_of_bmod_eq_zero zero
  omega

/-- Only id 0 becomes thread id 0. -/
theorem tidOf_eq_zero_iff (runtime : Runtime) (id : Int) :
    runtime.tidOf id = 0 ↔ id = 0 ∧ runtime.excludeTid 0 = false := by
  unfold Runtime.tidOf
  by_cases excluded : runtime.excludeTid id = true
  · simp only [excluded, if_true]
    constructor
    · intro impossible
      exact absurd impossible (by decide)
    · intro ⟨zero, included⟩
      rw [zero, included] at excluded
      cases excluded
  · simp only [excluded]
    constructor
    · intro zero
      have isZero : id = 0 := zero
      rw [isZero] at excluded
      exact ⟨isZero, Bool.eq_false_iff.mpr excluded⟩
    · intro ⟨zero, _⟩
      exact zero

/-- A thread id that can be stored to is the id that was drawn. -/
theorem tidOf_eq_of_okTid
    {runtime : Runtime} {id tid : Int}
    (same : runtime.tidOf id = tid) (ok : okTid tid = true) :
    id = tid := by
  unfold Runtime.tidOf at same
  by_cases excluded : runtime.excludeTid id = true
  · simp only [excluded, if_true] at same
    subst same
    exact absurd ok (by decide)
  · simp only [excluded] at same
    exact same

/-! ## The system -/

structure Ids (Thread : Type u) where
  nextId : Int
  tls : Thread → Int
  drawn : List (Thread × Int)
  gettids : List (Thread × Int)

section Dispenser

variable {Thread : Type u} [DecidableEq Thread]

def Ids.gettid
    (runtime : Runtime) (ids : Ids Thread) (thread : Thread) :
    Ids Thread :=
  if ids.tls thread = 0 then
    { nextId := wrapInt (ids.nextId + 1)
      tls := Function.update ids.tls thread (runtime.tidOf ids.nextId)
      drawn := ids.drawn ++ [(thread, ids.nextId)]
      gettids := ids.gettids ++ [(thread, runtime.tidOf ids.nextId)] }
  else
    { ids with gettids := ids.gettids ++ [(thread, ids.tls thread)] }

/-- The action is the thread that calls `__dinamite_gettid`. -/
def idSystem
    (Thread : Type u) [DecidableEq Thread] (runtime : Runtime) :
    System (Ids Thread) Thread where
  initial := ⟨0, fun _ => 0, [], []⟩
  step := fun ids thread => some (ids.gettid runtime thread)

namespace Ids

variable {runtime : Runtime} {ids : Ids Thread} {thread : Thread}

theorem gettid_unset (unset : ids.tls thread = 0) :
    ids.gettid runtime thread =
      { nextId := wrapInt (ids.nextId + 1)
        tls := Function.update ids.tls thread (runtime.tidOf ids.nextId)
        drawn := ids.drawn ++ [(thread, ids.nextId)]
        gettids := ids.gettids ++
          [(thread, runtime.tidOf ids.nextId)] } := by
  simp only [gettid, unset, if_true]

theorem gettid_set (cached : ids.tls thread ≠ 0) :
    ids.gettid runtime thread =
      { ids with
        gettids := ids.gettids ++ [(thread, ids.tls thread)] } := by
  simp only [gettid, cached, if_false]

end Ids

/-! ## Where thread ids come from -/

/-- The ids drawn count up from 0.  A thread draws again only while its cache
reads as unset, and every thread id stems from an id its thread has drawn. -/
structure Issued (runtime : Runtime) (ids : Ids Thread) : Prop where
  counted : ids.nextId = wrapInt ids.drawn.length
  positions :
    ids.drawn.map Prod.snd =
      (List.range ids.drawn.length).map fun (position : Nat) =>
        wrapInt position
  once :
    ids.drawn.Pairwise fun earlier later =>
      earlier.1 = later.1 → runtime.tidOf earlier.2 = 0
  unset :
    ∀ thread id, ids.tls thread = 0 → (thread, id) ∈ ids.drawn →
      runtime.tidOf id = 0
  cached :
    ∀ thread, ids.tls thread ≠ 0 →
      ∃ id, (thread, id) ∈ ids.drawn ∧
        runtime.tidOf id = ids.tls thread
  issued :
    ∀ thread tid, (thread, tid) ∈ ids.gettids →
      ∃ id, (thread, id) ∈ ids.drawn ∧ runtime.tidOf id = tid

omit [DecidableEq Thread] in
theorem issued_initial (runtime : Runtime) :
    Issued runtime (⟨0, fun _ => 0, [], []⟩ : Ids Thread) := by
  refine ⟨rfl, rfl, List.Pairwise.nil, ?_, ?_, ?_⟩
  · intro thread id _ member
    cases member
  · intro thread cached
    exact absurd rfl cached
  · intro thread tid member
    cases member

section Step

variable {runtime : Runtime} {ids : Ids Thread} {thread : Thread}

omit [DecidableEq Thread] in
theorem mem_append_singleton
    {history : List (Thread × Int)} {other : Thread} {value tid : Int} :
    (other, tid) ∈ history ++ [(thread, value)] ↔
      (other, tid) ∈ history ∨ (other = thread ∧ tid = value) := by
  rw [List.mem_append, List.mem_singleton, Prod.mk.injEq]

/-- Drawing the next id. -/
theorem Issued.gettid_unset
    (issued : Issued runtime ids) (unset : ids.tls thread = 0) :
    Issued runtime (ids.gettid runtime thread) := by
  rw [Ids.gettid_unset unset]
  refine ⟨?_, ?_, ?_, ?_, ?_, ?_⟩
  · have next := wrapInt_succ ids.drawn.length
    rw [← issued.counted] at next
    simpa using next
  · have positions := issued.positions
    simp only [List.map_append, List.map_singleton, positions,
      List.length_append, List.length_singleton, List.range_succ,
      issued.counted]
  · refine List.pairwise_append.mpr
      ⟨issued.once, List.pairwise_singleton _ _, ?_⟩
    intro earlier member later last sameThread
    have isThread : earlier.1 = thread := by
      rw [sameThread, List.mem_singleton.mp last]
    have drawnBefore : (thread, earlier.2) ∈ ids.drawn := by
      rw [← isThread]
      exact member
    exact issued.unset thread earlier.2 unset drawnBefore
  · intro other id otherUnset member
    rcases mem_append_singleton.mp member with before | ⟨rfl, rfl⟩
    · by_cases same : other = thread
      · subst same
        exact issued.unset other id unset before
      · simp only [Function.update_of_ne same] at otherUnset
        exact issued.unset other id otherUnset before
    · simpa using otherUnset
  · intro other otherSet
    by_cases same : other = thread
    · subst same
      refine ⟨ids.nextId, mem_append_singleton.mpr (Or.inr ⟨rfl, rfl⟩), ?_⟩
      simp
    · simp only [Function.update_of_ne same] at otherSet ⊢
      have known := issued.cached other otherSet
      rcases known with ⟨id, member, becomes⟩
      exact ⟨id, mem_append_singleton.mpr (Or.inl member), becomes⟩
  · intro other tid member
    rcases mem_append_singleton.mp member with before | ⟨rfl, rfl⟩
    · have known := issued.issued other tid before
      rcases known with ⟨id, drawnBefore, becomes⟩
      exact ⟨id, mem_append_singleton.mpr (Or.inl drawnBefore), becomes⟩
    · exact ⟨ids.nextId, mem_append_singleton.mpr (Or.inr ⟨rfl, rfl⟩), rfl⟩

/-- Returning the cached id. -/
theorem Issued.gettid_set
    (issued : Issued runtime ids) (cached : ids.tls thread ≠ 0) :
    Issued runtime (ids.gettid runtime thread) := by
  rw [Ids.gettid_set cached]
  refine { issued with issued := ?_ }
  intro other tid member
  rcases mem_append_singleton.mp member with before | ⟨rfl, rfl⟩
  · exact issued.issued other tid before
  · exact issued.cached other cached

theorem Issued.gettid
    (issued : Issued runtime ids) (thread : Thread) :
    Issued runtime (ids.gettid runtime thread) := by
  by_cases unset : ids.tls thread = 0
  · exact issued.gettid_unset unset
  · exact issued.gettid_set unset

end Step

theorem issued_of_run
    {runtime : Runtime} {ids : Ids Thread} {callers : List Thread}
    (valid : (idSystem Thread runtime).run
      (idSystem Thread runtime).initial callers = some ids) :
    Issued runtime ids := by
  refine (idSystem Thread runtime).run_invariant (Issued runtime) ?_ valid
    (issued_initial runtime)
  intro before thread after stepped issued
  obtain rfl := Option.some.inj stepped
  exact issued.gettid thread

/-! ## Who holds a thread id -/

namespace Issued

variable {runtime : Runtime} {ids : Ids Thread}

omit [DecidableEq Thread]

/-- The id drawn at a position. -/
theorem getElem_snd
    (issued : Issued runtime ids) {position : Nat}
    (bound : position < ids.drawn.length) :
    ids.drawn[position].2 = wrapInt position := by
  have positions := issued.positions
  have here :
      (ids.drawn.map Prod.snd)[position]? = some (wrapInt position) := by
    rw [positions]
    simp [bound]
  simpa [bound] using here

/-- Below the limit of an `int` no id is negative. -/
theorem drawn_bounds
    (issued : Issued runtime ids) (few : ids.drawn.length ≤ 2 ^ 31)
    {thread : Thread} {id : Int} (member : (thread, id) ∈ ids.drawn) :
    0 ≤ id ∧ id < ids.drawn.length := by
  rcases List.getElem_of_mem member with ⟨position, bound, here⟩
  have value := issued.getElem_snd bound
  rw [here, wrapInt_of_small (by omega)] at value
  have isPosition : id = position := value
  omega

/-- Below the limit of an `int` every id is drawn by one thread. -/
theorem owner_unique
    (issued : Issued runtime ids) (few : ids.drawn.length ≤ 2 ^ 31)
    {first second : Thread} {id : Int}
    (firstDrew : (first, id) ∈ ids.drawn)
    (secondDrew : (second, id) ∈ ids.drawn) :
    first = second := by
  rcases List.getElem_of_mem firstDrew with ⟨i, iBound, iHere⟩
  rcases List.getElem_of_mem secondDrew with ⟨j, jBound, jHere⟩
  have iValue := issued.getElem_snd iBound
  have jValue := issued.getElem_snd jBound
  rw [iHere, wrapInt_of_small (by omega)] at iValue
  rw [jHere, wrapInt_of_small (by omega)] at jValue
  have samePosition : i = j := by
    have isI : id = i := iValue
    have isJ : id = j := jValue
    omega
  subst samePosition
  rw [iHere] at jHere
  exact congrArg Prod.fst jHere

/-- Two threads never get one thread id that can be stored to. -/
theorem holder_unique
    (issued : Issued runtime ids) (few : ids.drawn.length ≤ 2 ^ 31)
    {first second : Thread} {tid : Int} (ok : okTid tid = true)
    (firstGot : (first, tid) ∈ ids.gettids)
    (secondGot : (second, tid) ∈ ids.gettids) :
    first = second := by
  rcases issued.issued first tid firstGot with ⟨id, firstDrew, becomes⟩
  rcases issued.issued second tid secondGot with
    ⟨other, secondDrew, otherBecomes⟩
  rw [tidOf_eq_of_okTid becomes ok] at firstDrew
  rw [tidOf_eq_of_okTid otherBecomes ok] at secondDrew
  exact issued.owner_unique few firstDrew secondDrew

/-- A thread id that can be stored to is not negative. -/
theorem usable
    (issued : Issued runtime ids) (few : ids.drawn.length ≤ 2 ^ 31)
    {thread : Thread} {tid : Int} (ok : okTid tid = true)
    (got : (thread, tid) ∈ ids.gettids) :
    0 ≤ tid ∧ tid < maxThreads := by
  rcases issued.issued thread tid got with ⟨id, drew, becomes⟩
  have sameId := tidOf_eq_of_okTid becomes ok
  have bounds := issued.drawn_bounds few drew
  have below : ¬ tid > maxThreads - 1 := by
    simpa [okTid] using ok
  omega

/-- Apart from the very first draw, every thread draws once. -/
theorem later_draws_nodup
    (issued : Issued runtime ids) {count : Nat} (small : count ≤ 2 ^ 32) :
    (((ids.drawn.take count).drop 1).map Prod.fst).Nodup := by
  have ordered :
      ((ids.drawn.take count).drop 1).Pairwise fun earlier later =>
        earlier.1 = later.1 → runtime.tidOf earlier.2 = 0 :=
    issued.once.sublist
      ((List.drop_sublist _ _).trans (List.take_sublist _ _))
  rw [List.Nodup, List.pairwise_map]
  refine ordered.imp_of_mem ?_
  intro earlier later member _ zeroIfSame sameThread
  rcases List.getElem_of_mem member with ⟨position, bound, here⟩
  have inside : 1 + position < ids.drawn.length := by
    simp only [List.length_drop, List.length_take] at bound
    omega
  have below : 1 + position < count := by
    simp only [List.length_drop, List.length_take] at bound
    omega
  have value := issued.getElem_snd inside
  rw [List.getElem_drop, List.getElem_take] at here
  rw [here] at value
  have zero := (tidOf_eq_zero_iff _ _).mp (zeroIfSame sameThread)
  rw [zero.1] at value
  exact wrapInt_ne_zero (by omega) (by omega) value.symm

/-- At most one more id is drawn than there are threads. -/
theorem drawn_length_le
    [Fintype Thread] (issued : Issued runtime ids)
    (fewThreads : Fintype.card Thread < 2 ^ 31) :
    ids.drawn.length ≤ Fintype.card Thread + 1 := by
  have nodup :=
    issued.later_draws_nodup
      (show Fintype.card Thread + 2 ≤ 2 ^ 32 by omega)
  have counted := nodup.length_le_card
  simp only [List.length_map, List.length_drop, List.length_take]
    at counted
  omega

end Issued

/-! ## When a thread keeps its id -/

/-- All calls of `__dinamite_gettid` by one thread have returned the same. -/
def OneIdEach (gettids : List (Thread × Int)) : Prop :=
  ∀ thread first second,
    (thread, first) ∈ gettids → (thread, second) ∈ gettids →
      first = second

/-- Nobody has asked, or the first thread to ask has drawn id 0; after that no
thread is given 0. -/
def Opened (runtime : Runtime) (ids : Ids Thread) : Prop :=
  (ids.drawn = [] ∧ ids.gettids = []) ∨
    ∃ thread laterDrawn laterGettids,
      ids.drawn = (thread, 0) :: laterDrawn ∧
        ids.gettids = (thread, runtime.tidOf 0) :: laterGettids ∧
          (ids.drawn.length ≤ 2 ^ 31 →
            ∀ result ∈ laterGettids, result.2 ≠ 0)

section Opening

variable {runtime : Runtime} {ids : Ids Thread}

theorem Issued.opened_gettid
    (issued : Issued runtime ids) (opened : Opened runtime ids)
    (thread : Thread) :
    Opened runtime (ids.gettid runtime thread) := by
  by_cases unset : ids.tls thread = 0
  · rw [Ids.gettid_unset unset]
    rcases opened with ⟨noneDrawn, noneGot⟩ | later
    · have zero : ids.nextId = 0 := by
        rw [issued.counted, noneDrawn]
        rfl
      refine Or.inr ⟨thread, [], [], ?_, ?_, nofun⟩
      · simp [noneDrawn, zero]
      · simp [noneGot, zero]
    · rcases later with
        ⟨first, laterDrawn, laterGettids, drawn, gettids, nonzero⟩
      refine Or.inr ⟨first, laterDrawn ++ [(thread, ids.nextId)],
        laterGettids ++ [(thread, runtime.tidOf ids.nextId)], ?_, ?_, ?_⟩
      · simp [drawn]
      · simp [gettids]
      · intro few result member
        simp only [List.length_append, List.length_singleton] at few
        rcases List.mem_append.mp member with before | last
        · exact nonzero (by omega) result before
        · rw [List.mem_singleton.mp last]
          intro zero
          have idZero := (tidOf_eq_zero_iff _ _).mp zero
          have positive : 0 < ids.drawn.length := by
            simp [drawn]
          rw [issued.counted] at idZero
          exact wrapInt_ne_zero positive (by omega) idZero.1
  · rw [Ids.gettid_set unset]
    rcases opened with ⟨noneDrawn, _⟩ | later
    · rcases issued.cached thread unset with ⟨id, member, _⟩
      rw [noneDrawn] at member
      cases member
    · rcases later with
        ⟨first, laterDrawn, laterGettids, drawn, gettids, nonzero⟩
      refine Or.inr ⟨first, laterDrawn,
        laterGettids ++ [(thread, ids.tls thread)], drawn, ?_, ?_⟩
      · simp [gettids]
      · intro few result member
        rcases List.mem_append.mp member with before | last
        · exact nonzero few result before
        · rw [List.mem_singleton.mp last]
          exact unset

theorem opened_of_run
    {callers : List Thread}
    (valid : (idSystem Thread runtime).run
      (idSystem Thread runtime).initial callers = some ids) :
    Opened runtime ids := by
  have both : Issued runtime ids ∧ Opened runtime ids := by
    refine (idSystem Thread runtime).run_invariant
      (fun ids => Issued runtime ids ∧ Opened runtime ids) ?_ valid
      ⟨issued_initial runtime, Or.inl ⟨rfl, rfl⟩⟩
    intro before thread after stepped ⟨issued, opened⟩
    obtain rfl := Option.some.inj stepped
    exact ⟨issued.gettid thread, issued.opened_gettid opened thread⟩
  exact both.2

/-- Every call leaves one result, under the thread that made it. -/
theorem gettids_threads_of_run
    {callers : List Thread}
    (valid : (idSystem Thread runtime).run
      (idSystem Thread runtime).initial callers = some ids) :
    ids.gettids.map Prod.fst = callers := by
  refine (idSystem Thread runtime).run_induction
    (fun callers ids => ids.gettids.map Prod.fst = callers) rfl ?_ valid
  intro callers before thread after _ stepped same
  obtain rfl := Option.some.inj stepped
  by_cases unset : before.tls thread = 0
  · simp [Ids.gettid_unset unset, same]
  · simp [Ids.gettid_set unset, same]

omit [DecidableEq Thread] in
/-- A thread whose draws never become 0 has drawn one id. -/
theorem Issued.one_id_of_nonzero
    (issued : Issued runtime ids) {thread : Thread}
    (nonzero : ∀ id, (thread, id) ∈ ids.drawn → runtime.tidOf id ≠ 0)
    {first second : Int} (firstGot : (thread, first) ∈ ids.gettids)
    (secondGot : (thread, second) ∈ ids.gettids) :
    first = second := by
  rcases issued.issued thread first firstGot with ⟨id, drew, becomes⟩
  rcases issued.issued thread second secondGot with
    ⟨other, otherDrew, otherBecomes⟩
  have sameDraw : id = other := by
    rcases List.getElem_of_mem drew with ⟨i, iBound, iHere⟩
    rcases List.getElem_of_mem otherDrew with ⟨j, jBound, jHere⟩
    have ordered := List.pairwise_iff_getElem.mp issued.once
    rcases Nat.lt_trichotomy i j with earlier | same | later
    · have zero := ordered i j iBound jBound earlier (by rw [iHere, jHere])
      rw [iHere] at zero
      exact absurd zero (nonzero id drew)
    · subst same
      rw [iHere] at jHere
      exact congrArg Prod.snd jHere
    · have zero := ordered j i jBound iBound later (by rw [iHere, jHere])
      rw [jHere] at zero
      exact absurd zero (nonzero other otherDrew)
  rw [← becomes, sameDraw, otherBecomes]

/-- The first thread to ask asks only once. -/
def FirstAsksOnce (callers : List Thread) : Prop :=
  ∀ thread later, callers = thread :: later → thread ∉ later

omit [DecidableEq Thread] in
theorem Issued.oneIdEach_of_excluded
    (issued : Issued runtime ids) (excluded : runtime.excludeTid 0 = true) :
    OneIdEach ids.gettids := by
  intro thread first second firstGot secondGot
  refine issued.one_id_of_nonzero ?_ firstGot secondGot
  intro id _ zero
  have both := (tidOf_eq_zero_iff runtime id).mp zero
  rw [excluded] at both
  cases both.2

/-- The first thread is given 0, which is not kept, so asking again would give
it another id. -/
theorem firstAsksOnce_of_oneIdEach
    {callers : List Thread}
    (valid : (idSystem Thread runtime).run
      (idSystem Thread runtime).initial callers = some ids)
    (few : ids.drawn.length ≤ 2 ^ 31)
    (included : runtime.excludeTid 0 = false)
    (oneEach : OneIdEach ids.gettids) :
    FirstAsksOnce callers := by
  have threads := gettids_threads_of_run valid
  intro thread later sameCallers asksAgain
  rw [sameCallers] at threads
  rcases opened_of_run valid with ⟨_, noneGot⟩ | started
  · rw [noneGot] at threads
    cases threads
  · rcases started with ⟨first, laterDrawn, laterGettids, _, gettids, nonzero⟩
    have firstGot : (first, 0) ∈ ids.gettids := by
      rw [gettids, (tidOf_eq_zero_iff runtime 0).mpr ⟨rfl, included⟩]
      exact List.mem_cons_self
    rw [gettids, List.map_cons, List.cons.injEq] at threads
    have again : thread ∈ laterGettids.map Prod.fst := by
      rw [threads.2]
      exact asksAgain
    rcases List.mem_map.mp again with ⟨result, member, isThread⟩
    have againGot : (first, result.2) ∈ ids.gettids := by
      have sameThread : result.1 = first := by
        rw [isThread, ← threads.1]
      rw [gettids, ← sameThread]
      exact List.mem_cons_of_mem _ member
    exact nonzero few result member
      (oneEach first 0 result.2 firstGot againGot).symm

theorem oneIdEach_of_firstAsksOnce
    {callers : List Thread}
    (valid : (idSystem Thread runtime).run
      (idSystem Thread runtime).initial callers = some ids)
    (few : ids.drawn.length ≤ 2 ^ 31) (asksOnce : FirstAsksOnce callers) :
    OneIdEach ids.gettids := by
  have issued := issued_of_run valid
  have threads := gettids_threads_of_run valid
  intro thread first second firstGot secondGot
  rcases opened_of_run valid with ⟨_, noneGot⟩ | started
  · rw [noneGot] at firstGot
    cases firstGot
  · rcases started with ⟨opener, laterDrawn, laterGettids, drawn, gettids, _⟩
    rw [gettids, List.map_cons] at threads
    have notLater : opener ∉ laterGettids.map Prod.fst :=
      asksOnce opener (laterGettids.map Prod.fst) threads.symm
    by_cases isOpener : thread = opener
    · subst isOpener
      -- its only result is the first one
      have onlyFirst :
          ∀ tid, (thread, tid) ∈ ids.gettids → tid = runtime.tidOf 0 := by
        intro tid got
        rw [gettids] at got
        rcases List.mem_cons.mp got with here | later
        · exact congrArg Prod.snd here
        · exact absurd (List.mem_map_of_mem later) notLater
      rw [onlyFirst first firstGot, onlyFirst second secondGot]
    · -- only the opener has drawn 0
      refine issued.one_id_of_nonzero ?_ firstGot secondGot
      intro id drew zero
      have idZero := ((tidOf_eq_zero_iff runtime id).mp zero).1
      rw [idZero] at drew
      have openerDrew : (opener, (0 : Int)) ∈ ids.drawn := by
        rw [drawn]
        exact List.mem_cons_self
      exact isOpener (issued.owner_unique few drew openerDrew)

/-- Id 0 is excluded, or the thread that draws it does not ask again: that is
when every thread keeps its id. -/
theorem oneIdEach_iff
    {callers : List Thread}
    (valid : (idSystem Thread runtime).run
      (idSystem Thread runtime).initial callers = some ids)
    (few : ids.drawn.length ≤ 2 ^ 31) :
    OneIdEach ids.gettids ↔
      runtime.excludeTid 0 = true ∨ FirstAsksOnce callers := by
  constructor
  · intro oneEach
    cases included : runtime.excludeTid 0 with
    | true => exact Or.inl rfl
    | false =>
        exact Or.inr
          (firstAsksOnce_of_oneIdEach valid few included oneEach)
  · intro either
    rcases either with excluded | asksOnce
    · exact (issued_of_run valid).oneIdEach_of_excluded excluded
    · exact oneIdEach_of_firstAsksOnce valid few asksOnce

end Opening

/-! ## The machine runs the system -/

def Machine.ids (machine : Machine Thread) : Ids Thread where
  nextId := machine.nextId
  tls := fun thread => (machine.threads thread).tls
  drawn := machine.drawn
  gettids := machine.gettids

/-- The thread an action makes call `__dinamite_gettid`. -/
def Action.caller : Action Thread → Option Thread
  | .step (.call thread _) => some thread
  | .step (.choose thread) => some thread
  | _ => none

/-- The threads that call `__dinamite_gettid`, in order. -/
def callers (actions : List (Action Thread)) : List Thread :=
  actions.filterMap Action.caller

section Refinement

variable {runtime : Runtime} {machine next : Machine Thread}

@[simp]
theorem Machine.ids_setPhase (thread : Thread) (phase : Phase) :
    (machine.setPhase thread phase).ids = machine.ids := by
  simp only [Machine.ids, Machine.setPhase_tls]
  rfl

theorem Machine.ids_gettid (thread : Thread) :
    (machine.gettid runtime thread).2.ids =
      machine.ids.gettid runtime thread := by
  by_cases unset : (machine.threads thread).tls = 0
  · rw [Machine.gettid_fresh unset, Ids.gettid_unset unset]
    simp only [Machine.ids, Machine.getNextId, Machine.setTls,
      Ids.mk.injEq, true_and, and_true]
    funext other
    by_cases same : other = thread
    · subst same
      simp
    · simp [same]
  · rw [Machine.gettid_cached unset, Ids.gettid_set unset]
    rfl

omit [DecidableEq Thread] in
theorem Machine.ids_insertOrWrite
    (thread : Thread) (entry : Logentry) (tid : Int) :
    (machine.insertOrWrite runtime thread entry tid).ids =
      machine.ids := by
  unfold Machine.insertOrWrite
  split
  · rfl
  · rfl

/-- One action of the machine is at most one call of `__dinamite_gettid`. -/
theorem run_ids_of_step
    {clock : Timespec} {action : Action Thread}
    (stepped : (traceSystem Thread runtime clock).step machine action =
      some next) :
    (idSystem Thread runtime).run machine.ids action.caller.toList =
      some next.ids := by
  cases action with
  | logInit functionId =>
      obtain rfl := Option.some.inj stepped
      rfl
  | logExit functionId =>
      obtain rfl := Option.some.inj stepped
      rfl
  | step taken =>
      cases outcome_of_step stepped with
      | @call thread log idle =>
          rw [Machine.ids_setPhase, Machine.ids_gettid]
          rfl
      | stamp filled =>
          rw [Machine.ids_setPhase]
          rfl
      | @choose thread entry stamped =>
          rw [Machine.ids_setPhase, Machine.ids_gettid]
          rfl
      | store inserting =>
          rw [Machine.ids_setPhase, Machine.ids_insertOrWrite]
          rfl
      | tick later => rfl

/-- A run of the machine runs the ids, asked for by the callers in order. -/
theorem run_ids
    {clock : Timespec} {actions : List (Action Thread)}
    (valid : (traceSystem Thread runtime clock).run
      (traceSystem Thread runtime clock).initial actions = some machine) :
    (idSystem Thread runtime).run (idSystem Thread runtime).initial
      (callers actions) = some machine.ids := by
  refine (traceSystem Thread runtime clock).run_induction
    (fun actions machine =>
      (idSystem Thread runtime).run (idSystem Thread runtime).initial
        (callers actions) = some machine.ids) rfl ?_ valid
  intro actions before action after _ stepped earlier
  have last := run_ids_of_step stepped
  have split :
      callers (actions ++ [action]) =
        callers actions ++ action.caller.toList := by
    cases caller : action.caller with
    | none => simp [callers, caller]
    | some thread => simp [callers, caller]
  rw [split]
  exact (System.run_append_eq_some _).mpr ⟨before.ids, earlier, last⟩

end Refinement

end Dispenser

end Dinamite.Trace
