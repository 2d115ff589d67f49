import Dinamite.LeaseCompactness
import Dinamite.Maps.Published
import Dinamite.Maps.Uniqueness

/-!
# The id space stays compact

As long as no process is stopped, a chunk is opened only when every older one
is full or held.  So the chunks of a pool never outnumber the full ones and the
objects that were alive at one time.
-/

namespace Dinamite.Maps

open Dinamite.LeaseAllocator Dinamite.Transition

/-- `latest_chunk_id + 1` -/
def chunkCount (pool : IntMap) : Int :=
  pool[latestKey]?.getD (-1) + 1

/-- The chunks the pool marks as full. -/
def fullChunks (pool : IntMap) : Finset Nat :=
  (Finset.range (chunkCount pool).toNat).filter fun index =>
    pool[chunkKey index "_status"]? = some chunkFull

/-- The constructor has returned and the destructor has not. -/
def Process.alive : Process → Bool
  | .running _ => true
  | .drawing _ _ => true
  | _ => false

/-- The objects alive among some processes. -/
def objectsAlive (processes : Finset Nat) (world : World) : Nat :=
  (processes.filter fun process => (world.processes process).alive).card

/-- The processes that act in a run. -/
def processesOf (actions : List Action) : Finset Nat :=
  (actions.map Action.process).toFinset

/-- The largest number of objects alive at the same time. -/
def peakAlive
    {config : Config} (execution : Execution (processSystem config)) : Nat :=
  (processSystem config).peak
    (objectsAlive (processesOf execution.actions))
    (processSystem config).initial execution.actions

/-- No process is stopped without its destructor. -/
def CrashFree (actions : List Action) : Prop :=
  ∀ process, .stop process ∉ actions

/-! ## Pool and table -/

theorem chunkCount_of_represents
    {size : Int} {pool : IntMap} {cells : List Cell}
    (represents : Represents size pool cells) :
    chunkCount pool = cells.length := by
  rw [chunkCount, represents.latest_eq]
  omega

theorem statusCode_eq_full (status : CellStatus) :
    statusCode status = chunkFull ↔ status = .full := by
  cases status <;> decide

theorem fullChunks_of_represents
    {size : Int} {pool : IntMap} {cells : List Cell}
    (represents : Represents size pool cells) :
    fullChunks pool = positionsOf .full cells := by
  have count : (chunkCount pool).toNat = cells.length := by
    rw [chunkCount_of_represents represents, Int.toNat_natCast]
  unfold fullChunks positionsOf
  rw [count]
  apply Finset.filter_congr
  intro index inRange
  have present := List.getElem?_eq_getElem (Finset.mem_range.mp inRange)
  have stored := (represents.stored index _ present).status
  simp only [cellChunk] at stored
  rw [present, stored, Option.map_some, Option.some.injEq,
    Option.some.injEq, statusCode_eq_full]

/-! ## Holders and objects -/

theorem alive_of_holds
    {process : Process} {lease : Lease}
    (holds : Holds process (some lease)) : process.alive = true := by
  cases holds <;> rfl

/-- Processes outside a set have not started. -/
def StartedIn (processes : Finset Nat) (world : World) : Prop :=
  ∀ process, process ∉ processes → world.processes process = .absent

theorem StartedIn.of_outcome
    {config : Config} {processes : Finset Nat}
    {world next : World} {action : Action}
    (started : StartedIn processes world)
    (outcome : Outcome config world action next)
    (acts : action.process ∈ processes) :
    StartedIn processes next := by
  intro process outside
  have different : process ≠ action.process := by
    intro same
    subst same
    exact outside acts
  rw [outcome_other outcome different]
  exact started process outside

section Capacity

variable {config : Config} {bound : Nat} {processes : Finset Nat}
variable {world next : World} {allocator : Allocator Nat}

/-- The holders apart from a process that is alive after its step are fewer
than the objects alive then. -/
theorem exists_holders
    (mirrors : Mirrors config true world allocator)
    (started : StartedIn processes world) {process : Nat}
    (acts : process ∈ processes)
    (others : ∀ other, other ≠ process →
      next.processes other = world.processes other)
    (alive : (next.processes process).alive = true)
    (bounded : objectsAlive processes next ≤ bound) :
    ∃ holders : Finset Nat,
      Lists holders (allocator.withLease process none) ∧
        holders.card < bound := by
  let objects :=
    processes.filter fun other => (next.processes other).alive
  have isObject : process ∈ objects :=
    Finset.mem_filter.mpr ⟨acts, alive⟩
  refine ⟨objects.erase process, ?_, ?_⟩
  · intro other lease owned
    rcases Allocator.withLease_leases_eq_some.mp owned with
      ⟨_, impossible⟩ | ⟨different, before⟩
    · cases impossible
    · have holds := mirrors.holds other
      rw [before] at holds
      have inSet : other ∈ processes := by
        by_contra outside
        rw [started other outside] at holds
        cases holds
      refine Finset.mem_erase.mpr ⟨different, Finset.mem_filter.mpr
        ⟨inSet, ?_⟩⟩
      rw [others other different]
      exact alive_of_holds holds
  · exact (Finset.card_erase_lt_of_mem isObject).trans_le bounded

theorem lists_of_free
    {holders : Finset Nat} {process : Nat}
    (lists : Lists holders (allocator.withLease process none))
    (free : allocator.leases process = none) :
    Lists holders allocator := by
  intro other lease owned
  refine lists other lease ?_
  have different : other ≠ process := by
    intro same
    subst same
    rw [free] at owned
    cases owned
  rw [Allocator.withLease_leases_of_ne _ _ different]
  exact owned

/-- The moves of a step stay within the bound on the objects alive. -/
theorem within_of_outcome
    {action : Action}
    (mirrors : Mirrors config true world allocator)
    (started : StartedIn processes world)
    (acts : action.process ∈ processes)
    (crashFree : ∀ process, action ≠ .stop process)
    (outcome : Outcome config world action next)
    (bounded : objectsAlive processes next ≤ bound) :
    (allocatorSystem Nat config.chunkSize).Guarded (WithinBound bound)
      allocator (movesOf world action) := by
  have others : ∀ other, other ≠ action.process →
      next.processes other = world.processes other :=
    fun other different => outcome_other outcome different
  cases outcome with
  | readMap before => trivial
  | @reserve process self before =>
      rcases mirrors.lease_of_constructing before with ⟨free, _⟩
      obtain ⟨holders, lists, room⟩ :=
        exists_holders mirrors started acts others
          (by simp [Process.alive, Action.process, World.withProcess])
          bounded
      exact ⟨⟨holders, lists_of_free lists free, room⟩, fun _ _ => trivial⟩
  | @known process self src id before found =>
      rw [movesOf_known before found]
      trivial
  | @refill process self src before unknown empty =>
      rw [movesOf_refill before unknown empty]
      obtain ⟨holders, lists, room⟩ :=
        exists_holders mirrors started acts others
          (by simp [Process.alive, Action.process, World.withProcess])
          bounded
      refine ⟨trivial, ?_⟩
      intro released stepped
      have moved :
          Moves config.chunkSize allocator (.release process) released :=
        moves_of_step stepped
      cases moved with
      | release _ => exact ⟨⟨holders, lists, room⟩, fun _ _ => trivial⟩
  | @fresh process self src before unknown available =>
      rw [movesOf_fresh before unknown available]
      exact ⟨trivial, fun _ _ => trivial⟩
  | takeId before => exact ⟨trivial, fun _ _ => trivial⟩
  | saveMap before => trivial
  | destroy before => exact ⟨trivial, fun _ _ => trivial⟩
  | @stop process self before => exact absurd rfl (crashFree process)

/-- What holds of every state of a crash-free run within the bound. -/
structure CompactWorld
    (config : Config) (processes : Finset Nat) (bound : Nat)
    (world : World) : Prop where
  started : StartedIn processes world
  mirrored :
    ∃ allocator, Mirrors config true world allocator ∧
      Compact config.chunkSize bound allocator

theorem compactWorld_initial :
    CompactWorld config processes bound (processSystem config).initial :=
  ⟨fun _ _ => rfl, _, mirrors_initial config, compact_initial⟩

theorem CompactWorld.of_step
    {action : Action}
    (compact : CompactWorld config processes bound world)
    (acts : action.process ∈ processes)
    (crashFree : ∀ process, action ≠ .stop process)
    (stepped : (processSystem config).step world action = some next)
    (bounded : objectsAlive processes next ≤ bound) :
    CompactWorld config processes bound next := by
  have outcome : Outcome config world action next :=
    outcome_of_step stepped
  rcases compact.mirrored with ⟨allocator, mirrors, table⟩
  rcases mirrors_of_moves outcome (fun _ => rfl) mirrors with
    ⟨target, moved, after⟩
  have within :=
    within_of_outcome mirrors compact.started acts crashFree outcome bounded
  exact ⟨compact.started.of_outcome outcome acts, target, after,
    compact_of_run config.chunkSize_pos within moved table⟩

end Capacity

/-- The invariant holds at the end of every crash-free execution, with its peak
as the bound. -/
theorem compactWorld_of_execution
    {config : Config} (execution : Execution (processSystem config))
    (crashFree : CrashFree execution.actions) :
    CompactWorld config (processesOf execution.actions)
      (peakAlive execution) execution.final := by
  have bounded :=
    (processSystem config).guarded_of_peak_le
      (le_refl (peakAlive execution))
  have listed :
      (processSystem config).Guarded
        (fun _ action =>
          action.process ∈ processesOf execution.actions ∧
            ∀ process, action ≠ .stop process)
        (processSystem config).initial execution.actions := by
    apply (processSystem config).guarded_of_forall
    intro action member
    exact ⟨List.mem_toFinset.mpr (List.mem_map_of_mem member),
      fun process same => crashFree process (same ▸ member)⟩
  exact (processSystem config).guarded_run_invariant _
    (fun _ _ _ guarded stepped compact =>
      compact.of_step guarded.1.1 guarded.1.2 stepped
        (guarded.2 _ stepped))
    ((processSystem config).guarded_and listed bounded) execution.valid
    compactWorld_initial

/-- In every crash-free run the chunks ever created are at most the full ones
and the largest number of objects alive at the same time, and every id lies in
the range of so many chunks. -/
theorem chunks_stay_compact
    (config : Config) (execution : Execution (processSystem config))
    (crashFree : CrashFree execution.actions) :
    chunkCount (poolEntries config execution.final) ≤
        (fullChunks (poolEntries config execution.final)).card +
          peakAlive execution ∧
      ∀ entry ∈ execution.final.returned,
        entry.id < config.chunkSize *
          ((fullChunks (poolEntries config execution.final)).card +
            peakAlive execution) := by
  rcases compactWorld_of_execution execution crashFree with
    ⟨_, allocator, mirrors, compact⟩
  have represents := mirrors.represents rfl
  have bounded := compact.bounded
  rw [chunkCount_of_represents represents,
    fullChunks_of_represents represents]
  refine ⟨by exact_mod_cast bounded, ?_⟩
  intro entry member
  rcases mirrors.accounted.issued_from _ (mirrors.issued entry member) with
    ⟨index, cell, origin⟩
  have stop := (mirrors.accounted.cell_bounds _ _ origin.present).stop_eq
  have upper := origin.upper
  rcases List.getElem?_eq_some_iff.mp origin.present with ⟨inTable, _⟩
  have below : index + 1 ≤
      (positionsOf .full allocator.cells).card + peakAlive execution := by
    omega
  have sizePositive := config.chunkSize_pos
  calc
    entry.id < config.chunkSize * (index + 1 : Int) := by
      rw [mul_add, mul_comm]
      omega
    _ ≤ config.chunkSize *
        ((positionsOf .full allocator.cells).card +
          peakAlive execution) := by
      apply mul_le_mul_of_nonneg_left _ (by omega)
      exact_mod_cast below

/-- The second process goes on in the chunk the first one gave back. -/
def recyclingActions : List Action :=
  [.readMap 0, .reserve 0, .getId 0 "counter", .saveMap 0, .destroy 0,
    .readMap 1, .reserve 1, .getId 1 "limit"]

theorem recyclingActions_crashFree : CrashFree recyclingActions := by
  intro process
  simp [recyclingActions]

theorem exists_recycling :
    ∃ execution : Execution (processSystem Config.source),
      execution.actions = recyclingActions := by
  have enabled :
      ((processSystem Config.source).run
        (processSystem Config.source).initial
        recyclingActions).isSome = true := by
    decide +kernel
  rcases Option.isSome_iff_exists.mp enabled with ⟨final, valid⟩
  exact ⟨⟨recyclingActions, final, valid⟩, rfl⟩

theorem chunks_stay_compact_recycling :
    ∃ execution : Execution (processSystem Config.source),
      execution.actions = recyclingActions ∧
        chunkCount (poolEntries Config.source execution.final) ≤
            (fullChunks (poolEntries Config.source execution.final)).card +
              peakAlive execution ∧
          ∀ entry ∈ execution.final.returned,
            entry.id < Config.source.chunkSize *
              ((fullChunks
                  (poolEntries Config.source execution.final)).card +
                peakAlive execution) := by
  rcases exists_recycling with ⟨execution, recycles⟩
  have crashFree : CrashFree execution.actions := by
    rw [recycles]
    exact recyclingActions_crashFree
  exact ⟨execution, recycles,
    chunks_stay_compact Config.source execution crashFree⟩

end Dinamite.Maps
