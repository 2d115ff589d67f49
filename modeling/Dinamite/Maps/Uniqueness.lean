import Dinamite.Maps.PoolRefinement
import Dinamite.Maps.Documented

/-!
# Ids are unique across processes

The processes simulate the lease allocator: the pool file is its table, the
private chunk of a process is its lease, and an id taken from a chunk is drawn
from the lease.  So an id that is new to one process is new to all of them,
also when chunks are recycled half used or lost with a stopped process.
-/

namespace Dinamite.Maps

open Dinamite.LeaseAllocator Dinamite.Transition

/-- The lease a process holds.  Inside `getId` the lease still has an id. -/
inductive Holds : Process → Option Lease → Prop
  | absent : Holds .absent none
  | constructing {self : IdMap}
      (notInit : self.curchunk.status = chunkNotInit) :
      Holds (.constructing self) none
  | running {self : IdMap} {lease : Lease}
      (chunk : self.curchunk = leaseChunk lease) :
      Holds (.running self) (some lease)
  | drawing {self : IdMap} {src : String} {lease : Lease}
      (chunk : self.curchunk = leaseChunk lease)
      (available : lease.start ≤ lease.stop) :
      Holds (.drawing self src) (some lease)
  | ended : Holds .ended none

/-- The allocator state that a world stands for.  The flag says that the pool
file still records the table. -/
structure Mirrors
    (config : Config) (poolKept : Bool) (world : World)
    (allocator : Allocator Nat) : Prop where
  accounted : Accounted config.chunkSize allocator
  represents :
    poolKept = true →
      Represents config.chunkSize (poolEntries config world)
        allocator.cells
  holds :
    ∀ process,
      Holds (world.processes process) (allocator.leases process)
  issued : ∀ entry ∈ world.returned, entry.id ∈ allocator.issued
  named :
    ∀ left ∈ world.returned, ∀ right ∈ world.returned,
      left.id = right.id → left.src = right.src
  documented : Documented config world

theorem mirrors_initial (config : Config) :
    Mirrors config true (processSystem config).initial
      (allocatorSystem Nat config.chunkSize).initial := by
  refine ⟨accounted_initial, ?_, fun _ => .absent, nofun, nofun,
    documented_initial config⟩
  intro _
  exact represents_empty config.chunkSize

section Steps

variable {config : Config} {poolKept : Bool}
variable {world : World} {allocator : Allocator Nat}
variable {process : Nat} {self : IdMap} {src : String}

/-- One process moves on together with its lease. -/
theorem holds_withProcess
    (mirrors : Mirrors config poolKept world allocator) (process : Nat)
    {now : Process} {lease : Option Lease} (own : Holds now lease)
    (other : Nat) :
    Holds ((world.withProcess process now).processes other)
      ((allocator.withLease process lease).leases other) := by
  by_cases same : other = process
  · subst same
    simpa using own
  · rw [World.withProcess_of_ne _ _ same,
      Allocator.withLease_leases_of_ne _ _ same]
    exact mirrors.holds other

/-- The same while the lease is left alone. -/
theorem holds_withProcess_kept
    (mirrors : Mirrors config poolKept world allocator)
    {now : Process} (own : Holds now (allocator.leases process))
    (other : Nat) :
    Holds ((world.withProcess process now).processes other)
      (allocator.leases other) := by
  by_cases same : other = process
  · subst same
    simpa using own
  · rw [World.withProcess_of_ne _ _ same]
    exact mirrors.holds other

theorem Mirrors.lease_of_constructing
    (mirrors : Mirrors config poolKept world allocator)
    (before : world.processes process = .constructing self) :
    allocator.leases process = none ∧
      self.curchunk.status = chunkNotInit := by
  have own := mirrors.holds process
  rw [before] at own
  cases lease : allocator.leases process with
  | none =>
      rw [lease] at own
      cases own with
      | constructing notInit => exact ⟨rfl, notInit⟩
  | some held =>
      rw [lease] at own
      cases own

theorem Mirrors.lease_of_running
    (mirrors : Mirrors config poolKept world allocator)
    (before : world.processes process = .running self) :
    ∃ lease, allocator.leases process = some lease ∧
      self.curchunk = leaseChunk lease := by
  have own := mirrors.holds process
  rw [before] at own
  cases lease : allocator.leases process with
  | none =>
      rw [lease] at own
      cases own
  | some held =>
      rw [lease] at own
      cases own with
      | running chunk => exact ⟨held, rfl, chunk⟩

theorem Mirrors.lease_of_drawing
    (mirrors : Mirrors config poolKept world allocator)
    (before : world.processes process = .drawing self src) :
    ∃ lease, allocator.leases process = some lease ∧
      self.curchunk = leaseChunk lease ∧ lease.start ≤ lease.stop := by
  have own := mirrors.holds process
  rw [before] at own
  cases lease : allocator.leases process with
  | none =>
      rw [lease] at own
      cases own
  | some held =>
      rw [lease] at own
      cases own with
      | drawing chunk available => exact ⟨held, rfl, chunk, available⟩

theorem Mirrors.inTable
    (mirrors : Mirrors config poolKept world allocator)
    {lease : Lease} (held : allocator.leases process = some lease) :
    lease.index < allocator.cells.length := by
  rcases mirrors.accounted.lease_backed process lease held with ⟨cell, backed⟩
  rcases List.getElem?_eq_some_iff.mp backed.present with ⟨bound, _⟩
  exact bound

/-- Answering a known name draws nothing. -/
theorem mirrors_known
    (mirrors : Mirrors config poolKept world allocator)
    (before : world.processes process = .running self)
    {id : Int} (found : self.lookup src = some id)
    (documented : Documented config (world.record process src id)) :
    Mirrors config poolKept (world.record process src id) allocator := by
  rcases mirrors.documented.lookup (by rw [before]; rfl) found with
    ⟨first, member⟩
  refine ⟨mirrors.accounted, mirrors.represents, mirrors.holds, ?_, ?_,
    documented⟩
  · intro entry isEntry
    rcases List.mem_cons.mp isEntry with rfl | earlier
    · exact mirrors.issued ⟨first, src, id⟩ member
    · exact mirrors.issued entry earlier
  · -- the new entry repeats the id and the name of an earlier one
    have earlierOne :
        ∀ entry ∈ (world.record process src id).returned,
          ∃ other ∈ world.returned,
            other.id = entry.id ∧ other.src = entry.src := by
      intro entry isEntry
      rcases List.mem_cons.mp isEntry with rfl | earlier
      · exact ⟨_, member, rfl, rfl⟩
      · exact ⟨entry, earlier, rfl, rfl⟩
    intro left isLeft right isRight sameId
    rcases earlierOne left isLeft with ⟨leftOld, leftMember, leftId, leftSrc⟩
    rcases earlierOne right isRight with
      ⟨rightOld, rightMember, rightId, rightSrc⟩
    rw [← leftSrc, ← rightSrc]
    exact mirrors.named _ leftMember _ rightMember
      (by rw [leftId, rightId, sameId])

/-- Taking an id draws it from the lease, where it is new to everybody. -/
theorem mirrors_take
    (mirrors : Mirrors config poolKept world allocator)
    {lease : Lease} (held : allocator.leases process = some lease)
    (chunk : self.curchunk = leaseChunk lease)
    (available : lease.start ≤ lease.stop)
    (documented : Documented config (finishGetId world process self src)) :
    ∃ target,
      (allocatorSystem Nat config.chunkSize).run allocator
          [.draw process] = some target ∧
        Mirrors config poolKept (finishGetId world process self src)
          target := by
  have moved := run_draw config.chunkSize held available
  refine ⟨_, moved, ?_⟩
  have fresh := mirrors.accounted.held_not_issued held (le_refl _) available
  have taken : (self.takeId src).1 = lease.start := by
    simp [IdMap.takeId, chunk, leaseChunk]
  refine ⟨accounted_of_run config.chunkSize_pos moved mirrors.accounted,
    mirrors.represents, ?_, ?_, ?_, documented⟩
  · intro other
    apply holds_withProcess mirrors
    apply Holds.running
    simp [IdMap.takeId, chunk, leaseChunk]
  · intro entry isEntry
    rcases List.mem_cons.mp isEntry with rfl | earlier
    · exact List.mem_cons.mpr (Or.inl taken)
    · exact List.mem_cons_of_mem _ (mirrors.issued entry earlier)
  · intro left isLeft right isRight sameId
    rcases List.mem_cons.mp isLeft with rfl | leftEarlier
    · rcases List.mem_cons.mp isRight with rfl | rightEarlier
      · rfl
      · refine absurd ?_ fresh
        dsimp only at sameId
        rw [← taken, sameId]
        exact mirrors.issued right rightEarlier
    · rcases List.mem_cons.mp isRight with rfl | rightEarlier
      · refine absurd ?_ fresh
        dsimp only at sameId
        rw [← taken, ← sameId]
        exact mirrors.issued left leftEarlier
      · exact mirrors.named left leftEarlier right rightEarlier sameId

/-- The constructor acquires a first chunk. -/
theorem mirrors_reserve
    (mirrors : Mirrors config poolKept world allocator)
    (kept : poolKept = true)
    (before : world.processes process = .constructing self)
    {next : World}
    (outcome : Outcome config world (.reserve process) next) :
    ∃ target,
      (allocatorSystem Nat config.chunkSize).run allocator
          [.acquire process] = some target ∧
        Mirrors config poolKept next target := by
  have documented := documented_of_outcome outcome mirrors.documented
  rcases mirrors.lease_of_constructing before with ⟨free, notInit⟩
  have moved := run_acquire config.chunkSize free
  refine ⟨_, moved, ?_⟩
  cases outcome with
  | @reserve _ other same =>
      obtain rfl := Process.constructing.inj (before.symm.trans same)
      rcases
          reserveInPool_spec none (mirrors.represents kept) notInit nofun with
        ⟨chunk, represents⟩
      refine
        ⟨accounted_of_run config.chunkSize_pos moved mirrors.accounted,
          ?_, ?_, mirrors.issued, mirrors.named, documented⟩
      · intro _
        simpa [poolEntries, giveBack] using represents
      · exact holds_withProcess mirrors process (.running chunk)

/-- Replacing an exhausted chunk gives it back and acquires another, with at
least one id in it. -/
theorem mirrors_refill
    (mirrors : Mirrors config poolKept world allocator)
    (kept : poolKept = true)
    {lease : Lease} (held : allocator.leases process = some lease)
    (chunk : self.curchunk = leaseChunk lease)
    {next : World}
    (stands : next = { world.withProcess process
        (.drawing { self with
          curchunk :=
            (reserveInPool config.chunkSize
              (poolEntries config world) self.curchunk).1 } src) with
      poolFile := some (writeMapToJson config.format
        (reserveInPool config.chunkSize
          (poolEntries config world) self.curchunk).2) })
    (documented : Documented config next) :
    ∃ target,
      (allocatorSystem Nat config.chunkSize).run allocator
          [.release process, .acquire process] = some target ∧
        Mirrors config poolKept next target := by
  subst stands
  have givenBack := run_release config.chunkSize held
  have released :=
    accounted_of_run config.chunkSize_pos givenBack mirrors.accounted
  have moved :=
    (System.run_append_eq_some _).mpr
      ⟨_, givenBack, run_acquire config.chunkSize
        (Allocator.withLease_leases_self _ _ _)⟩
  refine ⟨_, moved, ?_⟩
  obtain ⟨nextChunk, represents⟩ :=
    reserveInPool_spec (some lease) (mirrors.represents kept) chunk
      (by rintro _ ⟨⟩; exact mirrors.inTable held)
  refine ⟨accounted_of_run config.chunkSize_pos moved mirrors.accounted,
    ?_, ?_, mirrors.issued, mirrors.named, documented⟩
  · intro _
    simpa [poolEntries, giveBack] using represents
  · intro other
    have own :
        Holds
          (.drawing { self with
            curchunk :=
              (reserveInPool config.chunkSize
                (poolEntries config world) self.curchunk).1 } src)
          (some (acquire config.chunkSize
            (giveBack allocator.cells (some lease))).1) :=
      .drawing nextChunk
        (acquire_available released config.chunkSize_pos)
    have moved := holds_withProcess mirrors process own other
    simpa [Allocator.withLease, giveBack] using moved

/-- The destructor gives the chunk back. -/
theorem mirrors_destroy
    (mirrors : Mirrors config poolKept world allocator)
    {lease : Lease} (held : allocator.leases process = some lease)
    (chunk : self.curchunk = leaseChunk lease)
    {next : World}
    (stands : next = { world.withProcess process .ended with
      poolFile := some (writeMapToJson config.format
        (recycleInPool (poolEntries config world) self.curchunk)) })
    (documented : Documented config next) :
    ∃ target,
      (allocatorSystem Nat config.chunkSize).run allocator
          [.release process] = some target ∧
        Mirrors config poolKept next target := by
  subst stands
  have moved := run_release config.chunkSize held
  refine ⟨_, moved,
    accounted_of_run config.chunkSize_pos moved mirrors.accounted,
    ?_, ?_, mirrors.issued, mirrors.named, documented⟩
  · intro kept
    have represents :=
      recycleInPool_spec (mirrors.represents kept) (mirrors.inTable held)
    simpa [poolEntries, chunk] using represents
  · exact holds_withProcess mirrors process .ended

/-- A process that disappears takes its lease with it. -/
theorem mirrors_abandon
    (mirrors : Mirrors config poolKept world allocator)
    (documented : Documented config (world.withProcess process .ended)) :
    Mirrors config poolKept (world.withProcess process .ended)
      (allocator.withLease process none) :=
  ⟨accounted_abandon mirrors.accounted, mirrors.represents,
    holds_withProcess mirrors process .ended, mirrors.issued,
    mirrors.named, documented⟩

end Steps

/-- The step calls `reserveNewChunk`. -/
def reserves (world : World) : Action → Bool
  | .reserve _ => true
  | .getId process src =>
      match world.processes process with
      | .running self => (self.lookup src).isNone && self.exhausted
      | _ => false
  | _ => false

/-- The moves of the allocator a step stands for. -/
def movesOf (world : World) : Action → List (Move Nat)
  | .readMap _ => []
  | .reserve process => [.acquire process]
  | .getId process src =>
      match world.processes process with
      | .running self =>
          if (self.lookup src).isSome then
            []
          else if self.exhausted then
            [.release process, .acquire process]
          else
            [.draw process]
      | _ => []
  | .takeId process => [.draw process]
  | .saveMap _ => []
  | .destroy process => [.release process]
  | .stop process => [.abandon process]

section MovesOf

variable {world : World} {process : Nat} {self : IdMap} {src : String}

theorem movesOf_known
    {id : Int} (before : world.processes process = .running self)
    (found : self.lookup src = some id) :
    movesOf world (.getId process src) = [] := by
  simp [movesOf, before, found]

theorem movesOf_refill
    (before : world.processes process = .running self)
    (unknown : self.lookup src = none)
    (empty : self.curchunk.start > self.curchunk.stop) :
    movesOf world (.getId process src) =
      [.release process, .acquire process] := by
  simp [movesOf, before, unknown, IdMap.exhausted, empty]

theorem movesOf_fresh
    (before : world.processes process = .running self)
    (unknown : self.lookup src = none)
    (available : self.curchunk.start ≤ self.curchunk.stop) :
    movesOf world (.getId process src) = [.draw process] := by
  simp [movesOf, before, unknown, IdMap.exhausted, available]

end MovesOf

/-- Every step of a process is matched by its moves, as long as chunks are only
reserved from a pool file that records the table. -/
theorem mirrors_of_moves
    {config : Config} {poolKept : Bool}
    {world next : World} {action : Action} {allocator : Allocator Nat}
    (outcome : Outcome config world action next)
    (readsTable : reserves world action = true → poolKept = true)
    (mirrors : Mirrors config poolKept world allocator) :
    ∃ target,
      (allocatorSystem Nat config.chunkSize).run allocator
          (movesOf world action) = some target ∧
        Mirrors config poolKept next target := by
  have documented := documented_of_outcome outcome mirrors.documented
  cases outcome with
  | @readMap process before =>
      refine ⟨allocator, rfl, mirrors.accounted, mirrors.represents,
        ?_, mirrors.issued, mirrors.named, documented⟩
      have own := mirrors.holds process
      rw [before] at own
      cases lease : allocator.leases process with
      | some held =>
          rw [lease] at own
          cases own
      | none =>
          apply holds_withProcess_kept mirrors
          rw [lease]
          exact .constructing rfl
  | @reserve process self before =>
      exact mirrors_reserve mirrors (readsTable rfl) before (.reserve before)
  | @known process self src id before found =>
      rw [movesOf_known before found]
      exact ⟨allocator, rfl,
        mirrors_known mirrors before found documented⟩
  | @refill process self src before unknown empty =>
      rcases mirrors.lease_of_running before with ⟨lease, held, chunk⟩
      have kept : poolKept = true := by
        apply readsTable
        simp [reserves, before, unknown, IdMap.exhausted, empty]
      rw [movesOf_refill before unknown empty]
      exact mirrors_refill mirrors kept held chunk rfl documented
  | @fresh process self src before unknown available =>
      rcases mirrors.lease_of_running before with ⟨lease, held, chunk⟩
      rw [movesOf_fresh before unknown available]
      rw [chunk] at available
      exact mirrors_take mirrors held chunk available documented
  | @takeId process self src before =>
      rcases mirrors.lease_of_drawing before with
        ⟨lease, held, chunk, available⟩
      exact mirrors_take mirrors held chunk available documented
  | @saveMap process self before =>
      rcases mirrors.lease_of_running before with ⟨lease, held, chunk⟩
      refine ⟨allocator, rfl, mirrors.accounted, mirrors.represents,
        ?_, mirrors.issued, mirrors.named, documented⟩
      apply holds_withProcess_kept mirrors
      rw [held]
      exact .running chunk
  | @destroy process self before =>
      rcases mirrors.lease_of_running before with ⟨lease, held, chunk⟩
      exact mirrors_destroy mirrors held chunk rfl documented
  | @stop process self before =>
      exact ⟨_, rfl, mirrors_abandon mirrors documented⟩

/-- Every step of a process is matched by moves of the allocator, as long as
chunks are only reserved from a pool file that records the table. -/
theorem mirrors_of_outcome
    {config : Config} {poolKept : Bool}
    {world next : World} {action : Action} {allocator : Allocator Nat}
    (outcome : Outcome config world action next)
    (readsTable : reserves world action = true → poolKept = true)
    (mirrors : Mirrors config poolKept world allocator) :
    ∃ moves target,
      (allocatorSystem Nat config.chunkSize).run allocator moves =
          some target ∧
        Mirrors config poolKept next target :=
  ⟨_, mirrors_of_moves outcome readsTable mirrors⟩

/-- The processes and their two files refine the lease allocator. -/
def poolSimulation (config : Config) :
    Simulation (processSystem config)
      (allocatorSystem Nat config.chunkSize) where
  Related := Mirrors config true
  initial := mirrors_initial config
  step := fun _ _ _ _ stepped mirrors =>
    mirrors_of_outcome (outcome_of_step stepped) (fun _ => rfl) mirrors

/-- The map file never binds an id twice. -/
theorem binds_injective
    {config : Config} (execution : Execution (processSystem config))
    {left right : String} {id : Int}
    (leftBound : Binds config execution.final left id)
    (rightBound : Binds config execution.final right id) :
    left = right := by
  rcases (poolSimulation config).exists_execution execution with
    ⟨image, mirrors⟩
  rcases mirrors.documented.published left id leftBound with
    ⟨_, leftReturned⟩
  rcases mirrors.documented.published right id rightBound with
    ⟨_, rightReturned⟩
  exact mirrors.named _ leftReturned _ rightReturned rfl

/-- Two returns of one id are for one name, and the map file never binds an id
twice. -/
theorem ids_identify_names
    (config : Config) (execution : Execution (processSystem config)) :
    (∀ left ∈ execution.final.returned,
      ∀ right ∈ execution.final.returned,
        left.id = right.id → left.src = right.src) ∧
      ∀ (left right : String) (id : Int),
        (mapEntries config execution.final)[left]? = some id →
        (mapEntries config execution.final)[right]? = some id →
          left = right := by
  rcases (poolSimulation config).exists_execution execution with
    ⟨image, mirrors⟩
  refine ⟨mirrors.named, ?_⟩
  intro left right id leftBound rightBound
  rcases mirrors.documented.published left id leftBound with ⟨_, leftReturned⟩
  rcases mirrors.documented.published right id rightBound with
    ⟨_, rightReturned⟩
  exact mirrors.named _ leftReturned _ rightReturned rfl

end Dinamite.Maps
