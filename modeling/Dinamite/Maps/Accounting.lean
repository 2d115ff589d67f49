import Dinamite.LeaseExactness
import Dinamite.Maps.Compactness

/-!
# The accounts of the chunk pool

As long as no process is stopped, the pool file and the objects alive say which
ids were handed out: in every chunk the ones below its cursor.
-/

namespace Dinamite.Maps

open Dinamite.LeaseAllocator Dinamite.Transition

/-! ## Holders and cursors -/

/-- The object of the process is alive, has reserved a chunk, and holds this
one as `curchunk`. -/
structure HoldsChunk
    (world : World) (process index : Nat) (self : IdMap) : Prop where
  object : (world.processes process).object = some self
  reserved : self.curchunk.status ≠ chunkNotInit
  current : self.curchunk.id = index

/-- The cursor of a chunk: the private one of its holder, or the recorded one
if there is no holder. -/
inductive ChunkCursor (config : Config) (world : World) (index : Nat) :
    Int → Prop
  | held {process : Nat} {self : IdMap}
      (holds : HoldsChunk world process index self) :
      ChunkCursor config world index self.curchunk.start
  | recorded {start : Int}
      (present :
        (poolEntries config world)[chunkKey index "_start"]? = some start)
      (free : ∀ process self, ¬ HoldsChunk world process index self) :
      ChunkCursor config world index start

/-- What the pool file says of a chunk. -/
structure ChunkAccounted
    (config : Config) (world : World) (index : Nat) (chk : Chunk) :
    Prop where
  id : chk.id = index
  stored : Stores (poolEntries config world) chk
  stop : chk.stop = (index + 1) * config.chunkSize - 1
  lower : index * config.chunkSize ≤ chk.start
  upper : chk.start ≤ chk.stop + 1
  beingUsed :
    chk.status = chunkBeingUsed ↔
      ∃! process, ∃ self, HoldsChunk world process index self
  opened : chk.status = chunkOpened → chk.start ≤ chk.stop
  full : chk.status = chunkFull → chk.start = chk.stop + 1

theorem statusCode_eq_beingUsed (status : CellStatus) :
    statusCode status = chunkBeingUsed ↔ status = .leased := by
  cases status <;> decide

section Mirrored

variable {config : Config} {world : World} {allocator : Allocator Nat}
variable {process index : Nat} {cell : Cell}

/-- The holder of a chunk has a lease of its cell. -/
theorem lease_of_holdsChunk
    (mirrors : Mirrors config true world allocator)
    {self : IdMap} (holds : HoldsChunk world process index self) :
    ∃ lease, allocator.leases process = some lease ∧
      lease.index = index ∧ self.curchunk = leaseChunk lease := by
  rcases holds with ⟨object, reserved, current⟩
  have own := mirrors.holds process
  generalize world.processes process = state at own object
  generalize allocator.leases process = lease at own
  cases own with
  | absent => cases object
  | constructing notInit =>
      obtain rfl := Option.some.inj object
      exact absurd notInit reserved
  | running chunk =>
      obtain rfl := Option.some.inj object
      rw [chunk] at current
      exact ⟨_, rfl, Int.ofNat.inj current, chunk⟩
  | drawing chunk available =>
      obtain rfl := Option.some.inj object
      rw [chunk] at current
      exact ⟨_, rfl, Int.ofNat.inj current, chunk⟩
  | ended => cases object

/-- The owner of a lease holds the chunk. -/
theorem holdsChunk_of_lease
    (mirrors : Mirrors config true world allocator)
    {lease : Lease} (owned : allocator.leases process = some lease) :
    ∃ self, HoldsChunk world process lease.index self ∧
      self.curchunk = leaseChunk lease := by
  have own := mirrors.holds process
  rw [owned] at own
  generalize isState : world.processes process = state at own
  have reserved : (leaseChunk lease).status ≠ chunkNotInit := nofun
  cases own with
  | @running self _ chunk =>
      refine ⟨self, ⟨by rw [isState]; rfl, ?_, ?_⟩, chunk⟩
      · rw [chunk]
        exact reserved
      · rw [chunk]
        rfl
  | @drawing self src _ chunk available =>
      refine ⟨self, ⟨by rw [isState]; rfl, ?_, ?_⟩, chunk⟩
      · rw [chunk]
        exact reserved
      · rw [chunk]
        rfl

/-- The cursor of a chunk is that of its cell. -/
theorem chunkCursor_iff
    (mirrors : Mirrors config true world allocator)
    (inTable : index < allocator.cells.length) (cursor : Int) :
    ChunkCursor config world index cursor ↔
      Cursor allocator index cursor := by
  constructor
  · intro isCursor
    cases isCursor with
    | held holds =>
        rcases lease_of_holdsChunk mirrors holds with
          ⟨lease, owned, same, chunk⟩
        rw [chunk]
        exact .held owned same
    | recorded present free =>
        have isCell := List.getElem?_eq_getElem inTable
        have stored :=
          ((mirrors.represents rfl).stored index _ isCell).start
        obtain rfl := Option.some.inj (stored.symm.trans present)
        refine .recorded isCell ?_
        intro owner lease owned same
        rcases holdsChunk_of_lease mirrors owned with ⟨self, holds, _⟩
        rw [same] at holds
        exact free owner self holds
  · intro isCursor
    cases isCursor with
    | @held owner lease owned same =>
        rcases holdsChunk_of_lease mirrors owned with ⟨self, holds, chunk⟩
        have isCursor :
            ChunkCursor config world lease.index self.curchunk.start :=
          .held holds
        rw [chunk, same] at isCursor
        exact isCursor
    | recorded present free =>
        have stored :=
          ((mirrors.represents rfl).stored index _ present).start
        refine .recorded stored ?_
        intro process self holds
        rcases lease_of_holdsChunk mirrors holds with
          ⟨lease, owned, same, _⟩
        exact free process lease owned same

/-- The id that `getId` is about to take lies in the chunk. -/
structure TakesInside
    (config : Config) (world : World) (process index : Nat)
    (self : IdMap) : Prop where
  stop : self.curchunk.stop = (index + 1) * config.chunkSize - 1
  lower : index * config.chunkSize ≤ self.curchunk.start
  available :
    ∀ src, world.processes process = .drawing self src →
      self.curchunk.start ≤ self.curchunk.stop

theorem takesInside_of_holdsChunk
    (mirrors : Mirrors config true world allocator)
    {self : IdMap} (holds : HoldsChunk world process index self) :
    index < allocator.cells.length ∧
      TakesInside config world process index self := by
  rcases lease_of_holdsChunk mirrors holds with
    ⟨lease, owned, same, chunk⟩
  rcases mirrors.accounted.lease_backed process lease owned with
    ⟨backing, backed⟩
  rcases List.getElem?_eq_some_iff.mp backed.present with ⟨inTable, _⟩
  have bounds := mirrors.accounted.cell_bounds _ _ backed.present
  rw [same] at inTable bounds
  refine ⟨inTable, ?_, ?_, ?_⟩
  · have stop := bounds.stop_eq
    have sameStop := backed.stop_eq
    rw [chunk]
    show lease.stop = (index + 1) * config.chunkSize - 1
    linarith
  · rw [chunk]
    exact bounds.lower.trans backed.lower
  · intro src drawing
    rcases mirrors.lease_of_drawing drawing with
      ⟨other, _, otherChunk, available⟩
    rw [otherChunk]
    exact available

/-- Every chunk of the pool is accounted for. -/
theorem chunkAccounted_of_exact
    (mirrors : Mirrors config true world allocator)
    (exact : Exact config.chunkSize allocator)
    (present : allocator.cells[index]? = some cell) :
    ChunkAccounted config world index (cellChunk index cell) := by
  have bounds := exact.accounted.cell_bounds index cell present
  refine ⟨rfl, (mirrors.represents rfl).stored index cell present, ?_,
    bounds.lower, bounds.upper, ?_, ?_, ?_⟩
  · have stop := bounds.stop_eq
    show cell.stop = (index + 1) * config.chunkSize - 1
    linarith
  · have leased := exact.leased_iff present
    show statusCode cell.status = chunkBeingUsed ↔ _
    rw [statusCode_eq_beingUsed, leased]
    constructor
    · intro isHeld
      rcases isHeld with ⟨owner, lease, owned, rfl⟩
      rcases holdsChunk_of_lease mirrors owned with ⟨self, holds, _⟩
      refine ⟨owner, ⟨self, holds⟩, ?_⟩
      intro other otherHolds
      rcases otherHolds with ⟨otherSelf, otherHolds⟩
      rcases lease_of_holdsChunk mirrors otherHolds with
        ⟨otherLease, otherOwned, same, _⟩
      exact exact.accounted.exclusive _ _ _ _ otherOwned owned same
    · intro isHeld
      rcases isHeld.exists with ⟨process, self, holds⟩
      rcases lease_of_holdsChunk mirrors holds with ⟨lease, owned, same, _⟩
      exact ⟨process, lease, owned, same⟩
  · exact fun isOpened =>
      bounds.opened ((statusCode_eq_opened _).mp isOpened)
  · exact fun isFull => bounds.full ((statusCode_eq_full _).mp isFull)

end Mirrored

/-! ## Steps -/

section Steps

variable {config : Config} {world next : World} {action : Action}
variable {allocator target : Allocator Nat}

theorem stays_of_movesOf
    (crashFree : ∀ process, action ≠ .stop process) :
    ∀ move ∈ movesOf world action, Stays move := by
  intro move member
  cases action with
  | readMap process => cases member
  | reserve process =>
      rw [List.mem_singleton.mp member]
      trivial
  | getId process src =>
      simp only [movesOf] at member
      split at member
      · split at member
        · cases member
        · split at member
          · rcases List.mem_pair.mp member with rfl | rfl
            · trivial
            · trivial
          · rw [List.mem_singleton.mp member]
            trivial
      · cases member
  | takeId process =>
      rw [List.mem_singleton.mp member]
      trivial
  | saveMap process => cases member
  | destroy process =>
      rw [List.mem_singleton.mp member]
      trivial
  | stop process => exact absurd rfl (crashFree process)

/-- What a step draws is the id it returns. -/
theorem returned_of_draw
    {process : Nat} {self : IdMap} {src : String} {lease : Lease}
    (owned : allocator.leases process = some lease)
    (chunk : self.curchunk = leaseChunk lease)
    (available : lease.start ≤ lease.stop)
    (moved :
      (allocatorSystem Nat config.chunkSize).run allocator [.draw process] =
        some target)
    {identifier : Int} (issued : identifier ∈ target.issued) :
    identifier ∈ allocator.issued ∨
      ∃ entry ∈ (finishGetId world process self src).returned,
        entry.id = identifier := by
  rw [run_draw config.chunkSize owned available] at moved
  obtain rfl := Option.some.inj moved
  rcases List.mem_cons.mp issued with isNew | before
  · refine Or.inr ⟨⟨process, src, self.curchunk.start⟩,
      List.mem_cons_self, ?_⟩
    rw [isNew, chunk]
    rfl
  · exact Or.inl before

/-- Every id drawn in a step is returned in it. -/
theorem returned_of_issued
    (mirrors : Mirrors config true world allocator)
    (outcome : Outcome config world action next)
    (moved :
      (allocatorSystem Nat config.chunkSize).run allocator
          (movesOf world action) = some target)
    {identifier : Int} (issued : identifier ∈ target.issued) :
    identifier ∈ allocator.issued ∨
      ∃ entry ∈ next.returned, entry.id = identifier := by
  have unchanged
      (noDraw :
        ∀ move ∈ movesOf world action, ∀ owner, move ≠ .draw owner) :
      identifier ∈ allocator.issued := by
    rw [← issued_of_run noDraw moved]
    exact issued
  cases outcome with
  | readMap before => exact Or.inl (unchanged nofun)
  | reserve before =>
      refine Or.inl (unchanged ?_)
      intro move member owner
      rw [List.mem_singleton.mp member]
      exact nofun
  | @known process self src id before found =>
      refine Or.inl (unchanged ?_)
      rw [movesOf_known before found]
      exact nofun
  | @refill process self src before unknown empty =>
      refine Or.inl (unchanged ?_)
      rw [movesOf_refill before unknown empty]
      simp
  | @fresh process self src before unknown available =>
      rcases mirrors.lease_of_running before with ⟨lease, owned, chunk⟩
      rw [movesOf_fresh before unknown available] at moved
      rw [chunk] at available
      exact returned_of_draw owned chunk available moved issued
  | @takeId process self src before =>
      rcases mirrors.lease_of_drawing before with
        ⟨lease, owned, chunk, available⟩
      exact returned_of_draw owned chunk available moved issued
  | saveMap before => exact Or.inl (unchanged nofun)
  | destroy before =>
      refine Or.inl (unchanged ?_)
      intro move member owner
      rw [List.mem_singleton.mp member]
      exact nofun
  | stop before =>
      refine Or.inl (unchanged ?_)
      intro move member owner
      rw [List.mem_singleton.mp member]
      exact nofun

/-- What holds of every state of a crash-free run. -/
structure AccountedWorld
    (config : Config) (world : World) (allocator : Allocator Nat) :
    Prop where
  mirrors : Mirrors config true world allocator
  exact : Exact config.chunkSize allocator
  returned :
    ∀ identifier ∈ allocator.issued,
      ∃ entry ∈ world.returned, entry.id = identifier

theorem AccountedWorld.of_step
    (accounted : AccountedWorld config world allocator)
    (crashFree : ∀ process, action ≠ .stop process)
    (stepped : (processSystem config).step world action = some next) :
    ∃ target, AccountedWorld config next target := by
  have outcome : Outcome config world action next :=
    outcome_of_step stepped
  rcases mirrors_of_moves outcome (fun _ => rfl) accounted.mirrors with
    ⟨target, moved, after⟩
  refine ⟨target, after,
    exact_of_run config.chunkSize_pos (stays_of_movesOf crashFree) moved
      accounted.exact, ?_⟩
  intro identifier issued
  rcases returned_of_issued accounted.mirrors outcome moved issued with
    before | now
  · rcases accounted.returned identifier before with
      ⟨entry, member, same⟩
    exact ⟨entry, outcome_returned_mono outcome member, same⟩
  · exact now

theorem accountedWorld_of_execution
    (execution : Execution (processSystem config))
    (crashFree : CrashFree execution.actions) :
    ∃ allocator, AccountedWorld config execution.final allocator := by
  have listed :
      (processSystem config).Guarded
        (fun _ action => ∀ process, action ≠ .stop process)
        (processSystem config).initial execution.actions := by
    apply (processSystem config).guarded_of_forall
    intro action member process same
    rw [same] at member
    exact crashFree process member
  refine (processSystem config).guarded_run_invariant
    (fun world => ∃ allocator, AccountedWorld config world allocator)
    ?_ listed execution.valid
    ⟨_, mirrors_initial config, exact_initial, nofun⟩
  intro world action next noStop stepped reached
  rcases reached with ⟨allocator, accounted⟩
  exact accounted.of_step noStop stepped

end Steps

/-! ## Runs -/

/-- The accounts of the pool: of its chunks and their cursors, of the objects
that hold one, and of the ids handed out. -/
structure PoolAccounted (config : Config) (world : World) : Prop where
  chunk :
    ∀ index : Nat, index < chunkCount (poolEntries config world) →
      ∃ chk, ChunkAccounted config world index chk
  cursor :
    ∀ index : Nat, index < chunkCount (poolEntries config world) →
      ∃! cursor, ChunkCursor config world index cursor
  cursorBounds :
    ∀ index : Nat, index < chunkCount (poolEntries config world) →
      ∀ cursor, ChunkCursor config world index cursor →
        index * config.chunkSize ≤ cursor ∧
          cursor ≤ (index + 1) * config.chunkSize
  holder :
    ∀ process index self, HoldsChunk world process index self →
      index < chunkCount (poolEntries config world) ∧
        TakesInside config world process index self
  handedOut :
    ∀ id,
      (∃ entry ∈ world.returned, entry.id = id) ↔
        ∃ index : Nat, index < chunkCount (poolEntries config world) ∧
          ∃ cursor, ChunkCursor config world index cursor ∧
            index * config.chunkSize ≤ id ∧ id < cursor

/-- In every crash-free run the ids handed out are just the ones between the
start of a chunk and its cursor. -/
theorem pool_accounts
    (config : Config) (execution : Execution (processSystem config))
    (crashFree : CrashFree execution.actions) :
    PoolAccounted config execution.final := by
  rcases accountedWorld_of_execution execution crashFree with
    ⟨allocator, mirrors, exact, returned⟩
  have count :
      chunkCount (poolEntries config execution.final) =
        allocator.cells.length :=
    chunkCount_of_represents (mirrors.represents rfl)
  have cellOf {index : Nat}
      (below : index < chunkCount (poolEntries config execution.final)) :
      index < allocator.cells.length := by
    rw [count] at below
    exact_mod_cast below
  constructor
  · intro index below
    have present := List.getElem?_eq_getElem (cellOf below)
    exact ⟨_, chunkAccounted_of_exact mirrors exact present⟩
  · intro index below
    simp only [chunkCursor_iff mirrors (cellOf below)]
    exact exact.existsUnique_cursor (cellOf below)
  · intro index below cursor isCursor
    exact exact.cursor_bounds
      ((chunkCursor_iff mirrors (cellOf below) cursor).mp isCursor)
  · intro process index self holds
    rw [count]
    rcases takesInside_of_holdsChunk mirrors holds with ⟨inTable, inside⟩
    exact ⟨by exact_mod_cast inTable, inside⟩
  · intro id
    have handedOut :
        (∃ entry ∈ execution.final.returned, entry.id = id) ↔
          id ∈ allocator.issued := by
      constructor
      · intro isReturned
        rcases isReturned with ⟨entry, member, rfl⟩
        exact mirrors.issued entry member
      · exact returned id
    rw [handedOut, exact.issued_iff]
    constructor
    · intro below
      rcases below with ⟨index, cursor, isCursor, lower, upper⟩
      have inTable := exact.cursor_inTable isCursor
      refine ⟨index, ?_, cursor,
        (chunkCursor_iff mirrors inTable cursor).mpr isCursor, lower, upper⟩
      rw [count]
      exact_mod_cast inTable
    · intro below
      rcases below with ⟨index, inPool, cursor, isCursor, lower, upper⟩
      exact ⟨index, cursor,
        (chunkCursor_iff mirrors (cellOf inPool) cursor).mp isCursor, lower,
        upper⟩

theorem pool_accounts_recycling :
    ∃ execution : Execution (processSystem Config.source),
      execution.actions = recyclingActions ∧
        PoolAccounted Config.source execution.final := by
  rcases exists_recycling with ⟨execution, recycles⟩
  have crashFree : CrashFree execution.actions := by
    rw [recycles]
    exact recyclingActions_crashFree
  exact ⟨execution, recycles,
    pool_accounts Config.source execution crashFree⟩

end Dinamite.Maps
