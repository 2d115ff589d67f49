import Dinamite.Maps.ChunkPool

/-!
# The flat pool refines the table of cells

`Represents` ties the `map<string, int>` of a pool file to a table of cells.
Each pool operation of `IdMap` is matched by the table operation it stands for.
-/

namespace Dinamite.Maps

open Dinamite.LeaseAllocator

def statusCode : CellStatus → Int
  | .opened => chunkOpened
  | .leased => chunkBeingUsed
  | .full => chunkFull

/-- The chunk record of a cell. -/
def cellChunk (index : Nat) (cell : Cell) : Chunk :=
  ⟨index, statusCode cell.status, cell.start, cell.stop⟩

/-- The `curchunk` of an owner that holds the lease. -/
def leaseChunk (lease : Lease) : Chunk :=
  ⟨lease.index, chunkBeingUsed, lease.start, lease.stop⟩

/-- The three keys of a chunk hold its fields. -/
structure Stores (pool : IntMap) (chk : Chunk) : Prop where
  status : pool[chunkKey chk.id "_status"]? = some chk.status
  start : pool[chunkKey chk.id "_start"]? = some chk.start
  stop : pool[chunkKey chk.id "_end"]? = some chk.stop

/-- The pool records exactly these cells.  A pool file that does not exist yet
represents the empty table. -/
structure Represents
    (size : Int) (pool : IntMap) (cells : List Cell) : Prop where
  size_eq : pool[sizeKey]?.getD size = size
  latest_eq : pool[latestKey]?.getD (-1) = cells.length - 1
  stored :
    ∀ index cell, cells[index]? = some cell →
      Stores pool (cellChunk index cell)

theorem represents_empty (size : Int) :
    Represents size ∅ [] := by
  refine ⟨by simp, by simp, ?_⟩
  intro index cell present
  simp at present

theorem statusCode_eq_opened (status : CellStatus) :
    statusCode status = chunkOpened ↔ status = .opened := by
  cases status <;> decide

/-! ## Writing one chunk -/

theorem getElem?_putChunk_of_ne
    (pool : IntMap) (chk : Chunk) {key : String}
    (notStatus : chunkKey chk.id "_status" ≠ key)
    (notStart : chunkKey chk.id "_start" ≠ key)
    (notEnd : chunkKey chk.id "_end" ≠ key) :
    (putChunk pool chk)[key]? = pool[key]? := by
  simp only [putChunk, getElem?_insert, notStatus, notStart, notEnd,
    if_false]

@[simp]
theorem putChunk_sizeKey (pool : IntMap) (chk : Chunk) :
    (putChunk pool chk)[sizeKey]? = pool[sizeKey]? :=
  getElem?_putChunk_of_ne pool chk (chunkKey_ne_sizeKey _ _)
    (chunkKey_ne_sizeKey _ _) (chunkKey_ne_sizeKey _ _)

@[simp]
theorem putChunk_latestKey (pool : IntMap) (chk : Chunk) :
    (putChunk pool chk)[latestKey]? = pool[latestKey]? :=
  getElem?_putChunk_of_ne pool chk (chunkKey_ne_latestKey _ _)
    (chunkKey_ne_latestKey _ _) (chunkKey_ne_latestKey _ _)

theorem stores_putChunk
    (pool : IntMap) (index : Nat) (cell : Cell) :
    Stores (putChunk pool (cellChunk index cell)) (cellChunk index cell) := by
  have statusNeStart :
      chunkKey index "_start" ≠ chunkKey index "_status" := by
    intro same
    exact absurd (chunkKey_inj isField_start isField_status same).2
      (by decide)
  have statusNeEnd :
      chunkKey index "_end" ≠ chunkKey index "_status" := by
    intro same
    exact absurd (chunkKey_inj isField_end isField_status same).2
      (by decide)
  have startNeEnd :
      chunkKey index "_end" ≠ chunkKey index "_start" := by
    intro same
    exact absurd (chunkKey_inj isField_end isField_start same).2
      (by decide)
  refine ⟨?_, ?_, ?_⟩
  · simp only [putChunk, cellChunk, getElem?_insert, statusNeStart,
      statusNeEnd, if_false, if_true]
  · simp only [putChunk, cellChunk, getElem?_insert, startNeEnd,
      if_false, if_true]
  · simp only [putChunk, cellChunk, getElem?_insert, if_true]

theorem getElem?_putChunk_of_index_ne
    (pool : IntMap) {index other : Nat} (cell : Cell) {field : String}
    (isField : IsField field) (different : index ≠ other) :
    (putChunk pool (cellChunk index cell))[chunkKey other field]? =
      pool[chunkKey other field]? := by
  apply getElem?_putChunk_of_ne
  · intro same
    exact different (chunkKey_inj isField_status isField same).1
  · intro same
    exact different (chunkKey_inj isField_start isField same).1
  · intro same
    exact different (chunkKey_inj isField_end isField same).1

theorem stores_putChunk_of_ne
    {pool : IntMap} {index other : Nat} {cell otherCell : Cell}
    (different : index ≠ other)
    (stored : Stores pool (cellChunk other otherCell)) :
    Stores (putChunk pool (cellChunk index cell))
      (cellChunk other otherCell) := by
  refine ⟨?_, ?_, ?_⟩
  · exact (getElem?_putChunk_of_index_ne pool cell isField_status
      different).trans stored.status
  · exact (getElem?_putChunk_of_index_ne pool cell isField_start
      different).trans stored.start
  · exact (getElem?_putChunk_of_index_ne pool cell isField_end
      different).trans stored.stop

/-- Writing a chunk that the pool already lists replaces its cell. -/
theorem Represents.putChunk_set
    {size : Int} {pool : IntMap} {cells : List Cell}
    (represents : Represents size pool cells)
    (index : Nat) (cell : Cell) (inTable : index < cells.length) :
    Represents size (putChunk pool (cellChunk index cell))
      (cells.set index cell) := by
  refine ⟨?_, ?_, ?_⟩
  · simpa using represents.size_eq
  · simpa using represents.latest_eq
  · intro other otherCell present
    by_cases same : index = other
    · subst other
      rw [List.getElem?_set_self inTable] at present
      obtain rfl := Option.some.inj present
      exact stores_putChunk pool index cell
    · rw [List.getElem?_set_ne same] at present
      exact stores_putChunk_of_ne same
        (represents.stored other otherCell present)

/-! ## Reading one chunk -/

theorem getChunk_of_stored
    {pool : IntMap} {index : Nat} {cell : Cell}
    (stored : Stores pool (cellChunk index cell)) :
    getChunk pool index = (cellChunk index cell, pool) := by
  rcases stored with ⟨status, start, stop⟩
  simp only [cellChunk] at status start stop
  simp only [getChunk, subscript_of_present status,
    subscript_of_present start, subscript_of_present stop, cellChunk]

/-- The search loop finds the first opened cell, leases it, and otherwise
leaves the pool alone. -/
theorem searchOpenChunk_spec
    {size : Int} {pool : IntMap} {cells : List Cell}
    (represents : Represents size pool cells)
    (remaining from_ : Nat) (curchunk : Chunk)
    (bound : from_ + remaining = cells.length) :
    match firstOpened (cells.drop from_) with
    | some (offset, cell) =>
        searchOpenChunk remaining from_ pool curchunk =
          (true,
            cellChunk (from_ + offset) { cell with status := .leased },
            putChunk pool
              (cellChunk (from_ + offset) { cell with status := .leased }))
    | none =>
        ∃ last, searchOpenChunk remaining from_ pool curchunk =
          (false, last, pool) := by
  induction remaining generalizing from_ curchunk with
  | zero =>
      have beyond : cells.drop from_ = [] :=
        List.drop_eq_nil_of_le (by omega)
      rw [beyond]
      exact ⟨curchunk, rfl⟩
  | succ remaining inductionHypothesis =>
      have inside : from_ < cells.length := by omega
      have stored := represents.stored from_ cells[from_]
        (List.getElem?_eq_getElem inside)
      have later := inductionHypothesis (from_ + 1)
        (cellChunk from_ cells[from_]) (by omega)
      rw [List.drop_eq_getElem_cons inside]
      simp only [firstOpened, searchOpenChunk,
        getChunk_of_stored stored]
      by_cases opened : cells[from_].status = .opened
      · simp [opened, cellChunk, statusCode]
      · have notOpened :
            ¬ (cellChunk from_ cells[from_]).status = chunkOpened := by
          intro same
          exact opened ((statusCode_eq_opened _).mp same)
        simp only [opened, notOpened, if_false]
        cases search : firstOpened (cells.drop (from_ + 1)) with
        | none =>
            simp only [search] at later
            simpa using later
        | some found =>
            rcases found with ⟨offset, cell⟩
            simp only [search] at later
            have shifted : from_ + 1 + offset = from_ + (offset + 1) := by
              omega
            rw [shifted] at later
            simpa using later

/-! ## The pool operations -/

theorem settle_leaseChunk (lease : Lease) :
    settle (leaseChunk lease) =
      cellChunk lease.index lease.remainder := by
  by_cases exhausted : lease.start > lease.stop
  · simp [settle, leaseChunk, cellChunk, Lease.remainder, statusCode,
      exhausted]
  · simp [settle, leaseChunk, cellChunk, Lease.remainder, statusCode,
      exhausted]

/-- `recycleInPool` gives the lease back. -/
theorem recycleInPool_spec
    {size : Int} {pool : IntMap} {cells : List Cell} {lease : Lease}
    (represents : Represents size pool cells)
    (inTable : lease.index < cells.length) :
    Represents size (recycleInPool pool (leaseChunk lease))
      (cells.set lease.index lease.remainder) := by
  rw [recycleInPool, settle_leaseChunk]
  exact represents.putChunk_set lease.index lease.remainder inTable

/-- The pool with its two counters in place. -/
structure Prepared
    (size : Int) (pool : IntMap) (cells : List Cell) : Prop where
  represents : Represents size pool cells
  size_present : pool[sizeKey]? = some size
  latest_present : pool[latestKey]? = some (cells.length - 1 : Int)

private theorem getElem?_insertIfNew
    (map : IntMap) (key tested : String) (value : Int) :
    (map.insertIfNew key value)[tested]? =
      if key = tested then some (map[key]?.getD value)
      else map[tested]? := by
  rw [Std.ExtTreeMap.getElem?_insertIfNew]
  by_cases same : key = tested
  · subst tested
    cases present : map[key]? with
    | none =>
        have absent : key ∉ map := by
          rw [Std.ExtTreeMap.mem_iff_isSome_getElem?, present]
          decide
        simp [absent]
    | some before =>
        have member : key ∈ map :=
          Std.ExtTreeMap.mem_iff_isSome_getElem?.mpr
            (by rw [present]; rfl)
        simp [member]
  · simp [same]

theorem prepared_insertIfNew
    {size : Int} {pool : IntMap} {cells : List Cell}
    (represents : Represents size pool cells) :
    Prepared size
      ((pool.insertIfNew sizeKey size).insertIfNew latestKey (-1))
      cells := by
  have sizePresent :
      ((pool.insertIfNew sizeKey size).insertIfNew
        latestKey (-1))[sizeKey]? = some size := by
    rw [getElem?_insertIfNew, if_neg sizeKey_ne_latestKey.symm,
      getElem?_insertIfNew, if_pos rfl, represents.size_eq]
  have latestPresent :
      ((pool.insertIfNew sizeKey size).insertIfNew
        latestKey (-1))[latestKey]? = some (cells.length - 1 : Int) := by
    rw [getElem?_insertIfNew, if_pos rfl, getElem?_insertIfNew,
      if_neg sizeKey_ne_latestKey, represents.latest_eq]
  have otherKeys :
      ∀ id field,
        ((pool.insertIfNew sizeKey size).insertIfNew
            latestKey (-1))[chunkKey id field]? =
          pool[chunkKey id field]? := by
    intro id field
    rw [getElem?_insertIfNew, if_neg (chunkKey_ne_latestKey id field).symm,
      getElem?_insertIfNew, if_neg (chunkKey_ne_sizeKey id field).symm]
  refine ⟨⟨?_, ?_, ?_⟩, sizePresent, latestPresent⟩
  · rw [sizePresent]
    rfl
  · rw [latestPresent]
    rfl
  · intro index cell present
    rcases represents.stored index cell present with ⟨status, start, stop⟩
    exact ⟨(otherKeys _ _).trans status, (otherKeys _ _).trans start,
      (otherKeys _ _).trans stop⟩

theorem Prepared.putChunk_set
    {size : Int} {pool : IntMap} {cells : List Cell}
    (prepared : Prepared size pool cells)
    (index : Nat) (cell : Cell) (inTable : index < cells.length) :
    Prepared size (putChunk pool (cellChunk index cell))
      (cells.set index cell) := by
  refine ⟨prepared.represents.putChunk_set index cell inTable, ?_, ?_⟩
  · simpa using prepared.size_present
  · simpa using prepared.latest_present

/-- `openNewChunk` appends a leased cell to the table. -/
theorem openNewChunk_spec
    {size : Int} {pool : IntMap} {cells : List Cell}
    (prepared : Prepared size pool cells) :
    (openNewChunk pool).1 =
        leaseChunk ((freshCell size cells.length).lease cells.length) ∧
      Represents size (openNewChunk pool).2
        (cells ++ [freshCell size cells.length]) := by
  have nextId : ((cells.length : Int) - 1 + 1) = cells.length := by
    omega
  have sizeStill :
      (pool.insert latestKey (cells.length : Int))[sizeKey]? =
        some size := by
    rw [getElem?_insert, if_neg sizeKey_ne_latestKey.symm]
    exact prepared.size_present
  have opened :
      openNewChunk pool =
        (cellChunk cells.length (freshCell size cells.length),
          putChunk (pool.insert latestKey (cells.length : Int))
            (cellChunk cells.length (freshCell size cells.length))) := by
    simp only [openNewChunk,
      subscript_of_present prepared.latest_present, nextId,
      subscript_of_present sizeStill]
    rfl
  rw [opened]
  refine ⟨rfl, ⟨?_, ?_, ?_⟩⟩
  · rw [putChunk_sizeKey, sizeStill]
    rfl
  · rw [putChunk_latestKey, getElem?_insert, if_pos rfl]
    simp
  · intro index cell present
    by_cases last : cells.length = index
    · subst index
      have sameCell : freshCell size cells.length = cell := by
        simpa using present
      subst cell
      exact stores_putChunk _ _ _
    · rcases List.getElem?_eq_some_iff.mp present with ⟨bound, _⟩
      have inside : index < cells.length := by
        simp only [List.length_append, List.length_singleton] at bound
        omega
      rw [List.getElem?_append_left inside] at present
      have stored := prepared.represents.stored index cell present
      apply stores_putChunk_of_ne last
      refine ⟨?_, ?_, ?_⟩
      · rw [getElem?_insert, if_neg (chunkKey_ne_latestKey _ _).symm]
        exact stored.status
      · rw [getElem?_insert, if_neg (chunkKey_ne_latestKey _ _).symm]
        exact stored.start
      · rw [getElem?_insert, if_neg (chunkKey_ne_latestKey _ _).symm]
        exact stored.stop

/-- The table after a lease, if any, has been given back. -/
def giveBack (cells : List Cell) : Option Lease → List Cell
  | none => cells
  | some lease => cells.set lease.index lease.remainder

/-- `curchunk` of an owner with this lease; without one it is not
initialised. -/
def HoldsLease (curchunk : Chunk) : Option Lease → Prop
  | none => curchunk.status = chunkNotInit
  | some lease => curchunk = leaseChunk lease

/-- `reserveInPool` gives the current chunk back and acquires another. -/
theorem reserveInPool_spec
    {size : Int} {pool : IntMap} {cells : List Cell}
    {curchunk : Chunk} (held : Option Lease)
    (represents : Represents size pool cells)
    (holds : HoldsLease curchunk held)
    (inTable : ∀ lease, held = some lease → lease.index < cells.length) :
    (reserveInPool size pool curchunk).1 =
        leaseChunk (acquire size (giveBack cells held)).1 ∧
      Represents size (reserveInPool size pool curchunk).2
        (acquire size (giveBack cells held)).2 := by
  have prepared := prepared_insertIfNew represents
  have returned :
      ∃ current pool',
        (if curchunk.status ≠ chunkNotInit then
          (settle curchunk,
            putChunk
              ((pool.insertIfNew sizeKey size).insertIfNew latestKey (-1))
              (settle curchunk))
        else
          (curchunk,
            (pool.insertIfNew sizeKey size).insertIfNew latestKey (-1))) =
            (current, pool') ∧
          Prepared size pool' (giveBack cells held) := by
    cases held with
    | none =>
        have notInit : curchunk.status = chunkNotInit := holds
        simp only [notInit, ne_eq, not_true_eq_false, if_false]
        exact ⟨_, _, rfl, prepared⟩
    | some lease =>
        obtain rfl : curchunk = leaseChunk lease := holds
        have inUse : (leaseChunk lease).status ≠ chunkNotInit := by
          simp [leaseChunk, chunkBeingUsed, chunkNotInit]
        simp only [inUse, ne_eq, not_false_eq_true, if_true]
        rw [settle_leaseChunk]
        exact ⟨_, _, rfl,
          prepared.putChunk_set _ _ (inTable lease rfl)⟩
  rcases returned with ⟨current, pool', branch, preparedBack⟩
  have search :=
    searchOpenChunk_spec preparedBack.represents
      (giveBack cells held).length 0 current (by omega)
  have count :
      ((giveBack cells held).length - 1 + 1 : Int).toNat =
        (giveBack cells held).length := by
    omega
  simp only [reserveInPool, branch,
    subscript_of_present preparedBack.latest_present, count]
  simp only [List.drop_zero] at search
  cases found : firstOpened (giveBack cells held) with
  | none =>
      simp only [found] at search
      rcases search with ⟨last, outcome⟩
      simp only [Nat.cast_zero] at outcome
      simp only [outcome, acquire, found]
      exact openNewChunk_spec preparedBack
  | some hit =>
      rcases hit with ⟨index, cell⟩
      simp only [found, Nat.cast_zero, Nat.zero_add] at search
      simp only [search, acquire, found]
      rcases firstOpened_eq_some found with ⟨present, _⟩
      rcases List.getElem?_eq_some_iff.mp present with ⟨bound, _⟩
      exact ⟨rfl,
        preparedBack.represents.putChunk_set index _ bound⟩

end Dinamite.Maps
