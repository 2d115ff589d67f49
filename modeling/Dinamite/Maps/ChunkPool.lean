import Dinamite.Maps.JsonFile
import Dinamite.LeaseAllocator

/-!
# The chunk pool

Every compiler process draws identifiers from a chunk of its own.  The chunks
of one map live in a flat `map<string, int>` in `<map>.chunkspool.json`, three
keys a chunk.  The first half of this module is the code of `IdMap.hpp`; the
second half shows that it refines the table of `LeaseAllocator`.
-/

namespace Dinamite.Maps

open Dinamite.LeaseAllocator

/-! ## The code -/

def chunkNotInit : Int := 0
def chunkOpened : Int := 1
def chunkBeingUsed : Int := 2
def chunkFull : Int := 3

/-- `stop` is the field `end` of the source. -/
structure Chunk where
  id : Int := 0
  status : Int := chunkNotInit
  start : Int := 0
  stop : Int := 0
  deriving DecidableEq, Repr

/-- `sprintf("%d")`. -/
def s (i : Int) : String :=
  toString i

def sizeKey : String := "size_of_each_chunk"
def latestKey : String := "latest_chunk_id"

/-- The pool key of one field of a chunk. -/
def chunkKey (id : Int) (field : String) : String :=
  "chunk_" ++ s id ++ field

def putChunk (pool : IntMap) (chk : Chunk) : IntMap :=
  let pool := pool.insert (chunkKey chk.id "_status") chk.status
  let pool := pool.insert (chunkKey chk.id "_start") chk.start
  pool.insert (chunkKey chk.id "_end") chk.stop

def getChunk (pool : IntMap) (id : Int) : Chunk × IntMap :=
  let status := subscript pool (chunkKey id "_status")
  let start := subscript status.2 (chunkKey id "_start")
  let stop := subscript start.2 (chunkKey id "_end")
  (⟨id, status.1, start.1, stop.1⟩, stop.2)

/-- The status a chunk is put back with. -/
def settle (curchunk : Chunk) : Chunk :=
  { curchunk with
    status :=
      if curchunk.start > curchunk.stop then chunkFull else chunkOpened }

/-- The search loop of `reserveNewChunk`, from chunk `i` over the `remaining`
chunks.  `curchunk` is overwritten while the loop scans; the flag is
`foundOpenChunk`. -/
def searchOpenChunk :
    Nat → Int → IntMap → Chunk → Bool × Chunk × IntMap
  | 0, _, pool, curchunk => (false, curchunk, pool)
  | remaining + 1, i, pool, _ =>
      let fetched := getChunk pool i
      if fetched.1.status = chunkOpened then
        let curchunk := { fetched.1 with status := chunkBeingUsed }
        (true, curchunk, putChunk fetched.2 curchunk)
      else
        searchOpenChunk remaining (i + 1) fetched.2 fetched.1

/-- Append a chunk behind the latest one. -/
def openNewChunk (pool : IntMap) : Chunk × IntMap :=
  let latest := subscript pool latestKey
  let pool := latest.2.insert latestKey (latest.1 + 1)
  let size := subscript pool sizeKey
  let id := latest.1 + 1
  let curchunk : Chunk :=
    { id := id
      status := chunkBeingUsed
      start := id * size.1
      stop := id * size.1 + size.1 - 1 }
  (curchunk, putChunk size.2 curchunk)

/-- `reserveNewChunk` between reading and writing the pool. -/
def reserveInPool
    (chunkSize : Int) (pool : IntMap) (curchunk : Chunk) :
    Chunk × IntMap :=
  let pool := pool.insertIfNew sizeKey chunkSize
  let pool := pool.insertIfNew latestKey (-1)
  let current :=
    if curchunk.status ≠ chunkNotInit then
      (settle curchunk, putChunk pool (settle curchunk))
    else
      (curchunk, pool)
  let latest := subscript current.2 latestKey
  let found :=
    searchOpenChunk (latest.1 + 1).toNat 0 latest.2 current.1
  if found.1 then
    found.2
  else
    openNewChunk found.2.2

/-- `recycleCurChunk` between reading and writing the pool. -/
def recycleInPool (pool : IntMap) (curchunk : Chunk) : IntMap :=
  putChunk pool (settle curchunk)

/-- The chunk now held and the new text of the pool file. -/
def reserveNewChunk
    (format : JsonFormat) (chunkSize : Int) (file : File)
    (curchunk : Chunk) : Chunk × List Char :=
  let pool := (readMapFromJson format ∅ file).2
  let reserved := reserveInPool chunkSize pool curchunk
  (reserved.1, writeMapToJson format reserved.2)

/-- The new text of the pool file. -/
def recycleCurChunk
    (format : JsonFormat) (file : File) (curchunk : Chunk) : List Char :=
  let pool := (readMapFromJson format ∅ file).2
  writeMapToJson format (recycleInPool pool curchunk)

/-! ## Keys -/

private theorem toList_s (i : Nat) :
    (s i).toList = Nat.toDigits 10 i := by
  change (Int.repr i).toList = _
  simp [Int.repr, Nat.repr]

/-- A run of digits ends at the underscore that follows it. -/
private theorem takeWhile_digits
    {digits rest : List Char}
    (allDigits : ∀ char ∈ digits, char.isDigit = true) :
    (digits ++ '_' :: rest).takeWhile Char.isDigit = digits := by
  rw [List.takeWhile_append_of_pos allDigits]
  simp

/-- The fields of a chunk all begin with an underscore. -/
def IsField (field : String) : Prop :=
  ∃ rest, field.toList = '_' :: rest

theorem isField_status : IsField "_status" :=
  ⟨_, rfl⟩

theorem isField_start : IsField "_start" :=
  ⟨_, rfl⟩

theorem isField_end : IsField "_end" :=
  ⟨_, rfl⟩

theorem chunkKey_inj
    {left right : Nat} {leftField rightField : String}
    (leftIs : IsField leftField) (rightIs : IsField rightField)
    (same : chunkKey left leftField = chunkKey right rightField) :
    left = right ∧ leftField = rightField := by
  rcases leftIs with ⟨leftRest, leftList⟩
  rcases rightIs with ⟨rightRest, rightList⟩
  have listsEqual := String.toList_inj.mpr same
  simp only [chunkKey, String.toList_append, toList_s, leftList,
    rightList, List.append_assoc, List.append_cancel_left_eq]
    at listsEqual
  have digitsEqual :=
    congrArg (List.takeWhile Char.isDigit) listsEqual
  have allDigits :
      ∀ number, ∀ char ∈ Nat.toDigits 10 number,
        char.isDigit = true :=
    fun number char member =>
      Nat.isDigit_of_mem_toDigits (by decide) (by decide) member
  rw [takeWhile_digits (allDigits left),
    takeWhile_digits (allDigits right)] at digitsEqual
  constructor
  · apply Nat.repr_injective
    simp only [Nat.repr, digitsEqual]
  · rw [digitsEqual, List.append_cancel_left_eq] at listsEqual
    rw [← String.toList_inj, leftList, rightList, listsEqual]

private theorem toList_chunkKey_head (id : Int) (field : String) :
    (chunkKey id field).toList.head? = some 'c' := by
  simp [chunkKey]

theorem chunkKey_ne_sizeKey (id : Int) (field : String) :
    chunkKey id field ≠ sizeKey := by
  intro same
  have heads := toList_chunkKey_head id field
  rw [same] at heads
  revert heads
  decide

theorem chunkKey_ne_latestKey (id : Int) (field : String) :
    chunkKey id field ≠ latestKey := by
  intro same
  have heads := toList_chunkKey_head id field
  rw [same] at heads
  revert heads
  decide

theorem sizeKey_ne_latestKey : sizeKey ≠ latestKey := by
  decide

end Dinamite.Maps
