import Dinamite.BlockLog

/-!
# One slot of the trace buffers

`entries[tid]`, `current[tid]`, `out[tid]` and the file `trace.bin.tid`, with
what `insertOrWrite` and `logExit` do to them for one `tid`.  Counter, buffer
and file together refine a log that is written in blocks.
-/

namespace Dinamite.Trace

open Dinamite.BlockLog

universe u

/-! ## The code -/

/-- `out` says whether `out[tid]` is open; `file` is `none` while the file does
not exist. -/
structure Slot (Record : Type u) where
  entries : Option (Nat → Record)
  current : Int
  out : Bool
  file : Option (List Record)

namespace Slot

variable {Record : Type u}

/-- Static storage. -/
def initial : Slot Record :=
  ⟨none, 0, false, none⟩

/-- `__dinamite_ok_buffer`; `malloc` is the content of the new buffer. -/
def okBuffer (malloc : Nat → Record) (slot : Slot Record) :
    Slot Record :=
  match slot.entries with
  | none => { slot with entries := some malloc }
  | some _ => slot

/-- `fopen` with mode "wb". -/
def openedOutfile (slot : Slot Record) : Slot Record :=
  { slot with out := true, file := some [] }

def okOutfile (slot : Slot Record) : Slot Record :=
  if slot.out then slot else slot.openedOutfile

/-- The first `count` records of the buffer. -/
def held (slot : Slot Record) (count : Int) : List Record :=
  match slot.entries with
  | none => []
  | some entries => (List.range count.toNat).map entries

def fwrite (slot : Slot Record) (count : Int) : Slot Record :=
  { slot with file := slot.file.map (· ++ slot.held count) }

/-- Write the buffer out when it is full. -/
def makeRoom (size : Nat) (slot : Slot Record) : Slot Record :=
  if slot.current ≥ size then
    { slot.okOutfile.fwrite size with current := 0 }
  else
    slot

/-- `entries[tid][current[tid]++] = *le`. -/
def store (slot : Slot Record) (record : Record) : Slot Record :=
  { slot with
    entries := slot.entries.map fun entries =>
      Function.update entries slot.current.toNat record
    current := slot.current + 1 }

/-- `insertOrWrite` for a valid thread id. -/
def insertOrWrite
    (size : Nat) (malloc : Nat → Record) (slot : Slot Record)
    (record : Record) : Slot Record :=
  ((slot.okBuffer malloc).makeRoom size).store record

/-- The position `insertOrWrite` stores the record at. -/
def storeIndex
    (size : Nat) (malloc : Nat → Record) (slot : Slot Record) : Int :=
  ((slot.okBuffer malloc).makeRoom size).current

/-- The body of the loop in `logExit`. -/
def exit (slot : Slot Record) : Slot Record :=
  if slot.entries.isSome ∧ slot.current > 0 then
    { slot.okOutfile.fwrite slot.current with out := false }
  else
    slot

/-- The records the buffer holds. -/
def pending (slot : Slot Record) : List Record :=
  slot.held slot.current

/-- The log the slot implements. -/
def log (slot : Slot Record) : Log Record :=
  ⟨slot.out, slot.file, slot.pending⟩

/-- The counter stays inside the buffer, and counts nothing without one. -/
structure Sized (size : Nat) (slot : Slot Record) : Prop where
  nonneg : 0 ≤ slot.current
  le_size : slot.current ≤ size
  unallocated : slot.entries = none → slot.current = 0
  opened : slot.out = true → slot.file.isSome = true

theorem sized_initial (size : Nat) :
    Sized size (initial : Slot Record) := by
  refine ⟨le_refl _, ?_, fun _ => rfl, nofun⟩
  exact Int.natCast_nonneg size

section Bounded

variable {size : Nat} {malloc : Nat → Record} {slot : Slot Record}

theorem Sized.pending_length (sized : Sized size slot) :
    slot.pending.length = slot.current.toNat := by
  cases entries : slot.entries with
  | none =>
      simp [pending, held, entries, sized.unallocated entries]
  | some buffer =>
      simp [pending, held, entries]

theorem okBuffer_allocated
    (malloc : Nat → Record) (slot : Slot Record) :
    ∃ entries, (slot.okBuffer malloc).entries = some entries := by
  unfold okBuffer
  cases entries : slot.entries with
  | none => exact ⟨malloc, rfl⟩
  | some buffer => exact ⟨buffer, entries⟩

@[simp]
theorem okBuffer_current :
    (slot.okBuffer malloc).current = slot.current := by
  unfold okBuffer
  split <;> rfl

@[simp]
theorem okBuffer_out : (slot.okBuffer malloc).out = slot.out := by
  unfold okBuffer
  split <;> rfl

@[simp]
theorem okBuffer_file : (slot.okBuffer malloc).file = slot.file := by
  unfold okBuffer
  split <;> rfl

theorem Sized.okBuffer_pending (sized : Sized size slot) :
    (slot.okBuffer malloc).pending = slot.pending := by
  unfold okBuffer
  cases entries : slot.entries with
  | none =>
      simp [pending, held, entries, sized.unallocated entries]
  | some buffer => rfl

@[simp]
theorem okOutfile_entries : slot.okOutfile.entries = slot.entries := by
  unfold okOutfile
  split <;> rfl

@[simp]
theorem okOutfile_current : slot.okOutfile.current = slot.current := by
  unfold okOutfile
  split <;> rfl

theorem okOutfile_file_of_closed (closed : slot.out = false) :
    slot.okOutfile.file = some [] := by
  simp [okOutfile, closed, openedOutfile]

theorem okOutfile_of_open (isOpen : slot.out = true) :
    slot.okOutfile = slot := by
  simp [okOutfile, isOpen]

/-- Storing below the end of the buffer appends to what it holds. -/
theorem store_pending
    (nonneg : 0 ≤ slot.current) {entries : Nat → Record}
    (allocated : slot.entries = some entries) (record : Record) :
    (slot.store record).pending = slot.pending ++ [record] := by
  have next : (slot.current + 1).toNat = slot.current.toNat + 1 := by
    omega
  have kept :
      (List.range slot.current.toNat).map
          (Function.update entries slot.current.toNat record) =
        (List.range slot.current.toNat).map entries := by
    apply List.map_congr_left
    intro position member
    have below := List.mem_range.mp member
    exact Function.update_of_ne (by omega) _ _
  simp [store, pending, held, allocated, next, List.range_succ, kept]

theorem okBuffer_sized (sized : Sized size slot) :
    Sized size (slot.okBuffer malloc) := by
  rcases okBuffer_allocated malloc slot with ⟨entries, allocated⟩
  refine ⟨?_, ?_, ?_, ?_⟩
  · simpa using sized.nonneg
  · simpa using sized.le_size
  · intro missing
    rw [allocated] at missing
    cases missing
  · simpa using sized.opened

/-- What `fwrite` is about to append to. -/
theorem okOutfile_file (sized : Sized size slot) :
    slot.okOutfile.file = some slot.log.stream := by
  cases isOpen : slot.out with
  | false =>
      rw [okOutfile_file_of_closed isOpen]
      simp [log, isOpen]
  | true =>
      rw [okOutfile_of_open isOpen]
      rcases Option.isSome_iff_exists.mp (sized.opened isOpen) with
        ⟨records, file⟩
      simp [log, isOpen, file]

theorem pending_eq_nil_iff (sized : Sized size slot) :
    slot.pending = [] ↔ slot.current = 0 := by
  have nonneg := sized.nonneg
  rw [← List.length_eq_zero_iff, sized.pending_length]
  omega

/-- After the buffer check there is room for a record, and a full buffer has
gone to the file. -/
theorem makeRoom_spec
    (sized : Sized size slot) (positive : 0 < size)
    {entries : Nat → Record} (allocated : slot.entries = some entries) :
    let ready := slot.makeRoom size
    ready.entries = some entries ∧ 0 ≤ ready.current ∧
      ready.current < size ∧
        (ready.out = true → ready.file.isSome = true) ∧
          ∀ record,
            (⟨ready.out, ready.file, ready.pending ++ [record]⟩ :
              Log Record) = slot.log.push size record := by
  have length := sized.pending_length
  have nonneg := sized.nonneg
  have bounded := sized.le_size
  by_cases full : slot.current ≥ size
  · have whole : slot.current = size := by
      omega
    have blockFull : size ≤ slot.log.block.length := by
      simp only [log]
      omega
    have opened : slot.okOutfile.out = true := by
      unfold okOutfile
      split
      · assumption
      · rfl
    have wholeBuffer : slot.okOutfile.held size = slot.pending := by
      simp [held, pending, whole]
    simp only [makeRoom, full, if_true, fwrite, okOutfile_file sized,
      okOutfile_entries, wholeBuffer, opened]
    refine ⟨allocated, le_refl _, by omega, fun _ => rfl, ?_⟩
    intro record
    rw [Log.push_full blockFull]
    simp [pending, held, allocated, log]
  · have room : slot.log.block.length < size := by
      simp only [log]
      omega
    simp only [makeRoom, full, if_false]
    refine ⟨allocated, nonneg, by omega, sized.opened, ?_⟩
    intro record
    rw [Log.push_room room]
    rfl

/-- `insertOrWrite` stores inside the buffer. -/
theorem storeIndex_bounds
    (sized : Sized size slot) (positive : 0 < size) :
    0 ≤ slot.storeIndex size malloc ∧ slot.storeIndex size malloc < size := by
  rcases okBuffer_allocated malloc slot with ⟨entries, allocated⟩
  rcases makeRoom_spec (okBuffer_sized sized) positive allocated with
    ⟨_, nonneg, inside, _⟩
  exact ⟨nonneg, inside⟩

/-- `insertOrWrite` pushes the record on the log. -/
theorem insertOrWrite_spec
    (sized : Sized size slot) (positive : 0 < size)
    (malloc : Nat → Record) (record : Record) :
    Sized size (slot.insertOrWrite size malloc record) ∧
      (slot.insertOrWrite size malloc record).log =
        slot.log.push size record := by
  rcases okBuffer_allocated malloc slot with ⟨entries, allocated⟩
  have sameLog : (slot.okBuffer malloc).log = slot.log := by
    simp [log, sized.okBuffer_pending]
  rcases makeRoom_spec (okBuffer_sized sized) positive allocated with
    ⟨kept, nonneg, inside, opened, pushes⟩
  constructor
  · refine ⟨?_, ?_, ?_, opened⟩
    · simp only [insertOrWrite, store]
      omega
    · simp only [insertOrWrite, store]
      omega
    · intro missing
      simp [insertOrWrite, store, kept] at missing
  · rw [← sameLog, ← pushes record]
    have stored := store_pending nonneg kept record
    simp only [insertOrWrite, log, stored]
    rfl

/-- `logExit` closes the log. -/
theorem exit_spec (sized : Sized size slot) :
    Sized size slot.exit ∧ slot.exit.log = slot.log.close := by
  have nonneg := sized.nonneg
  by_cases busy : slot.entries.isSome ∧ slot.current > 0
  · have nonempty : slot.log.block ≠ [] := by
      have positive := busy.2
      rw [log, ne_eq, pending_eq_nil_iff sized]
      omega
    have sameHeld : slot.okOutfile.held slot.current = slot.pending := by
      simp [held, pending]
    simp only [exit, busy, and_self, if_true, fwrite, okOutfile_file sized,
      sameHeld]
    constructor
    · exact ⟨by simpa using nonneg, by simpa using sized.le_size,
        by simpa using sized.unallocated, nofun⟩
    · rw [Log.close_of_ne_nil nonempty]
      simp [log, pending, held]
  · have empty : slot.log.block = [] := by
      rw [log, pending_eq_nil_iff sized]
      by_cases allocated : slot.entries.isSome
      · have notPositive : ¬ slot.current > 0 := fun positive =>
          busy ⟨allocated, positive⟩
        omega
      · exact sized.unallocated (by simpa using allocated)
    rw [Log.close_of_nil empty]
    simp only [exit, busy, if_false]
    exact ⟨sized, trivial⟩

end Bounded

end Slot

end Dinamite.Trace
