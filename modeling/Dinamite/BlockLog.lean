import Mathlib

/-!
# Logs written in blocks

A log collects records in a block and appends a full block to a file when the
next record arrives.  The file is opened on demand and opening truncates it.
Closing writes the block out without emptying it.  This module says how the
file and the block relate to the sequence of all records pushed: exactly, while
nothing is closed; up to losses that can be counted, otherwise.
-/

namespace Dinamite.BlockLog

universe u

/-- `file` is `none` while the file does not exist. -/
structure Log (Record : Type u) where
  isOpen : Bool
  file : Option (List Record)
  block : List Record

variable {Record : Type u}

namespace Log

def initial : Log Record :=
  ⟨false, none, []⟩

/-- What a reader of the file sees. -/
def contents (log : Log Record) : List Record :=
  log.file.getD []

/-- What the next write is appended to. -/
def stream (log : Log Record) : List Record :=
  if log.isOpen then log.contents else []

def push (size : Nat) (log : Log Record) (record : Record) :
    Log Record :=
  if size ≤ log.block.length then
    ⟨true, some (log.stream ++ log.block), [record]⟩
  else
    { log with block := log.block ++ [record] }

def close (log : Log Record) : Log Record :=
  if log.block = [] then
    log
  else
    ⟨false, some (log.stream ++ log.block), log.block⟩

@[simp]
theorem contents_mk_some
    (isOpen : Bool) (records block : List Record) :
    (⟨isOpen, some records, block⟩ : Log Record).contents =
      records :=
  rfl

@[simp]
theorem stream_open (file : Option (List Record)) (block : List Record) :
    (⟨true, file, block⟩ : Log Record).stream = file.getD [] :=
  rfl

@[simp]
theorem stream_closed (file : Option (List Record)) (block : List Record) :
    (⟨false, file, block⟩ : Log Record).stream = [] :=
  rfl

theorem stream_of_open {log : Log Record} (opened : log.isOpen = true) :
    log.stream = log.contents := by
  simp [stream, opened]

theorem stream_of_closed
    {log : Log Record} (closed : log.isOpen = false) :
    log.stream = [] := by
  simp [stream, closed]

theorem push_full
    {size : Nat} {log : Log Record} (full : size ≤ log.block.length)
    (record : Record) :
    log.push size record =
      ⟨true, some (log.stream ++ log.block), [record]⟩ := by
  simp [push, full]

theorem push_room
    {size : Nat} {log : Log Record} (room : log.block.length < size)
    (record : Record) :
    log.push size record =
      { log with block := log.block ++ [record] } := by
  simp [push, room]

theorem close_of_ne_nil
    {log : Log Record} (nonempty : log.block ≠ []) :
    log.close = ⟨false, some (log.stream ++ log.block), log.block⟩ := by
  simp [close, nonempty]

theorem close_of_nil {log : Log Record} (empty : log.block = []) :
    log.close = log := by
  simp [close, empty]

end Log

/-! ## Logs that were never closed -/

/-- File and block together are the records pushed, and the file consists of
whole blocks. -/
structure Exact
    (size : Nat) (log : Log Record) (pushed : List Record) : Prop where
  complete : log.contents ++ log.block = pushed
  opened : log.stream = log.contents
  bounded : log.block.length ≤ size
  blocks : size ∣ log.contents.length

theorem exact_initial (size : Nat) :
    Exact size (Log.initial : Log Record) [] :=
  ⟨rfl, rfl, Nat.zero_le size, Nat.dvd_zero size⟩

theorem Exact.push
    {size : Nat} {log : Log Record} {pushed : List Record}
    (positive : 0 < size) (exact_ : Exact size log pushed)
    (record : Record) :
    Exact size (log.push size record) (pushed ++ [record]) := by
  have complete := exact_.complete
  have opened := exact_.opened
  have bounded := exact_.bounded
  by_cases room : log.block.length < size
  · rw [Log.push_room room]
    refine ⟨?_, opened, ?_, exact_.blocks⟩
    · rw [← complete, List.append_assoc]
      rfl
    · simp only [List.length_append, List.length_singleton]
      omega
  · have full : log.block.length = size := by
      omega
    rw [Log.push_full full.ge, opened, complete]
    refine ⟨rfl, rfl, positive, ?_⟩
    rw [Log.contents_mk_some, ← complete, List.length_append, full]
    exact Nat.dvd_add exact_.blocks (Nat.dvd_refl size)

/-- One close leaves the whole sequence in the file. -/
theorem Exact.contents_close
    {size : Nat} {log : Log Record} {pushed : List Record}
    (exact_ : Exact size log pushed) :
    log.close.contents = pushed := by
  have complete := exact_.complete
  by_cases empty : log.block = []
  · rw [Log.close_of_nil empty]
    simpa [empty] using complete
  · rw [Log.close_of_ne_nil empty, exact_.opened]
    exact complete

/-! ## Logs that were closed -/

/-- Where a log stands.  `late` says that it was closed when more than one
block had been pushed; from then on at least a block is lost whenever the file
is written again. -/
inductive Stage (size : Nat) (log : Log Record)
    (pushed : List Record) : Bool → Prop
  | buffering
      (short : pushed.length ≤ size)
      (closed : log.isOpen = false)
      (whole : log.block = pushed)
      (untouched : pushed = [] → log.file = none) :
      Stage size log pushed false
  | flushed
      (opened : log.isOpen = true)
      (complete : log.contents ++ log.block = pushed)
      (bounded : log.block.length ≤ size)
      (nonempty : log.block ≠ [])
      (long : size ≤ log.contents.length) :
      Stage size log pushed false
  | lost
      (bounded : log.block.length ≤ size)
      (nonempty : log.block ≠ [])
      (deficit :
        log.stream.length + log.block.length + size ≤ pushed.length) :
      Stage size log pushed true

theorem stage_initial (size : Nat) :
    Stage size (Log.initial : Log Record) [] false :=
  .buffering (Nat.zero_le size) rfl rfl fun _ => rfl

theorem Stage.push
    {size : Nat} {log : Log Record} {pushed : List Record}
    {late : Bool} (positive : 0 < size) (stage : Stage size log pushed late)
    (record : Record) :
    Stage size (log.push size record) (pushed ++ [record]) late := by
  have grown : (pushed ++ [record]).length = pushed.length + 1 := by
    simp
  cases stage with
  | buffering short closed whole untouched =>
      by_cases room : log.block.length < size
      · rw [Log.push_room room]
        refine .buffering ?_ closed ?_ ?_
        · rw [grown, ← whole]
          exact room
        · rw [whole]
        · simp
      · have full : size ≤ log.block.length := by
          omega
        rw [Log.push_full full, Log.stream_of_closed closed]
        refine .flushed rfl ?_ positive (List.cons_ne_nil _ _) full
        rw [Log.contents_mk_some, List.nil_append, whole]
  | flushed opened complete bounded nonempty long =>
      by_cases room : log.block.length < size
      · rw [Log.push_room room]
        refine .flushed opened ?_ ?_ ?_ long
        · rw [← complete, List.append_assoc]
          rfl
        · simp only [List.length_append, List.length_singleton]
          omega
        · simp
      · have full : size ≤ log.block.length := by
          omega
        rw [Log.push_full full, Log.stream_of_open opened,
          complete]
        refine .flushed rfl rfl positive (List.cons_ne_nil _ _) ?_
        rw [Log.contents_mk_some, ← complete, List.length_append]
        omega
  | lost bounded nonempty deficit =>
      by_cases room : log.block.length < size
      · rw [Log.push_room room]
        refine .lost ?_ ?_ ?_
        · simp only [List.length_append, List.length_singleton]
          omega
        · simp
        · have sameStream :
              (Log.mk log.isOpen log.file
                (log.block ++ [record])).stream = log.stream :=
            rfl
          rw [grown, sameStream, List.length_append,
            List.length_singleton]
          omega
      · have full : size ≤ log.block.length := by
          omega
        rw [Log.push_full full]
        refine .lost positive (List.cons_ne_nil _ _) ?_
        rw [grown, Log.stream_open, Option.getD_some,
          List.length_append, List.length_singleton]
        omega

/-- A close is late once more than a block has been pushed. -/
theorem Stage.close
    {size : Nat} {log : Log Record} {pushed : List Record}
    {late : Bool} (stage : Stage size log pushed late) :
    Stage size log.close pushed
      (late || decide (size < pushed.length)) := by
  cases stage with
  | buffering short closed whole untouched =>
      have timely : ¬ size < pushed.length := by
        omega
      simp only [Bool.false_or, timely, decide_false]
      by_cases empty : log.block = []
      · rw [Log.close_of_nil empty]
        exact .buffering short closed whole untouched
      · rw [Log.close_of_ne_nil empty]
        refine .buffering short rfl whole ?_
        intro nothing
        rw [whole] at empty
        exact absurd nothing empty
  | flushed opened complete bounded nonempty long =>
      have positive := List.length_pos_of_ne_nil nonempty
      have late : size < pushed.length := by
        rw [← complete, List.length_append]
        omega
      simp only [Bool.false_or, late, decide_true]
      rw [Log.close_of_ne_nil nonempty]
      refine .lost bounded nonempty ?_
      rw [Log.stream_closed, ← complete, List.length_append,
        List.length_nil]
      dsimp only
      omega
  | lost bounded nonempty deficit =>
      simp only [Bool.true_or]
      rw [Log.close_of_ne_nil nonempty]
      refine .lost bounded nonempty ?_
      rw [Log.stream_closed, List.length_nil]
      dsimp only
      omega

/-- A close leaves the whole sequence in the file exactly when no earlier close
was late. -/
theorem Stage.contents_close_eq_iff
    {size : Nat} {log : Log Record} {pushed : List Record}
    {late : Bool} (positive : 0 < size)
    (stage : Stage size log pushed late) :
    log.close.contents = pushed ↔ late = false := by
  cases stage with
  | buffering short closed whole untouched =>
      refine iff_of_true ?_ rfl
      by_cases empty : log.block = []
      · rw [Log.close_of_nil empty, Log.contents,
          untouched (whole ▸ empty)]
        exact empty.symm.trans whole
      · rw [Log.close_of_ne_nil empty,
          Log.stream_of_closed closed]
        exact whole
  | flushed opened complete bounded nonempty long =>
      refine iff_of_true ?_ rfl
      rw [Log.close_of_ne_nil nonempty,
        Log.stream_of_open opened]
      exact complete
  | lost bounded nonempty deficit =>
      refine iff_of_false ?_ (by decide)
      intro same
      have lengths := congrArg List.length same
      rw [Log.close_of_ne_nil nonempty, Log.contents_mk_some,
        List.length_append] at lengths
      omega

/-! ## The file is always part of the sequence -/

/-- The file, and the file with the block to be appended, keep the order of the
records pushed and repeat none. -/
structure Ordered (log : Log Record) (pushed : List Record) :
    Prop where
  contents : log.contents.Sublist pushed
  upcoming : (log.stream ++ log.block).Sublist pushed

theorem ordered_initial :
    Ordered (Log.initial : Log Record) [] :=
  ⟨List.Sublist.refl _, List.Sublist.refl _⟩

theorem Ordered.push
    {size : Nat} {log : Log Record} {pushed : List Record}
    (ordered : Ordered log pushed) (record : Record) :
    Ordered (log.push size record) (pushed ++ [record]) := by
  have grown : pushed.Sublist (pushed ++ [record]) :=
    List.sublist_append_left pushed [record]
  have extended :
      (log.stream ++ log.block ++ [record]).Sublist
        (pushed ++ [record]) :=
    List.Sublist.append ordered.upcoming (List.Sublist.refl _)
  by_cases room : log.block.length < size
  · rw [Log.push_room room]
    refine ⟨ordered.contents.trans grown, ?_⟩
    rw [List.append_assoc] at extended
    exact extended
  · rw [Log.push_full (not_lt.mp room)]
    exact ⟨ordered.upcoming.trans grown, extended⟩

theorem Ordered.close
    {log : Log Record} {pushed : List Record}
    (ordered : Ordered log pushed) :
    Ordered log.close pushed := by
  by_cases empty : log.block = []
  · rw [Log.close_of_nil empty]
    exact ordered
  · rw [Log.close_of_ne_nil empty]
    refine ⟨ordered.upcoming, ?_⟩
    exact (List.sublist_append_right log.stream log.block).trans
      ordered.upcoming

end Dinamite.BlockLog
