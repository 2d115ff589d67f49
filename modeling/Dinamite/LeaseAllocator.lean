import Dinamite.Transition

/-!
# Leased ranges of identifiers

A table of consecutive ranges, the cells, grows on demand.  A cell is leased to
at most one owner, who draws identifiers from a private cursor and either gives
the rest of the range back or disappears with it.  Nothing here depends on how
the table is stored.
-/

namespace Dinamite.LeaseAllocator

open Dinamite.Transition

universe u

inductive CellStatus where
  | opened
  | leased
  | full
  deriving DecidableEq, Repr

/-- The recorded state of one range: identifiers from `start` to `stop` are
unused as far as the table knows. -/
structure Cell where
  status : CellStatus
  start : Int
  stop : Int
  deriving DecidableEq, Repr

/-- An owner's private view of the cell `index` it draws from. -/
structure Lease where
  index : Nat
  start : Int
  stop : Int
  deriving DecidableEq, Repr

/-- The table, the leases in force and every identifier drawn so far. -/
structure Allocator (Owner : Type u) where
  cells : List Cell
  leases : Owner → Option Lease
  issued : List Int

def Cell.lease (cell : Cell) (index : Nat) : Lease :=
  ⟨index, cell.start, cell.stop⟩

/-- The cell a lease leaves behind when it is given back. -/
def Lease.remainder (lease : Lease) : Cell where
  status := if lease.start > lease.stop then .full else .opened
  start := lease.start
  stop := lease.stop

/-- The first opened cell with its position. -/
def firstOpened : List Cell → Option (Nat × Cell)
  | [] => none
  | cell :: rest =>
      if cell.status = .opened then
        some (0, cell)
      else
        (firstOpened rest).map fun found => (found.1 + 1, found.2)

/-- The range a new cell at position `index` covers. -/
def freshCell (size : Int) (index : Nat) : Cell :=
  ⟨.leased, index * size, index * size + size - 1⟩

/-- Lease the first opened cell, or append a new one. -/
def acquire (size : Int) (cells : List Cell) : Lease × List Cell :=
  match firstOpened cells with
  | some (index, cell) =>
      (cell.lease index, cells.set index { cell with status := .leased })
  | none =>
      let cell := freshCell size cells.length
      (cell.lease cells.length, cells ++ [cell])

inductive Move (Owner : Type u) where
  | acquire (owner : Owner)
  | draw (owner : Owner)
  | release (owner : Owner)
  | abandon (owner : Owner)

section Machine

variable {Owner : Type u} [DecidableEq Owner]

namespace Allocator

def withLease
    (allocator : Allocator Owner) (owner : Owner)
    (lease : Option Lease) : Allocator Owner :=
  { allocator with leases := Function.update allocator.leases owner lease }

@[simp]
theorem withLease_cells
    (allocator : Allocator Owner) (owner : Owner) (lease : Option Lease) :
    (allocator.withLease owner lease).cells = allocator.cells :=
  rfl

@[simp]
theorem withLease_leases_self
    (allocator : Allocator Owner) (owner : Owner) (lease : Option Lease) :
    (allocator.withLease owner lease).leases owner = lease := by
  simp [withLease]

theorem withLease_leases_of_ne
    (allocator : Allocator Owner) {owner other : Owner}
    (lease : Option Lease) (different : other ≠ owner) :
    (allocator.withLease owner lease).leases other =
      allocator.leases other := by
  simp [withLease, different]

theorem withLease_leases_eq_some
    {allocator : Allocator Owner} {owner other : Owner}
    {lease : Option Lease} {held : Lease} :
    (allocator.withLease owner lease).leases other = some held ↔
      (other = owner ∧ lease = some held) ∨
        (other ≠ owner ∧ allocator.leases other = some held) := by
  by_cases same : other = owner
  · subst other
    simp
  · simp [withLease_leases_of_ne _ _ same, same]

end Allocator

def step (size : Int) (allocator : Allocator Owner) :
    Move Owner → Option (Allocator Owner)
  | .acquire owner =>
      match allocator.leases owner with
      | some _ => none
      | none =>
          let acquired := acquire size allocator.cells
          some { allocator.withLease owner (some acquired.1) with
            cells := acquired.2 }
  | .draw owner =>
      match allocator.leases owner with
      | none => none
      | some lease =>
          if lease.start ≤ lease.stop then
            some { allocator.withLease owner
                (some { lease with start := lease.start + 1 }) with
              issued := lease.start :: allocator.issued }
          else
            none
  | .release owner =>
      match allocator.leases owner with
      | none => none
      | some lease =>
          some { allocator.withLease owner none with
            cells := allocator.cells.set lease.index lease.remainder }
  | .abandon owner => some (allocator.withLease owner none)

/-- The allocator starts without cells, leases or identifiers. -/
def allocatorSystem (Owner : Type u) [DecidableEq Owner] (size : Int) :
    System (Allocator Owner) (Move Owner) where
  initial := ⟨[], fun _ => none, []⟩
  step := step size

/-- What a move that is possible does. -/
inductive Moves (size : Int) (allocator : Allocator Owner) :
    Move Owner → Allocator Owner → Prop
  | acquire {owner : Owner} (free : allocator.leases owner = none) :
      Moves size allocator (.acquire owner)
        { allocator.withLease owner
            (some (LeaseAllocator.acquire size allocator.cells).1) with
          cells := (LeaseAllocator.acquire size allocator.cells).2 }
  | draw {owner : Owner} {lease : Lease}
      (held : allocator.leases owner = some lease)
      (available : lease.start ≤ lease.stop) :
      Moves size allocator (.draw owner)
        { allocator.withLease owner
            (some { lease with start := lease.start + 1 }) with
          issued := lease.start :: allocator.issued }
  | release {owner : Owner} {lease : Lease}
      (held : allocator.leases owner = some lease) :
      Moves size allocator (.release owner)
        { allocator.withLease owner none with
          cells := allocator.cells.set lease.index lease.remainder }
  | abandon {owner : Owner} :
      Moves size allocator (.abandon owner) (allocator.withLease owner none)

theorem moves_of_step
    {size : Int} {allocator next : Allocator Owner} {move : Move Owner}
    (stepped : step size allocator move = some next) :
    Moves size allocator move next := by
  cases move with
  | acquire owner =>
      simp only [step] at stepped
      split at stepped
      · cases stepped
      · rename_i free
        obtain rfl := Option.some.inj stepped
        exact .acquire free
  | draw owner =>
      simp only [step] at stepped
      split at stepped
      · cases stepped
      · rename_i lease held
        split at stepped
        · rename_i available
          obtain rfl := Option.some.inj stepped
          exact .draw held available
        · cases stepped
  | release owner =>
      simp only [step] at stepped
      split at stepped
      · cases stepped
      · rename_i lease held
        obtain rfl := Option.some.inj stepped
        exact .release held
  | abandon owner =>
      obtain rfl := Option.some.inj stepped
      exact .abandon

theorem run_acquire
    (size : Int) {allocator : Allocator Owner} {owner : Owner}
    (free : allocator.leases owner = none) :
    (allocatorSystem Owner size).run allocator [.acquire owner] =
      some { allocator.withLease owner
          (some (acquire size allocator.cells).1) with
        cells := (acquire size allocator.cells).2 } := by
  simp [System.run_singleton_eq_some, allocatorSystem, step, free]

theorem run_draw
    (size : Int) {allocator : Allocator Owner} {owner : Owner}
    {lease : Lease} (held : allocator.leases owner = some lease)
    (available : lease.start ≤ lease.stop) :
    (allocatorSystem Owner size).run allocator [.draw owner] =
      some { allocator.withLease owner
          (some { lease with start := lease.start + 1 }) with
        issued := lease.start :: allocator.issued } := by
  simp [System.run_singleton_eq_some, allocatorSystem, step, held,
    available]

theorem run_release
    (size : Int) {allocator : Allocator Owner} {owner : Owner}
    {lease : Lease} (held : allocator.leases owner = some lease) :
    (allocatorSystem Owner size).run allocator [.release owner] =
      some { allocator.withLease owner none with
        cells := allocator.cells.set lease.index lease.remainder } := by
  simp [System.run_singleton_eq_some, allocatorSystem, step, held]

end Machine

/-! ## Accounting -/

/-- Where the cursor of the cell at position `index` may stand. -/
structure CellBounds (size : Int) (index : Nat) (cell : Cell) : Prop where
  stop_eq : cell.stop = index * size + size - 1
  lower : index * size ≤ cell.start
  upper : cell.start ≤ cell.stop + 1
  opened : cell.status = .opened → cell.start ≤ cell.stop
  full : cell.status = .full → cell.start = cell.stop + 1

theorem CellBounds.of_leased
    {size : Int} {index : Nat} {cell : Cell}
    (leased : cell.status = .leased)
    (stop_eq : cell.stop = index * size + size - 1)
    (lower : index * size ≤ cell.start)
    (upper : cell.start ≤ cell.stop + 1) :
    CellBounds size index cell := by
  refine ⟨stop_eq, lower, upper, ?_, ?_⟩
  · intro opened
    rw [leased] at opened
    cases opened
  · intro full
    rw [leased] at full
    cases full

/-- The identifier lies below the cursor that currently governs its cell.  A
leased cell without a lease belonged to an owner that disappeared and is never
opened again, so it needs no cursor. -/
structure IssuedFrom
    {Owner : Type u} (size : Int) (allocator : Allocator Owner)
    (identifier : Int) (index : Nat) (cell : Cell) : Prop where
  present : allocator.cells[index]? = some cell
  lower : index * size ≤ identifier
  upper : identifier ≤ cell.stop
  below_recorded : cell.status ≠ .leased → identifier < cell.start
  below_lease :
    ∀ owner lease, allocator.leases owner = some lease →
      lease.index = index → identifier < lease.start

/-- The cell behind a lease. -/
structure LeaseBacked
    (cells : List Cell) (lease : Lease) (cell : Cell) : Prop where
  present : cells[lease.index]? = some cell
  leased : cell.status = .leased
  stop_eq : cell.stop = lease.stop
  lower : cell.start ≤ lease.start
  upper : lease.start ≤ lease.stop + 1

/-- The invariant of the allocator. -/
structure Accounted
    {Owner : Type u} (size : Int) (allocator : Allocator Owner) :
    Prop where
  cell_bounds :
    ∀ index cell, allocator.cells[index]? = some cell →
      CellBounds size index cell
  lease_backed :
    ∀ owner lease, allocator.leases owner = some lease →
      ∃ cell, LeaseBacked allocator.cells lease cell
  exclusive :
    ∀ first second left right,
      allocator.leases first = some left →
      allocator.leases second = some right →
      left.index = right.index → first = second
  issued_from :
    ∀ identifier, identifier ∈ allocator.issued →
      ∃ index cell, IssuedFrom size allocator identifier index cell
  issued_nodup : allocator.issued.Nodup

theorem firstOpened_eq_some
    {cells : List Cell} {index : Nat} {cell : Cell}
    (found : firstOpened cells = some (index, cell)) :
    cells[index]? = some cell ∧ cell.status = .opened := by
  induction cells generalizing index with
  | nil =>
      simp [firstOpened] at found
  | cons head rest inductionHypothesis =>
      by_cases headOpened : head.status = .opened
      · simp only [firstOpened, headOpened, if_true, Option.some.injEq,
          Prod.mk.injEq] at found
        rcases found with ⟨rfl, rfl⟩
        exact ⟨rfl, headOpened⟩
      · simp only [firstOpened, headOpened, if_false,
          Option.map_eq_some_iff, Prod.mk.injEq] at found
        rcases found with ⟨⟨inner, innerCell⟩, innerFound, rfl, rfl⟩
        simpa using inductionHypothesis innerFound

/-- The search misses no opened cell. -/
theorem firstOpened_ne_none
    {cells : List Cell} {index : Nat} {cell : Cell}
    (present : cells[index]? = some cell)
    (opened : cell.status = .opened) :
    firstOpened cells ≠ none := by
  induction cells generalizing index with
  | nil =>
      simp at present
  | cons head rest inductionHypothesis =>
      by_cases headOpened : head.status = .opened
      · simp [firstOpened, headOpened]
      · simp only [firstOpened, headOpened, if_false, ne_eq,
          Option.map_eq_none_iff]
        cases index with
        | zero =>
            obtain rfl : head = cell := by simpa using present
            exact absurd opened headOpened
        | succ index =>
            exact inductionHypothesis (by simpa using present)

/-- Two positions whose ranges share an identifier are equal. -/
theorem index_eq_of_range_meets
    (size identifier : Int) {left right : Nat}
    (leftLower : left * size ≤ identifier)
    (leftUpper : identifier ≤ left * size + size - 1)
    (rightLower : right * size ≤ identifier)
    (rightUpper : identifier ≤ right * size + size - 1) :
    left = right := by
  have leftBelow : (left : Int) * size < (right + 1) * size := by
    linarith
  have rightBelow : (right : Int) * size < (left + 1) * size := by
    linarith
  have sizePositive : 0 < size := by
    omega
  have leftSmaller := lt_of_mul_lt_mul_right leftBelow sizePositive.le
  have rightSmaller := lt_of_mul_lt_mul_right rightBelow sizePositive.le
  omega

section Preservation

variable {Owner : Type u}
variable {size : Int} {allocator next : Allocator Owner} {owner : Owner}

/-- An identifier inside a lease comes from the leased cell. -/
theorem Accounted.index_of_held
    (accounted : Accounted size allocator)
    {lease : Lease} (held : allocator.leases owner = some lease)
    {identifier : Int}
    (lower : lease.start ≤ identifier) (upper : identifier ≤ lease.stop)
    {index : Nat}
    (rangeLower : index * size ≤ identifier)
    (rangeUpper : identifier ≤ index * size + size - 1) :
    lease.index = index := by
  rcases accounted.lease_backed owner lease held with ⟨backing, backed⟩
  have backingBounds := accounted.cell_bounds _ _ backed.present
  apply index_eq_of_range_meets size identifier
  · exact (backingBounds.lower.trans backed.lower).trans lower
  · have := backingBounds.stop_eq
    have := backed.stop_eq
    omega
  · exact rangeLower
  · exact rangeUpper

/-- What a lease still covers has not been issued. -/
theorem Accounted.held_not_issued
    (accounted : Accounted size allocator)
    {lease : Lease} (held : allocator.leases owner = some lease)
    {identifier : Int}
    (lower : lease.start ≤ identifier)
    (upper : identifier ≤ lease.stop) :
    identifier ∉ allocator.issued := by
  intro issued
  rcases accounted.issued_from _ issued with ⟨index, cell, origin⟩
  have cellBounds := accounted.cell_bounds _ _ origin.present
  have sameIndex : lease.index = index := by
    apply accounted.index_of_held held lower upper origin.lower
    have := cellBounds.stop_eq
    have := origin.upper
    omega
  have below := origin.below_lease owner lease held sameIndex
  omega

/-- Leases of different owners cover different identifiers. -/
theorem Accounted.held_disjoint
    (accounted : Accounted size allocator)
    {first second : Owner} {left right : Lease}
    (leftHeld : allocator.leases first = some left)
    (rightHeld : allocator.leases second = some right)
    {identifier : Int}
    (leftLower : left.start ≤ identifier)
    (leftUpper : identifier ≤ left.stop)
    (rightLower : right.start ≤ identifier)
    (rightUpper : identifier ≤ right.stop) :
    first = second := by
  rcases accounted.lease_backed second right rightHeld with ⟨backing, backed⟩
  have bounds := accounted.cell_bounds _ _ backed.present
  apply accounted.exclusive _ _ _ _ leftHeld rightHeld
  apply accounted.index_of_held leftHeld leftLower leftUpper
  · exact (bounds.lower.trans backed.lower).trans rightLower
  · have := bounds.stop_eq
    have := backed.stop_eq
    omega

theorem remainder_bounds
    {lease : Lease} {cell : Cell}
    (bounds : CellBounds size lease.index cell)
    (backed : LeaseBacked allocator.cells lease cell) :
    CellBounds size lease.index lease.remainder := by
  have stopEq := bounds.stop_eq
  have sameStop := backed.stop_eq
  have lower := bounds.lower
  have advanced := backed.lower
  have upper := backed.upper
  refine ⟨?_, ?_, ?_, ?_, ?_⟩
  · simp only [Lease.remainder]
    omega
  · simp only [Lease.remainder]
    omega
  · simp only [Lease.remainder]
    omega
  · intro opened
    simp only [Lease.remainder] at opened ⊢
    split at opened
    · cases opened
    · omega
  · intro full
    simp only [Lease.remainder] at full ⊢
    split at full
    · omega
    · cases full

variable [DecidableEq Owner]

/-- Leases stay exclusive when an owner takes one whose cell no one else
holds. -/
theorem Accounted.exclusive_withLease
    (accounted : Accounted size allocator) {lease : Lease}
    (free :
      ∀ other held, allocator.leases other = some held →
        held.index = lease.index → other = owner) :
    ∀ first second left right,
      (allocator.withLease owner (some lease)).leases first = some left →
        (allocator.withLease owner (some lease)).leases second =
            some right →
          left.index = right.index → first = second := by
  intro first second left right leftHeld rightHeld sameIndex
  rcases Allocator.withLease_leases_eq_some.mp leftHeld with
    ⟨rfl, leftSame⟩ | ⟨_, leftKept⟩
  · obtain rfl := Option.some.inj leftSame
    rcases Allocator.withLease_leases_eq_some.mp rightHeld with
      ⟨rfl, _⟩ | ⟨_, rightKept⟩
    · rfl
    · exact (free second right rightKept sameIndex.symm).symm
  · rcases Allocator.withLease_leases_eq_some.mp rightHeld with
      ⟨rfl, rightSame⟩ | ⟨_, rightKept⟩
    · obtain rfl := Option.some.inj rightSame
      exact free first left leftKept sameIndex
    · exact accounted.exclusive _ _ _ _ leftKept rightKept sameIndex

theorem accounted_draw
    (accounted : Accounted size allocator)
    {lease : Lease} (held : allocator.leases owner = some lease)
    (available : lease.start ≤ lease.stop) :
    Accounted size
      { allocator.withLease owner
          (some { lease with start := lease.start + 1 }) with
        issued := lease.start :: allocator.issued } := by
  rcases accounted.lease_backed owner lease held with ⟨backing, backed⟩
  refine ⟨accounted.cell_bounds, ?_, ?_, ?_, ?_⟩
  · intro other otherLease otherHeld
    rcases Allocator.withLease_leases_eq_some.mp otherHeld with
      ⟨rfl, same⟩ | ⟨_, kept⟩
    · obtain rfl := Option.some.inj same
      exact ⟨backing, backed.present, backed.leased, backed.stop_eq,
        by have := backed.lower; dsimp only; omega,
        by dsimp only; omega⟩
    · exact accounted.lease_backed other otherLease kept
  · apply accounted.exclusive_withLease
    intro other otherLease kept sameIndex
    exact accounted.exclusive _ _ _ _ kept held sameIndex
  · intro identifier issued
    rcases List.mem_cons.mp issued with rfl | before
    · have bounds := accounted.cell_bounds _ _ backed.present
      refine ⟨lease.index, backing, backed.present,
        bounds.lower.trans backed.lower, ?_, ?_, ?_⟩
      · rw [backed.stop_eq]
        exact available
      · intro notLeased
        exact absurd backed.leased notLeased
      · intro other otherLease otherHeld sameIndex
        rcases Allocator.withLease_leases_eq_some.mp otherHeld with
          ⟨rfl, same⟩ | ⟨different, kept⟩
        · obtain rfl := Option.some.inj same
          exact Int.lt_succ lease.start
        · exact absurd
            (accounted.exclusive _ _ _ _ kept held sameIndex) different
    · rcases accounted.issued_from _ before with ⟨index, cell, origin⟩
      refine ⟨index, cell, origin.present, origin.lower, origin.upper,
        origin.below_recorded, ?_⟩
      intro other otherLease otherHeld sameIndex
      rcases Allocator.withLease_leases_eq_some.mp otherHeld with
        ⟨rfl, same⟩ | ⟨_, kept⟩
      · obtain rfl := Option.some.inj same
        have := origin.below_lease other lease held sameIndex
        dsimp only
        omega
      · exact origin.below_lease other otherLease kept sameIndex
  · exact List.nodup_cons.mpr
      ⟨accounted.held_not_issued held (le_refl _) available,
        accounted.issued_nodup⟩

/-- Removing a lease keeps the facts about the leases that stay. -/
theorem accounted_abandon
    (accounted : Accounted size allocator) :
    Accounted size (allocator.withLease owner none) := by
  have kept :
      ∀ other lease,
        (allocator.withLease owner none).leases other = some lease →
          allocator.leases other = some lease := by
    intro other lease held
    rcases Allocator.withLease_leases_eq_some.mp held with
      ⟨_, impossible⟩ | ⟨_, before⟩
    · cases impossible
    · exact before
  refine ⟨accounted.cell_bounds, ?_, ?_, ?_, accounted.issued_nodup⟩
  · intro other lease held
    exact accounted.lease_backed other lease (kept other lease held)
  · intro first second left right leftHeld rightHeld sameIndex
    exact accounted.exclusive _ _ _ _ (kept _ _ leftHeld)
      (kept _ _ rightHeld) sameIndex
  · intro identifier issued
    rcases accounted.issued_from _ issued with ⟨index, cell, origin⟩
    exact ⟨index, cell, origin.present, origin.lower, origin.upper,
      origin.below_recorded, fun other lease held =>
        origin.below_lease other lease (kept other lease held)⟩

theorem accounted_release
    (accounted : Accounted size allocator)
    {lease : Lease} (held : allocator.leases owner = some lease) :
    Accounted size
      { allocator.withLease owner none with
        cells := allocator.cells.set lease.index lease.remainder } := by
  rcases accounted.lease_backed owner lease held with ⟨backing, backed⟩
  have abandoned : Accounted size (allocator.withLease owner none) :=
    accounted_abandon accounted
  have inTable : lease.index < allocator.cells.length := by
    rcases List.getElem?_eq_some_iff.mp backed.present with ⟨bound, _⟩
    exact bound
  have elsewhere :
      ∀ index, lease.index ≠ index →
        (allocator.cells.set lease.index lease.remainder)[index]? =
          allocator.cells[index]? := by
    intro index different
    exact List.getElem?_set_ne different
  have replaced :
      (allocator.cells.set lease.index lease.remainder)[lease.index]? =
        some lease.remainder :=
    List.getElem?_set_self inTable
  have otherIndex :
      ∀ other otherLease,
        (allocator.withLease owner none).leases other = some otherLease →
          lease.index ≠ otherLease.index := by
    intro other otherLease otherHeld sameIndex
    rcases Allocator.withLease_leases_eq_some.mp otherHeld with
      ⟨_, impossible⟩ | ⟨different, before⟩
    · cases impossible
    · exact different
        (accounted.exclusive _ _ _ _ before held sameIndex.symm)
  refine ⟨?_, ?_, abandoned.exclusive, ?_, accounted.issued_nodup⟩
  · intro index cell present
    by_cases same : lease.index = index
    · subst index
      obtain rfl : lease.remainder = cell :=
        Option.some.inj (replaced.symm.trans present)
      exact remainder_bounds
        (accounted.cell_bounds _ _ backed.present) backed
    · exact accounted.cell_bounds index cell
        ((elsewhere index same).symm.trans present)
  · intro other otherLease otherHeld
    rcases abandoned.lease_backed other otherLease otherHeld with
      ⟨cell, otherBacked⟩
    exact ⟨cell,
      (elsewhere _ (otherIndex other otherLease otherHeld)).trans
        otherBacked.present,
      otherBacked.leased, otherBacked.stop_eq, otherBacked.lower,
      otherBacked.upper⟩
  · intro identifier issued
    rcases accounted.issued_from _ issued with ⟨index, cell, origin⟩
    by_cases same : lease.index = index
    · subst index
      obtain rfl : backing = cell :=
        Option.some.inj (backed.present.symm.trans origin.present)
      have stopEq := backed.stop_eq
      have upper := origin.upper
      refine ⟨lease.index, lease.remainder, replaced, origin.lower, ?_,
        fun _ => origin.below_lease owner lease held rfl, ?_⟩
      · simp only [Lease.remainder]
        omega
      · intro other otherLease otherHeld sameIndex
        exact absurd sameIndex.symm
          (otherIndex other otherLease otherHeld)
    · refine ⟨index, cell, (elsewhere index same).trans origin.present,
        origin.lower, origin.upper, origin.below_recorded, ?_⟩
      intro other otherLease otherHeld sameIndex
      rcases Allocator.withLease_leases_eq_some.mp otherHeld with
        ⟨_, impossible⟩ | ⟨_, before⟩
      · cases impossible
      · exact origin.below_lease other otherLease before sameIndex

/-- Lease a cell that nobody holds and whose issued identifiers all lie below
its cursor; every other position of the table is left alone. -/
theorem accounted_grant
    (accounted : Accounted size allocator)
    {cells : List Cell} {index : Nat} (cell : Cell)
    (leased : cell.status = .leased)
    (present : cells[index]? = some cell)
    (bounds : CellBounds size index cell)
    (elsewhere :
      ∀ other, other ≠ index → cells[other]? = allocator.cells[other]?)
    (free :
      ∀ other lease, allocator.leases other = some lease →
        lease.index ≠ index)
    (below :
      ∀ identifier, identifier ∈ allocator.issued →
        index * size ≤ identifier → identifier ≤ cell.stop →
          identifier < cell.start) :
    Accounted size
      { allocator.withLease owner (some (cell.lease index)) with
        cells := cells } := by
  refine ⟨?_, ?_, ?_, ?_, accounted.issued_nodup⟩
  · intro other otherCell otherPresent
    by_cases same : other = index
    · subst other
      obtain rfl : cell = otherCell :=
        Option.some.inj (present.symm.trans otherPresent)
      exact bounds
    · exact accounted.cell_bounds other otherCell
        ((elsewhere other same).symm.trans otherPresent)
  · intro other lease held
    rcases Allocator.withLease_leases_eq_some.mp held with
      ⟨_, same⟩ | ⟨_, kept⟩
    · obtain rfl := Option.some.inj same
      exact ⟨cell, present, leased, rfl, le_refl _, bounds.upper⟩
    · rcases accounted.lease_backed other lease kept with ⟨backing, backed⟩
      exact ⟨backing,
        (elsewhere _ (free other lease kept)).trans backed.present,
        backed.leased, backed.stop_eq, backed.lower, backed.upper⟩
  · apply accounted.exclusive_withLease
    intro other lease kept sameIndex
    exact absurd sameIndex (free other lease kept)
  · intro identifier issued
    rcases accounted.issued_from _ issued with ⟨home, homeCell, origin⟩
    by_cases same : home = index
    · subst home
      have upper : identifier ≤ cell.stop := by
        have before := accounted.cell_bounds _ _ origin.present
        have := origin.upper
        have := before.stop_eq
        have := bounds.stop_eq
        omega
      have start := below identifier issued origin.lower upper
      refine ⟨index, cell, present, origin.lower, upper,
        fun _ => start, ?_⟩
      intro other lease held sameIndex
      rcases Allocator.withLease_leases_eq_some.mp held with
        ⟨_, sameLease⟩ | ⟨_, kept⟩
      · obtain rfl := Option.some.inj sameLease
        exact start
      · exact absurd sameIndex (free other lease kept)
    · refine ⟨home, homeCell, (elsewhere home same).trans origin.present,
        origin.lower, origin.upper, origin.below_recorded, ?_⟩
      intro other lease held sameIndex
      rcases Allocator.withLease_leases_eq_some.mp held with
        ⟨_, sameLease⟩ | ⟨_, kept⟩
      · obtain rfl := Option.some.inj sameLease
        exact absurd sameIndex.symm same
      · exact origin.below_lease other lease kept sameIndex

omit [DecidableEq Owner] in
/-- The position an issued identifier came from is the only one whose range
contains it. -/
theorem Accounted.issued_origin
    (accounted : Accounted size allocator)
    {identifier : Int} (issued : identifier ∈ allocator.issued)
    {index : Nat}
    (lower : index * size ≤ identifier)
    (upper : identifier ≤ index * size + size - 1) :
    ∃ cell, IssuedFrom size allocator identifier index cell := by
  rcases accounted.issued_from _ issued with ⟨home, cell, origin⟩
  have bounds := accounted.cell_bounds _ _ origin.present
  have homeUpper : identifier ≤ home * size + size - 1 := by
    have := origin.upper
    have := bounds.stop_eq
    omega
  obtain rfl : home = index :=
    index_eq_of_range_meets size identifier origin.lower homeUpper
      lower upper
  exact ⟨cell, origin⟩

theorem accounted_acquire
    (accounted : Accounted size allocator)
    (sizePositive : 1 ≤ size) :
    Accounted size
      { allocator.withLease owner
          (some (acquire size allocator.cells).1) with
        cells := (acquire size allocator.cells).2 } := by
  cases search : firstOpened allocator.cells with
  | none =>
      simp only [acquire, search]
      have unused :
          ∀ cell, allocator.cells[allocator.cells.length]? ≠ some cell := by
        simp
      apply accounted_grant accounted (freshCell size _)
      · rfl
      · simp
      · apply CellBounds.of_leased rfl rfl (le_refl _)
        simp only [freshCell]
        omega
      · intro other different
        by_cases inside : other < allocator.cells.length
        · exact List.getElem?_append_left inside
        · rw [List.getElem?_append_right (by omega),
            List.getElem?_eq_none (by simp; omega),
            List.getElem?_eq_none (by omega)]
      · intro other lease held same
        rcases accounted.lease_backed other lease held with ⟨cell, backed⟩
        exact unused cell (same ▸ backed.present)
      · intro identifier issued lower upper
        rcases accounted.issued_origin issued lower upper with ⟨cell, origin⟩
        exact absurd origin.present (unused cell)
  | some found =>
      rcases found with ⟨index, cell⟩
      simp only [acquire, search]
      rcases firstOpened_eq_some search with ⟨present, opened⟩
      have bounds := accounted.cell_bounds index cell present
      rcases List.getElem?_eq_some_iff.mp present with ⟨inTable, _⟩
      apply accounted_grant accounted { cell with status := .leased }
      · rfl
      · exact List.getElem?_set_self inTable
      · exact CellBounds.of_leased rfl bounds.stop_eq bounds.lower
          bounds.upper
      · intro other different
        exact List.getElem?_set_ne (Ne.symm different)
      · intro other lease held same
        rcases accounted.lease_backed other lease held with ⟨backing, backed⟩
        obtain rfl : cell = backing :=
          Option.some.inj (present.symm.trans (same ▸ backed.present))
        rw [backed.leased] at opened
        cases opened
      · intro identifier issued lower upper
        have stopEq := bounds.stop_eq
        obtain ⟨home, origin⟩ :=
          accounted.issued_origin issued lower
            (by dsimp only at upper; omega)
        obtain rfl : cell = home :=
          Option.some.inj (present.symm.trans origin.present)
        exact origin.below_recorded (by rw [opened]; decide)

/-- Every move keeps the accounting. -/
theorem accounted_step
    (sizePositive : 1 ≤ size)
    {move : Move Owner}
    (stepped : step size allocator move = some next)
    (accounted : Accounted size allocator) :
    Accounted size next := by
  cases moves_of_step stepped with
  | acquire free => exact accounted_acquire accounted sizePositive
  | draw held available => exact accounted_draw accounted held available
  | release held => exact accounted_release accounted held
  | abandon => exact accounted_abandon accounted

theorem accounted_initial :
    Accounted size (allocatorSystem Owner size).initial := by
  refine ⟨?_, ?_, ?_, ?_, List.nodup_nil⟩
  · intro index cell present
    simp [allocatorSystem] at present
  · intro other lease held
    cases held
  · intro first second left right held
    cases held
  · intro identifier issued
    cases issued

/-- The accounting holds in every reachable state of the allocator. -/
theorem accounted_of_run
    (sizePositive : 1 ≤ size)
    {moves : List (Move Owner)}
    (valid : (allocatorSystem Owner size).run allocator moves = some next)
    (accounted : Accounted size allocator) :
    Accounted size next :=
  (allocatorSystem Owner size).run_invariant
    (Accounted size)
    (fun _ _ _ stepped holds => accounted_step sizePositive stepped holds)
    valid accounted

end Preservation

/-- A freshly acquired lease covers at least one identifier. -/
theorem acquire_available
    {Owner : Type u} {size : Int} {allocator : Allocator Owner}
    (accounted : Accounted size allocator)
    (sizePositive : 1 ≤ size) :
    (acquire size allocator.cells).1.start ≤
      (acquire size allocator.cells).1.stop := by
  cases search : firstOpened allocator.cells with
  | none =>
      simp only [acquire, search, Cell.lease, freshCell]
      omega
  | some found =>
      rcases found with ⟨index, cell⟩
      rcases firstOpened_eq_some search with ⟨present, opened⟩
      simp only [acquire, search, Cell.lease]
      exact (accounted.cell_bounds index cell present).opened opened

end Dinamite.LeaseAllocator
