import Dinamite.LeaseAllocator

/-!
# A table that stays compact

While no owner disappears, every leased cell has a holder.  A cell is appended
only when no cell is opened, so the cells that are not full never outnumber the
owners that hold a lease at one time.
-/

namespace Dinamite.LeaseAllocator

open Dinamite.Transition

universe u

/-- The positions of the cells with a status. -/
def positionsOf (status : CellStatus) (cells : List Cell) : Finset Nat :=
  (Finset.range cells.length).filter fun index =>
    cells[index]?.map Cell.status = some status

theorem mem_positionsOf
    {status : CellStatus} {cells : List Cell} {index : Nat} :
    index ∈ positionsOf status cells ↔
      ∃ cell, cells[index]? = some cell ∧ cell.status = status := by
  simp only [positionsOf, Finset.mem_filter, Finset.mem_range,
    Option.map_eq_some_iff]
  constructor
  · intro inRange
    rcases inRange with ⟨_, found⟩
    exact found
  · intro hasStatus
    rcases hasStatus with ⟨cell, present, same⟩
    rcases List.getElem?_eq_some_iff.mp present with ⟨inTable, _⟩
    exact ⟨inTable, cell, present, same⟩

/-- Without an opened cell every cell is leased or full. -/
theorem length_le_of_firstOpened_none
    {cells : List Cell} (search : firstOpened cells = none) :
    cells.length ≤
      (positionsOf .full cells).card + (positionsOf .leased cells).card := by
  have covered :
      Finset.range cells.length ⊆
        positionsOf .full cells ∪ positionsOf .leased cells := by
    intro index inRange
    have inTable := Finset.mem_range.mp inRange
    have present := List.getElem?_eq_getElem inTable
    rw [Finset.mem_union, mem_positionsOf, mem_positionsOf]
    cases status : cells[index].status with
    | opened =>
        exact absurd search (firstOpened_ne_none present status)
    | leased => exact Or.inr ⟨_, present, status⟩
    | full => exact Or.inl ⟨_, present, status⟩
  have counted := Finset.card_le_card covered
  rw [Finset.card_range] at counted
  exact counted.trans (Finset.card_union_le _ _)

/-! ## Leases and holders -/

section Holders

variable {Owner : Type u} {allocator : Allocator Owner}

/-- Every leased cell is held by an owner. -/
def Held (allocator : Allocator Owner) : Prop :=
  ∀ index cell, allocator.cells[index]? = some cell →
    cell.status = .leased →
      ∃ owner lease, allocator.leases owner = some lease ∧
        lease.index = index

/-- All owners that hold a lease are listed. -/
def Lists (holders : Finset Owner) (allocator : Allocator Owner) : Prop :=
  ∀ owner lease, allocator.leases owner = some lease → owner ∈ holders

theorem card_leased_le
    (held : Held allocator) {holders : Finset Owner}
    (lists : Lists holders allocator) :
    (positionsOf .leased allocator.cells).card ≤ holders.card := by
  classical
  have covered :
      positionsOf .leased allocator.cells ⊆
        holders.image fun owner =>
          ((allocator.leases owner).map Lease.index).getD 0 := by
    intro index leased
    rcases mem_positionsOf.mp leased with ⟨cell, present, isLeased⟩
    rcases held index cell present isLeased with ⟨owner, lease, owned, same⟩
    refine Finset.mem_image.mpr ⟨owner, lists owner lease owned, ?_⟩
    rw [owned, ← same]
    rfl
  exact (Finset.card_le_card covered).trans Finset.card_image_le

end Holders

/-! ## The invariant -/

/-- The cells that are not full number at most `bound`. -/
structure Compact
    {Owner : Type u} (size : Int) (bound : Nat)
    (allocator : Allocator Owner) : Prop where
  accounted : Accounted size allocator
  held : Held allocator
  bounded :
    allocator.cells.length ≤
      (positionsOf .full allocator.cells).card + bound

/-- No owner disappears, and a lease is taken only while fewer than `bound`
owners hold one. -/
def WithinBound
    {Owner : Type u} (bound : Nat) (allocator : Allocator Owner) :
    Move Owner → Prop
  | .acquire _ =>
      ∃ holders : Finset Owner,
        Lists holders allocator ∧ holders.card < bound
  | .draw _ => True
  | .release _ => True
  | .abandon _ => False

theorem card_full_le
    {before after : List Cell}
    (kept :
      ∀ (index : Nat) (cell : Cell), before[index]? = some cell →
        cell.status = .full → after[index]? = some cell) :
    (positionsOf .full before).card ≤ (positionsOf .full after).card := by
  apply Finset.card_le_card
  intro index full
  rcases mem_positionsOf.mp full with ⟨cell, present, isFull⟩
  exact mem_positionsOf.mpr ⟨cell, kept index cell present isFull, isFull⟩

section Preservation

variable {Owner : Type u} [DecidableEq Owner]
variable {size : Int} {bound : Nat}
variable {allocator next : Allocator Owner} {owner : Owner}

/-- A holder stays one when another owner's lease changes. -/
theorem holder_kept
    {lease : Option Lease} {index : Nat}
    (holder : ∃ other held, allocator.leases other = some held ∧
      held.index = index)
    (notOwner :
      ∀ held, allocator.leases owner = some held → held.index ≠ index) :
    ∃ other held,
      (allocator.withLease owner lease).leases other = some held ∧
        held.index = index := by
  rcases holder with ⟨other, held, owned, same⟩
  have different : other ≠ owner := by
    intro same
    subst same
    exact notOwner held owned same
  refine ⟨other, held, ?_, same⟩
  rw [Allocator.withLease_leases_of_ne _ _ different]
  exact owned

/-- Only the acquired cell changes. -/
theorem acquire_of_ne
    {cells : List Cell} {index : Nat}
    (different : (acquire size cells).1.index ≠ index) :
    (acquire size cells).2[index]? = cells[index]? := by
  cases search : firstOpened cells with
  | none =>
      simp only [acquire, search] at different ⊢
      have notLast : cells.length ≠ index := different
      rw [List.getElem?_append]
      split
      · rfl
      · rename_i outside
        rw [List.getElem?_eq_none, List.getElem?_eq_none]
        · omega
        · simp only [List.length_singleton]
          omega
  | some found =>
      rcases found with ⟨position, openedCell⟩
      simp only [acquire, search] at different ⊢
      exact List.getElem?_set_ne different

/-- The acquired cell was no full one. -/
theorem acquire_not_full
    {cells : List Cell} {cell : Cell}
    (present : cells[(acquire size cells).1.index]? = some cell) :
    cell.status ≠ .full := by
  cases search : firstOpened cells with
  | none =>
      simp only [acquire, search, Cell.lease] at present
      rcases List.getElem?_eq_some_iff.mp present with ⟨inTable, _⟩
      exact absurd inTable (lt_irrefl _)
  | some found =>
      rcases found with ⟨position, openedCell⟩
      rcases firstOpened_eq_some search with ⟨found, opened⟩
      simp only [acquire, search, Cell.lease] at present
      obtain rfl := Option.some.inj (found.symm.trans present)
      rw [opened]
      intro full
      cases full

theorem held_acquire
    (heldBefore : Held allocator)
    (free : allocator.leases owner = none) :
    Held
      { allocator.withLease owner
          (some (acquire size allocator.cells).1) with
        cells := (acquire size allocator.cells).2 } := by
  intro index cell present leased
  by_cases same : (acquire size allocator.cells).1.index = index
  · exact ⟨owner, _, Allocator.withLease_leases_self _ _ _, same⟩
  · simp only [acquire_of_ne same] at present
    refine holder_kept (heldBefore index cell present leased) ?_
    intro held owned
    rw [free] at owned
    cases owned

theorem held_draw
    (heldBefore : Held allocator)
    {lease : Lease} (owned : allocator.leases owner = some lease) :
    Held
      { allocator.withLease owner
          (some { lease with start := lease.start + 1 }) with
        issued := lease.start :: allocator.issued } := by
  intro index cell present leased
  rcases heldBefore index cell present leased with
    ⟨other, held, otherOwned, same⟩
  by_cases isOwner : other = owner
  · subst isOwner
    obtain rfl := Option.some.inj (owned.symm.trans otherOwned)
    exact ⟨other, _, Allocator.withLease_leases_self _ _ _, same⟩
  · refine ⟨other, held, ?_, same⟩
    exact (Allocator.withLease_leases_of_ne _ _ isOwner).trans otherOwned

theorem held_release
    (heldBefore : Held allocator)
    {lease : Lease} (owned : allocator.leases owner = some lease)
    (inTable : lease.index < allocator.cells.length) :
    Held
      { allocator.withLease owner none with
        cells := allocator.cells.set lease.index lease.remainder } := by
  intro index cell present leased
  by_cases same : lease.index = index
  · subst same
    rw [List.getElem?_set_self inTable] at present
    obtain rfl := Option.some.inj present
    simp only [Lease.remainder] at leased
    split at leased <;> cases leased
  · rw [List.getElem?_set_ne same] at present
    refine holder_kept (heldBefore index cell present leased) ?_
    intro held heldOwned sameIndex
    obtain rfl := Option.some.inj (owned.symm.trans heldOwned)
    exact same sameIndex

theorem compact_acquire
    (sizePositive : 1 ≤ size)
    (compact : Compact size bound allocator)
    (free : allocator.leases owner = none)
    {holders : Finset Owner} (lists : Lists holders allocator)
    (room : holders.card < bound) :
    Compact size bound
      { allocator.withLease owner
          (some (acquire size allocator.cells).1) with
        cells := (acquire size allocator.cells).2 } := by
  have accounted : Accounted size
      { allocator.withLease owner
          (some (acquire size allocator.cells).1) with
        cells := (acquire size allocator.cells).2 } :=
    accounted_acquire compact.accounted sizePositive
  have full :
      (positionsOf .full allocator.cells).card ≤
        (positionsOf .full (acquire size allocator.cells).2).card := by
    apply card_full_le
    intro index cell present isFull
    rw [acquire_of_ne]
    · exact present
    · intro same
      rw [← same] at present
      exact acquire_not_full present isFull
  refine ⟨accounted, held_acquire compact.held free, ?_⟩
  cases search : firstOpened allocator.cells with
  | none =>
      have covered := length_le_of_firstOpened_none search
      have leased := card_leased_le compact.held lists
      simp only [acquire, search, List.length_append,
        List.length_singleton] at full ⊢
      omega
  | some found =>
      have before := compact.bounded
      simp only [acquire, search, List.length_set] at full ⊢
      omega

theorem compact_draw
    (compact : Compact size bound allocator)
    {lease : Lease} (owned : allocator.leases owner = some lease)
    (available : lease.start ≤ lease.stop) :
    Compact size bound
      { allocator.withLease owner
          (some { lease with start := lease.start + 1 }) with
        issued := lease.start :: allocator.issued } :=
  ⟨accounted_draw compact.accounted owned available,
    held_draw compact.held owned, compact.bounded⟩

theorem compact_release
    (compact : Compact size bound allocator)
    {lease : Lease} (owned : allocator.leases owner = some lease) :
    Compact size bound
      { allocator.withLease owner none with
        cells := allocator.cells.set lease.index lease.remainder } := by
  rcases compact.accounted.lease_backed owner lease owned with
    ⟨backing, backed⟩
  rcases List.getElem?_eq_some_iff.mp backed.present with ⟨inTable, _⟩
  refine ⟨accounted_release compact.accounted owned,
    held_release compact.held owned inTable, ?_⟩
  have full :
      (positionsOf .full allocator.cells).card ≤
        (positionsOf .full
          (allocator.cells.set lease.index lease.remainder)).card := by
    apply card_full_le
    intro index cell present isFull
    have different : lease.index ≠ index := by
      intro same
      subst same
      obtain rfl := Option.some.inj (backed.present.symm.trans present)
      rw [backed.leased] at isFull
      cases isFull
    rw [List.getElem?_set_ne different]
    exact present
  have before := compact.bounded
  simp only [List.length_set]
  omega

theorem compact_step
    (sizePositive : 1 ≤ size)
    {move : Move Owner}
    (stepped : step size allocator move = some next)
    (within : WithinBound bound allocator move)
    (compact : Compact size bound allocator) :
    Compact size bound next := by
  cases moves_of_step stepped with
  | acquire free =>
      rcases within with ⟨holders, lists, room⟩
      exact compact_acquire sizePositive compact free lists room
  | draw owned available => exact compact_draw compact owned available
  | release owned => exact compact_release compact owned
  | abandon => exact within.elim

/-- The table stays compact in every run within the bound. -/
theorem compact_of_run
    (sizePositive : 1 ≤ size) {moves : List (Move Owner)}
    (within :
      (allocatorSystem Owner size).Guarded (WithinBound bound) allocator
        moves)
    (valid : (allocatorSystem Owner size).run allocator moves = some next)
    (compact : Compact size bound allocator) :
    Compact size bound next :=
  (allocatorSystem Owner size).guarded_run_invariant
    (Compact size bound)
    (fun _ _ _ guarded stepped holds =>
      compact_step sizePositive stepped guarded holds)
    within valid compact

theorem compact_initial :
    Compact size bound (allocatorSystem Owner size).initial := by
  refine ⟨accounted_initial, ?_, Nat.zero_le _⟩
  intro index cell present
  simp [allocatorSystem] at present

end Preservation

end Dinamite.LeaseAllocator
