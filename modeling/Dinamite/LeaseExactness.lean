import Dinamite.LeaseCompactness

/-!
# A table that loses nothing

While no owner disappears, the identifiers drawn so far are just the ones below
the cursors: the private cursor of a cell that is held, and the recorded one of
a cell that is not.
-/

namespace Dinamite.LeaseAllocator

open Dinamite.Transition

universe u

variable {Owner : Type u}

/-! ## Cursors -/

/-- All of a range that lies below the cursor was drawn. -/
def DrawnBelow
    (size : Int) (issued : List Int) (index : Nat) (cursor : Int) : Prop :=
  ∀ identifier, index * size ≤ identifier → identifier < cursor →
    identifier ∈ issued

/-- The cursor of a cell: that of its holder, or the recorded one if there is
no holder. -/
inductive Cursor (allocator : Allocator Owner) (index : Nat) : Int → Prop
  | held {owner : Owner} {lease : Lease}
      (owned : allocator.leases owner = some lease)
      (same : lease.index = index) :
      Cursor allocator index lease.start
  | recorded {cell : Cell} (present : allocator.cells[index]? = some cell)
      (free :
        ∀ owner lease, allocator.leases owner = some lease →
          lease.index ≠ index) :
      Cursor allocator index cell.start

/-- The invariant without owners that disappear. -/
structure Exact (size : Int) (allocator : Allocator Owner) : Prop where
  accounted : Accounted size allocator
  held : Held allocator
  drawn :
    ∀ owner lease, allocator.leases owner = some lease →
      DrawnBelow size allocator.issued lease.index lease.start
  recorded :
    ∀ index cell, allocator.cells[index]? = some cell →
      cell.status ≠ .leased →
        DrawnBelow size allocator.issued index cell.start

section Exact

variable {size : Int} {allocator : Allocator Owner}
variable {index : Nat} {cell : Cell}

/-- A cell is leased just if an owner holds it. -/
theorem Exact.leased_iff
    (exact : Exact size allocator)
    (present : allocator.cells[index]? = some cell) :
    cell.status = .leased ↔
      ∃ owner lease, allocator.leases owner = some lease ∧
        lease.index = index := by
  constructor
  · exact exact.held index cell present
  · intro isHeld
    rcases isHeld with ⟨owner, lease, owned, rfl⟩
    rcases exact.accounted.lease_backed owner lease owned with
      ⟨backing, backed⟩
    obtain rfl := Option.some.inj (backed.present.symm.trans present)
    exact backed.leased

/-- A cursor belongs to a cell of the table. -/
theorem Exact.cursor_inTable
    (exact : Exact size allocator) {cursor : Int}
    (isCursor : Cursor allocator index cursor) :
    index < allocator.cells.length := by
  cases isCursor with
  | @held owner lease owned same =>
      rcases exact.accounted.lease_backed owner lease owned with
        ⟨backing, backed⟩
      rcases List.getElem?_eq_some_iff.mp backed.present with ⟨inTable, _⟩
      rwa [← same]
  | recorded present free =>
      rcases List.getElem?_eq_some_iff.mp present with ⟨inTable, _⟩
      exact inTable

/-- A cursor stays within its range, or stands right behind it. -/
theorem Exact.cursor_bounds
    (exact : Exact size allocator) {cursor : Int}
    (isCursor : Cursor allocator index cursor) :
    index * size ≤ cursor ∧ cursor ≤ (index + 1) * size := by
  cases isCursor with
  | @held owner lease owned same =>
      subst same
      rcases exact.accounted.lease_backed owner lease owned with
        ⟨backing, backed⟩
      have bounds := exact.accounted.cell_bounds _ _ backed.present
      have stop := bounds.stop_eq
      have sameStop := backed.stop_eq
      have upper := backed.upper
      refine ⟨bounds.lower.trans backed.lower, ?_⟩
      linarith
  | recorded present free =>
      have bounds := exact.accounted.cell_bounds _ _ present
      have stop := bounds.stop_eq
      have upper := bounds.upper
      refine ⟨bounds.lower, ?_⟩
      linarith

/-- Every cell has one cursor. -/
theorem Exact.existsUnique_cursor
    (exact : Exact size allocator)
    (inTable : index < allocator.cells.length) :
    ∃! cursor, Cursor allocator index cursor := by
  by_cases isHeld :
      ∃ owner lease, allocator.leases owner = some lease ∧
        lease.index = index
  · rcases isHeld with ⟨owner, lease, owned, same⟩
    refine ⟨lease.start, .held owned same, ?_⟩
    intro cursor isCursor
    cases isCursor with
    | @held other otherLease otherOwned otherSame =>
        have sameOwner :=
          exact.accounted.exclusive _ _ _ _ otherOwned owned
            (otherSame.trans same.symm)
        rw [sameOwner] at otherOwned
        rw [Option.some.inj (otherOwned.symm.trans owned)]
    | recorded present free => exact absurd same (free owner lease owned)
  · have free :
        ∀ owner lease, allocator.leases owner = some lease →
          lease.index ≠ index :=
      fun owner lease owned same => isHeld ⟨owner, lease, owned, same⟩
    have present := List.getElem?_eq_getElem inTable
    refine ⟨_, .recorded present free, ?_⟩
    intro cursor isCursor
    cases isCursor with
    | held owned same => exact absurd same (free _ _ owned)
    | recorded otherPresent _ =>
        rw [Option.some.inj (otherPresent.symm.trans present)]

/-- The cursors say what was drawn. -/
theorem Exact.issued_iff
    (exact : Exact size allocator) (identifier : Int) :
    identifier ∈ allocator.issued ↔
      ∃ index cursor, Cursor allocator index cursor ∧
        index * size ≤ identifier ∧ identifier < cursor := by
  constructor
  · intro issued
    rcases exact.accounted.issued_from identifier issued with
      ⟨index, cell, origin⟩
    by_cases isHeld :
        ∃ owner lease, allocator.leases owner = some lease ∧
          lease.index = index
    · rcases isHeld with ⟨owner, lease, owned, same⟩
      exact ⟨index, lease.start, .held owned same, origin.lower,
        origin.below_lease owner lease owned same⟩
    · have free :
          ∀ owner lease, allocator.leases owner = some lease →
            lease.index ≠ index :=
        fun owner lease owned same => isHeld ⟨owner, lease, owned, same⟩
      have notLeased : cell.status ≠ .leased :=
        fun leased => isHeld ((exact.leased_iff origin.present).mp leased)
      exact ⟨index, cell.start, .recorded origin.present free, origin.lower,
        origin.below_recorded notLeased⟩
  · intro below
    rcases below with ⟨index, cursor, isCursor, lower, upper⟩
    cases isCursor with
    | @held owner lease owned same =>
        rw [← same] at lower
        exact exact.drawn owner lease owned identifier lower upper
    | @recorded cell present free =>
        refine exact.recorded index cell present ?_ identifier lower upper
        intro leased
        rcases (exact.leased_iff present).mp leased with
          ⟨owner, lease, owned, same⟩
        exact free owner lease owned same

/-- The acquired cell is leased. -/
theorem acquire_leased
    {cells : List Cell} {cell : Cell}
    (present :
      (acquire size cells).2[(acquire size cells).1.index]? = some cell) :
    cell.status = .leased := by
  cases search : firstOpened cells with
  | none =>
      simp only [acquire, search, Cell.lease] at present
      rw [List.getElem?_concat_length] at present
      obtain rfl := Option.some.inj present
      rfl
  | some found =>
      rcases found with ⟨position, openedCell⟩
      rcases firstOpened_eq_some search with ⟨found, _⟩
      rcases List.getElem?_eq_some_iff.mp found with ⟨inTable, _⟩
      simp only [acquire, search, Cell.lease] at present
      rw [List.getElem?_set_self inTable] at present
      obtain rfl := Option.some.inj present
      rfl

/-- Below the cursor of the acquired lease all was drawn. -/
theorem drawnBelow_acquire (exact : Exact size allocator) :
    DrawnBelow size allocator.issued
      (acquire size allocator.cells).1.index
      (acquire size allocator.cells).1.start := by
  cases search : firstOpened allocator.cells with
  | none =>
      simp only [acquire, search, Cell.lease, freshCell]
      intro identifier lower upper
      exact absurd upper (not_lt.mpr lower)
  | some found =>
      rcases found with ⟨position, openedCell⟩
      rcases firstOpened_eq_some search with ⟨found, opened⟩
      simp only [acquire, search, Cell.lease]
      apply exact.recorded position openedCell found
      rw [opened]
      intro leased
      cases leased

end Exact

/-! ## Moves -/

/-- No owner disappears. -/
def Stays : Move Owner → Prop
  | .acquire _ => True
  | .draw _ => True
  | .release _ => True
  | .abandon _ => False

section Preservation

variable [DecidableEq Owner] {size : Int}
variable {allocator next : Allocator Owner} {owner : Owner}

theorem exact_acquire
    (sizePositive : 1 ≤ size) (exact : Exact size allocator)
    (free : allocator.leases owner = none) :
    Exact size
      { allocator.withLease owner
          (some (acquire size allocator.cells).1) with
        cells := (acquire size allocator.cells).2 } := by
  refine ⟨accounted_acquire exact.accounted sizePositive,
    held_acquire exact.held free, ?_, ?_⟩
  · intro other lease owned
    rcases Allocator.withLease_leases_eq_some.mp owned with
      ⟨_, same⟩ | ⟨_, before⟩
    · obtain rfl := Option.some.inj same
      exact drawnBelow_acquire exact
    · exact exact.drawn other lease before
  · intro index cell present notLeased
    by_cases same : (acquire size allocator.cells).1.index = index
    · subst same
      exact absurd (acquire_leased present) notLeased
    · simp only [acquire_of_ne same] at present
      exact exact.recorded index cell present notLeased

theorem exact_draw
    (exact : Exact size allocator)
    {lease : Lease} (owned : allocator.leases owner = some lease)
    (available : lease.start ≤ lease.stop) :
    Exact size
      { allocator.withLease owner
          (some { lease with start := lease.start + 1 }) with
        issued := lease.start :: allocator.issued } := by
  refine ⟨accounted_draw exact.accounted owned available,
    held_draw exact.held owned, ?_, ?_⟩
  · intro other held otherOwned identifier lower upper
    rcases Allocator.withLease_leases_eq_some.mp otherOwned with
      ⟨_, same⟩ | ⟨_, before⟩
    · obtain rfl := Option.some.inj same
      rcases (Int.lt_add_one_iff.mp upper).eq_or_lt with isNew | below
      · rw [isNew]
        exact List.mem_cons_self
      · exact List.mem_cons_of_mem _
          (exact.drawn owner lease owned identifier lower below)
    · exact List.mem_cons_of_mem _
        (exact.drawn other held before identifier lower upper)
  · intro index cell present notLeased identifier lower upper
    exact List.mem_cons_of_mem _
      (exact.recorded index cell present notLeased identifier lower upper)

theorem exact_release
    (exact : Exact size allocator)
    {lease : Lease} (owned : allocator.leases owner = some lease) :
    Exact size
      { allocator.withLease owner none with
        cells := allocator.cells.set lease.index lease.remainder } := by
  rcases exact.accounted.lease_backed owner lease owned with
    ⟨backing, backed⟩
  rcases List.getElem?_eq_some_iff.mp backed.present with ⟨inTable, _⟩
  refine ⟨accounted_release exact.accounted owned,
    held_release exact.held owned inTable, ?_, ?_⟩
  · intro other held otherOwned
    rcases Allocator.withLease_leases_eq_some.mp otherOwned with
      ⟨_, impossible⟩ | ⟨_, before⟩
    · cases impossible
    · exact exact.drawn other held before
  · intro index cell present notLeased
    by_cases same : lease.index = index
    · subst same
      rw [List.getElem?_set_self inTable] at present
      obtain rfl := Option.some.inj present
      exact exact.drawn owner lease owned
    · rw [List.getElem?_set_ne same] at present
      exact exact.recorded index cell present notLeased

theorem exact_step
    (sizePositive : 1 ≤ size) {move : Move Owner} (stays : Stays move)
    (stepped : step size allocator move = some next)
    (exact : Exact size allocator) : Exact size next := by
  cases moves_of_step stepped with
  | acquire free => exact exact_acquire sizePositive exact free
  | draw owned available => exact exact_draw exact owned available
  | release owned => exact exact_release exact owned
  | abandon => exact stays.elim

/-- Nothing is lost in a run in which no owner disappears. -/
theorem exact_of_run
    (sizePositive : 1 ≤ size) {moves : List (Move Owner)}
    (stay : ∀ move ∈ moves, Stays move)
    (valid : (allocatorSystem Owner size).run allocator moves = some next)
    (exact : Exact size allocator) : Exact size next := by
  have guarded :
      (allocatorSystem Owner size).Guarded (fun _ move => Stays move)
        allocator moves :=
    (allocatorSystem Owner size).guarded_of_forall stay
  exact (allocatorSystem Owner size).guarded_run_invariant (Exact size)
    (fun _ _ _ stays stepped holds =>
      exact_step sizePositive stays stepped holds)
    guarded valid exact

/-- Nothing is issued but by drawing. -/
theorem issued_of_run
    {moves : List (Move Owner)}
    (noDraw : ∀ move ∈ moves, ∀ owner, move ≠ .draw owner)
    (valid : (allocatorSystem Owner size).run allocator moves = some next) :
    next.issued = allocator.issued := by
  have guarded :
      (allocatorSystem Owner size).Guarded
        (fun _ move => ∀ owner, move ≠ .draw owner) allocator moves :=
    (allocatorSystem Owner size).guarded_of_forall noDraw
  refine (allocatorSystem Owner size).guarded_run_invariant
    (fun reached => reached.issued = allocator.issued) ?_ guarded valid rfl
  intro before move after notDraw stepped same
  cases moves_of_step stepped with
  | acquire free => exact same
  | @draw owner => exact absurd rfl (notDraw owner)
  | release owned => exact same
  | abandon => exact same

theorem exact_initial :
    Exact size (allocatorSystem Owner size).initial := by
  refine ⟨accounted_initial, ?_, nofun, ?_⟩
  · intro index cell present
    cases present
  · intro index cell present
    cases present

end Preservation

end Dinamite.LeaseAllocator
