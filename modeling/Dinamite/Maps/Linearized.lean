import Dinamite.Maps.Locking

/-!
# Locked sections against atomic ones

The atomic world that a state with half done sections stands for.  A section
that writes takes effect when its whole text is out, and one that only reads
when it releases its lock; every step is matched by steps of the atomic world.
-/

namespace Dinamite.Maps

open Dinamite.Transition

/-! ## The atomic world a state stands for -/

/-- A section against the atomic world.  The atomic step is taken when the
whole text is out, and that of `readMap` when the lock is released. -/
inductive Progress
    (config : Config) (concrete atomic : World) (process : Nat)
    (action : Action) (lock : Target) : Stage → Prop
  | locked
      (sameProcess : atomic.processes process = concrete.processes process)
      (sameFile : atomic.file lock = concrete.file lock) :
      Progress config concrete atomic process action lock .locked
  | loaded
      (sameProcess : atomic.processes process = concrete.processes process)
      (sameFile : atomic.file lock = concrete.file lock) :
      Progress config concrete atomic process action lock
        (.loaded (atomic.file lock) none)
  | writing {now : Process} {text : List Char} {written : Nat}
      (sameProcess : atomic.processes process = concrete.processes process)
      (ran :
        runSection config (atomic.file lock) (concrete.processes process)
          action = some (now, some text))
      (short : written < text.length)
      (cut : concrete.file lock = some (text.take written)) :
      Progress config concrete atomic process action lock
        (.loaded (atomic.file lock) (some written))
  | written {content : File} {now : Process} {text : List Char}
      (ran :
        runSection config content (concrete.processes process) action =
          some (now, some text))
      (behind : atomic.processes process = now)
      (file : concrete.file lock = some text)
      (sameFile : atomic.file lock = some text) :
      Progress config concrete atomic process action lock
        (.loaded content (some text.length))

structure InSection
    (config : Config) (concrete atomic : World) (process : Nat)
    (current : Section) : Prop where
  owner : current.action.process = process
  admitted :
    (concrete.processes process).admits current.action = true
  locked : lockOf concrete current.action = some current.lock
  progress :
    Progress config concrete atomic process current.action current.lock
      current.stage

/-- The atomic world: sections that have not written their text have not
begun, and the others are over. -/
structure Linearized
    (config : Config) (state : LockWorld) (atomic : World) : Prop where
  returned : atomic.returned = state.world.returned
  held :
    ∀ lock process, state.locks lock = some process ↔
      ∃ current, state.sections process = some current ∧
        current.lock = lock
  outside :
    ∀ process, state.sections process = none →
      atomic.processes process = state.world.processes process
  inside :
    ∀ process current, state.sections process = some current →
      InSection config state.world atomic process current
  files :
    ∀ lock, state.locks lock = none →
      atomic.file lock = state.world.file lock

theorem linearized_initial (config : Config) :
    Linearized config (lockSystem config).initial
      (processSystem config).initial where
  returned := rfl
  held := by
    intro lock process
    constructor
    · intro holds
      cases holds
    · intro found
      rcases found with ⟨current, inSection, _⟩
      cases inSection
  outside := fun _ _ => rfl
  inside := by
    intro process current inSection
    cases inSection
  files := fun _ _ => rfl

section Frame

variable {config : Config} {concrete atomic : World}
variable {concreteNext atomicNext : World} {process : Nat}
variable {current : Section} {state : LockWorld}

/-- A section only looks at its process and its file. -/
theorem InSection.frame
    (inSection : InSection config concrete atomic process current)
    (concreteProcess :
      concreteNext.processes process = concrete.processes process)
    (atomicProcess :
      atomicNext.processes process = atomic.processes process)
    (concreteFile :
      concreteNext.file current.lock = concrete.file current.lock)
    (atomicFile :
      atomicNext.file current.lock = atomic.file current.lock) :
    InSection config concreteNext atomicNext process current where
  owner := inSection.owner
  admitted := by
    rw [concreteProcess]
    exact inSection.admitted
  locked := by
    rw [← inSection.locked]
    apply lockOf_congr
    rw [inSection.owner]
    exact concreteProcess
  progress := by
    have before := inSection.progress
    generalize current.stage = stage at before ⊢
    cases before with
    | locked sameProcess sameFile =>
        apply Progress.locked
        · rw [atomicProcess, concreteProcess, sameProcess]
        · rw [atomicFile, concreteFile, sameFile]
    | loaded sameProcess sameFile =>
        rw [← atomicFile]
        apply Progress.loaded
        · rw [atomicProcess, concreteProcess, sameProcess]
        · rw [atomicFile, concreteFile, sameFile]
    | @writing now text written sameProcess ran short cut =>
        have ranNext :
            runSection config (atomicNext.file current.lock)
                (concreteNext.processes process) current.action =
              some (now, some text) := by
          rw [atomicFile, concreteProcess]
          exact ran
        rw [← atomicFile]
        refine .writing ?_ ranNext short ?_
        · rw [atomicProcess, concreteProcess, sameProcess]
        · rw [concreteFile, cut]
    | @written content now text ran behind file sameFile =>
        have ranNext :
            runSection config content (concreteNext.processes process)
                current.action =
              some (now, some text) := by
          rw [concreteProcess]
          exact ran
        refine .written ranNext ?_ ?_ ?_
        · rw [atomicProcess, behind]
        · rw [concreteFile, file]
        · rw [atomicFile, sameFile]

/-- Two processes in sections hold different locks. -/
theorem Linearized.lock_ne
    (linearized : Linearized config state atomic)
    {other : Nat} (different : other ≠ process)
    {others : Section}
    (inSection : state.sections process = some current)
    (otherInSection : state.sections other = some others) :
    others.lock ≠ current.lock := by
  intro same
  have holds := (linearized.held _ _).mpr ⟨current, inSection, rfl⟩
  have otherHolds := (linearized.held _ _).mpr ⟨others, otherInSection, same⟩
  rw [holds] at otherHolds
  exact different (Option.some.inj otherHolds).symm

end Frame

/-! ## What one step does -/

/-- The process that moves, against the atomic world behind the move. -/
inductive Own
    (config : Config) (next : LockWorld) (atomicNext : World)
    (process : Nat) (lock : Target) : Prop
  | outside
      (noSection : next.sections process = none)
      (free : next.locks lock = none)
      (sameProcess :
        atomicNext.processes process = next.world.processes process)
      (sameFile : atomicNext.file lock = next.world.file lock) :
      Own config next atomicNext process lock
  | inside {current : Section}
      (isSection : next.sections process = some current)
      (ownLock : current.lock = lock)
      (holds : next.locks lock = some process)
      (inSection : InSection config next.world atomicNext process current) :
      Own config next atomicNext process lock

/-- Nothing but the process, its section and its lock is different. -/
structure Keeps
    (state next : LockWorld) (atomic atomicNext : World)
    (process : Nat) (lock : Target) : Prop where
  sections :
    ∀ other, other ≠ process →
      next.sections other = state.sections other
  processes :
    ∀ other, other ≠ process →
      next.world.processes other = state.world.processes other
  atomicProcesses :
    ∀ other, other ≠ process →
      atomicNext.processes other = atomic.processes other
  locks :
    ∀ other, other ≠ lock → next.locks other = state.locks other
  files :
    ∀ other, other ≠ lock →
      next.world.file other = state.world.file other
  atomicFiles :
    ∀ other, other ≠ lock → atomicNext.file other = atomic.file other

section Own

variable {config : Config} {state next : LockWorld}
variable {atomic atomicNext : World} {process : Nat} {lock : Target}

/-- The lock is free or that of the process, and the process is in no section
under the other lock. -/
structure Exclusive
    (state : LockWorld) (process : Nat) (lock : Target) : Prop where
  holder :
    ∀ holder, state.locks lock = some holder → holder = process
  ownLock :
    ∀ current, state.sections process = some current →
      current.lock = lock

theorem Linearized.exclusive
    (linearized : Linearized config state atomic) {current : Section}
    (inSection : state.sections process = some current) :
    Exclusive state process current.lock where
  holder := by
    intro holder holds
    have own := (linearized.held _ _).mpr ⟨current, inSection, rfl⟩
    rw [holds] at own
    exact Option.some.inj own
  ownLock := by
    intro other isOther
    rw [inSection] at isOther
    rw [Option.some.inj isOther]

theorem Linearized.move
    (linearized : Linearized config state atomic)
    (exclusive : Exclusive state process lock)
    (keeps : Keeps state next atomic atomicNext process lock)
    (returned : atomicNext.returned = next.world.returned)
    (own : Own config next atomicNext process lock) :
    Linearized config next atomicNext where
  returned := returned
  held := by
    intro other holder
    by_cases sameLock : other = lock
    · subst sameLock
      have onlyOwn :
          ∀ current, next.sections holder = some current →
            current.lock = other → holder = process := by
        intro current isSection ownLock
        by_contra different
        rw [keeps.sections holder different] at isSection
        exact different (exclusive.holder holder
          ((linearized.held _ _).mpr ⟨current, isSection, ownLock⟩))
      cases own with
      | outside noSection free sameProcess sameFile =>
          rw [free]
          constructor
          · intro holds
            cases holds
          · intro found
            rcases found with ⟨current, isSection, ownLock⟩
            rw [onlyOwn current isSection ownLock, noSection] at isSection
            cases isSection
      | @inside current isSection ownLock holds inSection =>
          rw [holds]
          constructor
          · intro same
            rw [← Option.some.inj same]
            exact ⟨current, isSection, ownLock⟩
          · intro found
            rcases found with ⟨others, isOther, otherLock⟩
            rw [onlyOwn others isOther otherLock]
    · rw [keeps.locks other sameLock, linearized.held]
      by_cases sameProcess : holder = process
      · subst sameProcess
        constructor
        · intro found
          rcases found with ⟨current, isSection, ownLock⟩
          rw [exclusive.ownLock current isSection] at ownLock
          exact absurd ownLock.symm sameLock
        · intro found
          rcases found with ⟨current, isSection, otherLock⟩
          cases own with
          | outside noSection free sameProcess sameFile =>
              rw [noSection] at isSection
              cases isSection
          | inside isOwn ownLock holds inSection =>
              rw [isOwn] at isSection
              rw [← Option.some.inj isSection, ownLock] at otherLock
              exact absurd otherLock.symm sameLock
      · rw [keeps.sections holder sameProcess]
  outside := by
    intro other noSection
    by_cases sameProcess : other = process
    · subst sameProcess
      cases own with
      | outside _ free sameProcess sameFile => exact sameProcess
      | inside isOwn ownLock holds inSection =>
          rw [noSection] at isOwn
          cases isOwn
    · rw [keeps.sections other sameProcess] at noSection
      rw [keeps.atomicProcesses other sameProcess,
        keeps.processes other sameProcess]
      exact linearized.outside other noSection
  inside := by
    intro other current isSection
    by_cases sameProcess : other = process
    · subst sameProcess
      cases own with
      | outside noSection free sameProcess sameFile =>
          rw [noSection] at isSection
          cases isSection
      | inside isOwn ownLock holds inSection =>
          rw [isOwn] at isSection
          rw [← Option.some.inj isSection]
          exact inSection
    · rw [keeps.sections other sameProcess] at isSection
      have otherLock : current.lock ≠ lock := by
        intro sameLock
        exact sameProcess (exclusive.holder other
          ((linearized.held _ _).mpr ⟨current, isSection, sameLock⟩))
      exact (linearized.inside other current isSection).frame
        (keeps.processes other sameProcess)
        (keeps.atomicProcesses other sameProcess)
        (keeps.files _ otherLock) (keeps.atomicFiles _ otherLock)
  files := by
    intro other free
    by_cases sameLock : other = lock
    · subst sameLock
      cases own with
      | outside noSection _ sameProcess sameFile => exact sameFile
      | inside isOwn ownLock holds inSection =>
          rw [free] at holds
          cases holds
    · rw [keeps.locks other sameLock] at free
      rw [keeps.atomicFiles other sameLock, keeps.files other sameLock]
      exact linearized.files other free

/-- A process outside of the sections moves on alone. -/
theorem Linearized.move_outside
    (linearized : Linearized config state atomic)
    (noSection : state.sections process = none) {world : World}
    (processes :
      ∀ other, other ≠ process →
        world.processes other = state.world.processes other)
    (atomicProcesses :
      ∀ other, other ≠ process →
        atomicNext.processes other = atomic.processes other)
    (sameProcess : atomicNext.processes process = world.processes process)
    (files : ∀ lock, world.file lock = state.world.file lock)
    (atomicFiles : ∀ lock, atomicNext.file lock = atomic.file lock)
    (returned : atomicNext.returned = world.returned) :
    Linearized config { state with world := world } atomicNext where
  returned := returned
  held := linearized.held
  outside := by
    intro other otherOutside
    by_cases same : other = process
    · rw [same]
      exact sameProcess
    · rw [atomicProcesses other same]
      exact (linearized.outside other otherOutside).trans
        (processes other same).symm
  inside := by
    intro other current isSection
    have different : other ≠ process := by
      intro same
      subst same
      rw [noSection] at isSection
      cases isSection
    exact (linearized.inside other current isSection).frame
      (processes other different) (atomicProcesses other different)
      (files _) (atomicFiles _)
  files := by
    intro lock free
    rw [atomicFiles]
    exact (linearized.files lock free).trans (files lock).symm

end Own

/-- The steps of the atomic world that stand for one step here. -/
inductive Matched
    (config : Config) (state : LockWorld) (action : LockAction)
    (atomic atomicNext : World) : Prop
  | acts {actions : List Action}
      (ran : (processSystem config).run atomic actions = some atomicNext) :
      Matched config state action atomic atomicNext
  | cut {cutAction : Action} {written : Nat}
      (cuts : cutsWrite config state action = true)
      (torn : tear config atomic cutAction written = some atomicNext) :
      Matched config state action atomic atomicNext

section Matching

variable {config : Config} {state next : LockWorld}
variable {atomic : World} {process : Nat}

/-- A step is matched, and the world behind it linearizes the next state. -/
def IsMatched
    (config : Config) (state : LockWorld) (action : LockAction)
    (next : LockWorld) (atomic : World) : Prop :=
  ∃ atomicNext, Matched config state action atomic atomicNext ∧
    Linearized config next atomicNext

theorem IsMatched.nothing
    {action : LockAction} (linearized : Linearized config next atomic) :
    IsMatched config state action next atomic :=
  ⟨atomic, .acts ((processSystem config).run_nil atomic), linearized⟩

theorem IsMatched.one
    {action : LockAction} {atomicAction : Action} {atomicNext : World}
    (stepped : step config atomic atomicAction = some atomicNext)
    (linearized : Linearized config next atomicNext) :
    IsMatched config state action next atomic :=
  ⟨atomicNext,
    .acts ((processSystem config).run_singleton_eq_some.mpr stepped),
    linearized⟩

theorem matched_act
    {action : Action}
    (stepped : lockStep config state (.act action) = some next)
    (linearized : Linearized config state atomic) :
    IsMatched config state (.act action) next atomic := by
  simp only [lockStep] at stepped
  split at stepped
  · rename_i guards
    rcases guards with ⟨noSection, unlocked, notStop⟩
    rw [Option.isNone_iff_eq_none] at noSection
    rcases Option.map_eq_some_iff.mp stepped with ⟨world, moved, rfl⟩
    rcases step_unlocked unlocked notStop moved with
      ⟨now, entry, rfl, everywhere⟩
    have atomicMoved :=
      everywhere atomic (linearized.outside _ noSection)
    apply IsMatched.one atomicMoved
    apply linearized.move_outside noSection
    · intro other different
      exact World.withProcess_of_ne _ _ different
    · intro other different
      exact World.withProcess_of_ne _ _ different
    · simp [World.answered]
    · intro lock
      cases lock <;> rfl
    · intro lock
      cases lock <;> rfl
    · simp only [World.answered, linearized.returned]
  · cases stepped

theorem matched_lock
    {action : Action}
    (stepped : lockStep config state (.lock action) = some next)
    (linearized : Linearized config state atomic) :
    IsMatched config state (.lock action) next atomic := by
  simp only [lockStep] at stepped
  split at stepped
  · rename_i lock locked
    split at stepped
    · rename_i guards
      rcases guards with ⟨noSection, admitted, free⟩
      rw [Option.isNone_iff_eq_none] at noSection
      obtain rfl := Option.some.inj stepped
      apply IsMatched.nothing
      refine linearized.move ⟨?_, ?_⟩ ⟨?_, ?_, ?_, ?_, ?_, ?_⟩
        linearized.returned
        (.inside (Function.update_self _ _ _) rfl
          (Function.update_self _ _ _) ⟨rfl, admitted, locked, ?_⟩)
      · intro holder holds
        rw [free] at holds
        cases holds
      · intro current isSection
        rw [noSection] at isSection
        cases isSection
      · exact fun other different => Function.update_of_ne different _ _
      · exact fun _ _ => rfl
      · exact fun _ _ => rfl
      · exact fun other different => Function.update_of_ne different _ _
      · exact fun _ _ => rfl
      · exact fun _ _ => rfl
      · exact .locked (linearized.outside _ noSection)
          (linearized.files lock free)
    · cases stepped
  · cases stepped

/-- The stage of a section moves on and nothing else. -/
theorem Linearized.with_stage
    (linearized : Linearized config state atomic)
    {action : Action} {lock : Target} {before after : Stage}
    (isSection : state.sections process = some ⟨action, lock, before⟩)
    (progress :
      Progress config state.world atomic process action lock after) :
    Linearized config
      (state.withSection process (some ⟨action, lock, after⟩)) atomic := by
  have inSection := linearized.inside process _ isSection
  refine linearized.move (linearized.exclusive isSection)
    ⟨?_, ?_, ?_, ?_, ?_, ?_⟩ linearized.returned
    (.inside (Function.update_self _ _ _) rfl
      ((linearized.held _ _).mpr ⟨_, isSection, rfl⟩)
      ⟨inSection.owner, inSection.admitted, inSection.locked, progress⟩)
  · exact fun other different => Function.update_of_ne different _ _
  · exact fun _ _ => rfl
  · exact fun _ _ => rfl
  · exact fun _ _ => rfl
  · exact fun _ _ => rfl
  · exact fun _ _ => rfl

theorem matched_read
    (stepped : lockStep config state (.read process) = some next)
    (linearized : Linearized config state atomic) :
    IsMatched config state (.read process) next atomic := by
  simp only [lockStep] at stepped
  split at stepped
  · rename_i action lock isSection
    obtain rfl := Option.some.inj stepped
    apply IsMatched.nothing
    apply linearized.with_stage isSection
    cases (linearized.inside process _ isSection).progress with
    | locked sameProcess sameFile =>
        rw [← sameFile]
        exact .loaded sameProcess sameFile
  · cases stepped

/-- At most the acting process and its file are different. -/
structure AtomicKeeps
    (atomic atomicNext : World) (process : Nat) (lock : Target) : Prop where
  processes :
    ∀ other, other ≠ process →
      atomicNext.processes other = atomic.processes other
  files :
    ∀ other, other ≠ lock → atomicNext.file other = atomic.file other
  returned : atomicNext.returned = atomic.returned

theorem AtomicKeeps.refl (atomic : World) (process : Nat) (lock : Target) :
    AtomicKeeps atomic atomic process lock :=
  ⟨fun _ _ => rfl, fun _ _ => rfl, rfl⟩

theorem atomicKeeps_behindSection
    (atomic : World) (process : Nat) (lock : Target) (now : Process)
    (text : Option (List Char)) :
    AtomicKeeps atomic (atomic.behindSection process lock now text) process
      lock :=
  ⟨fun _ different => World.behindSection_of_ne _ _ _ _ _ different,
    fun _ different => World.behindSection_file_of_ne _ _ _ _ _ different,
    World.behindSection_returned _ _ _ _ _⟩

theorem Linearized.with_written
    (linearized : Linearized config state atomic)
    {action : Action} {lock : Target} {before after : Stage}
    (isSection : state.sections process = some ⟨action, lock, before⟩)
    (file : File) {atomicNext : World}
    (keeps : AtomicKeeps atomic atomicNext process lock)
    (progress :
      Progress config (state.world.withFile lock file) atomicNext process
        action lock after) :
    Linearized config
      { state.withSection process (some ⟨action, lock, after⟩) with
        world := state.world.withFile lock file } atomicNext := by
  have inSection := linearized.inside process _ isSection
  have sameProcesses := World.withFile_processes state.world lock file
  refine linearized.move (linearized.exclusive isSection)
    ⟨?_, ?_, keeps.processes, ?_, ?_, keeps.files⟩ ?_
    (.inside (Function.update_self _ _ _) rfl
      ((linearized.held _ _).mpr ⟨_, isSection, rfl⟩)
      ⟨inSection.owner, ?_, ?_, progress⟩)
  · exact fun other different => Function.update_of_ne different _ _
  · intro other _
    exact congrFun sameProcesses other
  · exact fun _ _ => rfl
  · exact fun other different => World.withFile_of_ne _ different _
  · rw [keeps.returned, linearized.returned, World.withFile_returned]
  · rw [sameProcesses]
    exact inSection.admitted
  · rw [← inSection.locked]
    apply lockOf_congr
    rw [sameProcesses]

/-- A section that has not written all of its text has not begun. -/
theorem Progress.unwritten
    {concrete : World} {action : Action} {lock : Target} {content : File}
    {before : Option Nat}
    (progress :
      Progress config concrete atomic process action lock
        (.loaded content before))
    {now : Process} {text : Option (List Char)}
    (ran :
      runSection config content (concrete.processes process) action =
        some (now, text))
    (unfinished : before = none ∨ before ≠ text.map List.length) :
    content = atomic.file lock ∧
      atomic.processes process = concrete.processes process := by
  cases progress with
  | loaded sameProcess sameFile => exact ⟨rfl, sameProcess⟩
  | writing sameProcess _ short cut => exact ⟨rfl, sameProcess⟩
  | written again behind file sameFile =>
      rw [ran] at again
      rcases Prod.mk.inj (Option.some.inj again) with ⟨rfl, rfl⟩
      rcases unfinished with fresh | unequal
      · cases fresh
      · exact absurd rfl unequal

/-- A section that has written all of its text is over. -/
theorem Progress.finished
    {concrete : World} {action : Action} {lock : Target} {content : File}
    {before : Option Nat}
    (progress :
      Progress config concrete atomic process action lock
        (.loaded content before))
    {now : Process} {text : List Char}
    (ran :
      runSection config content (concrete.processes process) action =
        some (now, some text))
    (finished : before = some text.length) :
    atomic.processes process = now ∧
      concrete.file lock = some text ∧ atomic.file lock = some text := by
  cases progress with
  | loaded sameProcess sameFile => cases finished
  | writing sameProcess again short cut =>
      rw [ran] at again
      rcases Prod.mk.inj (Option.some.inj again) with ⟨_, same⟩
      rw [← Option.some.inj same, ← Option.some.inj finished] at short
      exact absurd short (lt_irrefl _)
  | written again behind file sameFile =>
      rw [ran] at again
      rcases Prod.mk.inj (Option.some.inj again) with ⟨rfl, same⟩
      rw [Option.some.inj same]
      exact ⟨behind, file, sameFile⟩

/-- The atomic step of a section that has not begun. -/
theorem step_of_unwritten
    {concrete : World} {action : Action} {lock : Target}
    (locked : lockOf concrete action = some lock)
    (owner : action.process = process)
    (sameProcess :
      atomic.processes process = concrete.processes process)
    {now : Process} {text : Option (List Char)}
    (ran :
      runSection config (atomic.file lock) (concrete.processes process)
        action = some (now, text)) :
    step config atomic action =
      some (atomic.behindSection process lock now text) := by
  subst owner
  apply step_of_section
  · rw [← locked]
    exact lockOf_congr sameProcess
  · rw [sameProcess]
    exact ran

theorem matched_write
    {written : Nat}
    (stepped : lockStep config state (.write process written) = some next)
    (linearized : Linearized config state atomic) :
    IsMatched config state (.write process written) next atomic := by
  simp only [lockStep] at stepped
  split at stepped
  · rename_i action lock content before isSection
    have inSection := linearized.inside process _ isSection
    have progress :
        Progress config state.world atomic process action lock
          (.loaded content before) :=
      inSection.progress
    split at stepped
    · rename_i now text ran
      split at stepped
      · rename_i bounds
        rcases bounds with ⟨grows, fits⟩
        obtain rfl := Option.some.inj stepped
        have behindRan :
            runSection config content
                ((state.world.withFile lock
                  (some (text.take written))).processes process) action =
              some (now, some text) := by
          rw [World.withFile_processes]
          exact ran
        by_cases finished : before = some text.length
        · -- all was out before, and the rest is nothing
          rcases progress.finished ran finished with
            ⟨behind, file, sameFile⟩
          obtain rfl : written = text.length := by
            rw [finished] at grows
            exact le_antisymm fits grows
          apply IsMatched.nothing
          apply linearized.with_written isSection _ (.refl _ _ _)
          apply Progress.written behindRan behind
          · rw [World.withFile_self, List.take_length]
          · exact sameFile
        · rcases progress.unwritten ran (Or.inr finished) with
            ⟨rfl, sameProcess⟩
          by_cases short : written < text.length
          · apply IsMatched.nothing
            apply linearized.with_written isSection _ (.refl _ _ _)
            apply Progress.writing _ behindRan short
            · exact World.withFile_self _ _ _
            · rw [World.withFile_processes]
              exact sameProcess
          · obtain rfl : written = text.length := by omega
            have stepped :=
              step_of_unwritten inSection.locked inSection.owner
                sameProcess ran
            apply IsMatched.one stepped
            apply linearized.with_written isSection _
              (atomicKeeps_behindSection _ _ _ _ _)
            apply Progress.written behindRan
            · exact World.behindSection_self _ _ _ _ _
            · rw [World.withFile_self, List.take_length]
            · exact World.behindSection_file _ _ _ _ _
      · cases stepped
    · cases stepped
  · cases stepped

/-- The process releases its lock; its file is as the atomic world has it. -/
theorem Linearized.with_leave
    (linearized : Linearized config state atomic)
    {action : Action} {lock : Target} {stage : Stage}
    (isSection : state.sections process = some ⟨action, lock, stage⟩)
    (now : Process) {atomicNext : World}
    (keeps : AtomicKeeps atomic atomicNext process lock)
    (behind : atomicNext.processes process = now)
    (sameFile : atomicNext.file lock = state.world.file lock) :
    Linearized config (state.leave process lock now) atomicNext := by
  refine linearized.move (linearized.exclusive isSection)
    ⟨?_, ?_, keeps.processes, ?_, ?_, keeps.files⟩ ?_
    (.outside (Function.update_self _ _ _) (Function.update_self _ _ _)
      ?_ ?_)
  · exact fun other different => Function.update_of_ne different _ _
  · exact fun other different => World.withProcess_of_ne _ _ different
  · exact fun other different => Function.update_of_ne different _ _
  · exact fun other _ => World.withProcess_file _ _ _ _
  · rw [keeps.returned, linearized.returned]
    rfl
  · rw [behind]
    exact (World.withProcess_self _ _ _).symm
  · rw [sameFile]
    exact (World.withProcess_file _ _ _ _).symm

theorem matched_unlock
    (stepped : lockStep config state (.unlock process) = some next)
    (linearized : Linearized config state atomic) :
    IsMatched config state (.unlock process) next atomic := by
  simp only [lockStep] at stepped
  split at stepped
  · rename_i action lock content written isSection
    have inSection := linearized.inside process _ isSection
    have progress :
        Progress config state.world atomic process action lock
          (.loaded content written) :=
      inSection.progress
    split at stepped
    · rename_i now text ran
      split at stepped
      · rename_i complete
        obtain rfl := Option.some.inj stepped
        cases text with
        | none =>
            -- `readMap` has only read
            rcases progress.unwritten ran (Or.inl complete) with
              ⟨rfl, sameProcess⟩
            have moved :=
              step_of_unwritten inSection.locked inSection.owner
                sameProcess ran
            apply IsMatched.one moved
            apply linearized.with_leave isSection now
              (atomicKeeps_behindSection _ _ _ _ _)
            · exact World.behindSection_self _ _ _ _ _
            · subst complete
              cases progress with
              | loaded _ sameFile =>
                  rw [← sameFile]
                  exact World.withProcess_file _ _ _ _
        | some text =>
            rcases progress.finished ran complete with
              ⟨behind, file, sameFile⟩
            apply IsMatched.nothing
            apply linearized.with_leave isSection now (.refl _ _ _) behind
            rw [file, sameFile]
      · cases stepped
    · cases stepped
  · cases stepped

/-- A process that is killed before its section has begun. -/
theorem run_of_killed
    (alive :
      (∃ self, (atomic.processes process).object = some self) ∨
        atomic.processes process = .absent) :
    ∃ actions, (processSystem config).run atomic actions =
      some (atomic.withProcess process .ended) := by
  rcases alive with ⟨self, isObject⟩ | absent
  · refine ⟨[.stop process], ?_⟩
    rw [System.run_singleton_eq_some]
    simp only [processSystem, step, isObject]
  · refine ⟨[.readMap process, .stop process], ?_⟩
    rw [System.run_cons_eq_some]
    refine ⟨_, by simp only [processSystem, step, absent]; rfl, ?_⟩
    rw [System.run_singleton_eq_some]
    simp only [processSystem, step, World.withProcess_self, Process.object]
    simp [World.withProcess]

theorem atomicKeeps_ended
    (atomic : World) (process : Nat) (lock : Target) :
    AtomicKeeps atomic (atomic.withProcess process .ended) process lock :=
  ⟨fun _ different => World.withProcess_of_ne _ _ different,
    fun _ _ => World.withProcess_file _ _ _ _, rfl⟩

/-- A process that is killed while its file is half written. -/
theorem tear_of_writing
    {concrete : World} {action : Action} {lock : Target}
    (locked : lockOf concrete action = some lock)
    (owner : action.process = process)
    (sameProcess :
      atomic.processes process = concrete.processes process)
    {now : Process} {text : List Char}
    (ran :
      runSection config (atomic.file lock) (concrete.processes process)
        action = some (now, some text))
    {written : Nat} (short : written < text.length) :
    tear config atomic action written =
      some ((atomic.withProcess process .ended).withFile lock
        (some (text.take written))) := by
  have stepped := step_of_unwritten locked owner sameProcess ran
  subst owner
  have atomicLocked : lockOf atomic action = some lock := by
    rw [← locked]
    exact lockOf_congr sameProcess
  have writes := target_of_section atomicLocked ran
  rw [tear, stepped, writes]
  cases lock <;>
    simp [World.behindSection, World.withFile, truncated, short]

theorem matched_kill
    (stepped : lockStep config state (.kill process) = some next)
    (linearized : Linearized config state atomic) :
    IsMatched config state (.kill process) next atomic := by
  simp only [lockStep] at stepped
  split at stepped
  · rename_i current isSection
    obtain rfl := Option.some.inj stepped
    rcases current with ⟨action, lock, stage⟩
    have inSection := linearized.inside process _ isSection
    have alive := object_of_admits inSection.admitted
    have progress :
        Progress config state.world atomic process action lock stage :=
      inSection.progress
    cases progress with
    | locked sameProcess sameFile =>
        rw [← sameProcess] at alive
        rcases @run_of_killed config _ _ alive with ⟨actions, ran⟩
        refine ⟨_, .acts ran, ?_⟩
        exact linearized.with_leave isSection .ended
          (atomicKeeps_ended _ _ _) (World.withProcess_self _ _ _)
          ((World.withProcess_file _ _ _ _).trans sameFile)
    | loaded sameProcess sameFile =>
        rw [← sameProcess] at alive
        rcases @run_of_killed config _ _ alive with ⟨actions, ran⟩
        refine ⟨_, .acts ran, ?_⟩
        exact linearized.with_leave isSection .ended
          (atomicKeeps_ended _ _ _) (World.withProcess_self _ _ _)
          ((World.withProcess_file _ _ _ _).trans sameFile)
    | @writing now text written sameProcess ran short cut =>
        have cuts :
            cutsWrite config state (.kill process) = true := by
          simp [cutsWrite, isSection, ran, short]
        refine ⟨_, .cut cuts (tear_of_writing inSection.locked
          inSection.owner sameProcess ran short), ?_⟩
        apply linearized.with_leave isSection .ended
        · refine ⟨?_, ?_, ?_⟩
          · intro other different
            rw [World.withFile_processes]
            exact World.withProcess_of_ne _ _ different
          · intro other different
            rw [World.withFile_of_ne _ different, World.withProcess_file]
          · rw [World.withFile_returned]
            rfl
        · rw [World.withFile_processes]
          exact World.withProcess_self _ _ _
        · rw [World.withFile_self, cut]
    | @written content now text ran behind file sameFile =>
        rcases behind_of_section ran with isObject | ended
        · rw [← behind] at isObject
          rcases @run_of_killed config _ _ (Or.inl isObject) with
            ⟨actions, killed⟩
          refine ⟨_, .acts killed, ?_⟩
          apply linearized.with_leave isSection .ended
            (atomicKeeps_ended _ _ _) (World.withProcess_self _ _ _)
          rw [World.withProcess_file, sameFile, file]
        · -- the destructor has done its work
          apply IsMatched.nothing
          apply linearized.with_leave isSection .ended (.refl _ _ _)
          · rw [behind, ended]
          · rw [sameFile, file]
  · rename_i noSection
    split at stepped
    · rename_i self isObject
      obtain rfl := Option.some.inj stepped
      have same := linearized.outside process noSection
      have moved :
          step config atomic (.stop process) =
            some (atomic.withProcess process .ended) := by
        simp only [step, same, isObject]
      apply IsMatched.one moved
      apply linearized.move_outside noSection
      · intro other different
        exact World.withProcess_of_ne _ _ different
      · intro other different
        exact World.withProcess_of_ne _ _ different
      · simp
      · exact fun _ => World.withProcess_file _ _ _ _
      · exact fun _ => World.withProcess_file _ _ _ _
      · exact linearized.returned
    · cases stepped

/-- Every step is matched by steps of the atomic world. -/
theorem matched_of_step
    {action : LockAction}
    (stepped : lockStep config state action = some next)
    (linearized : Linearized config state atomic) :
    IsMatched config state action next atomic := by
  cases action with
  | act action => exact matched_act stepped linearized
  | lock action => exact matched_lock stepped linearized
  | read process => exact matched_read stepped linearized
  | write process written => exact matched_write stepped linearized
  | unlock process => exact matched_unlock stepped linearized
  | kill process => exact matched_kill stepped linearized

end Matching

end Dinamite.Maps
