import Dinamite.Maps.Interrupted

/-!
# Locked sections

A locked section of the source is several steps: the constructor of
`FileLocker`, reading the file, opening it for writing, which truncates it,
writing it piece by piece, and the destructor of `FileLocker`.  The steps of
different processes interleave, and a process can be killed between any two of
them; the system then releases its lock.
-/

namespace Dinamite.Maps

open Dinamite.Transition

/-! ## The system with locks -/

def World.file (world : World) : Target → File
  | .map => world.mapFile
  | .pool => world.poolFile

def World.withFile (world : World) (target : Target) (file : File) : World :=
  match target with
  | .map => { world with mapFile := file }
  | .pool => { world with poolFile := file }

/-- The lock a call takes; most calls of `getId` take none. -/
def lockOf (world : World) : Action → Option Target
  | .readMap _ => some .map
  | action => target world action

/-- The process is where it can make the call. -/
def Process.admits : Process → Action → Bool
  | .absent, .readMap _ => true
  | .constructing _, .reserve _ => true
  | .running _, .getId _ _ => true
  | .running _, .saveMap _ => true
  | .running _, .destroy _ => true
  | _, _ => false

/-- What a locked section makes of the content it has read: the process behind
the section, and the text it writes, if any. -/
def runSection (config : Config) (content : File) :
    Process → Action → Option (Process × Option (List Char))
  | .absent, .readMap _ =>
      let self := IdMap.readMap config.format content {}
      some (.constructing { self with curchunk := {} }, none)
  | .constructing self, .reserve _ =>
      let reserved := self.reserve config.format config.chunkSize content
      some (.running reserved.1, some reserved.2)
  | .running self, .getId _ src =>
      let reserved := self.reserve config.format config.chunkSize content
      some (.drawing reserved.1 src, some reserved.2)
  | .running self, .saveMap _ =>
      let saved := self.saveMap config.format content
      some (.running saved.1, some saved.2)
  | .running self, .destroy _ =>
      some (.ended,
        some (recycleCurChunk config.format content self.curchunk))
  | _, _ => none

/-- How far a process is in its section.  `written` is absent until the file
is opened for writing, and then the number of characters that are out. -/
inductive Stage where
  | locked
  | loaded (content : File) (written : Option Nat)

structure Section where
  action : Action
  lock : Target
  stage : Stage

/-- `world` has the content of the files, and every process as it was before
the section it is in. -/
structure LockWorld where
  world : World
  locks : Target → Option Nat
  sections : Nat → Option Section

inductive LockAction where
  | act (action : Action)
  | lock (action : Action)
  | read (process : Nat)
  | write (process : Nat) (written : Nat)
  | unlock (process : Nat)
  | kill (process : Nat)
  deriving DecidableEq, Repr

namespace LockWorld

def withSection
    (state : LockWorld) (process : Nat) (now : Option Section) : LockWorld :=
  { state with
    sections := Function.update state.sections process now }

/-- The process releases its lock and goes on from here. -/
def leave
    (state : LockWorld) (process : Nat) (lock : Target) (now : Process) :
    LockWorld where
  world := state.world.withProcess process now
  locks := Function.update state.locks lock none
  sections := Function.update state.sections process none

end LockWorld

def isStop : Action → Bool
  | .stop _ => true
  | _ => false

def lockStep (config : Config) (state : LockWorld) :
    LockAction → Option LockWorld
  | .act action =>
      if (state.sections action.process).isNone ∧
          lockOf state.world action = none ∧ isStop action = false then
        (step config state.world action).map fun next =>
          { state with world := next }
      else
        none
  | .lock action =>
      match lockOf state.world action with
      | some lock =>
          if (state.sections action.process).isNone ∧
              (state.world.processes action.process).admits action = true ∧
                state.locks lock = none then
            some { state.withSection action.process
                (some ⟨action, lock, .locked⟩) with
              locks :=
                Function.update state.locks lock (some action.process) }
          else
            none
      | none => none
  | .read process =>
      match state.sections process with
      | some ⟨action, lock, .locked⟩ =>
          some (state.withSection process
            (some ⟨action, lock, .loaded (state.world.file lock) none⟩))
      | _ => none
  | .write process written =>
      match state.sections process with
      | some ⟨action, lock, .loaded content before⟩ =>
          match runSection config content (state.world.processes process)
              action with
          | some (_, some text) =>
              if before.getD 0 ≤ written ∧ written ≤ text.length then
                some { state.withSection process
                    (some ⟨action, lock, .loaded content (some written)⟩) with
                  world :=
                    state.world.withFile lock (some (text.take written)) }
              else
                none
          | _ => none
      | _ => none
  | .unlock process =>
      match state.sections process with
      | some ⟨action, lock, .loaded content written⟩ =>
          match runSection config content (state.world.processes process)
              action with
          | some (now, text) =>
              if written = text.map List.length then
                some (state.leave process lock now)
              else
                none
          | none => none
      | _ => none
  | .kill process =>
      match state.sections process with
      | some current => some (state.leave process current.lock .ended)
      | none =>
          match (state.world.processes process).object with
          | some _ =>
              some { state with
                world := state.world.withProcess process .ended }
          | none => none

def lockSystem (config : Config) : System LockWorld LockAction where
  initial := ⟨(processSystem config).initial, fun _ => none, fun _ => none⟩
  step := lockStep config

/-- The process is killed while its file is truncated or half written. -/
def cutsWrite (config : Config) (state : LockWorld) : LockAction → Bool
  | .kill process =>
      match state.sections process with
      | some ⟨action, _, .loaded content (some written)⟩ =>
          match runSection config content (state.world.processes process)
              action with
          | some (_, some text) => decide (written < text.length)
          | _ => false
      | _ => false
  | _ => false

/-! ## Steps outside of the sections -/

@[simp]
theorem World.withProcess_file
    (world : World) (process : Nat) (now : Process) (target : Target) :
    (world.withProcess process now).file target = world.file target := by
  cases target <;> rfl

@[simp]
theorem World.withFile_processes
    (world : World) (target : Target) (file : File) :
    (world.withFile target file).processes = world.processes := by
  cases target <;> rfl

@[simp]
theorem World.withFile_returned
    (world : World) (target : Target) (file : File) :
    (world.withFile target file).returned = world.returned := by
  cases target <;> rfl

@[simp]
theorem World.withFile_self
    (world : World) (target : Target) (file : File) :
    (world.withFile target file).file target = file := by
  cases target <;> rfl

theorem World.withFile_of_ne
    (world : World) {target other : Target} (different : other ≠ target)
    (file : File) :
    (world.withFile target file).file other = world.file other := by
  cases target <;> cases other <;> first | rfl | exact absurd rfl different

/-- A return of `getId` without a lock. -/
def World.answered
    (world : World) (process : Nat) (now : Process) (entry : Returned) :
    World :=
  { world.withProcess process now with
    returned := entry :: world.returned }

section Steps

variable {config : Config} {world other next : World} {action : Action}

theorem lockOf_congr
    (same :
      other.processes action.process = world.processes action.process) :
    lockOf other action = lockOf world action := by
  cases action with
  | getId process src =>
      simp only [Action.process] at same
      have sameReserves :
          reserves other (.getId process src) =
            reserves world (.getId process src) := by
        simp only [reserves, same]
      simp only [lockOf, target]
      rw [sameReserves]
  | _ => rfl

/-- Without a lock a step depends on its process alone. -/
theorem step_unlocked
    (unlocked : lockOf world action = none) (notStop : isStop action = false)
    (stepped : step config world action = some next) :
    ∃ now entry, next = world.answered action.process now entry ∧
      ∀ other : World,
        other.processes action.process =
            world.processes action.process →
          step config other action =
            some (other.answered action.process now entry) := by
  cases outcome_of_step stepped with
  | readMap before => cases unlocked
  | reserve before => cases unlocked
  | @known process self src id before found =>
      refine ⟨.running self, ⟨process, src, id⟩, ?_, ?_⟩
      · simp only [Action.process, World.answered, World.record,
          World.withProcess, ← before, Function.update_eq_self]
      · intro other same
        simp only [Action.process] at same
        simp only [step, same, before, found, Action.process,
          World.answered, World.record, World.withProcess]
        rw [← before, ← same, Function.update_eq_self]
  | @refill process self src before unknown empty =>
      simp [lockOf, target, reserves, before, unknown, IdMap.exhausted,
        empty] at unlocked
  | @fresh process self src before unknown available =>
      have notEmpty : self.exhausted = false := by
        simpa [IdMap.exhausted] using available
      refine ⟨_, _, rfl, ?_⟩
      intro other same
      simp only [Action.process] at same
      simp only [step, same, before, unknown, notEmpty, finishGetId,
        Action.process]
      rfl
  | @takeId process self src before =>
      refine ⟨_, _, rfl, ?_⟩
      intro other same
      simp only [Action.process] at same
      simp only [step, same, before]
      rfl
  | saveMap before => cases unlocked
  | destroy before => cases unlocked
  | stop before => cases notStop

/-! ## Sections and atomic steps -/

/-- The world behind a section that took its content from `world`. -/
def World.behindSection
    (world : World) (process : Nat) (lock : Target) (now : Process)
    (text : Option (List Char)) : World :=
  match text with
  | some text => (world.withProcess process now).withFile lock (some text)
  | none => world.withProcess process now

section Behind

variable (world : World) (process : Nat) (lock : Target) (now : Process)
variable (text : Option (List Char))

@[simp]
theorem World.behindSection_self :
    (world.behindSection process lock now text).processes process = now := by
  cases text <;> simp [World.behindSection]

theorem World.behindSection_of_ne
    {other : Nat} (different : other ≠ process) :
    (world.behindSection process lock now text).processes other =
      world.processes other := by
  cases text <;>
    simp [World.behindSection, World.withProcess_of_ne, different]

@[simp]
theorem World.behindSection_returned :
    (world.behindSection process lock now text).returned =
      world.returned := by
  cases text <;> simp [World.behindSection]

theorem World.behindSection_file_of_ne
    {other : Target} (different : other ≠ lock) :
    (world.behindSection process lock now text).file other =
      world.file other := by
  cases text with
  | none => simp [World.behindSection]
  | some text =>
      simp only [World.behindSection, World.withFile_of_ne _ different,
        World.withProcess_file]

@[simp]
theorem World.behindSection_file (text : List Char) :
    (world.behindSection process lock now (some text)).file lock =
      some text := by
  simp [World.behindSection]

end Behind

/-- A section whose content is that of its file does what the atomic step
does. -/
theorem step_of_section
    {lock : Target} (locked : lockOf world action = some lock)
    {now : Process} {text : Option (List Char)}
    (ran :
      runSection config (world.file lock)
        (world.processes action.process) action = some (now, text)) :
    step config world action =
      some (world.behindSection action.process lock now text) := by
  unfold runSection at ran
  split at ran
  · rename_i process before
    obtain rfl := Option.some.inj locked
    rcases Prod.mk.inj (Option.some.inj ran) with ⟨rfl, rfl⟩
    simp only [Action.process] at before
    simp only [step, before]
    rfl
  · rename_i self process before
    obtain rfl := Option.some.inj locked
    rcases Prod.mk.inj (Option.some.inj ran) with ⟨rfl, rfl⟩
    simp only [Action.process] at before
    simp only [step, before]
    rfl
  · rename_i self process src before
    simp only [Action.process] at before
    simp only [lockOf, target] at locked
    split at locked
    · rename_i refills
      obtain rfl := Option.some.inj locked
      rcases Prod.mk.inj (Option.some.inj ran) with ⟨rfl, rfl⟩
      simp only [reserves, before, Bool.and_eq_true,
        Option.isNone_iff_eq_none] at refills
      simp only [step, before, refills.1, refills.2, if_true]
      rfl
    · cases locked
  · rename_i self process before
    obtain rfl := Option.some.inj locked
    rcases Prod.mk.inj (Option.some.inj ran) with ⟨rfl, rfl⟩
    simp only [Action.process] at before
    simp only [step, before]
    rfl
  · rename_i self process before
    obtain rfl := Option.some.inj locked
    rcases Prod.mk.inj (Option.some.inj ran) with ⟨rfl, rfl⟩
    simp only [Action.process] at before
    simp only [step, before]
    rfl
  · cases ran

/-- A section that writes, writes its own file. -/
theorem target_of_section
    {lock : Target} (locked : lockOf world action = some lock)
    {content : File} {process now : Process} {text : List Char}
    (ran : runSection config content process action = some (now, some text)) :
    target world action = some lock := by
  cases action with
  | readMap _ =>
      unfold runSection at ran
      split at ran
      · cases ran
      · rename_i same
        cases same
      · rename_i same
        cases same
      · rename_i same
        cases same
      · rename_i same
        cases same
      · cases ran
  | _ => exact locked

/-- Behind a section that writes, the process has an object or has ended. -/
theorem behind_of_section
    {content : File} {process now : Process} {text : List Char}
    (ran : runSection config content process action = some (now, some text)) :
    (∃ self, now.object = some self) ∨ now = .ended := by
  unfold runSection at ran
  split at ran
  · cases ran
  · rcases Prod.mk.inj (Option.some.inj ran) with ⟨rfl, _⟩
    exact Or.inl ⟨_, rfl⟩
  · rcases Prod.mk.inj (Option.some.inj ran) with ⟨rfl, _⟩
    exact Or.inl ⟨_, rfl⟩
  · rcases Prod.mk.inj (Option.some.inj ran) with ⟨rfl, _⟩
    exact Or.inl ⟨_, rfl⟩
  · rcases Prod.mk.inj (Option.some.inj ran) with ⟨rfl, _⟩
    exact Or.inr rfl
  · cases ran

/-- A process that can make a call has an object, or is about to make one. -/
theorem object_of_admits
    {process : Process} (admitted : process.admits action = true) :
    (∃ self, process.object = some self) ∨ process = .absent := by
  unfold Process.admits at admitted
  split at admitted
  · exact Or.inr rfl
  · exact Or.inl ⟨_, rfl⟩
  · exact Or.inl ⟨_, rfl⟩
  · exact Or.inl ⟨_, rfl⟩
  · exact Or.inl ⟨_, rfl⟩
  · cases admitted

/-- Every call a process can make under a lock has a section. -/
theorem exists_section
    {lock : Target} (locked : lockOf world action = some lock)
    {process : Process} (admitted : process.admits action = true)
    (content : File) :
    ∃ now text, runSection config content process action =
      some (now, text) := by
  unfold Process.admits at admitted
  split at admitted
  · exact ⟨_, _, rfl⟩
  · exact ⟨_, _, rfl⟩
  · exact ⟨_, _, rfl⟩
  · exact ⟨_, _, rfl⟩
  · exact ⟨_, _, rfl⟩
  · cases admitted

end Steps

end Dinamite.Maps
