import Dinamite.Maps.ChunkPool

/-!
# Compiler processes sharing a map file

The `IdMap` object of one compiler process, and the system of all processes
that share a map file and its chunk pool.  A locked section of the source is
one step; `getId` is split where it leaves the locked section of
`reserveNewChunk`, so that a process can stop in between.
-/

namespace Dinamite.Maps

open Dinamite.Transition

/-! ## One object -/

/-- `struct IdMap`.  The file names are fixed by the system below. -/
structure IdMap where
  idMap : IntMap := ∅
  newIdMap : IntMap := ∅
  curchunk : Chunk := {}

namespace IdMap

def readMap (format : JsonFormat) (mapFile : File) (self : IdMap) : IdMap :=
  { self with idMap := (readMapFromJson format self.idMap mapFile).2 }

/-- `id_map.insert(first, last)` keeps the entries `id_map` already has.  The
second component is the new text of the map file. -/
def saveMap
    (format : JsonFormat) (mapFile : File) (self : IdMap) :
    IdMap × List Char :=
  let idMap := (readMapFromJson format self.idMap mapFile).2
  let idMap := self.newIdMap ∪ idMap
  ({ self with idMap := idMap }, writeMapToJson format idMap)

/-- `reserveNewChunk` on the object; the second component is the new text of
the pool file. -/
def reserve
    (format : JsonFormat) (chunkSize : Int) (poolFile : File)
    (self : IdMap) : IdMap × List Char :=
  let reserved :=
    reserveNewChunk format chunkSize poolFile self.curchunk
  ({ self with curchunk := reserved.1 }, reserved.2)

/-- The name is known from the file or from this process. -/
def lookup (self : IdMap) (src : String) : Option Int :=
  match self.idMap[src]? with
  | some id => some id
  | none => self.newIdMap[src]?

def exhausted (self : IdMap) : Bool :=
  decide (self.curchunk.start > self.curchunk.stop)

/-- `curchunk.start++`, recorded under the name. -/
def takeId (self : IdMap) (src : String) : Int × IdMap :=
  let newId := self.curchunk.start
  (newId,
    { self with
      curchunk := { self.curchunk with start := newId + 1 }
      newIdMap := self.newIdMap.insert src newId })

/-- `getId` run without interruption: the id, the object and the pool file. -/
def getId
    (format : JsonFormat) (chunkSize : Int) (poolFile : File)
    (self : IdMap) (src : String) : Int × IdMap × File :=
  match self.lookup src with
  | some id => (id, self, poolFile)
  | none =>
      let reserved :=
        if self.exhausted then
          let reserved := self.reserve format chunkSize poolFile
          (reserved.1, some reserved.2)
        else
          (self, poolFile)
      let taken := reserved.1.takeId src
      (taken.1, taken.2, reserved.2)

end IdMap

/-! ## The system -/

/-- `chunkSize` is `DEFAULT_CHUNK_SIZE`, 1024 in the source. -/
structure Config where
  format : JsonFormat
  chunkSize : Int
  chunkSize_pos : 1 ≤ chunkSize

/-- Where a process stands.  `drawing` is inside `getId`, after the chunk was
replaced and before an id is taken from it. -/
inductive Process where
  | absent
  | constructing (self : IdMap)
  | running (self : IdMap)
  | drawing (self : IdMap) (src : String)
  | ended

/-- One return of `getId`. -/
structure Returned where
  process : Nat
  src : String
  id : Int
  deriving DecidableEq, Repr

/-- The two shared files, the processes, and every id `getId` has returned so
far, latest first. -/
structure World where
  mapFile : File
  poolFile : File
  processes : Nat → Process
  returned : List Returned

/-- `readMap` and `reserve` are the two halves of the constructor, `destroy` is
the destructor, and `stop` ends a process without its destructor. -/
inductive Action where
  | readMap (process : Nat)
  | reserve (process : Nat)
  | getId (process : Nat) (src : String)
  | takeId (process : Nat)
  | saveMap (process : Nat)
  | destroy (process : Nat)
  | stop (process : Nat)
  deriving DecidableEq, Repr

/-- The process that acts. -/
def Action.process : Action → Nat
  | .readMap process => process
  | .reserve process => process
  | .getId process _ => process
  | .takeId process => process
  | .saveMap process => process
  | .destroy process => process
  | .stop process => process

namespace World

def withProcess (world : World) (process : Nat) (now : Process) : World :=
  { world with
    processes := Function.update world.processes process now }

def record
    (world : World) (process : Nat) (src : String) (id : Int) : World :=
  { world with returned := ⟨process, src, id⟩ :: world.returned }

@[simp]
theorem withProcess_self
    (world : World) (process : Nat) (now : Process) :
    (world.withProcess process now).processes process = now := by
  simp [withProcess]

theorem withProcess_of_ne
    (world : World) {process other : Nat} (now : Process)
    (different : other ≠ process) :
    (world.withProcess process now).processes other =
      world.processes other := by
  simp [withProcess, different]

@[simp]
theorem withProcess_returned
    (world : World) (process : Nat) (now : Process) :
    (world.withProcess process now).returned = world.returned :=
  rfl

@[simp]
theorem record_processes
    (world : World) (process : Nat) (src : String) (id : Int) :
    (world.record process src id).processes = world.processes :=
  rfl

@[simp]
theorem record_returned
    (world : World) (process : Nat) (src : String) (id : Int) :
    (world.record process src id).returned =
      ⟨process, src, id⟩ :: world.returned :=
  rfl

end World

/-- The process has an object and has neither ended nor been stopped. -/
def Process.object : Process → Option IdMap
  | .absent => none
  | .constructing self => some self
  | .running self => some self
  | .drawing self _ => some self
  | .ended => none

/-- Take an id and return it. -/
def finishGetId
    (world : World) (process : Nat) (self : IdMap) (src : String) :
    World :=
  let taken := self.takeId src
  (world.withProcess process (.running taken.2)).record process src taken.1

def step (config : Config) (world : World) : Action → Option World
  | .readMap process =>
      match world.processes process with
      | .absent =>
          let self := IdMap.readMap config.format world.mapFile {}
          some (world.withProcess process
            (.constructing { self with curchunk := {} }))
      | _ => none
  | .reserve process =>
      match world.processes process with
      | .constructing self =>
          let reserved :=
            self.reserve config.format config.chunkSize world.poolFile
          some { world.withProcess process (.running reserved.1) with
            poolFile := some reserved.2 }
      | _ => none
  | .getId process src =>
      match world.processes process with
      | .running self =>
          match self.lookup src with
          | some id => some (world.record process src id)
          | none =>
              if self.exhausted then
                let reserved :=
                  self.reserve config.format config.chunkSize
                    world.poolFile
                some { world.withProcess process
                    (.drawing reserved.1 src) with
                  poolFile := some reserved.2 }
              else
                some (finishGetId world process self src)
      | _ => none
  | .takeId process =>
      match world.processes process with
      | .drawing self src => some (finishGetId world process self src)
      | _ => none
  | .saveMap process =>
      match world.processes process with
      | .running self =>
          let saved := self.saveMap config.format world.mapFile
          some { world.withProcess process (.running saved.1) with
            mapFile := some saved.2 }
      | _ => none
  | .destroy process =>
      match world.processes process with
      | .running self =>
          some { world.withProcess process .ended with
            poolFile := some
              (recycleCurChunk config.format world.poolFile
                self.curchunk) }
      | _ => none
  | .stop process =>
      match (world.processes process).object with
      | some _ => some (world.withProcess process .ended)
      | none => none

/-- Both files are absent and no process has started. -/
def processSystem (config : Config) : System World Action where
  initial := ⟨none, none, fun _ => .absent, []⟩
  step := step config

/-- The entries of the map file. -/
def mapEntries (config : Config) (world : World) : IntMap :=
  fileEntries config.format world.mapFile

/-- The entries of the pool file. -/
def poolEntries (config : Config) (world : World) : IntMap :=
  fileEntries config.format world.poolFile

/-! ## What one step does -/

/-- Every way a step can go. -/
inductive Outcome (config : Config) (world : World) :
    Action → World → Prop
  | readMap {process : Nat}
      (before : world.processes process = .absent) :
      Outcome config world (.readMap process)
        (world.withProcess process
          (.constructing { idMap := mapEntries config world }))
  | reserve {process : Nat} {self : IdMap}
      (before : world.processes process = .constructing self) :
      Outcome config world (.reserve process)
        { world.withProcess process
            (.running { self with
              curchunk :=
                (reserveInPool config.chunkSize
                  (poolEntries config world) self.curchunk).1 }) with
          poolFile := some (writeMapToJson config.format
            (reserveInPool config.chunkSize
              (poolEntries config world) self.curchunk).2) }
  | known {process : Nat} {self : IdMap} {src : String} {id : Int}
      (before : world.processes process = .running self)
      (found : self.lookup src = some id) :
      Outcome config world (.getId process src)
        (world.record process src id)
  | refill {process : Nat} {self : IdMap} {src : String}
      (before : world.processes process = .running self)
      (unknown : self.lookup src = none)
      (empty : self.curchunk.start > self.curchunk.stop) :
      Outcome config world (.getId process src)
        { world.withProcess process
            (.drawing { self with
              curchunk :=
                (reserveInPool config.chunkSize
                  (poolEntries config world) self.curchunk).1 } src) with
          poolFile := some (writeMapToJson config.format
            (reserveInPool config.chunkSize
              (poolEntries config world) self.curchunk).2) }
  | fresh {process : Nat} {self : IdMap} {src : String}
      (before : world.processes process = .running self)
      (unknown : self.lookup src = none)
      (available : self.curchunk.start ≤ self.curchunk.stop) :
      Outcome config world (.getId process src)
        (finishGetId world process self src)
  | takeId {process : Nat} {self : IdMap} {src : String}
      (before : world.processes process = .drawing self src) :
      Outcome config world (.takeId process)
        (finishGetId world process self src)
  | saveMap {process : Nat} {self : IdMap}
      (before : world.processes process = .running self) :
      Outcome config world (.saveMap process)
        { world.withProcess process
            (.running (self.saveMap config.format world.mapFile).1) with
          mapFile :=
            some (self.saveMap config.format world.mapFile).2 }
  | destroy {process : Nat} {self : IdMap}
      (before : world.processes process = .running self) :
      Outcome config world (.destroy process)
        { world.withProcess process .ended with
          poolFile := some (writeMapToJson config.format
            (recycleInPool (poolEntries config world) self.curchunk)) }
  | stop {process : Nat} {self : IdMap}
      (before : (world.processes process).object = some self) :
      Outcome config world (.stop process)
        (world.withProcess process .ended)

theorem outcome_of_step
    {config : Config} {world next : World} {action : Action}
    (stepped : step config world action = some next) :
    Outcome config world action next := by
  cases action with
  | readMap process =>
      simp only [step] at stepped
      split at stepped
      · rename_i before
        obtain rfl := Option.some.inj stepped
        exact .readMap before
      · cases stepped
  | reserve process =>
      simp only [step] at stepped
      split at stepped
      · rename_i self before
        obtain rfl := Option.some.inj stepped
        exact .reserve before
      · cases stepped
  | getId process src =>
      simp only [step] at stepped
      split at stepped
      · rename_i self before
        split at stepped
        · rename_i id found
          obtain rfl := Option.some.inj stepped
          exact .known before found
        · rename_i unknown
          split at stepped
          · rename_i empty
            obtain rfl := Option.some.inj stepped
            exact .refill before unknown (of_decide_eq_true empty)
          · rename_i notEmpty
            obtain rfl := Option.some.inj stepped
            refine .fresh before unknown ?_
            simpa [IdMap.exhausted] using notEmpty
      · cases stepped
  | takeId process =>
      simp only [step] at stepped
      split at stepped
      · rename_i self src before
        obtain rfl := Option.some.inj stepped
        exact .takeId before
      · cases stepped
  | saveMap process =>
      simp only [step] at stepped
      split at stepped
      · rename_i self before
        obtain rfl := Option.some.inj stepped
        exact .saveMap before
      · cases stepped
  | destroy process =>
      simp only [step] at stepped
      split at stepped
      · rename_i self before
        obtain rfl := Option.some.inj stepped
        exact .destroy before
      · cases stepped
  | stop process =>
      simp only [step] at stepped
      split at stepped
      · rename_i self before
        obtain rfl := Option.some.inj stepped
        exact .stop before
      · cases stepped

/-- A step leaves the other processes where they are. -/
theorem outcome_other
    {config : Config} {world next : World} {action : Action}
    (outcome : Outcome config world action next)
    {other : Nat} (different : other ≠ action.process) :
    next.processes other = world.processes other := by
  cases outcome <;>
    simp only [Action.process] at different <;>
    simp [finishGetId, World.withProcess, World.record, different]

/-- An id is only ever returned by the process that acts. -/
theorem outcome_returned
    {config : Config} {world next : World} {action : Action}
    (outcome : Outcome config world action next)
    {entry : Returned} (member : entry ∈ next.returned) :
    entry ∈ world.returned ∨ entry.process = action.process := by
  cases outcome <;>
    simp only [finishGetId, World.record_returned,
      World.withProcess_returned, List.mem_cons] at member <;>
    grind [Action.process]

/-- What was returned stays returned. -/
theorem outcome_returned_mono
    {config : Config} {world next : World} {action : Action}
    (outcome : Outcome config world action next)
    {entry : Returned} (member : entry ∈ world.returned) :
    entry ∈ next.returned := by
  cases outcome <;>
    simp [finishGetId, member]

/-- The steps of an uninterrupted `getId` do what `IdMap.getId` does. -/
theorem run_getId
    (config : Config) {world : World} {process : Nat} {self : IdMap}
    (src : String) (before : world.processes process = .running self) :
    let called :=
      self.getId config.format config.chunkSize world.poolFile src
    ∃ actions, (processSystem config).run world actions =
      some { world with
        poolFile := called.2.2
        processes :=
          Function.update world.processes process (.running called.2.1)
        returned := ⟨process, src, called.1⟩ :: world.returned } := by
  have unchanged :
      Function.update world.processes process (.running self) =
        world.processes := by
    rw [← before, Function.update_eq_self]
  cases known : self.lookup src with
  | some id =>
      refine ⟨[.getId process src], ?_⟩
      simp [System.run_singleton_eq_some, processSystem, step, before,
        known, IdMap.getId, World.record, unchanged]
  | none =>
      cases empty : self.exhausted with
      | true =>
          refine ⟨[.getId process src, .takeId process], ?_⟩
          simp [System.run_cons_eq_some, processSystem, step, before,
            known, empty, IdMap.getId, finishGetId, World.record,
            World.withProcess]
      | false =>
          refine ⟨[.getId process src], ?_⟩
          simp [System.run_singleton_eq_some, processSystem, step, before,
            known, empty, IdMap.getId, finishGetId, World.record,
            World.withProcess]

end Dinamite.Maps
