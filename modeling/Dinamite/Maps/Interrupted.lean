import Dinamite.Maps.Uniqueness
import Dinamite.Maps.Published

/-!
# Interrupted writes

A file is truncated and then rewritten in place, so a process killed during the
write leaves a proper prefix of the new text.  The reader takes that prefix for
an empty map.  This module adds such deaths to the process system and states
what survives them.
-/

namespace Dinamite.Maps

open Dinamite.LeaseAllocator Dinamite.Transition

/-! ## The system with interrupted writes -/

inductive Target where
  | map
  | pool
  deriving DecidableEq, Repr

/-- The file a step writes. -/
def target (world : World) : Action → Option Target
  | .saveMap _ => some .map
  | .destroy _ => some .pool
  | action => if reserves world action then some .pool else none

/-- A proper prefix of the text. -/
def truncated (written : Nat) : File → Option (List Char)
  | some text =>
      if written < text.length then some (text.take written) else none
  | none => none

/-- The step is killed when `written` characters of its file are out. -/
def tear
    (config : Config) (world : World) (action : Action) (written : Nat) :
    Option World :=
  match step config world action, target world action with
  | some next, some .map =>
      (truncated written next.mapFile).map fun text =>
        { world.withProcess action.process .ended with
          mapFile := some text }
  | some next, some .pool =>
      (truncated written next.poolFile).map fun text =>
        { world.withProcess action.process .ended with
          poolFile := some text }
  | _, _ => none

inductive CrashAction where
  | act (action : Action)
  | torn (action : Action) (written : Nat)
  deriving DecidableEq, Repr

/-- `lost` holds the bindings of a map file whose text is gone, until a save is
completed; `poolLost` says that the text of a pool with chunks is gone. -/
structure CrashWorld where
  world : World
  lost : Option IntMap
  poolLost : Bool

def listsChunks (pool : IntMap) : Bool :=
  decide (0 ≤ pool[latestKey]?.getD (-1))

def isSave : Action → Bool
  | .saveMap _ => true
  | _ => false

def crashStep (config : Config) (state : CrashWorld) :
    CrashAction → Option CrashWorld
  | .act action =>
      (step config state.world action).map fun next =>
        { state with
          world := next
          lost := if isSave action then none else state.lost }
  | .torn action written =>
      (tear config state.world action written).map fun next =>
        match target state.world action with
        | some .map =>
            { state with
              world := next
              lost := some
                (state.lost.getD (mapEntries config state.world)) }
        | _ =>
            { state with
              world := next
              poolLost :=
                state.poolLost ||
                  listsChunks (poolEntries config state.world) }

def crashSystem (config : Config) : System CrashWorld CrashAction where
  initial := ⟨(processSystem config).initial, none, false⟩
  step := crashStep config

/-- The process still has every one of the bindings in memory. -/
def remembers (self : IdMap) (bindings : IntMap) : Bool :=
  bindings.toList.all fun entry =>
    decide (self.lookup entry.1 = some entry.2)

/-- No chunk is reserved from a lost pool, and after the map file was lost the
first completed save is by a process that remembers its bindings. -/
def harmless (state : CrashWorld) : CrashAction → Bool
  | .act (.saveMap process) =>
      match state.lost with
      | none => true
      | some lost =>
          match state.world.processes process with
          | .running self => remembers self lost
          | _ => true
  | .act action => !(reserves state.world action && state.poolLost)
  | .torn _ _ => true

/-! ## What an interrupted step leaves behind -/

/-- The text a step writes is a dump. -/
theorem written_of_outcome
    {config : Config} {world next : World} {action : Action}
    (outcome : Outcome config world action next) :
    (target world action = some .map →
      ∃ map, next.mapFile = some (writeMapToJson config.format map)) ∧
      (target world action = some .pool →
        ∃ map, next.poolFile = some (writeMapToJson config.format map)) := by
  cases outcome with
  | readMap before => simp [target, reserves]
  | reserve before =>
      refine ⟨?_, fun _ => ⟨_, rfl⟩⟩
      simp [target, reserves]
  | known before found =>
      simp [target, reserves, before, found]
  | refill before unknown empty =>
      refine ⟨?_, fun _ => ⟨_, rfl⟩⟩
      simp [target, reserves, before, unknown, IdMap.exhausted, empty]
  | fresh before unknown available =>
      have notEmpty := not_lt.mpr available
      simp [target, reserves, before, unknown, IdMap.exhausted, notEmpty]
  | takeId before => simp [target, reserves]
  | saveMap before =>
      refine ⟨fun _ => ⟨_, rfl⟩, ?_⟩
      simp [target]
  | destroy before =>
      refine ⟨?_, fun _ => ⟨_, rfl⟩⟩
      simp [target]
  | stop before => simp [target, reserves]

/-- An interrupted write leaves a text without entries. -/
theorem objectItems_truncated
    {format : JsonFormat} {map : IntMap} {written : Nat}
    {text : List Char}
    (cut : truncated written (some (writeMapToJson format map)) =
      some text) :
    format.objectItems text = ∅ := by
  simp only [truncated] at cut
  split at cut
  · rename_i shorter
    obtain rfl := Option.some.inj cut
    apply format.objectItems_prefix map _ (List.take_prefix _ _)
    intro same
    have lengths := congrArg List.length same
    simp only [List.length_take, writeMapToJson] at lengths shorter
    omega
  · cases cut

/-- The process is gone and one of the files reads as empty; nothing else has
changed. -/
inductive TornOutcome (config : Config) (world : World) :
    Action → World → Prop
  | map {action : Action} {text : List Char}
      (writes : target world action = some .map)
      (empty : config.format.objectItems text = ∅) :
      TornOutcome config world action
        { world.withProcess action.process .ended with
          mapFile := some text }
  | pool {action : Action} {text : List Char}
      (writes : target world action = some .pool)
      (empty : config.format.objectItems text = ∅) :
      TornOutcome config world action
        { world.withProcess action.process .ended with
          poolFile := some text }

theorem tornOutcome_of_tear
    {config : Config} {world next : World} {action : Action}
    {written : Nat}
    (torn : tear config world action written = some next) :
    TornOutcome config world action next := by
  unfold tear at torn
  split at torn
  · rename_i after stepped writes
    rcases (written_of_outcome (outcome_of_step stepped)).1 writes with
      ⟨map, file⟩
    rcases Option.map_eq_some_iff.mp torn with ⟨text, cut, rfl⟩
    rw [file] at cut
    exact .map writes (objectItems_truncated cut)
  · rename_i after stepped writes
    rcases (written_of_outcome (outcome_of_step stepped)).2 writes with
      ⟨map, file⟩
    rcases Option.map_eq_some_iff.mp torn with ⟨text, cut, rfl⟩
    rw [file] at cut
    exact .pool writes (objectItems_truncated cut)
  · cases torn

/-- Every way a step of the crash system can go. -/
inductive CrashOutcome (config : Config) (state : CrashWorld) :
    CrashAction → CrashWorld → Prop
  | act {action : Action} {next : World}
      (outcome : Outcome config state.world action next) :
      CrashOutcome config state (.act action)
        ⟨next, if isSave action then none else state.lost, state.poolLost⟩
  | tornMap {action : Action} {written : Nat} {text : List Char}
      (empty : config.format.objectItems text = ∅) :
      CrashOutcome config state (.torn action written)
        ⟨{ state.world.withProcess action.process .ended with
            mapFile := some text },
          some (state.lost.getD (mapEntries config state.world)),
          state.poolLost⟩
  | tornPool {action : Action} {written : Nat} {text : List Char}
      (empty : config.format.objectItems text = ∅) :
      CrashOutcome config state (.torn action written)
        ⟨{ state.world.withProcess action.process .ended with
            poolFile := some text },
          state.lost,
          state.poolLost ||
            listsChunks (poolEntries config state.world)⟩

theorem crashOutcome_of_step
    {config : Config} {state next : CrashWorld} {action : CrashAction}
    (stepped : crashStep config state action = some next) :
    CrashOutcome config state action next := by
  cases action with
  | act action =>
      rcases Option.map_eq_some_iff.mp stepped with ⟨world, moved, rfl⟩
      exact .act (outcome_of_step moved)
  | torn action written =>
      rcases Option.map_eq_some_iff.mp stepped with ⟨world, torn, rfl⟩
      cases tornOutcome_of_tear torn with
      | map writes empty =>
          simp only [writes]
          exact .tornMap empty
      | pool writes empty =>
          simp only [writes]
          exact .tornPool empty

/-! ## Ids after interrupted writes -/

/-- A process that disappears leaves documented bindings, whatever happens to
the files. -/
theorem documented_of_ended
    {config : Config} {world next : World} {process : Nat}
    (documented : Documented config world)
    (processes :
      next.processes = (world.withProcess process .ended).processes)
    (returned : next.returned = world.returned)
    (bindings :
      ∀ (src : String) (id : Int),
        Binds config next src id → Binds config world src id) :
    Documented config next := by
  have mono :
      ∀ src id, world.Returns src id → next.Returns src id := by
    intro src id returns
    rcases returns with ⟨first, member⟩
    exact ⟨first, by rw [returned]; exact member⟩
  constructor
  · intro src id bound
    exact mono src id (documented.published src id (bindings src id bound))
  · intro other self isObject src id known
    rw [processes] at isObject
    by_cases same : other = process
    · subst same
      rw [World.withProcess_self] at isObject
      cases isObject
    · rw [World.withProcess_of_ne _ _ same] at isObject
      exact mono src id
        (documented.remembered other self isObject src id known)

/-- The world of the crash system mirrors some allocator state. -/
def Accountable (config : Config) (state : CrashWorld) : Prop :=
  ∃ allocator, Mirrors config (!state.poolLost) state.world allocator

theorem accountable_of_outcome
    {config : Config} {state next : CrashWorld} {action : CrashAction}
    (guarded : harmless state action = true)
    (outcome : CrashOutcome config state action next)
    (accountable : Accountable config state) :
    Accountable config next := by
  rcases accountable with ⟨allocator, mirrors⟩
  cases outcome with
  | @act action world outcome =>
      have readsTable :
          reserves state.world action = true →
            (!state.poolLost) = true := by
        intro reading
        cases action <;> simp_all [harmless, reserves]
      rcases mirrors_of_outcome outcome readsTable mirrors with
        ⟨_, target, _, after⟩
      exact ⟨target, after⟩
  | @tornMap action written text empty =>
      refine ⟨allocator.withLease action.process none,
        accounted_abandon mirrors.accounted, mirrors.represents,
        holds_withProcess mirrors action.process .ended, mirrors.issued,
        mirrors.named,
        documented_of_ended mirrors.documented rfl rfl ?_⟩
      intro src id bound
      simp [Binds, mapEntries, empty] at bound
  | @tornPool action written text empty =>
      refine ⟨allocator.withLease action.process none,
        accounted_abandon mirrors.accounted, ?_,
        holds_withProcess mirrors action.process .ended, mirrors.issued,
        mirrors.named,
        documented_of_ended mirrors.documented rfl rfl
          (fun _ _ bound => bound)⟩
      intro kept
      simp only [Bool.not_or, Bool.and_eq_true, Bool.not_eq_true',
        listsChunks, decide_eq_false_iff_not] at kept
      rcases kept with ⟨notLost, noChunks⟩
      -- nothing was recorded yet, and nothing is recorded now
      have represents := mirrors.represents (by simp [notLost])
      have latest := represents.latest_eq
      have noCells : allocator.cells = [] := by
        apply List.length_eq_zero_iff.mp
        omega
      simp only [Allocator.withLease_cells, noCells, poolEntries,
        fileEntries_some, empty]
      exact represents_empty config.chunkSize

/-- The chunk `reserveNewChunk` has handed to the process. -/
def Process.chunk : Process → Option Chunk
  | .running self => some self.curchunk
  | .drawing self _ => some self.curchunk
  | _ => none

/-- No chunk in use covers an id that was handed out, to `getId` or to another
process. -/
def FreshChunks (world : World) : Prop :=
  ∀ process chunk, (world.processes process).chunk = some chunk →
    ∀ id, chunk.start ≤ id → id ≤ chunk.stop →
      (∀ entry ∈ world.returned, entry.id ≠ id) ∧
        ∀ other otherChunk,
          (world.processes other).chunk = some otherChunk →
          otherChunk.start ≤ id → id ≤ otherChunk.stop →
            other = process

theorem Mirrors.lease_of_chunk
    {config : Config} {poolKept : Bool} {world : World}
    {allocator : Allocator Nat}
    (mirrors : Mirrors config poolKept world allocator)
    {process : Nat} {chunk : Chunk}
    (granted : (world.processes process).chunk = some chunk) :
    ∃ lease, allocator.leases process = some lease ∧
      chunk = leaseChunk lease := by
  cases now : world.processes process with
  | running self =>
      rw [now] at granted
      obtain rfl := Option.some.inj granted
      exact mirrors.lease_of_running now
  | drawing self src =>
      rw [now] at granted
      obtain rfl := Option.some.inj granted
      rcases mirrors.lease_of_drawing now with ⟨lease, held, isChunk, _⟩
      exact ⟨lease, held, isChunk⟩
  | absent =>
      rw [now] at granted
      cases granted
  | constructing self =>
      rw [now] at granted
      cases granted
  | ended =>
      rw [now] at granted
      cases granted

theorem Mirrors.freshChunks
    {config : Config} {poolKept : Bool} {world : World}
    {allocator : Allocator Nat}
    (mirrors : Mirrors config poolKept world allocator) :
    FreshChunks world := by
  intro process chunk granted id lower upper
  rcases mirrors.lease_of_chunk granted with ⟨lease, held, rfl⟩
  constructor
  · intro entry member same
    subst same
    exact mirrors.accounted.held_not_issued held lower upper
      (mirrors.issued entry member)
  · intro other otherChunk otherGranted otherLower otherUpper
    rcases mirrors.lease_of_chunk otherGranted with
      ⟨otherLease, otherHeld, rfl⟩
    exact mirrors.accounted.held_disjoint otherHeld held
      otherLower otherUpper lower upper

theorem accountable_of_execution
    {config : Config} (execution : Execution (crashSystem config))
    (guarded :
      (crashSystem config).Guarded
        (fun state action => harmless state action = true)
        (crashSystem config).initial execution.actions) :
    Accountable config execution.final :=
  (crashSystem config).guarded_run_invariant (Accountable config)
    (fun _ _ _ safe stepped held =>
      accountable_of_outcome safe (crashOutcome_of_step stepped) held)
    guarded execution.valid
    ⟨_, mirrors_initial config⟩

/-! ## Bindings after interrupted writes -/

/-- The binding is in the file, or among those of a map file that was lost and
has not been saved since. -/
def Recoverable
    (config : Config) (src : String) (id : Int) (state : CrashWorld) :
    Prop :=
  match state.lost with
  | none => Binds config state.world src id
  | some lost =>
      mapEntries config state.world = ∅ ∧ lost[src]? = some id

theorem lookup_of_remembers
    {self : IdMap} {bindings : IntMap}
    (recalls : remembers self bindings = true)
    {src : String} {id : Int} (bound : bindings[src]? = some id) :
    self.lookup src = some id := by
  have member : (src, id) ∈ bindings.toList :=
    Std.ExtTreeMap.mem_toList_iff_getElem?_eq_some.mpr bound
  exact of_decide_eq_true (List.all_eq_true.mp recalls _ member)

/-- Only a save changes the map file. -/
theorem mapFile_of_outcome
    {config : Config} {world next : World} {action : Action}
    (outcome : Outcome config world action next)
    (notSave : isSave action = false) :
    next.mapFile = world.mapFile := by
  cases outcome with
  | saveMap before => cases notSave
  | _ => rfl

/-- A completed save after a loss writes what the saving process remembers. -/
theorem binds_of_recovery
    {config : Config} {world next : World} {process : Nat}
    {src : String} {id : Int}
    (outcome : Outcome config world (.saveMap process) next)
    (empty : mapEntries config world = ∅)
    (recalls :
      ∀ self, world.processes process = .running self →
        self.lookup src = some id) :
    Binds config next src id := by
  cases outcome with
  | @saveMap process self before =>
      have nothing : fileEntries config.format world.mapFile = ∅ := empty
      have found := recalls self before
      rw [lookup_eq] at found
      simp only [Binds, mapEntries, saveMap_written, saveMap_idMap,
        nothing]
      simpa using found

theorem recoverable_of_outcome
    {config : Config} {state next : CrashWorld} {action : CrashAction}
    {src : String} {id : Int}
    (guarded : harmless state action = true)
    (outcome : CrashOutcome config state action next)
    (recoverable : Recoverable config src id state) :
    Recoverable config src id next := by
  rcases state with ⟨world, lost, poolLost⟩
  cases outcome with
  | @act action after outcome =>
      cases save : isSave action with
      | false =>
          have sameFile := mapFile_of_outcome outcome save
          simpa [Recoverable, Binds, mapEntries, save, sameFile]
            using recoverable
      | true =>
          cases action with
          | saveMap process =>
              cases lost with
              | none => exact binds_of_outcome outcome recoverable
              | some lost =>
                  rcases recoverable with ⟨empty, bound⟩
                  apply binds_of_recovery outcome empty
                  intro self running
                  dsimp only at running
                  simp only [harmless, running] at guarded
                  exact lookup_of_remembers guarded bound
          | _ => cases save
  | @tornMap action written text empty =>
      cases lost with
      | none =>
          exact ⟨by simp [mapEntries, empty], recoverable⟩
      | some lost =>
          exact ⟨by simp [mapEntries, empty], recoverable.2⟩
  | tornPool empty => exact recoverable

/-- While a map file is lost, the file reads as empty. -/
def EmptiedWhenLost (config : Config) (state : CrashWorld) : Prop :=
  ∀ {lost : IntMap}, state.lost = some lost →
    mapEntries config state.world = ∅

theorem emptiedWhenLost_of_outcome
    {config : Config} {state next : CrashWorld} {action : CrashAction}
    (outcome : CrashOutcome config state action next)
    (emptied : EmptiedWhenLost config state) :
    EmptiedWhenLost config next := by
  intro lost isLost
  cases outcome with
  | @act action after outcome =>
      cases save : isSave action with
      | false =>
          rw [save] at isLost
          simp only [mapEntries, mapFile_of_outcome outcome save]
          exact emptied isLost
      | true =>
          rw [save] at isLost
          cases isLost
  | tornMap empty => simp [mapEntries, empty]
  | tornPool empty => exact emptied isLost

theorem emptiedWhenLost_of_execution
    {config : Config} (execution : Execution (crashSystem config)) :
    EmptiedWhenLost config execution.final :=
  (crashSystem config).run_invariant (EmptiedWhenLost config)
    (fun _ _ _ stepped held =>
      emptiedWhenLost_of_outcome (crashOutcome_of_step stepped) held)
    execution.valid nofun

/-- Right after an interrupted write the binding can still be recovered. -/
theorem recoverable_of_torn
    {config : Config} {state next : CrashWorld}
    {action : Action} {written : Nat} {src : String} {id : Int}
    (outcome : CrashOutcome config state (.torn action written) next)
    (emptied : EmptiedWhenLost config state)
    (bound : Binds config state.world src id) :
    Recoverable config src id next := by
  rcases state with ⟨world, lost, poolLost⟩
  cases lost with
  | none => exact recoverable_of_outcome rfl outcome bound
  | some lost =>
      have empty : mapEntries config world = ∅ := emptied rfl
      simp [Binds, empty] at bound

theorem lost_of_save
    {config : Config} {state next : CrashWorld} {saver : Nat}
    (outcome : CrashOutcome config state (.act (.saveMap saver)) next) :
    next.lost = none := by
  cases outcome with
  | act saves => rfl

/-! ## What survives -/

/-- In every state reached, the chunks in use cover only ids that were never
handed out before. -/
def GrantsOnlyFresh
    {config : Config} (execution : Execution (crashSystem config)) : Prop :=
  ∀ reached : Execution (crashSystem config),
    reached.actions <+: execution.actions →
      FreshChunks reached.final.world

/-- What the map file bound before an interrupted write, of this file or of the
pool, it binds after every later completed save. -/
def PreservesBindings
    {config : Config} (execution : Execution (crashSystem config)) : Prop :=
  ∀ (before after : Execution (crashSystem config))
      (torn : Action) (written saver : Nat) (between : List CrashAction),
    after.actions =
        before.actions ++ .torn torn written ::
          (between ++ [.act (.saveMap saver)]) →
    after.actions <+: execution.actions →
      ∀ (src : String) (id : Int),
        Binds config before.final.world src id →
          Binds config after.final.world src id

abbrev Harmless (config : Config) (actions : List CrashAction) : Prop :=
  (crashSystem config).Guarded
    (fun state action => harmless state action = true)
    (crashSystem config).initial actions

/-- Interrupted writes lose and reissue nothing while no chunk is reserved from
a lost pool and the first save after a lost map file is by a process that
remembers its bindings. -/
theorem interrupted_writes_lose_nothing
    (config : Config) (execution : Execution (crashSystem config))
    (guarded : Harmless config execution.actions) :
    GrantsOnlyFresh execution ∧ PreservesBindings execution := by
  constructor
  · intro reached continues
    rcases continues with ⟨rest, whole⟩
    rw [Harmless, ← whole] at guarded
    rcases accountable_of_execution reached
        ((crashSystem config).guarded_append guarded).1 with
      ⟨_, mirrors⟩
    exact mirrors.freshChunks
  · rintro before after action written saver between path
      ⟨rest, whole⟩ src id bound
    rw [Harmless, ← whole] at guarded
    have afterGuarded := ((crashSystem config).guarded_append guarded).1
    rw [path] at afterGuarded
    rcases (crashSystem config).guarded_append afterGuarded with
      ⟨_, laterGuarded⟩
    have valid := after.valid
    rw [path] at valid
    rcases (crashSystem config).run_append_eq_some.mp valid with
      ⟨middle, beforeRun, laterRun⟩
    obtain rfl : before.final = middle :=
      Option.some.inj (before.valid.symm.trans beforeRun)
    rcases (crashSystem config).run_cons_eq_some.mp laterRun with
      ⟨torn, tornStep, savedRun⟩
    have recoverable : Recoverable config src id after.final :=
      (crashSystem config).guarded_run_invariant
        (Recoverable config src id)
        (fun _ _ _ safe stepped held =>
          recoverable_of_outcome safe (crashOutcome_of_step stepped) held)
        ((laterGuarded _ before.valid).2 torn tornStep) savedRun
        (recoverable_of_torn (crashOutcome_of_step tornStep)
          (emptiedWhenLost_of_execution before) bound)
    -- the run ends with a completed save, so nothing is lost any more
    rcases (crashSystem config).run_append_eq_some.mp savedRun with
      ⟨last, _, saveRun⟩
    have saveStep :=
      (crashSystem config).run_singleton_eq_some.mp saveRun
    have notLost : after.final.lost = none :=
      lost_of_save (crashOutcome_of_step saveStep)
    simpa only [Recoverable, notLost] using recoverable

/-- A pool write is interrupted before any chunk exists, and a save is
interrupted while another process still remembers the bindings. -/
def recoveringActions : List CrashAction :=
  [.act (.readMap 0), .torn (.reserve 0) 3, .act (.readMap 1),
    .act (.reserve 1), .act (.getId 1 "counter"), .act (.saveMap 1),
    .act (.readMap 2), .act (.reserve 2), .torn (.saveMap 1) 5,
    .act (.saveMap 2)]

theorem interrupted_writes_lose_nothing_recovering :
    ∃ execution : Execution (crashSystem Config.source),
      execution.actions = recoveringActions ∧
        GrantsOnlyFresh execution ∧ PreservesBindings execution := by
  have enabled :
      ((crashSystem Config.source).run (crashSystem Config.source).initial
        recoveringActions).isSome = true := by
    decide +kernel
  have guarded : Harmless Config.source recoveringActions := by
    decide +kernel
  rcases Option.isSome_iff_exists.mp enabled with ⟨final, valid⟩
  exact ⟨⟨recoveringActions, final, valid⟩, rfl,
    interrupted_writes_lose_nothing Config.source _ guarded⟩

/-- Process 0 is given id 0 and lives on; the write of process 1 is
interrupted; process 2 is given the same chunk again. -/
def reissuingActions : List CrashAction :=
  [.act (.readMap 0), .act (.reserve 0), .act (.getId 0 "counter"),
    .act (.readMap 1), .torn (.reserve 1) 5, .act (.readMap 2),
    .act (.reserve 2)]

/-- The second save of process 0 is interrupted, and process 1, which started
before the first one, saves without its bindings. -/
def losingActions : List CrashAction :=
  [.act (.readMap 1), .act (.reserve 1), .act (.readMap 0),
    .act (.reserve 0), .act (.getId 0 "counter"), .act (.saveMap 0),
    .torn (.saveMap 0) 5, .act (.saveMap 1)]

theorem interrupted_writes_lose_and_reissue :
    (¬ ∀ execution : Execution (crashSystem Config.source),
      GrantsOnlyFresh execution) ∧
      ¬ ∀ execution : Execution (crashSystem Config.source),
        PreservesBindings execution := by
  constructor
  · intro fresh
    have evaluated :
        ((crashSystem Config.source).run
          (crashSystem Config.source).initial reissuingActions).any
            (fun state =>
              decide (⟨0, "counter", 0⟩ ∈ state.world.returned) &&
                decide ((state.world.processes 2).chunk =
                  some ⟨0, chunkBeingUsed, 0, 1023⟩)) = true := by
      decide +kernel
    rcases (Option.any_eq_true _ _).mp evaluated with ⟨final, valid, facts⟩
    simp only [Bool.and_eq_true, decide_eq_true_eq] at facts
    rcases facts with ⟨emitted, granted⟩
    let execution : Execution (crashSystem Config.source) :=
      ⟨reissuingActions, final, valid⟩
    have notEmitted :=
      (fresh execution execution (List.prefix_refl _) 2 _ granted 0
        (by decide) (by decide)).1
    exact notEmitted _ emitted rfl
  · intro preserves
    have evaluated :
        ((crashSystem Config.source).run
          (crashSystem Config.source).initial losingActions).any
            (fun state =>
              decide ((mapEntries Config.source
                state.world)["counter"]? = none)) = true := by
      decide +kernel
    have evaluatedBefore :
        ((crashSystem Config.source).run
          (crashSystem Config.source).initial (losingActions.take 6)).any
            (fun state =>
              decide ((mapEntries Config.source
                state.world)["counter"]? = some (1024 : Int))) = true := by
      decide +kernel
    rcases (Option.any_eq_true _ _).mp evaluated with ⟨final, valid, lost⟩
    rcases (Option.any_eq_true _ _).mp evaluatedBefore with
      ⟨held, heldRun, bound⟩
    simp only [decide_eq_true_eq] at lost bound
    let execution : Execution (crashSystem Config.source) :=
      ⟨losingActions, final, valid⟩
    have kept :=
      preserves execution ⟨losingActions.take 6, held, heldRun⟩ execution
        (.saveMap 0) 5 1 [] rfl (List.prefix_refl _) "counter" 1024 bound
    cases lost.symm.trans kept

end Dinamite.Maps
