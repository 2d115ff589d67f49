import Dinamite.Maps.Bindings
import Dinamite.Maps.Json11Prefix

/-!
# Published bindings and emitted ids

What an execution of the processes guarantees about the map file: its bindings
are permanent and no saved name is lost, but an id a process has emitted is
only bound in the file when no other process published the name first.
-/

namespace Dinamite.Maps

open Dinamite.Transition

/-- `DEFAULT_CHUNK_SIZE`. -/
def defaultChunkSize : Int := 1024

/-- The configuration of the pass. -/
def Config.source : Config where
  format := Json11.json11
  chunkSize := defaultChunkSize
  chunkSize_pos := by decide

theorem consistent_of_execution
    {config : Config} (execution : Execution (processSystem config)) :
    Consistent config execution.final :=
  consistent_of_run execution.valid (consistent_initial config)

/-! ## Later processes -/

/-- A process that has not started yet will follow every binding the file
already has. -/
theorem follows_of_absent
    {config : Config} {world : World} {process : Nat}
    {src : String} {id : Int}
    (consistent : Consistent config world)
    (bound : Binds config world src id)
    (absent : world.processes process = .absent) :
    Follows config process src id world := by
  refine ⟨bound, ?_, ?_, ?_⟩
  · intro self isObject
    rw [absent] at isObject
    cases isObject
  · intro self name drawing
    rw [absent] at drawing
    cases drawing
  · rintro ⟨_, name, answer⟩ member rfl rfl
    exact absurd member
      ((consistent _).started absent name answer)

theorem follows_of_run
    {config : Config} {world final : World} {actions : List Action}
    {process : Nat} {src : String} {id : Int}
    (continued : (processSystem config).run world actions = some final)
    (follows : Follows config process src id world) :
    Follows config process src id final :=
  (processSystem config).run_invariant
    (Follows config process src id)
    (fun _ _ _ stepped held =>
      follows_of_outcome (outcome_of_step stepped) held)
    continued follows

theorem Follows.lookup
    {config : Config} {world : World} {process : Nat}
    {src : String} {id : Int}
    (follows : Follows config process src id world)
    {self : IdMap} (running : world.processes process = .running self) :
    self.lookup src = some id := by
  rw [lookup_eq, follows.loaded self (by rw [running]; rfl)]
  rfl

/-! ## Names a process has asked for -/

/-- The name has been passed to `getId`: the call has returned, waits for its
id, or its process is gone. -/
def Asked (process : Nat) (src : String) (world : World) : Prop :=
  (∃ id : Int, ⟨process, src, id⟩ ∈ world.returned) ∨
    (∃ self, world.processes process = .drawing self src) ∨
      world.processes process = .ended

theorem asked_of_getId
    {config : Config} {world next : World} {process : Nat} {src : String}
    (outcome : Outcome config world (.getId process src) next) :
    Asked process src next := by
  cases outcome with
  | known before found =>
      exact Or.inl ⟨_, List.mem_cons_self⟩
  | refill before unknown empty =>
      exact Or.inr (Or.inl ⟨_, World.withProcess_self _ _ _⟩)
  | fresh before unknown available =>
      exact Or.inl ⟨_, List.mem_cons_self⟩

theorem asked_of_outcome
    {config : Config} {world next : World} {action : Action}
    {process : Nat} {src : String}
    (outcome : Outcome config world action next)
    (asked : Asked process src world) :
    Asked process src next := by
  rcases asked with ⟨id, member⟩ | waiting
  · exact Or.inl ⟨id, outcome_returned_mono outcome member⟩
  by_cases acts : process = action.process
  · subst acts
    cases outcome with
    | @takeId process self name before =>
        rcases waiting with ⟨other, drawing⟩ | ended
        · simp only [Action.process] at drawing
          rcases Process.drawing.inj (before.symm.trans drawing) with ⟨-, rfl⟩
          exact Or.inl ⟨_, List.mem_cons_self⟩
        · cases before.symm.trans ended
    | stop before =>
        exact Or.inr (Or.inr (World.withProcess_self _ _ _))
    | _ =>
        -- a running or starting process is not inside `getId`
        rcases waiting with ⟨other, drawing⟩ | ended <;>
          simp_all [Action.process]
  · refine Or.inr ?_
    rw [outcome_other outcome acts]
    exact waiting

theorem asked_of_run
    {config : Config} {world final : World} {actions : List Action}
    {process : Nat} {src : String}
    (continued : (processSystem config).run world actions = some final)
    (asked : Asked process src world) :
    Asked process src final :=
  (processSystem config).run_invariant (Asked process src)
    (fun _ _ _ stepped held =>
      asked_of_outcome (outcome_of_step stepped) held)
    continued asked

/-- A save makes every name the process asked for a key of the file. -/
theorem binds_of_save
    {config : Config} {world next : World} {process : Nat} {src : String}
    (outcome : Outcome config world (.saveMap process) next)
    (consistent : Consistent config world)
    (asked : Asked process src world) :
    ∃ id, Binds config next src id := by
  cases outcome with
  | @saveMap process self before =>
      rcases asked with ⟨id, member⟩ | ⟨other, drawing⟩ | ended
      · have remembered :=
          (consistent process).remembered self
            (by rw [before]; rfl) src id member
        simp only [Binds, mapEntries, saveMap_written, saveMap_idMap]
        cases (fileEntries config.format world.mapFile)[src]? with
        | some bound => exact ⟨bound, rfl⟩
        | none =>
            cases inMemory : self.idMap[src]? with
            | some known => exact ⟨known, rfl⟩
            | none =>
                rcases remembered with known | own
                · rw [inMemory] at known
                  cases known
                · exact ⟨id, own⟩
      · cases before.symm.trans drawing
      · cases before.symm.trans ended

/-- The name was asked for, and its process saved later. -/
theorem binds_of_asked_then_saved
    {config : Config} {process : Nat} {src : String}
    (execution : Execution (processSystem config))
    (ordered :
      [Action.getId process src, .saveMap process].Sublist
        execution.actions) :
    ∃ id, Binds config execution.final src id := by
  rcases List.cons_sublist_iff.mp ordered with
    ⟨first, second, whole, asks, saves⟩
  rcases List.append_of_mem asks with ⟨beforeAsk, afterAsk, rfl⟩
  rcases List.append_of_mem (List.singleton_sublist.mp saves) with
    ⟨beforeSave, afterSave, rfl⟩
  have valid := execution.valid
  rw [whole] at valid
  -- asked, then up to the save, then on to the end
  rcases (processSystem config).run_append_eq_some.mp valid with
    ⟨middle, firstRun, secondRun⟩
  rcases (processSystem config).run_append_eq_some.mp firstRun with
    ⟨start, startRun, askRun⟩
  rcases (processSystem config).run_cons_eq_some.mp askRun with
    ⟨afterGetId, askStep, restRun⟩
  rcases (processSystem config).run_append_eq_some.mp secondRun with
    ⟨toSave, toSaveRun, saveRun⟩
  rcases (processSystem config).run_cons_eq_some.mp saveRun with
    ⟨saved, saveStep, lastRun⟩
  have asked : Asked process src toSave :=
    asked_of_run toSaveRun
      (asked_of_run restRun (asked_of_getId (outcome_of_step askStep)))
  have consistent : Consistent config toSave :=
    consistent_of_run toSaveRun
      (consistent_of_run firstRun (consistent_initial config))
  rcases binds_of_save (outcome_of_step saveStep) consistent asked with
    ⟨id, bound⟩
  exact ⟨id, binds_of_run lastRun bound⟩

/-- A binding of the map file is permanent, every process that starts after it
answers from it, and a name that was asked for before a save stays a key. -/
theorem published_bindings_permanent
    (config : Config) (execution : Execution (processSystem config)) :
    (∀ (src : String) (id : Int), Binds config execution.final src id →
      ∀ later : Run (processSystem config) execution.final,
        Binds config later.final src id ∧
          ∀ process, execution.final.processes process = .absent →
            (∀ answer : Int,
              ⟨process, src, answer⟩ ∈ later.final.returned →
                answer = id) ∧
              ∀ self, later.final.processes process = .running self →
                self.lookup src = some id) ∧
      ∀ (process : Nat) (src : String),
        [Action.getId process src, .saveMap process].Sublist
            execution.actions →
          src ∈ mapEntries config execution.final := by
  constructor
  · intro src id bound later
    refine ⟨binds_of_run later.valid bound, ?_⟩
    intro process absent
    have follows :=
      follows_of_run later.valid
        (follows_of_absent (consistent_of_execution execution) bound
          absent)
    exact ⟨fun answer member => follows.answered _ member rfl rfl,
      fun self running => follows.lookup running⟩
  · intro process src ordered
    rcases binds_of_asked_then_saved execution ordered with ⟨id, bound⟩
    exact Std.ExtTreeMap.mem_iff_isSome_getElem?.mpr
      (by rw [show (mapEntries config execution.final)[src]? = some id
        from bound]; rfl)

/-! ## Emitted ids -/

/-- The file binds every id `getId` has returned to the process, so the code
the process compiled can be decoded. -/
def Decodable (config : Config) (process : Nat) (world : World) : Prop :=
  ∀ (src : String) (id : Int),
    ⟨process, src, id⟩ ∈ world.returned → Binds config world src id

/-- Another process has published one of the new names of this process under
another id. -/
def Conflicts (config : Config) (process : Nat) (world : World) : Prop :=
  ∃ (self : IdMap) (src : String) (own published : Int),
    world.processes process = .running self ∧
      self.newIdMap[src]? = some own ∧
        Binds config world src published ∧ published ≠ own

/-- The ids of a process are decodable right after its save exactly when there
was no conflict right before it. -/
theorem decodable_of_save_iff
    {config : Config} {world saved : World} {process : Nat}
    (outcome : Outcome config world (.saveMap process) saved)
    (consistent : Consistent config world) :
    Decodable config process saved ↔ ¬ Conflicts config process world := by
  cases outcome with
  | @saveMap process self before =>
      have agrees := consistent process
      rw [before] at agrees
      constructor
      · intro decodable clash
        rcases clash with
          ⟨other, src, own, published, running, isNew, bound, different⟩
        obtain rfl := Process.running.inj (before.symm.trans running)
        have emitted := decodable src own
          (agrees.own self rfl src own isNew)
        have kept : Binds config _ src published :=
          binds_of_outcome (.saveMap before) bound
        exact different (Option.some.inj (kept.symm.trans emitted))
      · intro noConflict src id member
        simp only [Binds, mapEntries, saveMap_written, saveMap_idMap]
        rcases agrees.remembered self rfl src id member with known | own
        · have inFile : (fileEntries config.format world.mapFile)[src]? =
              some id := agrees.loaded self rfl src id known
          rw [inFile]
          rfl
        · cases bound : (fileEntries config.format world.mapFile)[src]? with
          | some published =>
              by_contra different
              refine noConflict
                ⟨self, src, id, published, before, own, bound, ?_⟩
              intro same
              subst same
              exact different rfl
          | none =>
              cases inMemory : self.idMap[src]? with
              | some known =>
                  have impossible := agrees.loaded self rfl src known inMemory
                  rw [mapEntries, bound] at impossible
                  cases impossible
              | none => exact own

/-- Right after each save, and ever after, the file binds every id the saving
process had been given. -/
def EverySaveDecodes
    {config : Config} (execution : Execution (processSystem config)) :
    Prop :=
  ∀ (saved : Execution (processSystem config)) (process : Nat)
      (earlier : List Action),
    saved.actions = earlier ++ [.saveMap process] →
    saved.actions <+: execution.actions →
      ∀ (src : String) (id : Int),
        ⟨process, src, id⟩ ∈ saved.final.returned →
          Binds config saved.final src id ∧
            Binds config execution.final src id

/-- No save of the execution is taken in a state where its process conflicts
with the file. -/
def NoSaveConflicts
    {config : Config} (execution : Execution (processSystem config)) :
    Prop :=
  ∀ (reached : Execution (processSystem config)) (process : Nat),
    reached.actions ++ [.saveMap process] <+: execution.actions →
      ¬ Conflicts config process reached.final

/-- Every emitted id can be decoded exactly in the executions without a
conflicting save. -/
theorem every_save_decodes_iff
    (config : Config) (execution : Execution (processSystem config)) :
    EverySaveDecodes execution ↔ NoSaveConflicts execution := by
  have continues :
      ∀ {actions : List Action} {middle : World},
        (processSystem config).run (processSystem config).initial actions =
            some middle →
        actions <+: execution.actions →
          ∃ rest, (processSystem config).run middle rest =
            some execution.final := by
    intro actions middle reached continues
    rcases continues with ⟨rest, whole⟩
    have valid := execution.valid
    rw [← whole] at valid
    rcases (processSystem config).run_append_eq_some.mp valid with
      ⟨other, before, after⟩
    obtain rfl : middle = other :=
      Option.some.inj (reached.symm.trans before)
    exact ⟨rest, after⟩
  constructor
  · intro decodes reached process isPrefix
    have valid := execution.valid
    rcases isPrefix with ⟨rest, whole⟩
    rw [← whole] at valid
    rcases (processSystem config).run_append_eq_some.mp valid with
      ⟨savedWorld, savedRun, _⟩
    rcases (processSystem config).run_append_eq_some.mp savedRun with
      ⟨before, beforeRun, saveRun⟩
    obtain rfl : reached.final = before :=
      Option.some.inj (reached.valid.symm.trans beforeRun)
    have saveStep :=
      (processSystem config).run_singleton_eq_some.mp saveRun
    rw [← decodable_of_save_iff (outcome_of_step saveStep)
      (consistent_of_execution reached)]
    intro src id member
    exact (decodes ⟨_, savedWorld, savedRun⟩ process reached.actions rfl
      ⟨rest, whole⟩ src id member).1
  · intro noConflicts saved process earlier ends isPrefix src id member
    have valid := saved.valid
    rw [ends] at valid
    rcases (processSystem config).run_append_eq_some.mp valid with
      ⟨before, beforeRun, saveRun⟩
    have saveStep :=
      (processSystem config).run_singleton_eq_some.mp saveRun
    have noConflict :=
      noConflicts ⟨earlier, before, beforeRun⟩ process
        (by rw [← ends]; exact isPrefix)
    have decodable :=
      (decodable_of_save_iff (outcome_of_step saveStep)
        (consistent_of_run beforeRun (consistent_initial config))).mpr
          noConflict
    rcases continues saved.valid isPrefix with ⟨rest, continued⟩
    exact ⟨decodable src id member,
      binds_of_run continued (decodable src id member)⟩

/-- Two processes meet the same new name; the second one's id is lost when it
saves after the first. -/
def conflictingActions : List Action :=
  [.readMap 0, .reserve 0, .readMap 1, .reserve 1, .getId 0 "counter",
    .getId 1 "counter", .saveMap 0, .saveMap 1]

theorem not_every_save_decodes :
    ¬ ∀ execution : Execution (processSystem Config.source),
      EverySaveDecodes execution := by
  intro decodes
  have evaluated :
      ((processSystem Config.source).run
        (processSystem Config.source).initial conflictingActions).any
          (fun world =>
            decide (⟨1, "counter", 1024⟩ ∈ world.returned) &&
              decide ((mapEntries Config.source world)["counter"]? =
                some (0 : Int))) = true := by
    decide +kernel
  rcases (Option.any_eq_true _ _).mp evaluated with ⟨final, valid, facts⟩
  simp only [Bool.and_eq_true, decide_eq_true_eq] at facts
  rcases facts with ⟨emitted, bound⟩
  let execution : Execution (processSystem Config.source) :=
    ⟨conflictingActions, final, valid⟩
  have decoded :=
    (decodes execution execution 1 (conflictingActions.take 7) rfl
      (List.prefix_refl _) "counter" 1024 emitted).1
  have impossible : (0 : Int) = 1024 :=
    Option.some.inj (bound.symm.trans decoded)
  exact absurd impossible (by decide)

end Dinamite.Maps
