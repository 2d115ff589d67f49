import Dinamite.Maps.Processes

/-!
# What the map file binds

`saveMap` reads the file over the names in memory and adds the new names only
where the file has none.  So a binding, once in the file, stays; a later
process takes it over; and the names a process saved stay keys of the file.
-/

namespace Dinamite.Maps

open Dinamite.Transition

/-- The map file binds the name to the id. -/
def Binds (config : Config) (world : World) (src : String) (id : Int) :
    Prop :=
  (mapEntries config world)[src]? = some id

/-- File before memory, memory before new names. -/
theorem saveMap_idMap
    (format : JsonFormat) (mapFile : File) (self : IdMap) (src : String) :
    (self.saveMap format mapFile).1.idMap[src]? =
      ((fileEntries format mapFile)[src]?.or self.idMap[src]?).or
        self.newIdMap[src]? := by
  simp only [IdMap.saveMap, Std.ExtTreeMap.getElem?_union,
    readMapFromJson_entries]

/-- The file holds what `id_map` holds after the save. -/
theorem saveMap_written
    (format : JsonFormat) (mapFile : File) (self : IdMap) :
    fileEntries format (some (self.saveMap format mapFile).2) =
      (self.saveMap format mapFile).1.idMap := by
  simp [IdMap.saveMap]

theorem lookup_eq
    (self : IdMap) (src : String) :
    self.lookup src = self.idMap[src]?.or self.newIdMap[src]? := by
  unfold IdMap.lookup
  cases self.idMap[src]? <;> rfl

theorem idMap_eq_none_of_lookup
    {self : IdMap} {src : String} (unknown : self.lookup src = none) :
    self.idMap[src]? = none := by
  rw [lookup_eq] at unknown
  exact (Option.or_eq_none_iff.mp unknown).1

/-! ## Bindings are permanent -/

theorem binds_of_outcome
    {config : Config} {world next : World} {action : Action}
    {src : String} {id : Int}
    (outcome : Outcome config world action next)
    (bound : Binds config world src id) :
    Binds config next src id := by
  cases outcome with
  | saveMap before =>
      have kept : (fileEntries config.format world.mapFile)[src]? =
          some id := bound
      simp only [Binds, mapEntries, saveMap_written, saveMap_idMap, kept,
        Option.some_or]
  | _ => exact bound

theorem binds_of_run
    {config : Config} {world final : World} {actions : List Action}
    {src : String} {id : Int}
    (continued : (processSystem config).run world actions = some final)
    (bound : Binds config world src id) :
    Binds config final src id :=
  (processSystem config).run_invariant
    (fun state => Binds config state src id)
    (fun _ _ _ stepped held =>
      binds_of_outcome (outcome_of_step stepped) held)
    continued bound

/-! ## Later processes take a binding over -/

/-- The process, as far as it exists, answers `src` with `id`. -/
structure Follows
    (config : Config) (process : Nat) (src : String) (id : Int)
    (world : World) : Prop where
  bound : Binds config world src id
  loaded :
    ∀ self, (world.processes process).object = some self →
      self.idMap[src]? = some id
  pending :
    ∀ self name, world.processes process = .drawing self name →
      name ≠ src
  answered :
    ∀ entry ∈ world.returned,
      entry.process = process → entry.src = src → entry.id = id

private theorem Follows.of_now
    {config : Config} {world next : World} {process : Nat}
    {src : String} {id : Int} {now : Process}
    (follows : Follows config process src id world)
    (bound : Binds config next src id)
    (stands : next.processes process = now)
    (loaded :
      ∀ self, now.object = some self → self.idMap[src]? = some id)
    (pending : ∀ self name, now = .drawing self name → name ≠ src)
    (answered :
      ∀ entry ∈ next.returned,
        entry ∈ world.returned ∨ (entry.src = src → entry.id = id)) :
    Follows config process src id next := by
  refine ⟨bound, ?_, ?_, ?_⟩
  · rw [stands]
    exact loaded
  · rw [stands]
    exact pending
  · intro entry member isProcess isSrc
    rcases answered entry member with earlier | agrees
    · exact follows.answered entry earlier isProcess isSrc
    · exact agrees isSrc

private theorem Follows.of_running
    {config : Config} {world next : World} {process : Nat}
    {src : String} {id : Int} {self : IdMap}
    (follows : Follows config process src id world)
    (bound : Binds config next src id)
    (stands : next.processes process = .running self)
    (loaded : self.idMap[src]? = some id)
    (answered :
      ∀ entry ∈ next.returned,
        entry ∈ world.returned ∨ (entry.src = src → entry.id = id)) :
    Follows config process src id next := by
  apply follows.of_now bound stands _ _ answered
  · intro other same
    cases same
    exact loaded
  · intro other name same
    cases same

/-- One more id has been returned. -/
private theorem answered_cons
    {returned : List Returned} {answer : Returned} {src : String} {id : Int}
    (agrees : answer.src = src → answer.id = id) :
    ∀ entry ∈ answer :: returned,
      entry ∈ returned ∨ (entry.src = src → entry.id = id) := by
  intro entry member
  rcases List.mem_cons.mp member with rfl | earlier
  · exact Or.inr agrees
  · exact Or.inl earlier

/-- The acting process keeps answering from the file's binding: its `id_map`
was read from the file, and a name in `id_map` never reaches the chunk. -/
private theorem follows_of_own_outcome
    {config : Config} {world next : World} {action : Action}
    {src : String} {id : Int}
    (outcome : Outcome config world action next)
    (follows : Follows config action.process src id world) :
    Follows config action.process src id next := by
  have bound := binds_of_outcome outcome follows.bound
  have loaded := follows.loaded
  have unchanged :
      ∀ entry ∈ world.returned,
        entry ∈ world.returned ∨ (entry.src = src → entry.id = id) :=
    fun entry member => Or.inl member
  cases outcome with
  | readMap before =>
      apply follows.of_now bound (World.withProcess_self _ _ _) _ _ unchanged
      · intro self same
        cases same
        exact follows.bound
      · intro self name same
        cases same
  | @reserve process self before =>
      simp only [Action.process, before, Process.object] at loaded
      exact follows.of_running bound (World.withProcess_self _ _ _)
        (loaded self rfl) unchanged
  | @known process self name answer before found =>
      simp only [Action.process, before, Process.object] at loaded
      apply follows.of_running bound before (loaded self rfl)
      apply answered_cons
      intro sameName
      dsimp only at sameName
      subst sameName
      rw [lookup_eq, loaded self rfl] at found
      exact (Option.some.inj found).symm
  | @refill process self name before unknown empty =>
      simp only [Action.process, before, Process.object] at loaded
      apply follows.of_now bound (World.withProcess_self _ _ _) _ _ unchanged
      · intro other same
        cases same
        exact loaded self rfl
      · rintro other otherName ⟨⟩ rfl
        have missing := idMap_eq_none_of_lookup unknown
        rw [loaded self rfl] at missing
        cases missing
  | @fresh process self name before unknown available =>
      simp only [Action.process, before, Process.object] at loaded
      apply follows.of_running bound (World.withProcess_self _ _ _)
        (loaded self rfl)
      apply answered_cons
      intro sameName
      dsimp only at sameName
      subst sameName
      have missing := idMap_eq_none_of_lookup unknown
      rw [loaded self rfl] at missing
      cases missing
  | @takeId process self name before =>
      have waits := follows.pending self name before
      simp only [Action.process, before, Process.object] at loaded
      apply follows.of_running bound (World.withProcess_self _ _ _)
        (loaded self rfl)
      exact answered_cons fun sameName => absurd sameName waits
  | saveMap before =>
      apply follows.of_running bound (World.withProcess_self _ _ _) _
        unchanged
      rw [saveMap_idMap]
      have kept : (fileEntries config.format world.mapFile)[src]? =
          some id := follows.bound
      rw [kept]
      rfl
  | destroy before =>
      apply follows.of_now bound (World.withProcess_self _ _ _) _ _ unchanged
      · intro self same
        cases same
      · intro self name same
        cases same
  | stop before =>
      apply follows.of_now bound (World.withProcess_self _ _ _) _ _ unchanged
      · intro self same
        cases same
      · intro self name same
        cases same

theorem follows_of_outcome
    {config : Config} {world next : World} {action : Action}
    {process : Nat} {src : String} {id : Int}
    (outcome : Outcome config world action next)
    (follows : Follows config process src id world) :
    Follows config process src id next := by
  by_cases acts : process = action.process
  · subst acts
    exact follows_of_own_outcome outcome follows
  · have same := outcome_other outcome acts
    refine ⟨binds_of_outcome outcome follows.bound, ?_, ?_, ?_⟩
    · rw [same]
      exact follows.loaded
    · rw [same]
      exact follows.pending
    · intro entry member isProcess isSrc
      rcases outcome_returned outcome member with earlier | byActor
      · exact follows.answered entry earlier isProcess isSrc
      · exact absurd (isProcess.symm.trans byActor) acts

/-! ## Names, files and returned ids agree -/

/-- One process agrees with the bindings of the file and with the ids that have
been returned. -/
structure Agrees
    (bindings : IntMap) (returned : List Returned) (process : Nat)
    (now : Process) : Prop where
  started :
    now = .absent → ∀ (src : String) (id : Int), ⟨process, src, id⟩ ∉ returned
  remembered :
    ∀ self, now.object = some self →
      ∀ (src : String) (id : Int), ⟨process, src, id⟩ ∈ returned →
        self.idMap[src]? = some id ∨ self.newIdMap[src]? = some id
  loaded :
    ∀ self, now.object = some self →
      ∀ (src : String) (id : Int), self.idMap[src]? = some id →
        bindings[src]? = some id
  own :
    ∀ self, now.object = some self →
      ∀ (src : String) (id : Int), self.newIdMap[src]? = some id →
        ⟨process, src, id⟩ ∈ returned
  pending :
    ∀ self name, now = .drawing self name → self.lookup name = none

/-- All processes agree with the file and with what has been returned. -/
def Consistent (config : Config) (world : World) : Prop :=
  ∀ process,
    Agrees (mapEntries config world) world.returned process
      (world.processes process)

section AgreesSteps

variable {bindings : IntMap} {returned : List Returned} {process : Nat}

theorem Agrees.readMap
    (agrees : Agrees bindings returned process .absent) :
    Agrees bindings returned process
      (.constructing { idMap := bindings }) := by
  refine ⟨?_, ?_, ?_, ?_, ?_⟩
  · intro same
    cases same
  · rintro self ⟨⟩ src id member
    exact absurd member (agrees.started rfl src id)
  · rintro self ⟨⟩ src id found
    exact found
  · rintro self ⟨⟩ src id found
    simp at found
  · intro self name same
    cases same

/-- Replacing the chunk, or moving on inside `getId`, keeps the names. -/
theorem Agrees.sameNames
    {now later : Process} {self other : IdMap}
    (agrees : Agrees bindings returned process now)
    (before : now.object = some self)
    (after : later.object = some other)
    (sameIdMap : other.idMap = self.idMap)
    (sameNewIdMap : other.newIdMap = self.newIdMap)
    (pending :
      ∀ held name, later = .drawing held name →
        self.lookup name = none) :
    Agrees bindings returned process later := by
  have only :
      ∀ held, later.object = some held → held = other := by
    intro held found
    exact Option.some.inj (found.symm.trans after)
  refine ⟨?_, ?_, ?_, ?_, ?_⟩
  · intro same
    subst same
    cases after
  · intro held found src id member
    rw [only held found, sameIdMap, sameNewIdMap]
    exact agrees.remembered self before src id member
  · intro held found src id bound
    rw [only held found, sameIdMap] at bound
    exact agrees.loaded self before src id bound
  · intro held found src id bound
    rw [only held found, sameNewIdMap] at bound
    exact agrees.own self before src id bound
  · intro held name drawing
    have isOther : held = other := only held (by rw [drawing]; rfl)
    have missing := pending held name drawing
    rw [lookup_eq] at missing ⊢
    rw [isOther, sameIdMap, sameNewIdMap]
    exact missing

/-- A known name is answered from memory. -/
theorem Agrees.answer
    {now : Process} {self : IdMap} {src : String} {id : Int}
    (agrees : Agrees bindings returned process now)
    (before : now.object = some self)
    (found : self.lookup src = some id) :
    Agrees bindings (⟨process, src, id⟩ :: returned) process now := by
  refine ⟨?_, ?_, agrees.loaded, ?_, agrees.pending⟩
  · intro same
    subst same
    cases before
  · intro held isHeld name answer member
    obtain rfl : held = self :=
      Option.some.inj (isHeld.symm.trans before)
    rcases List.mem_cons.mp member with same | earlier
    · rcases Returned.mk.inj same with ⟨-, rfl, rfl⟩
      rw [lookup_eq] at found
      rcases Option.or_eq_some_iff.mp found with file | ⟨_, own⟩
      · exact Or.inl file
      · exact Or.inr own
    · exact agrees.remembered held before name answer earlier
  · intro held isHeld name answer bound
    exact List.mem_cons_of_mem _ (agrees.own held isHeld name answer bound)

/-- A new id is returned and remembered under its name. -/
theorem Agrees.take
    {now : Process} {self : IdMap} {src : String}
    (agrees : Agrees bindings returned process now)
    (before : now.object = some self)
    (unknown : self.lookup src = none) :
    Agrees bindings
      (⟨process, src, (self.takeId src).1⟩ :: returned) process
      (.running (self.takeId src).2) := by
  have missing := unknown
  rw [lookup_eq] at missing
  rcases Option.or_eq_none_iff.mp missing with ⟨notFile, notOwn⟩
  refine ⟨?_, ?_, ?_, ?_, ?_⟩
  · intro same
    cases same
  · rintro held ⟨⟩ name answer member
    simp only [IdMap.takeId, getElem?_insert]
    rcases List.mem_cons.mp member with same | earlier
    · rcases Returned.mk.inj same with ⟨-, rfl, rfl⟩
      exact Or.inr (if_pos rfl)
    · have remembered :=
        agrees.remembered self before name answer earlier
      by_cases sameName : src = name
      · subst sameName
        rw [notFile, notOwn] at remembered
        simp at remembered
      · rw [if_neg sameName]
        exact remembered
  · rintro held ⟨⟩ name answer bound
    exact agrees.loaded self before name answer bound
  · rintro held ⟨⟩ name answer bound
    simp only [IdMap.takeId, getElem?_insert] at bound
    by_cases sameName : src = name
    · subst sameName
      rw [if_pos rfl] at bound
      obtain rfl := Option.some.inj bound
      exact List.mem_cons_self
    · rw [if_neg sameName] at bound
      exact List.mem_cons_of_mem _
        (agrees.own self before name answer bound)
  · intro held name same
    cases same

theorem Agrees.saveMap
    {format : JsonFormat} {mapFile : File} {now : Process}
    {self : IdMap}
    (agrees : Agrees (fileEntries format mapFile) returned process now)
    (before : now.object = some self) :
    Agrees (self.saveMap format mapFile).1.idMap returned process
      (.running (self.saveMap format mapFile).1) := by
  refine ⟨?_, ?_, ?_, ?_, ?_⟩
  · intro same
    cases same
  · rintro held ⟨⟩ src id member
    rcases agrees.remembered self before src id member with file | own
    · refine Or.inl ?_
      rw [saveMap_idMap, agrees.loaded self before src id file]
      rfl
    · exact Or.inr own
  · rintro held ⟨⟩ src id bound
    exact bound
  · rintro held ⟨⟩ src id bound
    exact agrees.own self before src id bound
  · intro held name same
    cases same

theorem Agrees.ended :
    Agrees bindings returned process .ended :=
  ⟨nofun, nofun, nofun, nofun, nofun⟩

/-- Another process may return ids and add bindings. -/
theorem Agrees.mono
    {later : IntMap} {more : List Returned} {now : Process}
    (agrees : Agrees bindings returned process now)
    (bound :
      ∀ (src : String) (id : Int), bindings[src]? = some id →
        later[src]? = some id)
    (sameReturned :
      ∀ (src : String) (id : Int), ⟨process, src, id⟩ ∈ more ↔
        ⟨process, src, id⟩ ∈ returned) :
    Agrees later more process now := by
  refine ⟨?_, ?_, ?_, ?_, agrees.pending⟩
  · intro absent src id member
    exact agrees.started absent src id ((sameReturned src id).mp member)
  · intro self isSelf src id member
    exact agrees.remembered self isSelf src id
      ((sameReturned src id).mp member)
  · intro self isSelf src id found
    exact bound src id (agrees.loaded self isSelf src id found)
  · intro self isSelf src id found
    exact (sameReturned src id).mpr (agrees.own self isSelf src id found)

end AgreesSteps

/-- The acting process still agrees after its step. -/
private theorem agrees_of_own_outcome
    {config : Config} {world next : World} {action : Action}
    (outcome : Outcome config world action next)
    (consistent : Consistent config world) :
    Agrees (mapEntries config next) next.returned action.process
      (next.processes action.process) := by
  have agrees := consistent action.process
  cases outcome with
  | readMap before =>
      simp only [Action.process, before] at agrees
      simp only [Action.process, World.withProcess_self]
      exact agrees.readMap
  | @reserve process self before =>
      simp only [Action.process, before] at agrees
      simp only [Action.process, World.withProcess_self]
      refine agrees.sameNames rfl rfl rfl rfl ?_
      intro held name same
      cases same
  | @known process self src id before found =>
      simp only [Action.process, before] at agrees
      simp only [Action.process, World.record_processes, before]
      exact agrees.answer rfl found
  | @refill process self src before unknown empty =>
      simp only [Action.process, before] at agrees
      simp only [Action.process, World.withProcess_self]
      refine agrees.sameNames rfl rfl rfl rfl ?_
      intro held name same
      cases same
      exact unknown
  | @fresh process self src before unknown available =>
      simp only [Action.process, before] at agrees
      simp only [Action.process, finishGetId, World.record_processes,
        World.withProcess_self]
      exact agrees.take rfl unknown
  | @takeId process self src before =>
      simp only [Action.process, before] at agrees
      have unknown := agrees.pending self src rfl
      simp only [Action.process, finishGetId, World.record_processes,
        World.withProcess_self]
      exact agrees.take rfl unknown
  | @saveMap process self before =>
      simp only [Action.process, before, mapEntries] at agrees
      simp only [Action.process, World.withProcess_self, mapEntries,
        saveMap_written]
      exact agrees.saveMap rfl
  | destroy before =>
      simpa [Action.process] using Agrees.ended
  | stop before =>
      simpa [Action.process] using Agrees.ended

theorem consistent_of_outcome
    {config : Config} {world next : World} {action : Action}
    (outcome : Outcome config world action next)
    (consistent : Consistent config world) :
    Consistent config next := by
  intro process
  by_cases acts : process = action.process
  · subst acts
    exact agrees_of_own_outcome outcome consistent
  · rw [outcome_other outcome acts]
    refine (consistent process).mono
      (fun src id => binds_of_outcome outcome) ?_
    intro src id
    constructor
    · intro member
      rcases outcome_returned outcome member with earlier | byActor
      · exact earlier
      · exact absurd byActor acts
    · exact outcome_returned_mono outcome

theorem consistent_initial (config : Config) :
    Consistent config (processSystem config).initial := by
  intro process
  refine ⟨?_, nofun, nofun, nofun, nofun⟩
  intro _ src id same
  cases same

theorem consistent_of_run
    {config : Config} {world final : World} {actions : List Action}
    (continued : (processSystem config).run world actions = some final)
    (consistent : Consistent config world) :
    Consistent config final :=
  (processSystem config).run_invariant (Consistent config)
    (fun _ _ _ stepped held =>
      consistent_of_outcome (outcome_of_step stepped) held)
    continued consistent

end Dinamite.Maps
