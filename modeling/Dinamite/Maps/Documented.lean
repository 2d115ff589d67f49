import Dinamite.Maps.Bindings

/-!
# Every binding was once returned

The map file and the memories of the processes hold nothing but names with ids
that some `getId` call has returned for them.
-/

namespace Dinamite.Maps

open Dinamite.Transition

/-- Some `getId` call for the name has returned the id. -/
def World.Returns (world : World) (src : String) (id : Int) : Prop :=
  ∃ process, ⟨process, src, id⟩ ∈ world.returned

/-- Every binding in the map file or in the memory of a process was once
returned by `getId`. -/
structure Documented (config : Config) (world : World) : Prop where
  published :
    ∀ (src : String) (id : Int),
      Binds config world src id → world.Returns src id
  remembered :
    ∀ process self, (world.processes process).object = some self →
      ∀ (src : String) (id : Int),
        self.idMap[src]? = some id ∨ self.newIdMap[src]? = some id →
          world.Returns src id

theorem documented_initial (config : Config) :
    Documented config (processSystem config).initial := by
  refine ⟨?_, nofun⟩
  intro src id bound
  simp [Binds, mapEntries, processSystem] at bound

theorem Documented.lookup
    {config : Config} {world : World}
    (documented : Documented config world)
    {process : Nat} {self : IdMap}
    (isObject : (world.processes process).object = some self)
    {src : String} {id : Int} (found : self.lookup src = some id) :
    world.Returns src id := by
  rw [lookup_eq] at found
  rcases Option.or_eq_some_iff.mp found with known | ⟨_, own⟩
  · exact documented.remembered process self isObject src id (Or.inl known)
  · exact documented.remembered process self isObject src id (Or.inr own)

/-- A save writes what was bound in the file or remembered by the process. -/
theorem Documented.saved
    {config : Config} {world : World}
    (documented : Documented config world)
    {process : Nat} {self : IdMap}
    (isObject : (world.processes process).object = some self)
    {src : String} {id : Int}
    (bound :
      (self.saveMap config.format world.mapFile).1.idMap[src]? =
        some id) :
    world.Returns src id := by
  have remembered :=
    documented.remembered process self isObject src id
  rw [saveMap_idMap] at bound
  rcases Option.or_eq_some_iff.mp bound with old | ⟨_, own⟩
  · rcases Option.or_eq_some_iff.mp old with file | ⟨_, memory⟩
    · exact documented.published src id file
    · exact remembered (Or.inl memory)
  · exact remembered (Or.inr own)

theorem returns_of_outcome
    {config : Config} {world next : World} {action : Action}
    (outcome : Outcome config world action next)
    {src : String} {id : Int} (returns : world.Returns src id) :
    next.Returns src id := by
  rcases returns with ⟨process, member⟩
  exact ⟨process, outcome_returned_mono outcome member⟩

private theorem documented_take
    {config : Config} {world : World} {process : Nat} {self : IdMap}
    {name : String}
    (documented : Documented config world)
    (before : (world.processes process).object = some self)
    {later : IdMap}
    (isObject :
      ((finishGetId world process self name).processes process).object =
        some later)
    {src : String} {id : Int}
    (known : later.idMap[src]? = some id ∨
      later.newIdMap[src]? = some id) :
    (finishGetId world process self name).Returns src id := by
  have mono :
      world.Returns src id →
        (finishGetId world process self name).Returns src id := by
    intro returns
    rcases returns with ⟨first, member⟩
    exact ⟨first, List.mem_cons_of_mem _ member⟩
  simp only [finishGetId, World.record_processes,
    World.withProcess_self] at isObject
  obtain rfl := Option.some.inj isObject
  have remembered := documented.remembered process self before src id
  rcases known with memory | own
  · exact mono (remembered (Or.inl memory))
  · simp only [IdMap.takeId, getElem?_insert] at own
    by_cases sameName : name = src
    · subst sameName
      rw [if_pos rfl] at own
      obtain rfl := Option.some.inj own
      exact ⟨process, List.mem_cons_self⟩
    · rw [if_neg sameName] at own
      exact mono (remembered (Or.inr own))

/-- What the acting process remembers after its step has been returned. -/
private theorem documented_own
    {config : Config} {world next : World} {action : Action}
    (outcome : Outcome config world action next)
    (documented : Documented config world)
    {later : IdMap}
    (isObject : (next.processes action.process).object = some later)
    {src : String} {id : Int}
    (known : later.idMap[src]? = some id ∨
      later.newIdMap[src]? = some id) :
    next.Returns src id := by
  have mono : world.Returns src id → next.Returns src id :=
    returns_of_outcome outcome
  cases outcome with
  | readMap before =>
      simp only [Action.process, World.withProcess_self] at isObject
      obtain rfl := Option.some.inj isObject
      rcases known with file | fresh
      · exact mono (documented.published src id file)
      · simp at fresh
  | @reserve process self before =>
      simp only [Action.process, World.withProcess_self] at isObject
      obtain rfl := Option.some.inj isObject
      exact mono (documented.remembered process self
        (by rw [before]; rfl) src id known)
  | @known process self name answer before found =>
      exact mono (documented.remembered process later isObject src id known)
  | @refill process self name before unknown empty =>
      simp only [Action.process, World.withProcess_self] at isObject
      obtain rfl := Option.some.inj isObject
      exact mono (documented.remembered process self
        (by rw [before]; rfl) src id known)
  | @fresh process self name before unknown available =>
      exact documented_take documented (by rw [before]; rfl) isObject known
  | @takeId process self name before =>
      exact documented_take documented (by rw [before]; rfl) isObject known
  | @saveMap process self before =>
      simp only [Action.process, World.withProcess_self] at isObject
      obtain rfl := Option.some.inj isObject
      have object : (world.processes process).object = some self := by
        rw [before]
        rfl
      rcases known with memory | own
      · exact mono (documented.saved object memory)
      · exact mono
          (documented.remembered process self object src id (Or.inr own))
  | destroy before =>
      simp only [Action.process, World.withProcess_self] at isObject
      cases isObject
  | stop before =>
      simp only [Action.process, World.withProcess_self] at isObject
      cases isObject

theorem documented_of_outcome
    {config : Config} {world next : World} {action : Action}
    (outcome : Outcome config world action next)
    (documented : Documented config world) :
    Documented config next := by
  constructor
  · intro src id bound
    have mono : world.Returns src id → next.Returns src id :=
      returns_of_outcome outcome
    cases outcome with
    | @saveMap process self before =>
        simp only [Binds, mapEntries, saveMap_written] at bound
        exact documented.saved (by rw [before]; rfl) bound
    | _ => exact mono (documented.published src id bound)
  · intro process self isObject src id known
    by_cases acts : process = action.process
    · subst acts
      exact documented_own outcome documented isObject known
    · rw [outcome_other outcome acts] at isObject
      exact returns_of_outcome outcome
        (documented.remembered process self isObject src id known)

end Dinamite.Maps
