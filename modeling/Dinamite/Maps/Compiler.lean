import Dinamite.MemoTable
import Dinamite.Maps.Published
import Dinamite.Maps.Uniqueness

/-!
# A compiler process among others

The calls of `getId` of one process, while other processes do what they like in
between.  To its process the map is a table that remembers its answers.
-/

namespace Dinamite.Maps

open Dinamite.Transition

/-! ## Calls of `getId` -/

section Calls

variable {config : Config}

/-- The others act; what one of them cannot do, it does not. -/
def waits
    (process : Nat) (execution : Execution (processSystem config))
    (others : List Action) : Execution (processSystem config) :=
  (others.filter fun action => action.process ≠ process).foldl
    Run.attempt execution

/-- A call of `getId`.  Others act `before` it and, if it takes a new chunk,
`between` the release of the lock and the taking of the id. -/
def callGetId
    (process : Nat) (execution : Execution (processSystem config))
    (src : String) (before between : List Action) :
    Execution (processSystem config) :=
  let asked := (waits process execution before).attempt (.getId process src)
  match asked.final.processes process with
  | .drawing _ _ =>
      (waits process asked between).attempt (.takeId process)
  | _ => asked

theorem waits_processes
    (process : Nat) (execution : Execution (processSystem config))
    (others : List Action) :
    (waits process execution others).final.processes process =
      execution.final.processes process := by
  unfold waits
  induction others generalizing execution with
  | nil => rfl
  | cons action rest inductionHypothesis =>
      by_cases own : action.process = process
      · rw [List.filter_cons_of_neg (by simp [own])]
        exact inductionHypothesis execution
      · rw [List.filter_cons_of_pos (by simp [own]), List.foldl_cons,
          inductionHypothesis]
        rcases execution.attempt_cases action with same | stepped
        · rw [same]
        · exact outcome_other (outcome_of_step stepped)
            (fun isOwn => own isOwn.symm)

/-- What a call of `getId` leaves: the process runs on, the name is known
under the id just returned, and what was known before still is. -/
def Answered
    (process : Nat) (src : String) (self : IdMap) (final : World) : Prop :=
  ∃ now id,
    final.processes process = .running now ∧
      final.returned.head? = some ⟨process, src, id⟩ ∧
        now.lookup src = some id ∧
          ∀ other known, self.lookup other = some known →
            now.lookup other = some known

theorem lookup_takeId_self (self : IdMap) {src : String}
    (unknown : self.idMap[src]? = none) :
    (self.takeId src).2.lookup src = some (self.takeId src).1 := by
  simp [IdMap.lookup, IdMap.takeId, unknown]

theorem lookup_takeId_of_ne
    (self : IdMap) {src other : String} (different : other ≠ src) :
    (self.takeId src).2.lookup other = self.lookup other := by
  have notSame : ¬ src = other := fun same => different same.symm
  simp [IdMap.lookup, IdMap.takeId, Std.ExtTreeMap.getElem?_insert, notSame]

theorem answered_of_takeId
    {world : World} {process : Nat} {src : String} {self known : IdMap}
    (unknown : self.lookup src = none)
    (same : ∀ other, known.lookup other = self.lookup other) :
    Answered process src known (finishGetId world process self src) := by
  have notLoaded : self.idMap[src]? = none := idMap_eq_none_of_lookup unknown
  refine ⟨(self.takeId src).2, (self.takeId src).1, ?_, rfl,
    lookup_takeId_self self notLoaded, ?_⟩
  · simp [finishGetId]
  · intro other id found
    rw [same] at found
    have different : other ≠ src := by
      intro isSame
      rw [isSame, unknown] at found
      cases found
    rw [lookup_takeId_of_ne self different]
    exact found

/-- Without a new chunk the call is one step. -/
theorem callGetId_of_running
    {process : Nat} {execution : Execution (processSystem config)}
    {src : String} {before : List Action} {next : World} {now : IdMap}
    (stepped :
      step config (waits process execution before).final
          (.getId process src) =
        some next)
    (running : next.processes process = .running now)
    (between : List Action) :
    (callGetId process execution src before between).final = next := by
  have asked :
      ((waits process execution before).attempt
        (.getId process src)).final = next :=
    Run.attempt_of_step stepped
  unfold callGetId
  simp only [asked, running]

/-- With a new chunk it is two. -/
theorem callGetId_of_drawing
    {process : Nat} {execution : Execution (processSystem config)}
    {src : String} {before : List Action} {next : World} {now : IdMap}
    (stepped :
      step config (waits process execution before).final
          (.getId process src) =
        some next)
    (drawing : next.processes process = .drawing now src)
    (between : List Action) :
    ∃ world,
      (callGetId process execution src before between).final =
        finishGetId world process now src := by
  have asked :
      ((waits process execution before).attempt
        (.getId process src)).final = next :=
    Run.attempt_of_step stepped
  let waited :=
    waits process
      ((waits process execution before).attempt (.getId process src)) between
  have stillDrawing :
      waited.final.processes process = .drawing now src := by
    rw [waits_processes, asked, drawing]
  have taken :
      (processSystem config).step waited.final (.takeId process) =
        some (finishGetId waited.final process now src) := by
    simp only [processSystem, step, stillDrawing]
  refine ⟨waited.final, ?_⟩
  unfold callGetId
  simp only [asked, drawing]
  exact Run.attempt_of_step taken

theorem answered_of_callGetId
    {process : Nat} {execution : Execution (processSystem config)}
    {self : IdMap}
    (running : execution.final.processes process = .running self)
    (src : String) (before between : List Action) :
    Answered process src self
      (callGetId process execution src before between).final := by
  have runsOn :
      (waits process execution before).final.processes process =
        .running self := by
    rw [waits_processes, running]
  cases known : self.lookup src with
  | some id =>
      have stepped :
          step config (waits process execution before).final
              (.getId process src) =
            some ((waits process execution before).final.record process src
              id) := by
        simp only [step, runsOn, known]
      rw [callGetId_of_running stepped runsOn between]
      exact ⟨self, id, runsOn, rfl, known, fun _ _ found => found⟩
  | none =>
      cases empty : self.exhausted with
      | false =>
          have stepped :
              step config (waits process execution before).final
                  (.getId process src) =
                some (finishGetId (waits process execution before).final
                  process self src) := by
            simp only [step, runsOn, known, empty]
            rfl
          have running :
              (finishGetId (waits process execution before).final process
                self src).processes process =
                .running (self.takeId src).2 := by
            simp [finishGetId]
          rw [callGetId_of_running stepped running between]
          exact answered_of_takeId known fun _ => rfl
      | true =>
          let reserved :=
            self.reserve config.format config.chunkSize
              (waits process execution before).final.poolFile
          have stepped :
              step config (waits process execution before).final
                  (.getId process src) =
                some { (waits process execution before).final.withProcess
                    process (.drawing reserved.1 src) with
                  poolFile := some reserved.2 } := by
            simp only [step, runsOn, known, empty, if_true]
            rfl
          have drawing :
              ((waits process execution before).final.withProcess process
                (.drawing reserved.1 src)).processes process =
                .drawing reserved.1 src :=
            World.withProcess_self _ _ _
          rcases callGetId_of_drawing stepped drawing between with
            ⟨world, isFinal⟩
          rw [isFinal]
          have same :
              ∀ other, self.lookup other = reserved.1.lookup other :=
            fun _ => rfl
          exact answered_of_takeId ((same src).symm.trans known) same

end Calls

/-! ## The table of one process -/

/-- A process that has its map and is in no call.  `others` is what the other
processes are going to do in between. -/
structure Compiler (config : Config) where
  process : Nat
  execution : Execution (processSystem config)
  others : List (List Action)
  running : ∃ self, execution.final.processes process = .running self

namespace Compiler

variable {config : Config}

/-- The constructor of `IdMap`, in a process that has no map yet. -/
def construct
    (process : Nat) (execution : Execution (processSystem config))
    (absent : execution.final.processes process = .absent)
    (others : List (List Action)) : Compiler config where
  process := process
  execution :=
    (execution.attempt (.readMap process)).attempt (.reserve process)
  others := others
  running := by
    have loaded :
        ∃ self, (execution.attempt (.readMap process)).final.processes
          process = .constructing self := by
      have stepped :
          ∃ next, step config execution.final (.readMap process) =
              some next ∧
            ∃ self, next.processes process = .constructing self := by
        simp only [step, absent]
        exact ⟨_, rfl, _, World.withProcess_self _ _ _⟩
      rcases stepped with ⟨next, stepped, constructing⟩
      rw [Run.attempt_of_step stepped]
      exact constructing
    rcases loaded with ⟨self, constructing⟩
    have stepped :
        ∃ next,
          step config (execution.attempt (.readMap process)).final
              (.reserve process) = some next ∧
            ∃ self, next.processes process = .running self := by
      simp only [step, constructing]
      exact ⟨_, rfl, _, World.withProcess_self _ _ _⟩
    rcases stepped with ⟨next, stepped, running⟩
    rw [Run.attempt_of_step stepped]
    exact running

def lookup (compiler : Compiler config) (src : String) : Option Int :=
  (compiler.execution.final.processes compiler.process).object.bind
    fun self => self.lookup src

/-- The object after the call, with the id the call has returned. -/
def getId
    (compiler : Compiler config) (src : String) : Int × Compiler config :=
  let called :=
    callGetId compiler.process compiler.execution src
      (compiler.others.headD []) (compiler.others.tail.headD [])
  ((called.final.returned.head?.map Returned.id).getD 0,
    { process := compiler.process
      execution := called
      others := compiler.others.tail.tail
      running := by
        rcases compiler.running with ⟨self, running⟩
        rcases answered_of_callGetId running src
            (compiler.others.headD []) (compiler.others.tail.headD []) with
          ⟨now, _, nowRunning, _⟩
        exact ⟨now, nowRunning⟩ })

theorem lookup_of_running
    {compiler : Compiler config} {self : IdMap}
    (running :
      compiler.execution.final.processes compiler.process = .running self)
    (src : String) :
    compiler.lookup src = self.lookup src := by
  rw [lookup, running]
  rfl

theorem getId_answered
    (compiler : Compiler config) (src : String) :
    (compiler.getId src).2.lookup src = some (compiler.getId src).1 ∧
      ∀ other known, compiler.lookup other = some known →
        (compiler.getId src).2.lookup other = some known := by
  rcases compiler.running with ⟨self, running⟩
  rcases answered_of_callGetId running src (compiler.others.headD [])
      (compiler.others.tail.headD []) with
    ⟨now, id, nowRunning, returned, found, kept⟩
  have after :
      ∀ other, (compiler.getId src).2.lookup other = now.lookup other :=
    fun other => lookup_of_running nowRunning other
  constructor
  · rw [after, found]
    simp only [getId, returned, Option.map_some, Option.getD_some]
  · intro other known isKnown
    rw [lookup_of_running running] at isKnown
    rw [after]
    exact kept other known isKnown

end Compiler

/-- To its process the map is a table that remembers. -/
def compilerTable (config : Config) :
    MemoTable (Compiler config) String Int where
  ask := Compiler.getId
  lookup := Compiler.lookup
  lookup_ask := fun compiler src => (compiler.getId_answered src).1
  lookup_kept := fun compiler src other known found =>
    (compiler.getId_answered src).2 other known found

/-! ## Saving the map -/

/-- A save without a conflict leaves every name of the process in the file,
under the id the process knows it by. -/
theorem binds_of_saved_lookup
    {config : Config} {world saved : World} {process : Nat}
    (consistent : Consistent config world)
    (stepped : step config world (.saveMap process) = some saved)
    (noConflict : ¬ Conflicts config process world)
    {self : IdMap} (running : world.processes process = .running self)
    {src : String} {id : Int} (known : self.lookup src = some id) :
    Binds config saved src id := by
  have outcome := outcome_of_step stepped
  have agrees := consistent process
  rw [running] at agrees
  rw [lookup_eq, Option.or_eq_some_iff] at known
  rcases known with loaded | ⟨_, own⟩
  · exact binds_of_outcome outcome (agrees.loaded self rfl src id loaded)
  · exact (decodable_of_save_iff outcome consistent).mpr noConflict src id
      (outcome_returned_mono outcome (agrees.own self rfl src id own))

end Dinamite.Maps
