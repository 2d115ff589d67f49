import Dinamite.Maps.Linearized

/-!
# Runs of locked sections

What the lock files are good for: to everyone who looks at the files under a
lock, a run of interleaved sections is a run of atomic steps, and no process
waits for a lock that is never released.
-/

namespace Dinamite.Maps

open Dinamite.Transition

/-! ## Refinement -/

section Refinement

variable {config : Config}

/-- Atomic steps are steps of the system with interrupted writes. -/
theorem run_acts
    {world target : World} {actions : List Action}
    (ran : (processSystem config).run world actions = some target)
    {state : CrashWorld} (same : state.world = world) :
    ∃ final,
      (crashSystem config).run state (actions.map .act) = some final ∧
        final.world = target := by
  induction actions generalizing world state with
  | nil =>
      obtain rfl : world = target := by simpa using ran
      exact ⟨state, rfl, same⟩
  | cons action rest inductionHypothesis =>
      rcases System.run_cons_eq_some _ |>.mp ran with
        ⟨next, stepped, continued⟩
      have moved :
          crashStep config state (.act action) =
            some { state with
              world := next
              lost := if isSave action then none else state.lost } := by
        rw [crashStep, same,
          show step config world action = some next from stepped]
        rfl
      have reached :
          CrashWorld.world
              { state with
                world := next
                lost := if isSave action then none else state.lost } =
            next :=
        rfl
      rcases inductionHypothesis continued reached with
        ⟨final, later, behind⟩
      exact ⟨final,
        (System.run_cons_eq_some _).mpr ⟨_, moved, later⟩, behind⟩

/-- An interrupted write is a step of the system with interrupted writes. -/
theorem crashStep_torn
    {state : CrashWorld} {action : Action} {written : Nat} {next : World}
    (torn : tear config state.world action written = some next) :
    ∃ final, crashStep config state (.torn action written) = some final ∧
      final.world = next := by
  rw [crashStep, torn, Option.map_some]
  refine ⟨_, rfl, ?_⟩
  split <;> rfl

/-- Sections under locks refine atomic sections, killed writes included. -/
def lockSimulation (config : Config) :
    Simulation (lockSystem config) (crashSystem config) where
  Related := fun state crash => Linearized config state crash.world
  initial := linearized_initial config
  step := by
    intro state action next crash stepped linearized
    rcases matched_of_step stepped linearized with
      ⟨atomicNext, isMatched, linearizedNext⟩
    cases isMatched with
    | acts ran =>
        rcases run_acts ran rfl with ⟨final, moves, rfl⟩
        exact ⟨_, final, moves, linearizedNext⟩
    | @cut cutAction written cuts torn =>
        rcases crashStep_torn torn with ⟨final, moved, rfl⟩
        exact ⟨[.torn cutAction written], final,
          (System.run_singleton_eq_some _).mpr moved, linearizedNext⟩

/-- Without a killed write the atomic system is enough. -/
theorem exists_atomic_of_uncut
    (execution : Execution (lockSystem config))
    (uncut :
      (lockSystem config).Guarded
        (fun state action => cutsWrite config state action = false)
        (lockSystem config).initial execution.actions) :
    ∃ image : Execution (processSystem config),
      Linearized config execution.final image.final := by
  refine (lockSystem config).guarded_run_invariant
    (fun state => ∃ image : Execution (processSystem config),
      Linearized config state image.final)
    ?_ uncut execution.valid
    ⟨⟨[], _, rfl⟩, linearized_initial config⟩
  intro state action next notCut stepped reached
  rcases reached with ⟨image, linearized⟩
  rcases matched_of_step stepped linearized with
    ⟨atomicNext, isMatched, linearizedNext⟩
  cases isMatched with
  | acts ran =>
      exact ⟨⟨_, atomicNext,
        (System.run_append_eq_some _).mpr ⟨_, image.valid, ran⟩⟩,
        linearizedNext⟩
  | cut cuts torn =>
      rw [notCut] at cuts
      cases cuts

theorem exists_linearized
    (execution : Execution (lockSystem config)) :
    ∃ atomic, Linearized config execution.final atomic := by
  rcases (lockSimulation config).exists_execution execution with
    ⟨image, linearized⟩
  exact ⟨image.final.world, linearized⟩

end Refinement

/-! ## Seen from outside of the sections -/

/-- The ids handed out, the files nobody has locked, the processes outside of
sections, and what a section has just read, are those of the atomic world. -/
structure LooksLike (state : LockWorld) (atomic : World) : Prop where
  returned : state.world.returned = atomic.returned
  files :
    ∀ lock, state.locks lock = none →
      state.world.file lock = atomic.file lock
  processes :
    ∀ process, state.sections process = none →
      state.world.processes process = atomic.processes process
  loaded :
    ∀ process action lock content,
      state.sections process =
          some ⟨action, lock, .loaded content none⟩ →
        content = atomic.file lock

theorem Linearized.looksLike
    {config : Config} {state : LockWorld} {atomic : World}
    (linearized : Linearized config state atomic) :
    LooksLike state atomic where
  returned := linearized.returned.symm
  files := fun lock free => (linearized.files lock free).symm
  processes := fun process outside =>
    (linearized.outside process outside).symm
  loaded := by
    intro process action lock content isSection
    have progress :
        Progress config state.world atomic process action lock
          (.loaded content none) :=
      (linearized.inside process _ isSection).progress
    cases progress with
    | loaded sameProcess sameFile => rfl

/-- No process is killed while it writes. -/
abbrev Uncut (config : Config) (actions : List LockAction) : Prop :=
  (lockSystem config).Guarded
    (fun state action => cutsWrite config state action = false)
    (lockSystem config).initial actions

/-- Every run of interleaved sections looks like a run of atomic sections in
which writes may be interrupted, and like one in which none is if no process
was killed while it wrote. -/
theorem locked_sections_are_atomic
    (config : Config) (execution : Execution (lockSystem config)) :
    (∃ image : Execution (crashSystem config),
      LooksLike execution.final image.final.world) ∧
      (Uncut config execution.actions →
        ∃ image : Execution (processSystem config),
          LooksLike execution.final image.final) := by
  constructor
  · rcases (lockSimulation config).exists_execution execution with
      ⟨image, linearized⟩
    exact ⟨image, Linearized.looksLike linearized⟩
  · intro uncut
    rcases exists_atomic_of_uncut execution uncut with ⟨image, linearized⟩
    exact ⟨image, linearized.looksLike⟩

/-! ## Ids -/

/-- Two returns of one id are for one name, and no map file that can be read
binds an id twice, however the sections interleave. -/
theorem locked_ids_identify_names
    (config : Config) (execution : Execution (lockSystem config))
    (uncut : Uncut config execution.actions) :
    (∀ left ∈ execution.final.world.returned,
      ∀ right ∈ execution.final.world.returned,
        left.id = right.id → left.src = right.src) ∧
      (execution.final.locks .map = none →
        ∀ (left right : String) (id : Int),
          Binds config execution.final.world left id →
            Binds config execution.final.world right id →
              left = right) := by
  rcases exists_atomic_of_uncut execution uncut with ⟨image, linearized⟩
  rcases (poolSimulation config).exists_execution image with
    ⟨allocator, mirrors⟩
  constructor
  · rw [← linearized.returned]
    exact mirrors.named
  · intro free left right id leftBound rightBound
    have sameFile :
        image.final.mapFile = execution.final.world.mapFile :=
      linearized.files .map free
    rw [Binds, mapEntries, ← sameFile] at leftBound rightBound
    exact binds_injective image leftBound rightBound

/-- Two processes whose sections overlap. -/
def overlappingActions : List LockAction :=
  [.lock (.readMap 0), .read 0, .unlock 0, .lock (.reserve 0),
    .lock (.readMap 1), .read 0, .read 1, .write 0 3, .unlock 1,
    .write 0 112, .unlock 0, .act (.getId 0 "counter"),
    .lock (.saveMap 0), .lock (.reserve 1), .read 0, .write 0 0, .read 1,
    .write 1 177, .write 0 14, .unlock 0, .unlock 1,
    .act (.getId 1 "total")]

theorem locked_ids_identify_names_overlapping :
    ∃ execution : Execution (lockSystem Config.source),
      execution.actions = overlappingActions ∧
        (∀ left ∈ execution.final.world.returned,
          ∀ right ∈ execution.final.world.returned,
            left.id = right.id → left.src = right.src) ∧
          (execution.final.locks .map = none →
            ∀ (left right : String) (id : Int),
              Binds Config.source execution.final.world left id →
                Binds Config.source execution.final.world right id →
                  left = right) := by
  have enabled :
      ((lockSystem Config.source).run (lockSystem Config.source).initial
        overlappingActions).isSome = true := by
    decide +kernel
  have uncut : Uncut Config.source overlappingActions := by
    decide +kernel
  rcases Option.isSome_iff_exists.mp enabled with ⟨final, valid⟩
  exact ⟨⟨overlappingActions, final, valid⟩, rfl,
    locked_ids_identify_names Config.source
      ⟨overlappingActions, final, valid⟩ uncut⟩

/-! ## Locks are released -/

section Finish

variable {config : Config} {state : LockWorld} {atomic : World}
variable {process : Nat} {action : Action} {lock : Target}

def isKill : LockAction → Bool
  | .kill _ => true
  | _ => false

/-- The process is out of its section, and nobody else has moved. -/
structure Finished
    (state next : LockWorld) (process : Nat) (lock : Target) : Prop where
  sections :
    next.sections = Function.update state.sections process none
  locks : next.locks = Function.update state.locks lock none

/-- The process gets out of its section by its own steps. -/
def CanFinish
    (config : Config) (state : LockWorld) (process : Nat) (lock : Target) :
    Prop :=
  ∃ actions next, (lockSystem config).run state actions = some next ∧
    (∀ action ∈ actions, isKill action = false) ∧
      Finished state next process lock

theorem finished_leave (now : Process) :
    Finished state (state.leave process lock now) process lock :=
  ⟨rfl, rfl⟩

/-- One more step in front, which only changes the stage. -/
theorem CanFinish.cons
    {first : LockAction} {middle : LockWorld}
    (stepped : lockStep config state first = some middle)
    (notKill : isKill first = false) {current : Section}
    (sections :
      middle.sections =
        Function.update state.sections process (some current))
    (locks : middle.locks = state.locks)
    (later : CanFinish config middle process lock) :
    CanFinish config state process lock := by
  rcases later with ⟨actions, next, ran, noKill, finished⟩
  refine ⟨first :: actions, next,
    (System.run_cons_eq_some _).mpr ⟨middle, stepped, ran⟩, ?_, ?_, ?_⟩
  · intro other member
    rcases List.mem_cons.mp member with same | isLater
    · rw [same]
      exact notKill
    · exact noKill other isLater
  · rw [finished.sections, sections, Function.update_idem]
  · rw [finished.locks, locks]

theorem canFinish_of_complete
    {content : File} {written : Option Nat}
    (isSection :
      state.sections process =
        some ⟨action, lock, .loaded content written⟩)
    {now : Process} {text : Option (List Char)}
    (ran :
      runSection config content (state.world.processes process) action =
        some (now, text))
    (complete : written = text.map List.length) :
    CanFinish config state process lock := by
  refine ⟨[.unlock process], state.leave process lock now,
    (System.run_singleton_eq_some _).mpr ?_, ?_, finished_leave now⟩
  · simp only [lockSystem, lockStep, isSection, ran, if_pos complete]
  · intro other member
    rw [List.mem_singleton.mp member]
    rfl

/-- Write what is left of the text. -/
theorem canFinish_of_loaded
    {content : File} {written : Option Nat}
    (isSection :
      state.sections process =
        some ⟨action, lock, .loaded content written⟩)
    {now : Process} {text : Option (List Char)}
    (ran :
      runSection config content (state.world.processes process) action =
        some (now, text))
    (fits :
      written = none ∨
        ∃ full, text = some full ∧ written.getD 0 ≤ full.length) :
    CanFinish config state process lock := by
  cases text with
  | none =>
      rcases fits with fresh | ⟨full, isText, _⟩
      · exact canFinish_of_complete isSection ran fresh
      · cases isText
  | some full =>
      have room : written.getD 0 ≤ full.length := by
        rcases fits with fresh | ⟨other, isText, room⟩
        · rw [fresh]
          exact Nat.zero_le _
        · rw [Option.some.inj isText]
          exact room
      let middle : LockWorld :=
        { state.withSection process
            (some ⟨action, lock, .loaded content (some full.length)⟩) with
          world :=
            state.world.withFile lock (some (full.take full.length)) }
      have stepped :
          lockStep config state (.write process full.length) =
            some middle := by
        simp only [lockStep, isSection, ran]
        rw [if_pos ⟨room, le_refl _⟩]
      have ranNext :
          runSection config content (middle.world.processes process)
              action =
            some (now, some full) := by
        rw [World.withFile_processes]
        exact ran
      exact .cons stepped rfl rfl rfl
        (canFinish_of_complete (Function.update_self _ _ _) ranNext rfl)

theorem Linearized.canFinish
    (linearized : Linearized config state atomic) {current : Section}
    (isSection : state.sections process = some current) :
    CanFinish config state process current.lock := by
  rcases current with ⟨action, lock, stage⟩
  have inSection := linearized.inside process _ isSection
  have progress :
      Progress config state.world atomic process action lock stage :=
    inSection.progress
  have total :
      ∀ content, ∃ now text,
        runSection config content (state.world.processes process) action =
          some (now, text) :=
    fun content =>
      exists_section inSection.locked inSection.admitted content
  cases progress with
  | locked sameProcess sameFile =>
      rcases total (state.world.file lock) with ⟨now, text, ran⟩
      have stepped :
          lockStep config state (.read process) =
            some (state.withSection process
              (some ⟨action, lock,
                .loaded (state.world.file lock) none⟩)) := by
        simp only [lockStep, isSection]
      exact .cons stepped rfl rfl rfl
        (canFinish_of_loaded (Function.update_self _ _ _) ran
          (Or.inl rfl))
  | loaded sameProcess sameFile =>
      rcases total (atomic.file lock) with ⟨now, text, ran⟩
      exact canFinish_of_loaded isSection ran (Or.inl rfl)
  | writing sameProcess ran short cut =>
      exact canFinish_of_loaded isSection ran
        (Or.inr ⟨_, rfl, le_of_lt short⟩)
  | written ran behind file sameFile =>
      exact canFinish_of_loaded isSection ran
        (Or.inr ⟨_, rfl, le_refl _⟩)

/-- A lock that is held can be released by its holder. -/
theorem exists_released
    (execution : Execution (lockSystem config)) (lock : Target) :
    ∃ (actions : List LockAction) (next : LockWorld),
      (lockSystem config).run execution.final actions = some next ∧
        (∀ action ∈ actions, isKill action = false) ∧
          next.locks =
            Function.update execution.final.locks lock none := by
  cases holds : execution.final.locks lock with
  | none =>
      refine ⟨[], _, rfl, List.forall_mem_nil _, ?_⟩
      rw [← holds, Function.update_eq_self]
  | some holder =>
      rcases exists_linearized execution with ⟨atomic, linearized⟩
      rcases (linearized.held lock holder).mp holds with
        ⟨current, isSection, rfl⟩
      rcases linearized.canFinish isSection with
        ⟨actions, next, ran, noKill, finished⟩
      exact ⟨actions, next, ran, noKill, finished.locks⟩

end Finish

/-- Two processes are never in sections of one file, and from every state
reached the processes inside of sections can leave them, one after the other
and without being killed, until nothing is locked. -/
theorem locks_are_released
    (config : Config) (execution : Execution (lockSystem config)) :
    (∀ left right leftSection rightSection,
      execution.final.sections left = some leftSection →
        execution.final.sections right = some rightSection →
          leftSection.lock = rightSection.lock → left = right) ∧
      ∃ (actions : List LockAction) (last : LockWorld),
        (lockSystem config).run execution.final actions = some last ∧
          (∀ action ∈ actions, isKill action = false) ∧
            (∀ lock, last.locks lock = none) ∧
              ∀ process, last.sections process = none := by
  constructor
  · intro left right leftSection rightSection isLeft isRight sameLock
    rcases exists_linearized execution with ⟨atomic, linearized⟩
    by_contra different
    exact linearized.lock_ne different isRight isLeft sameLock
  · rcases exists_released execution .map with
      ⟨first, middle, firstRan, firstNoKill, mapFree⟩
    have middleValid :
        (lockSystem config).run (lockSystem config).initial
            (execution.actions ++ first) = some middle :=
      (System.run_append_eq_some _).mpr ⟨_, execution.valid, firstRan⟩
    rcases exists_released ⟨_, middle, middleValid⟩ .pool with
      ⟨second, last, secondRan, secondNoKill, poolFree⟩
    have lastValid :
        (lockSystem config).run (lockSystem config).initial
            (execution.actions ++ first ++ second) = some last :=
      (System.run_append_eq_some _).mpr ⟨_, middleValid, secondRan⟩
    have free : ∀ lock, last.locks lock = none := by
      intro lock
      simp only [poolFree, mapFree]
      cases lock <;> simp
    refine ⟨first ++ second, last,
      (System.run_append_eq_some _).mpr ⟨_, firstRan, secondRan⟩, ?_, free,
      ?_⟩
    · intro action member
      rcases List.mem_append.mp member with isFirst | isSecond
      · exact firstNoKill action isFirst
      · exact secondNoKill action isSecond
    · intro process
      rcases exists_linearized ⟨_, last, lastValid⟩ with
        ⟨atomic, linearized⟩
      cases isSection : last.sections process with
      | none => rfl
      | some current =>
          have holds :=
            (linearized.held _ _).mpr ⟨current, isSection, rfl⟩
          rw [free] at holds
          cases holds

end Dinamite.Maps
