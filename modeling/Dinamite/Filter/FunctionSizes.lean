import Dinamite.Filter.InstrumentationFilter
import Dinamite.Maps.Json11Prefix
import Dinamite.Transition

/-!
# The shared file of function sizes

Every compiler process reads `function_sizes.json` when its filter is
constructed and writes its own table over the file when the filter is
destroyed.  Nothing locks the file and nothing is read again before the write,
so a name written in between is lost unless the process knows it too.
-/

namespace Dinamite.Filter

open Dinamite.Transition
open Dinamite.Maps (IntMap JsonFormat File fileEntries fileEntries_some
  readMapFromJson writeMapToJson objectItems_written)

/-! ## One filter object -/

namespace InstrumentationFilter

/-- The constructor, with the content of the file. -/
def construct (format : JsonFormat) (file : File) : InstrumentationFilter :=
  { functions := (readMapFromJson format ∅ file).2 }

/-- The destructor: the new text of the file. -/
def destroy (format : JsonFormat) (self : InstrumentationFilter) :
    List Char :=
  writeMapToJson format self.functions

theorem checkFunctionSize_functions
    (self : InstrumentationFilter) (functionName : String) (size : Nat)
    (name : String) :
    name ∈ (self.checkFunctionSize functionName size).2.functions ↔
      name ∈ self.functions ∨ (size > 0 ∧ name = functionName) := by
  unfold checkFunctionSize
  dsimp only
  split
  · rename_i new
    rw [Std.ExtTreeMap.mem_insert, Std.LawfulEqCmp.compare_eq_iff_eq]
    constructor
    · intro either
      rcases either with same | known
      · exact Or.inr ⟨new.1, same.symm⟩
      · exact Or.inl known
    · intro either
      rcases either with known | ⟨_, same⟩
      · exact Or.inr known
      · exact Or.inl same.symm
  · rename_i notNew
    constructor
    · exact Or.inl
    · intro either
      rcases either with known | ⟨positive, rfl⟩
      · exact known
      · rw [Std.ExtTreeMap.mem_iff_isSome_getElem?, Option.isSome_iff_ne_none]
        exact fun missing => notNew ⟨positive, missing⟩

theorem loadFilterData_functions
    (self : InstrumentationFilter) (file : File) :
    (self.loadFilterData file).functions = self.functions := by
  cases file with
  | none => rfl
  | some text => rfl

end InstrumentationFilter

/-! ## The system -/

inductive Compilation where
  | absent
  | running (self : InstrumentationFilter)
  | ended

/-- The shared file, the processes, and the names each process has recorded. -/
structure Sizes where
  file : File
  compilations : Nat → Compilation
  recorded : List (Nat × String)

inductive SizeAction where
  | construct (process : Nat)
  | loadFilterData (process : Nat) (document : File)
  | checkFunctionSize (process : Nat) (functionName : String) (size : Nat)
  | destroy (process : Nat)
  deriving DecidableEq, Repr

def SizeAction.process : SizeAction → Nat
  | .construct process => process
  | .loadFilterData process _ => process
  | .checkFunctionSize process _ _ => process
  | .destroy process => process

namespace Sizes

def withCompilation
    (sizes : Sizes) (process : Nat) (now : Compilation) : Sizes :=
  { sizes with
    compilations := Function.update sizes.compilations process now }

@[simp]
theorem withCompilation_self
    (sizes : Sizes) (process : Nat) (now : Compilation) :
    (sizes.withCompilation process now).compilations process = now := by
  simp [withCompilation]

theorem withCompilation_of_ne
    (sizes : Sizes) {process other : Nat} (now : Compilation)
    (different : other ≠ process) :
    (sizes.withCompilation process now).compilations other =
      sizes.compilations other := by
  simp [withCompilation, different]

end Sizes

def sizesStep (format : JsonFormat) (sizes : Sizes) :
    SizeAction → Option Sizes
  | .construct process =>
      match sizes.compilations process with
      | .absent =>
          some (sizes.withCompilation process
            (.running (.construct format sizes.file)))
      | _ => none
  | .loadFilterData process document =>
      match sizes.compilations process with
      | .running self =>
          some (sizes.withCompilation process
            (.running (self.loadFilterData document)))
      | _ => none
  | .checkFunctionSize process functionName size =>
      match sizes.compilations process with
      | .running self =>
          some { sizes.withCompilation process
              (.running (self.checkFunctionSize functionName size).2) with
            recorded :=
              if size > 0 then (process, functionName) :: sizes.recorded
              else sizes.recorded }
      | _ => none
  | .destroy process =>
      match sizes.compilations process with
      | .running self =>
          some { sizes.withCompilation process .ended with
            file := some (self.destroy format) }
      | _ => none

/-- No process has started, and the file is what earlier compilations left. -/
def sizesSystem (format : JsonFormat) (start : File) :
    System Sizes SizeAction where
  initial := ⟨start, fun _ => .absent, []⟩
  step := sizesStep format

/-- Every way a step can go: an object is made, changed, or written back. -/
inductive SizesOutcome (format : JsonFormat) (sizes : Sizes) :
    SizeAction → Sizes → Prop
  | construct {process : Nat}
      (before : sizes.compilations process = .absent) :
      SizesOutcome format sizes (.construct process)
        (sizes.withCompilation process
          (.running (.construct format sizes.file)))
  | loadFilterData {process : Nat} {self : InstrumentationFilter}
      (before : sizes.compilations process = .running self)
      (document : File) :
      SizesOutcome format sizes (.loadFilterData process document)
        (sizes.withCompilation process
          (.running (self.loadFilterData document)))
  | checkFunctionSize {process : Nat} {self : InstrumentationFilter}
      (before : sizes.compilations process = .running self)
      (functionName : String) (size : Nat) :
      SizesOutcome format sizes
        (.checkFunctionSize process functionName size)
        { sizes.withCompilation process
            (.running (self.checkFunctionSize functionName size).2) with
          recorded :=
            if size > 0 then (process, functionName) :: sizes.recorded
            else sizes.recorded }
  | destroy {process : Nat} {self : InstrumentationFilter}
      (before : sizes.compilations process = .running self) :
      SizesOutcome format sizes (.destroy process)
        { sizes.withCompilation process .ended with
          file := some (self.destroy format) }

theorem sizesOutcome_of_step
    {format : JsonFormat} {sizes next : Sizes} {action : SizeAction}
    (stepped : sizesStep format sizes action = some next) :
    SizesOutcome format sizes action next := by
  cases action with
  | construct process =>
      simp only [sizesStep] at stepped
      split at stepped
      · rename_i before
        obtain rfl := Option.some.inj stepped
        exact .construct before
      · cases stepped
  | loadFilterData process document =>
      simp only [sizesStep] at stepped
      split at stepped
      · rename_i self before
        obtain rfl := Option.some.inj stepped
        exact .loadFilterData before document
      · cases stepped
  | checkFunctionSize process functionName size =>
      simp only [sizesStep] at stepped
      split at stepped
      · rename_i self before
        obtain rfl := Option.some.inj stepped
        exact .checkFunctionSize before functionName size
      · cases stepped
  | destroy process =>
      simp only [sizesStep] at stepped
      split at stepped
      · rename_i self before
        obtain rfl := Option.some.inj stepped
        exact .destroy before
      · cases stepped

/-! ## What the file should hold -/

section Names

variable (format : JsonFormat) (start : File)

/-- The file held the name at the start, or a process that has ended has
recorded it. -/
def Expected (sizes : Sizes) (name : String) : Prop :=
  name ∈ fileEntries format start ∨
    ∃ process, sizes.compilations process = .ended ∧
      (process, name) ∈ sizes.recorded

def Complete (sizes : Sizes) : Prop :=
  ∀ name, Expected format start sizes name →
    name ∈ fileEntries format sizes.file

/-- The file holds a name that the process has neither read nor recorded. -/
def Stale (process : Nat) (sizes : Sizes) : Prop :=
  ∃ self name, sizes.compilations process = .running self ∧
    name ∈ fileEntries format sizes.file ∧ name ∉ self.functions

/-- Where the names in the file and in the tables come from. -/
structure Known (sizes : Sizes) : Prop where
  file :
    ∀ name ∈ fileEntries format sizes.file,
      Expected format start sizes name
  held :
    ∀ process self, sizes.compilations process = .running self →
      ∀ name ∈ self.functions,
        Expected format start sizes name ∨
          (process, name) ∈ sizes.recorded
  own :
    ∀ process self, sizes.compilations process = .running self →
      ∀ name, (process, name) ∈ sizes.recorded → name ∈ self.functions
  started :
    ∀ process, sizes.compilations process = .absent →
      ∀ name, (process, name) ∉ sizes.recorded

theorem known_initial :
    Known format start (sizesSystem format start).initial :=
  ⟨fun _ inFile => Or.inl inFile, nofun, nofun, nofun⟩

theorem complete_initial :
    Complete format start (sizesSystem format start).initial := by
  intro name either
  rcases either with inFile | ⟨_, _, impossible⟩
  · exact inFile
  · cases impossible

section Steps

variable {format start}
variable {sizes next : Sizes} {process : Nat} {self : InstrumentationFilter}
variable {action : SizeAction}

/-- A process goes on with the object and has not ended before. -/
structure GoesOn
    (sizes next : Sizes) (process : Nat) (object : InstrumentationFilter) :
    Prop where
  notEnded : sizes.compilations process ≠ .ended
  running : next.compilations process = .running object
  others :
    ∀ other, other ≠ process →
      next.compilations other = sizes.compilations other
  file : next.file = sizes.file
  recorded :
    ∀ other name, other ≠ process →
      ((other, name) ∈ next.recorded ↔ (other, name) ∈ sizes.recorded)

theorem GoesOn.expected_iff
    (goesOn : GoesOn sizes next process self) (name : String) :
    Expected format start next name ↔ Expected format start sizes name := by
  have sameEnded :
      ∀ other,
        (next.compilations other = .ended ∧
            (other, name) ∈ next.recorded) ↔
          (sizes.compilations other = .ended ∧
            (other, name) ∈ sizes.recorded) := by
    intro other
    by_cases same : other = process
    · subst same
      simp [goesOn.running, goesOn.notEnded]
    · rw [goesOn.others other same, goesOn.recorded other name same]
  simp only [Expected, sameEnded]

theorem GoesOn.complete
    (goesOn : GoesOn sizes next process self)
    (complete : Complete format start sizes) :
    Complete format start next := by
  intro name expected
  rw [goesOn.file]
  exact complete name ((goesOn.expected_iff name).mp expected)

theorem GoesOn.known
    (goesOn : GoesOn sizes next process self)
    (known : Known format start sizes)
    (held :
      ∀ name ∈ self.functions,
        Expected format start sizes name ∨ (process, name) ∈ next.recorded)
    (own :
      ∀ name, (process, name) ∈ next.recorded → name ∈ self.functions) :
    Known format start next := by
  refine ⟨?_, ?_, ?_, ?_⟩
  · intro name inFile
    rw [goesOn.file] at inFile
    exact (goesOn.expected_iff name).mpr (known.file name inFile)
  · intro other object running name inTable
    rw [goesOn.expected_iff name]
    by_cases same : other = process
    · subst same
      obtain rfl :=
        Compilation.running.inj (goesOn.running.symm.trans running)
      exact held name inTable
    · rw [goesOn.others other same] at running
      rw [goesOn.recorded other name same]
      exact known.held other object running name inTable
  · intro other object running name isRecorded
    by_cases same : other = process
    · subst same
      obtain rfl :=
        Compilation.running.inj (goesOn.running.symm.trans running)
      exact own name isRecorded
    · rw [goesOn.others other same] at running
      exact known.own other object running name
        ((goesOn.recorded other name same).mp isRecorded)
  · intro other absent name isRecorded
    by_cases same : other = process
    · subst same
      rw [goesOn.running] at absent
      cases absent
    · rw [goesOn.others other same] at absent
      exact known.started other absent name
        ((goesOn.recorded other name same).mp isRecorded)

/-- Replacing the object of a process, without recording anything. -/
theorem goesOn_withCompilation
    (notEnded : sizes.compilations process ≠ .ended) :
    GoesOn sizes (sizes.withCompilation process (.running self)) process
      self :=
  ⟨notEnded, Sizes.withCompilation_self _ _ _,
    fun _ different => Sizes.withCompilation_of_ne _ _ different, rfl,
    fun _ _ _ => Iff.rfl⟩

theorem goesOn_of_checkFunctionSize
    (before : sizes.compilations process = .running self)
    (functionName : String) (size : Nat) :
    GoesOn sizes
      { sizes.withCompilation process
          (.running (self.checkFunctionSize functionName size).2) with
        recorded :=
          if size > 0 then (process, functionName) :: sizes.recorded
          else sizes.recorded }
      process (self.checkFunctionSize functionName size).2 := by
  refine ⟨by simp [before], Sizes.withCompilation_self _ _ _,
    fun _ different => Sizes.withCompilation_of_ne _ _ different, rfl, ?_⟩
  intro other name different
  by_cases positive : size > 0
  · simp [positive, different]
  · simp [positive]

/-- The destructor ends its process, so what that process has recorded is
expected from now on. -/
theorem expected_destroy_iff
    (before : sizes.compilations process = .running self) (name : String) :
    Expected format start
        { sizes.withCompilation process .ended with
          file := some (self.destroy format) } name ↔
      Expected format start sizes name ∨
        (process, name) ∈ sizes.recorded := by
  constructor
  · intro either
    rcases either with inFile | ⟨other, ended, isRecorded⟩
    · exact Or.inl (Or.inl inFile)
    · by_cases same : other = process
      · subst same
        exact Or.inr isRecorded
      · have earlier : sizes.compilations other = .ended :=
          (Sizes.withCompilation_of_ne _ _ same).symm.trans ended
        exact Or.inl (Or.inr ⟨other, earlier, isRecorded⟩)
  · intro either
    rcases either with (inFile | ⟨other, ended, isRecorded⟩) | isRecorded
    · exact Or.inl inFile
    · have same : other ≠ process := by
        intro same
        subst same
        rw [before] at ended
        cases ended
      exact Or.inr ⟨other,
        (Sizes.withCompilation_of_ne _ _ same).trans ended, isRecorded⟩
    · exact Or.inr ⟨process, Sizes.withCompilation_self _ _ _, isRecorded⟩

theorem fileEntries_destroy (self : InstrumentationFilter) :
    fileEntries format (some (self.destroy format)) = self.functions := by
  rw [fileEntries_some, InstrumentationFilter.destroy, objectItems_written]

/-- The write leaves the file complete exactly when the process knows every
name in it. -/
theorem complete_destroy_iff
    (before : sizes.compilations process = .running self)
    (known : Known format start sizes)
    (complete : Complete format start sizes) :
    Complete format start
        { sizes.withCompilation process .ended with
          file := some (self.destroy format) } ↔
      ¬ Stale format process sizes := by
  constructor
  · intro completeNext stale
    rcases stale with ⟨other, name, running, inFile, missing⟩
    obtain rfl := Compilation.running.inj (before.symm.trans running)
    have expected := known.file name inFile
    have written :=
      completeNext name
        ((expected_destroy_iff before name).mpr (Or.inl expected))
    rw [fileEntries_destroy] at written
    exact missing written
  · intro fresh name expected
    rw [fileEntries_destroy]
    rcases (expected_destroy_iff before name).mp expected with
      earlier | isRecorded
    · by_contra missing
      exact fresh ⟨self, name, before, complete name earlier, missing⟩
    · exact known.own process self before name isRecorded

theorem known_destroy
    (before : sizes.compilations process = .running self)
    (known : Known format start sizes) :
    Known format start
      { sizes.withCompilation process .ended with
        file := some (self.destroy format) } := by
  refine ⟨?_, ?_, ?_, ?_⟩
  · intro name inFile
    rw [fileEntries_destroy] at inFile
    exact (expected_destroy_iff before name).mpr
      (known.held process self before name inFile)
  · intro other object running name inTable
    have same : other ≠ process := by
      intro same
      subst same
      rw [Sizes.withCompilation_self] at running
      cases running
    rw [Sizes.withCompilation_of_ne _ _ same] at running
    rcases known.held other object running name inTable with
      expected | isRecorded
    · exact Or.inl
        ((expected_destroy_iff before name).mpr (Or.inl expected))
    · exact Or.inr isRecorded
  · intro other object running name isRecorded
    have same : other ≠ process := by
      intro same
      subst same
      rw [Sizes.withCompilation_self] at running
      cases running
    rw [Sizes.withCompilation_of_ne _ _ same] at running
    exact known.own other object running name isRecorded
  · intro other absent name isRecorded
    have same : other ≠ process := by
      intro same
      subst same
      rw [Sizes.withCompilation_self] at absent
      cases absent
    rw [Sizes.withCompilation_of_ne _ _ same] at absent
    exact known.started other absent name isRecorded

theorem known_of_outcome
    (outcome : SizesOutcome format sizes action next)
    (known : Known format start sizes) :
    Known format start next := by
  cases outcome with
  | @construct process before =>
      refine (goesOn_withCompilation (by simp [before])).known known ?_ ?_
      · exact fun name inFile => Or.inl (known.file name inFile)
      · exact fun name isRecorded =>
          absurd isRecorded (known.started process before name)
  | @loadFilterData process self before document =>
      refine (goesOn_withCompilation (by simp [before])).known known ?_ ?_
      · intro name inTable
        rw [InstrumentationFilter.loadFilterData_functions] at inTable
        exact known.held process self before name inTable
      · intro name isRecorded
        rw [InstrumentationFilter.loadFilterData_functions]
        exact known.own process self before name isRecorded
  | @checkFunctionSize process self before functionName size =>
      refine (goesOn_of_checkFunctionSize before functionName size).known
        known ?_ ?_
      · intro name inTable
        rcases (self.checkFunctionSize_functions functionName size
          name).mp inTable with old | ⟨positive, rfl⟩
        · rcases known.held process self before name old with
            expected | isRecorded
          · exact Or.inl expected
          · right
            split
            · exact List.mem_cons_of_mem _ isRecorded
            · exact isRecorded
        · simp [positive]
      · intro name isRecorded
        rw [self.checkFunctionSize_functions functionName size name]
        split at isRecorded
        · rename_i positive
          rcases List.mem_cons.mp isRecorded with isNew | old
          · exact Or.inr ⟨positive, congrArg Prod.snd isNew⟩
          · exact Or.inl (known.own process self before name old)
        · exact Or.inl (known.own process self before name isRecorded)
  | destroy before => exact known_destroy before known

/-- Only a write by a process that does not know every name loses one. -/
theorem complete_of_outcome
    (outcome : SizesOutcome format sizes action next)
    (known : Known format start sizes)
    (fresh :
      ∀ process, action = .destroy process →
        ¬ Stale format process sizes)
    (complete : Complete format start sizes) :
    Complete format start next := by
  cases outcome with
  | construct before =>
      exact (goesOn_withCompilation (by simp [before])).complete complete
  | loadFilterData before document =>
      exact (goesOn_withCompilation (by simp [before])).complete complete
  | checkFunctionSize before functionName size =>
      exact (goesOn_of_checkFunctionSize before functionName size).complete
        complete
  | @destroy process self before =>
      exact (complete_destroy_iff before known complete).mpr
        (fresh process rfl)

end Steps

end Names

/-! ## Executions -/

section Executions

variable {format : JsonFormat} {start : File}

/-- In every state of the execution, the file has all names it should have. -/
def NothingLost
    (execution : Execution (sizesSystem format start)) : Prop :=
  ∀ reached : Execution (sizesSystem format start),
    reached.actions <+: execution.actions →
      Complete format start reached.final

/-- No process writes over a file with a name it has neither read nor
recorded. -/
def NoStaleWrite
    (execution : Execution (sizesSystem format start)) : Prop :=
  ∀ (reached : Execution (sizesSystem format start)) (process : Nat),
    reached.actions ++ [.destroy process] <+: execution.actions →
      ¬ Stale format process reached.final

def AllEnded (sizes : Sizes) : Prop :=
  ∀ process self, sizes.compilations process ≠ .running self

theorem known_of_execution
    (execution : Execution (sizesSystem format start)) :
    Known format start execution.final :=
  (sizesSystem format start).run_invariant (Known format start)
    (fun _ _ _ stepped known =>
      known_of_outcome (sizesOutcome_of_step stepped) known)
    execution.valid (known_initial format start)

theorem complete_of_noStaleWrite
    {execution : Execution (sizesSystem format start)}
    (fresh : NoStaleWrite execution)
    (reached : Execution (sizesSystem format start))
    (isPrefix : reached.actions <+: execution.actions) :
    Complete format start reached.final := by
  refine (sizesSystem format start).run_induction
    (fun actions sizes =>
      actions <+: execution.actions → Complete format start sizes)
    (fun _ => complete_initial format start) ?_ reached.valid isPrefix
  intro actions sizes action next valid stepped earlier longer
  have shorter : actions <+: execution.actions :=
    (List.prefix_append actions [action]).trans longer
  refine complete_of_outcome (sizesOutcome_of_step stepped)
    (known_of_execution ⟨actions, sizes, valid⟩) ?_ (earlier shorter)
  intro process same
  subst same
  exact fresh ⟨actions, sizes, valid⟩ process longer

theorem noStaleWrite_of_nothingLost
    {execution : Execution (sizesSystem format start)}
    (nothingLost : NothingLost execution) :
    NoStaleWrite execution := by
  intro reached process isPrefix
  rcases isPrefix with ⟨rest, whole⟩
  have valid := execution.valid
  rw [← whole] at valid
  rcases (sizesSystem format start).run_append_eq_some.mp valid with
    ⟨next, nextRun, _⟩
  rcases (sizesSystem format start).run_append_eq_some.mp nextRun with
    ⟨before, beforeRun, lastRun⟩
  obtain rfl : reached.final = before :=
    Option.some.inj (reached.valid.symm.trans beforeRun)
  have stepped :=
    (sizesSystem format start).run_singleton_eq_some.mp lastRun
  have completeNext : Complete format start next :=
    nothingLost ⟨_, next, nextRun⟩ ⟨rest, whole⟩
  have completeBefore : Complete format start reached.final := by
    refine nothingLost reached ⟨.destroy process :: rest, ?_⟩
    rw [← whole, List.append_assoc]
    rfl
  have known := known_of_execution reached
  have outcome :
      SizesOutcome format reached.final (.destroy process) next :=
    sizesOutcome_of_step stepped
  cases outcome with
  | destroy running =>
      exact (complete_destroy_iff running known completeBefore).mp
        completeNext

/-- No name is lost exactly in the executions in which every process that
writes the file knows all names in it; then the file has all names once all
processes have ended. -/
theorem no_name_lost_iff
    (execution : Execution (sizesSystem format start)) :
    (NothingLost execution ↔ NoStaleWrite execution) ∧
      (NoStaleWrite execution → AllEnded execution.final →
        ∀ name,
          (name ∈ fileEntries format start ∨
            ∃ process, (process, name) ∈ execution.final.recorded) →
              name ∈ fileEntries format execution.final.file) := by
  refine ⟨⟨noStaleWrite_of_nothingLost, complete_of_noStaleWrite⟩, ?_⟩
  intro fresh allEnded name due
  have complete :=
    complete_of_noStaleWrite fresh execution (List.prefix_refl _)
  apply complete name
  rcases due with inFile | ⟨process, isRecorded⟩
  · exact Or.inl inFile
  · refine Or.inr ⟨process, ?_, isRecorded⟩
    cases stands : execution.final.compilations process with
    | absent =>
        exact absurd isRecorded
          ((known_of_execution execution).started process stands name)
    | running self => exact absurd stands (allEnded process self)
    | ended => rfl

/-- Two compilations overlap; the second one to end writes over what the first
one recorded. -/
def overlappingActions : List SizeAction :=
  [.construct 0, .construct 1, .checkFunctionSize 0 "f" 1,
    .checkFunctionSize 1 "g" 1, .destroy 0, .destroy 1]

theorem overlapping_processes_lose_name :
    ∃ execution : Execution (sizesSystem Maps.Json11.json11 none),
      execution.actions = overlappingActions ∧
        AllEnded execution.final ∧
          (0, "f") ∈ execution.final.recorded ∧
            "f" ∉ fileEntries Maps.Json11.json11 execution.final.file := by
  refine ⟨⟨overlappingActions, _, rfl⟩, rfl, ?_, by decide, ?_⟩
  · intro process self running
    match process with
    | 0 => cases running
    | 1 => cases running
    | _ + 2 => cases running
  · decide +kernel

end Executions

end Dinamite.Filter
