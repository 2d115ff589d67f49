import Dinamite.Instrument.VisitBound
import Dinamite.Maps.Compiler

/-!
# A compiled module and its map files

The pass in a compiler process whose four maps are shared with other
processes.  Once the maps are saved, the files say what every id in the code
stands for.
-/

namespace Dinamite.Instrument

open Dinamite.Maps Dinamite.Transition

/-- Each map has its own file, pool and processes. -/
def compilingPass
    (config : Config) (pass : AccessInstrumentationPass) :
    MappedPass (IdMapName → Compiler config) where
  pass := pass
  maps := (compilerTable config).family

section Saving

variable {config : Config}

/-- Others act once more before the map is saved. -/
def beforeSave
    (compiler : Compiler config) (others : List Action) :
    Execution (processSystem config) :=
  waits compiler.process compiler.execution others

def savedMap
    (compiler : Compiler config) (others : List Action) :
    Execution (processSystem config) :=
  (beforeSave compiler others).attempt (.saveMap compiler.process)

theorem beforeSave_running
    (compiler : Compiler config) (others : List Action) {self : IdMap}
    (running :
      compiler.execution.final.processes compiler.process =
        .running self) :
    (beforeSave compiler others).final.processes compiler.process =
      .running self := by
  rw [beforeSave, waits_processes, running]

/-- Every answer of a map is in its file, now and later. -/
theorem binds_of_savedMap
    {compiler : Compiler config} {others : List Action}
    (noConflict :
      ¬ Conflicts config compiler.process (beforeSave compiler others).final)
    {src : String} {id : Int} (known : compiler.lookup src = some id)
    (later : Run (processSystem config) (savedMap compiler others).final) :
    Binds config later.final src id := by
  rcases compiler.running with ⟨self, running⟩
  rw [Compiler.lookup_of_running running] at known
  have runsOn := beforeSave_running compiler others running
  have stepped :
      ∃ saved,
        step config (beforeSave compiler others).final
          (.saveMap compiler.process) = some saved := by
    simp only [step, runsOn]
    exact ⟨_, rfl⟩
  rcases stepped with ⟨saved, stepped⟩
  have isSaved : (savedMap compiler others).final = saved :=
    Run.attempt_of_step stepped
  refine binds_of_run later.valid ?_
  rw [isSaved]
  exact binds_of_saved_lookup
    (consistent_of_execution (beforeSave compiler others)) stepped
    noConflict runsOn known

/-- Two names that the file binds to one id, now or later, are one name. -/
theorem savedMap_injective
    {compiler : Compiler config} {others : List Action}
    (later : Run (processSystem config) (savedMap compiler others).final)
    {left right : String} {id : Int}
    (leftBound : Binds config later.final left id)
    (rightBound : Binds config later.final right id) :
    left = right := by
  have valid :
      (processSystem config).run (processSystem config).initial
          ((savedMap compiler others).actions ++ later.actions) =
        some later.final :=
    System.run_append_eq_some _ |>.mpr
      ⟨_, (savedMap compiler others).valid, later.valid⟩
  exact binds_injective ⟨_, later.final, valid⟩ leftBound rightBound

end Saving

/-- The code the pass makes is the code it would make with any functions for
its maps that agree with the saved files, then or at any later time, and the
files bind no id twice: an id in the code stands for one name.  The condition
is that no other process has published a new name of a map under another id
when the map is saved. -/
theorem saved_maps_explain_the_code
    (config : Config) (pass : AccessInstrumentationPass) (module : Module)
    (noLog : pass.NoLogFunctionDefined) (widths : module.WidthsOk)
    {fuel : Nat} (enough : module.visitBound ≤ fuel)
    (start : IdMapName → Compiler config) :
    ∃ functions final,
      (compilingPass config pass).runOnModule fuel start module =
          some (functions, final) ∧
        ∀ others : IdMapName → List Action,
          (∀ name,
            ¬ Conflicts config (final name).process
              (beforeSave (final name) (others name)).final) →
            ∀ later : ∀ name,
              Run (processSystem config)
                (savedMap (final name) (others name)).final,
              (∀ answers : IdMapName × String → Int,
                (∀ name src id, Binds config (later name).final src id →
                  answers (name, src) = id) →
                  (pass.withMaps answers).runOnModule fuel module =
                    some functions) ∧
                ∀ name (left right : String) (id : Int),
                  Binds config (later name).final left id →
                    Binds config (later name).final right id →
                      left = right := by
  rcases (compilingPass config pass).runOnModule_returns noLog widths enough
      start with
    ⟨functions, final, returned, _, explained⟩
  refine ⟨functions, final, returned, ?_⟩
  intro others noConflict later
  constructor
  · intro answers agree
    refine explained answers ?_
    intro key id known
    exact agree key.1 key.2 id
      (binds_of_savedMap (noConflict key.1) known (later key.1))
  · intro name left right id leftBound rightBound
    exact savedMap_injective (later name) leftBound rightBound

/-- A process that finds neither map files nor pools. -/
def firstCompiler : Compiler Config.source :=
  .construct 0 ⟨[], _, rfl⟩ rfl []

theorem saved_maps_explain_the_code_allocating :
    ∃ functions final,
      (compilingPass Config.source instrumentsAll).runOnModule 45
          (fun _ => firstCompiler) allocatingModule =
          some (functions, final) ∧
        ∀ others : IdMapName → List Action,
          (∀ name,
            ¬ Conflicts Config.source (final name).process
              (beforeSave (final name) (others name)).final) →
            ∀ later : ∀ name,
              Run (processSystem Config.source)
                (savedMap (final name) (others name)).final,
              (∀ answers : IdMapName × String → Int,
                (∀ name src id,
                  Binds Config.source (later name).final src id →
                    answers (name, src) = id) →
                  (instrumentsAll.withMaps answers).runOnModule 45
                      allocatingModule =
                    some functions) ∧
                ∀ name (left right : String) (id : Int),
                  Binds Config.source (later name).final left id →
                    Binds Config.source (later name).final right id →
                      left = right :=
  saved_maps_explain_the_code Config.source instrumentsAll allocatingModule
    (by unfold AccessInstrumentationPass.NoLogFunctionDefined
        decide +kernel)
    (by
      intro function member
      rw [List.mem_singleton.mp member]
      refine ⟨by decide, ?_⟩
      intro block isBlock inst isInst type accessed
      rw [List.mem_singleton.mp isBlock] at isInst
      revert type
      revert inst
      decide)
    (by decide) fun _ => firstCompiler

end Dinamite.Instrument
