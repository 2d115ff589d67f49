import Dinamite.Instrument.CompiledModule
import Dinamite.Instrument.RecordedRuns

/-!
# Runs of a compiled module

A module that was compiled with the maps of its process is run: its log is the
recorded run of the source, with the ids that the saved map files give, and but
for the log it behaves like the source.
-/

namespace Dinamite.Instrument

open Dinamite.Maps Dinamite.Transition

/-- Running the code of a compiler process logs what a recorded run of the
source notes, for all ids that agree with the map files once they are saved, or
at any later time: on every machine, for every number of steps, depth of calls,
arguments and memory. -/
theorem compiled_program_records
    (config : Config) (pass : AccessInstrumentationPass) (module : Module)
    (noLog : pass.NoLogFunctionDefined) (widths : module.WidthsOk)
    (sound : module.Sound pass)
    {fuel : Nat} (enough : module.visitBound ≤ fuel)
    (start : IdMapName → Compiler config) :
    ∃ functions final,
      (compilingPass config pass).runOnModule fuel start module =
          some (functions, final) ∧
        ∀ others : IdMapName → List Action,
          (∀ name,
            ¬ Conflicts config (final name).process
              (beforeSave (final name) (others name)).final) →
            ∀ later : ∀ name,
              Run (processSystem config)
                (savedMap (final name) (others name)).final,
              ∀ answers : IdMapName × String → Int,
                (∀ name src id, Binds config (later name).final src id →
                  answers (name, src) = id) →
                  ∃ slots : Nat → Nat,
                    (∀ index, module.nextId ≤ slots index) ∧
                      ∀ {Val Mem : Type} {machine : Machine Val Mem},
                        machine.Hosts pass module.nextId →
                          ∀ steps depth name,
                            machine.behaviour
                                (functions.map Function.routine) steps depth
                                name =
                              machine.behaviour
                                ((pass.withMaps answers).recordedModule slots
                                  module)
                                steps depth name := by
  rcases (compilingPass config pass).runOnModule_returns noLog widths enough
      start with
    ⟨functions, final, returned, _, explained⟩
  refine ⟨functions, final, returned, ?_⟩
  intro others noConflict later answers agree
  have ran :
      (pass.withMaps answers).runOnModule fuel module = some functions := by
    refine explained answers ?_
    intro key id known
    exact agree key.1 key.2 id
      (binds_of_savedMap (noConflict key.1) known (later key.1))
  have sameNoLog : (pass.withMaps answers).NoLogFunctionDefined := noLog
  have sameSound : module.Sound (pass.withMaps answers) := sound
  rcases behaviour_of_runOnModule sameNoLog sameSound ran with
    ⟨slots, young, same⟩
  refine ⟨slots, young, ?_⟩
  intro Val Mem machine hosts
  exact same ⟨hosts.fresh, hosts.isLog⟩

theorem compiled_program_records_allocating :
    ∃ functions final,
      (compilingPass Config.source instrumentsAll).runOnModule 45
          (fun _ => firstCompiler) allocatingModule =
          some (functions, final) ∧
        ∀ others : IdMapName → List Action,
          (∀ name,
            ¬ Conflicts Config.source (final name).process
              (beforeSave (final name) (others name)).final) →
            ∀ later : ∀ name,
              Run (processSystem Config.source)
                (savedMap (final name) (others name)).final,
              ∀ answers : IdMapName × String → Int,
                (∀ name src id,
                  Binds Config.source (later name).final src id →
                    answers (name, src) = id) →
                  ∃ slots : Nat → Nat,
                    (∀ index, allocatingModule.nextId ≤ slots index) ∧
                      ∀ {Val Mem : Type} {machine : Machine Val Mem},
                        machine.Hosts instrumentsAll
                            allocatingModule.nextId →
                          ∀ steps depth name,
                            machine.behaviour
                                (functions.map Function.routine) steps depth
                                name =
                              machine.behaviour
                                ((instrumentsAll.withMaps
                                  answers).recordedModule slots
                                    allocatingModule)
                                steps depth name :=
  compiled_program_records Config.source instrumentsAll allocatingModule
    instrumentsAll_noLog allocatingModule_widths allocatingModule_sound
    (by decide) fun _ => firstCompiler

/-- But for the log, the code that the pass makes with its maps does what the
source does: on every machine, for every number of steps, depth of calls,
arguments and memory, it ends in the same way, with the same result and the
same memory. -/
theorem compiled_program_behaves
    {State : Type} (mapped : MappedPass State) (module : Module)
    (noLog : mapped.pass.NoLogFunctionDefined) (widths : module.WidthsOk)
    (sound : module.Sound mapped.pass)
    {fuel : Nat} (enough : module.visitBound ≤ fuel) (ids : State) :
    ∃ functions later,
      mapped.runOnModule fuel ids module = some (functions, later) ∧
        ∀ {Val Mem : Type} {machine : Machine Val Mem},
          machine.Hosts mapped.pass module.nextId →
            ∀ steps depth name args memory,
              ((machine.behaviour (functions.map Function.routine) steps
                  depth name).map
                fun body => (body args memory).unlogged) =
                (machine.behaviour (module.functions.map Function.routine)
                  steps depth name).map
                    fun body => (body args memory).unlogged := by
  rcases mapped.exists_withMaps noLog widths enough ids with
    ⟨functions, later, answers, returned, ran⟩
  refine ⟨functions, later, returned, ?_⟩
  intro Val Mem machine hosts steps depth name args memory
  have sameNoLog : (mapped.pass.withMaps answers).NoLogFunctionDefined :=
    noLog
  have sameSound : module.Sound (mapped.pass.withMaps answers) := sound
  have sameHosts :
      machine.Hosts (mapped.pass.withMaps answers) module.nextId :=
    ⟨hosts.fresh, hosts.isLog⟩
  exact unlogged_of_runOnModule sameNoLog sameSound ran sameHosts steps depth
    name args memory

theorem compiled_program_behaves_allocating :
    ∃ functions later,
      (compilingPass Config.source instrumentsAll).runOnModule 45
          (fun _ => firstCompiler) allocatingModule =
          some (functions, later) ∧
        ∀ steps depth name args memory,
          (((cellMachine instrumentsAll 4).behaviour
              (functions.map Function.routine) steps depth name).map
            fun body => (body args memory).unlogged) =
            ((cellMachine instrumentsAll 4).behaviour
              (allocatingModule.functions.map Function.routine) steps depth
                name).map fun body => (body args memory).unlogged := by
  rcases compiled_program_behaves
      (compilingPass Config.source instrumentsAll) allocatingModule
      instrumentsAll_noLog allocatingModule_widths allocatingModule_sound
      (show allocatingModule.visitBound ≤ 45 by decide)
      (fun _ => firstCompiler) with
    ⟨functions, later, returned, same⟩
  exact ⟨functions, later, returned,
    same (cellMachine_hosts instrumentsAll 4)⟩

end Dinamite.Instrument
