import Dinamite.Instrument.CompiledRuns
import Dinamite.Instrument.ProgramTraces

/-!
# Traces of a compiled module

From the source program to the trace file: a module is compiled with the maps
of its process, linked with the instrumentation library and run from its static
initialisers and `main`.
-/

namespace Dinamite.Instrument

open Dinamite.Maps Dinamite.Text Dinamite.Transition
open Dinamite.Trace (TimedCycle InTime)

/-- Every process of the compiled functions runs like the recorded one of the
source, and what it logs are cycles with the property, given the number of
calls from outside. -/
def ProcessesTrace
    (pass : AccessInstrumentationPass) (module : Module)
    (functions : List Function)
    (property : Nat → List Cycle → List TextAction → Prop) : Prop :=
  ∃ slots : Nat → Nat,
    (∀ index, module.nextId ≤ slots index) ∧
      ∀ {Val Mem : Type} {machine : Machine Val Mem}
        {link : Linkage Val Mem},
        machine.Hosts pass module.nextId → machine.Orderly link →
          ∀ steps depth calls, (∀ call ∈ calls, module.Starts pass call.1) →
            ∀ memory, ∃ ended cycles begun,
              machine.process (functions.map Function.routine) steps depth
                  calls memory = some ended ∧
                machine.process (pass.recordedModule slots module) steps
                    depth calls memory = some ended ∧
                  link.Cycles ended.log cycles begun ∧
                    ended.Whole calls.length cycles begun ∧
                      property calls.length cycles begun

/-- Processes are the same when the calls of their functions are. -/
theorem process_congr
    {Val Mem : Type} {machine : Machine Val Mem}
    {lefts rights : List Routine} {steps depth : Nat}
    (same : ∀ name,
      machine.behaviour lefts steps depth name =
        machine.behaviour rights steps depth name)
    (calls : List (String × List (Content Val))) (memory : Mem) :
    machine.process lefts steps depth calls memory =
      machine.process rights steps depth calls memory := by
  induction calls generalizing memory with
  | nil => rfl
  | cons call rest inductionHypothesis =>
      simp only [Machine.process, same, inductionHypothesis]

theorem processesTrace_of_runOnModule
    {pass : AccessInstrumentationPass} {module : Module}
    (noLog : pass.NoLogFunctionDefined) (sound : module.Sound pass)
    (linked : pass.library = linkedLibrary)
    (admitted : pass.insfilt.checkFileFilter module.identifier = true)
    (ordinary : module.Ordinary)
    {fuel : Nat} {functions : List Function}
    (ran : pass.runOnModule fuel module = some functions)
    {property : Nat → List Cycle → List TextAction → Prop}
    (holds : ∀ count cycles begun, cycles.length ≤ count →
      (∀ cycle ∈ cycles, ∀ logged ∈ cycle.calls,
          logged.summary.KindKnown) →
        IsBegun begun → property count cycles begun) :
    ProcessesTrace pass module functions property := by
  rcases behaviour_of_runOnModule noLog sound ran with ⟨slots, young, same⟩
  refine ⟨slots, young, ?_⟩
  intro Val Mem machine link hosts orderly steps depth calls starts memory
  have bracketed : ∀ call ∈ calls, ∃ body,
      machine.behaviour (pass.recordedModule slots module) steps depth
          call.1 = some body ∧
        ∀ args memory, (body args memory).Bracketed link := by
    intro call member
    exact bracketed_behaviour orderly linked admitted ordinary
      (starts call member) slots steps depth
  rcases cycles_of_process bracketed memory with
    ⟨ended, cycles, begun, recorded, logged, whole⟩
  refine ⟨ended, cycles, begun, ?_, recorded, logged, whole,
    holds calls.length cycles begun whole.few logged.known logged.isBegun⟩
  rw [process_congr (same hosts steps depth) calls memory]
  exact recorded

/-- The pass compiles the module in its process, and for all ids that agree
with the map files once they are saved, or at any later time, what it makes
traces with the property. -/
def CompiledTrace
    (config : Config) (pass : AccessInstrumentationPass) (module : Module)
    (fuel : Nat) (start : IdMapName → Compiler config)
    (property : Nat → List Cycle → List TextAction → Prop) : Prop :=
  ∃ functions final,
    (compilingPass config pass).runOnModule fuel start module =
        some (functions, final) ∧
      ∀ others : IdMapName → List Action,
        (∀ name,
          ¬ Conflicts config (final name).process
            (beforeSave (final name) (others name)).final) →
          ∀ later : ∀ name,
            Run (processSystem config)
              (savedMap (final name) (others name)).final,
            ∀ answers : IdMapName × String → Int,
              (∀ name src id, Binds config (later name).final src id →
                answers (name, src) = id) →
                ProcessesTrace (pass.withMaps answers) module functions
                  property

section Compiled

variable {config : Config} {pass : AccessInstrumentationPass}
variable {module : Module} {fuel : Nat}

theorem compiledTrace_of_cycles
    (noLog : pass.NoLogFunctionDefined) (widths : module.WidthsOk)
    (sound : module.Sound pass) (linked : pass.library = linkedLibrary)
    (admitted : pass.insfilt.checkFileFilter module.identifier = true)
    (ordinary : module.Ordinary) (enough : module.visitBound ≤ fuel)
    (start : IdMapName → Compiler config)
    {property : Nat → List Cycle → List TextAction → Prop}
    (holds : ∀ count cycles begun, cycles.length ≤ count →
      (∀ cycle ∈ cycles, ∀ logged ∈ cycle.calls,
          logged.summary.KindKnown) →
        IsBegun begun → property count cycles begun) :
    CompiledTrace config pass module fuel start property := by
  rcases (compilingPass config pass).runOnModule_returns noLog widths enough
      start with
    ⟨functions, final, returned, _, explained⟩
  refine ⟨functions, final, returned, ?_⟩
  intro others noConflict later answers agree
  have ran :
      (pass.withMaps answers).runOnModule fuel module = some functions := by
    refine explained answers ?_
    intro key id known
    exact agree key.1 key.2 id
      (binds_of_savedMap (noConflict key.1) known (later key.1))
  have sameNoLog : (pass.withMaps answers).NoLogFunctionDefined := noLog
  have sameSound : module.Sound (pass.withMaps answers) := sound
  exact processesTrace_of_runOnModule sameNoLog sameSound linked admitted
    ordinary ran holds

/-- With the text library, a compiled program never prints to a closed file,
and its trace has what is printed for each record of the last cycle of the
recorded source program.  If no string that is printed has a newline, this is
one line for each, from which the kinds, positions, types and ids of these
records can be read back. -/
theorem compiled_program_text
    (noLog : pass.NoLogFunctionDefined) (widths : module.WidthsOk)
    (sound : module.Sound pass) (linked : pass.library = linkedLibrary)
    (admitted : pass.insfilt.checkFileFilter module.identifier = true)
    (ordinary : module.Ordinary) (enough : module.visitBound ≤ fuel)
    (start : IdMapName → Compiler config) :
    CompiledTrace config pass module fuel start fun _ cycles begun =>
      ∀ file, ∃ text,
        TextTrace file cycles begun text ∧
          ∀ earlier last, cycles = earlier ++ [last] →
            (∀ logged ∈ last.calls, logged.OneLine) →
              (traceText last.calls).count '\n' = last.calls.length ∧
                ∀ calls : List LoggedCall,
                  (∀ logged ∈ calls, logged.Readable) →
                    traceText calls = traceText last.calls →
                      calls.map LoggedCall.summary =
                        last.calls.map LoggedCall.summary := by
  refine compiledTrace_of_cycles noLog widths sound linked admitted ordinary
    enough start ?_
  intro _ cycles begun _ known isBegun file
  rcases exists_textTrace file cycles isBegun with ⟨text, isText⟩
  refine ⟨text, isText, ?_⟩
  intro earlier last isLast oneLine
  have readable : ∀ logged ∈ last.calls, logged.Readable := by
    intro logged member
    refine ⟨known last ?_ logged member, oneLine logged member⟩
    rw [isLast]
    exact List.mem_append_right earlier List.mem_cons_self
  refine ⟨count_newline_traceText readable, ?_⟩
  intro calls callsReadable same
  exact summaries_eq_of_traceText_eq callsReadable readable same

/-- With the binary library, a compiled program with one thread is never stuck
in it.  If the last cycle is closed, the program leaves a record in
`trace.bin.1` for each record of the recorded source program, in order, exactly
when no more than a buffer of them came before its last cycle; without static
initialisers it always does. -/
theorem compiled_program_binary
    (noLog : pass.NoLogFunctionDefined) (widths : module.WidthsOk)
    (sound : module.Sound pass) (linked : pass.library = linkedLibrary)
    (admitted : pass.insfilt.checkFileFilter module.identifier = true)
    (ordinary : module.Ordinary) (enough : module.visitBound ≤ fuel)
    (start : IdMapName → Compiler config) :
    CompiledTrace config pass module fuel start fun count cycles begun =>
      ∀ runtime : Trace.Runtime, runtime.Admits →
        ∀ clock timed later rest,
          List.Forall₂ TimedAs cycles timed → BegunAs begun later rest →
            InTime clock (timed.flatMap TimedCycle.calls ++ later) →
              ∃ ended,
                BinaryTrace runtime clock count cycles begun timed rest
                  ended := by
  refine compiledTrace_of_cycles noLog widths sound linked admitted ordinary
    enough start ?_
  intro count cycles begun few _ _ runtime admits clock timed later rest same
    isBegun inTime
  exact exists_binaryTrace admits few same isBegun inTime

end Compiled

/-! ## A small program -/

/-- `main` calls the allocating function. -/
def startingMain : Function :=
  let abc : Callee := ⟨"abc", [.integer 32], .void⟩
  ⟨"main", [],
    [⟨[⟨4, "", .call (some abc) [.constantInt 7 (.integer 32)] .void, none⟩],
      ⟨.ret, none⟩⟩]⟩

def startingModule : Module where
  identifier := "main.c"
  functions := [allocatingFunction, startingMain]
  nextId := 5
  older := by decide

theorem startingModule_starts :
    startingModule.Starts instrumentsAll "main" := by
  refine ⟨?_, startingMain, _, [], ?_, rfl, rfl, rfl, rfl⟩
  · decide +kernel
  · decide +kernel

theorem startingModule_ordinary : startingModule.Ordinary := by
  constructor
  · decide +kernel
  · decide +kernel

theorem startingModule_sound : startingModule.Sound instrumentsAll := by
  decide

theorem startingModule_widths : startingModule.WidthsOk := by
  intro function member
  rcases List.mem_cons.mp member with rfl | isMain
  · exact allocatingModule_widths allocatingFunction List.mem_cons_self
  · rw [List.mem_singleton.mp isMain]
    refine ⟨List.forall_mem_nil _, ?_⟩
    intro block isBlock inst isInst type accessed
    rw [List.mem_singleton.mp isBlock] at isInst
    rw [List.mem_singleton.mp isInst] at accessed
    cases accessed

/-- Values are words, and memory has one cell for each. -/
def wordMachine : Machine (BitVec 64) (BitVec 64 → Content (BitVec 64)) where
  fresh := startingModule.nextId
  isLog := fun callee => libraryFunctions.contains callee
  enter := fun _ => none
  global := fun _ => 0
  constant := fun _ _ => 0
  integer := fun value _ => (BitVec.ofInt 32 value).setWidth 64
  cast := fun _ _ _ value => value
  load := fun memory pointer _ =>
    match pointer with
    | .value address => memory address
    | .slot id => .slot id
  store := fun memory address content =>
    Function.update memory address content
  execute := fun inst seen =>
    if inst.calledFunction.any fun callee => callee.name = "exit" then
      .halts seen.memory []
    else
      .returns (some (.value (BitVec.ofNat 64 (4096 + 16 * inst.id))))
        seen.memory []
  terminate := fun _ _ op seen =>
    (if op = .ret then .leave none else .halt, seen.memory, [])

theorem noNul_nil : '\x00' ∉ ([] : List Char) :=
  List.not_mem_nil

/-- Slots are further down, and there are no strings. -/
def wordLinkage :
    Linkage (BitVec 64) (BitVec 64 → Content (BitVec 64)) where
  word := fun content =>
    match content with
    | .value value => value
    | .slot id => BitVec.ofNat 64 (65536 + 16 * id)
  string := fun _ _ => ⟨[], noNul_nil⟩

theorem wordMachine_orderly : wordMachine.Orderly wordLinkage := by
  refine ⟨?_, ?_, ?_, ?_, ?_⟩
  · intro value
    simp [Linkage.int, wordLinkage, wordMachine]
  · intro callee isLog
    exact List.contains_iff_mem.mp isLog
  · intro inst seen
    simp only [wordMachine]
    split
    · exact Or.inl Linkage.plain_nil
    · exact Linkage.plain_nil
  · intro inst callee called isExit seen
    refine ⟨seen.memory, ?_⟩
    simp [wordMachine, called, isExit]
  · intro function index op seen
    simp only [wordMachine]
    split
    · rename_i returns
      exact ⟨returns, rfl⟩
    · rename_i other
      exact ⟨other, Or.inl Linkage.plain_nil⟩

theorem wordMachine_hosts :
    wordMachine.Hosts instrumentsAll startingModule.nextId :=
  ⟨rfl, fun _ member => List.contains_iff_mem.mpr member⟩

/-- What `main` of the compiled program logs on the machine of words. -/
def StartingTrace
    (property : Nat → List Cycle → List TextAction → Prop) : Prop :=
  ∃ functions final,
    (compilingPass Config.source instrumentsAll).runOnModule 60
        (fun _ => firstCompiler) startingModule = some (functions, final) ∧
      ∀ others : IdMapName → List Action,
        (∀ name,
          ¬ Conflicts Config.source (final name).process
            (beforeSave (final name) (others name)).final) →
          ∀ later : ∀ name,
            Run (processSystem Config.source)
              (savedMap (final name) (others name)).final,
            ∀ answers : IdMapName × String → Int,
              (∀ name src id, Binds Config.source (later name).final src id →
                answers (name, src) = id) →
                ∀ steps depth memory, ∃ ended cycles begun,
                  wordMachine.process (functions.map Function.routine) steps
                      depth [("main", [])] memory = some ended ∧
                    wordLinkage.Cycles ended.log cycles begun ∧
                      ended.Whole 1 cycles begun ∧ property 1 cycles begun

theorem startingTrace_of_compiledTrace
    {property : Nat → List Cycle → List TextAction → Prop}
    (traces : CompiledTrace Config.source instrumentsAll startingModule 60
      (fun _ => firstCompiler) property) :
    StartingTrace property := by
  rcases traces with ⟨functions, final, returned, traces⟩
  refine ⟨functions, final, returned, ?_⟩
  intro others noConflict later answers agree steps depth memory
  rcases traces others noConflict later answers agree with
    ⟨slots, _, processes⟩
  have hosts :
      wordMachine.Hosts (instrumentsAll.withMaps answers)
        startingModule.nextId :=
    ⟨rfl, wordMachine_hosts.isLog⟩
  have starts :
      ∀ call ∈ [("main", ([] : List (Content (BitVec 64))))],
        startingModule.Starts (instrumentsAll.withMaps answers) call.1 := by
    intro call member
    rw [List.mem_singleton.mp member]
    exact startingModule_starts
  rcases processes hosts wordMachine_orderly steps depth _ starts memory with
    ⟨ended, cycles, begun, ran, _, logged, whole, holds⟩
  exact ⟨ended, cycles, begun, ran, logged, whole, holds⟩

theorem compiled_program_text_main :
    StartingTrace fun _ cycles begun =>
      ∀ file, ∃ text,
        TextTrace file cycles begun text ∧
          ∀ earlier last, cycles = earlier ++ [last] →
            (∀ logged ∈ last.calls, logged.OneLine) →
              (traceText last.calls).count '\n' = last.calls.length ∧
                ∀ calls : List LoggedCall,
                  (∀ logged ∈ calls, logged.Readable) →
                    traceText calls = traceText last.calls →
                      calls.map LoggedCall.summary =
                        last.calls.map LoggedCall.summary :=
  startingTrace_of_compiledTrace
    (compiled_program_text instrumentsAll_noLog startingModule_widths
      startingModule_sound rfl rfl startingModule_ordinary (by decide)
      fun _ => firstCompiler)

theorem compiled_program_binary_main :
    StartingTrace fun count cycles begun =>
      ∀ runtime : Trace.Runtime, runtime.Admits →
        ∀ clock timed later rest,
          List.Forall₂ TimedAs cycles timed → BegunAs begun later rest →
            InTime clock (timed.flatMap TimedCycle.calls ++ later) →
              ∃ ended,
                BinaryTrace runtime clock count cycles begun timed rest
                  ended :=
  startingTrace_of_compiledTrace
    (compiled_program_binary instrumentsAll_noLog startingModule_widths
      startingModule_sound rfl rfl startingModule_ordinary (by decide)
      fun _ => firstCompiler)

-- The argument 7 is logged on entry, when it is stored and when it is loaded
-- back; then the 8 bytes that are allocated are.
example :
    ((instrumentsAll.runOnModule 60 startingModule).bind fun functions =>
      (wordMachine.process (functions.map Function.routine) 1 1
          [("main", [])] fun _ => .value 0).bind fun ended =>
        ((textSystem none).run (textSystem none).initial
          (ended.log.filterMap wordLinkage.action)).bind TextState.file) =
      some
        ("fb 0\n" ++ "0x10050 7 a -1 -1 -1 0 0\n" ++
          "0x1000 7 w -1 -1 -1 0 0\n" ++ "0x1000 7 r -1 -1 -1 0 0\n" ++
          "0x1030 8 1 0 -1 -1 -1\n" ++ "fe 0\n").toList := by
  decide +kernel

end Dinamite.Instrument
