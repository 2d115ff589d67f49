import Dinamite.Instrument.PlainMaps

/-!
# The pass with its maps

The pass as it runs: a map that is asked for a new name changes.  The ids are
those of the pass whose maps are plain functions, for any functions that agree
with what the maps hold at the end.
-/

namespace Dinamite.Instrument

/-- The ids that `pass` itself would give are not used. -/
structure MappedPass (State : Type) where
  pass : AccessInstrumentationPass
  maps : MemoTable State (IdMapName × String) Int

/-- The pass with these answers for its maps. -/
def AccessInstrumentationPass.withMaps
    (pass : AccessInstrumentationPass)
    (answers : IdMapName × String → Int) : AccessInstrumentationPass :=
  { pass with
    srcmap := fun src => answers (.srcmap, src)
    typemap := fun src => answers (.typemap, src)
    varmap := fun src => answers (.varmap, src)
    fnmap := fun src => answers (.fnmap, src) }

namespace AccessInstrumentationPass

variable (pass : AccessInstrumentationPass)
variable (answers : IdMapName × String → Int)

theorem getId_withMaps : (pass.withMaps answers).getId = answers := by
  funext ⟨map, src⟩
  cases map <;> rfl

/-! ## What is asked does not depend on the answers -/

@[simp]
theorem withMaps_insfilt :
    (pass.withMaps answers).insfilt = pass.insfilt :=
  rfl

theorem withMaps_injectArgs
    (fname : String) (idx : Nat) (args : List Value) (builder : IRBuilder)
    (argLogSet : Finset Value) :
    (pass.withMaps answers).injectArgs fname idx args builder argLogSet =
      pass.injectArgs fname idx args builder argLogSet := by
  induction args generalizing idx builder argLogSet with
  | nil => rfl
  | cons arg rest inductionHypothesis =>
      simp only [injectArgs, withMaps_insfilt, inductionHypothesis]

theorem withMaps_instrumentBlocks
    (fuel : Nat) (decision : Decision) (state : PassState)
    (blocks : List Block) :
    Asked.instrumentBlocks (pass.withMaps answers) fuel decision state
        blocks =
      Asked.instrumentBlocks pass fuel decision state blocks := by
  induction blocks generalizing state with
  | nil => rfl
  | cons block rest inductionHypothesis =>
      simp only [Asked.instrumentBlocks, inductionHypothesis]
      rfl

theorem withMaps_prepareEntry
    (function : Function) (state : PassState) (entry : Block) :
    Asked.prepareEntry (pass.withMaps answers) function state entry =
      Asked.prepareEntry pass function state entry := by
  simp only [Asked.prepareEntry, queueAndInjectArgsToLog,
    withMaps_injectArgs]
  rfl

theorem withMaps_instrumentFunctions
    (fuel : Nat) (state : PassState) (functions : List Function) :
    Asked.instrumentFunctions (pass.withMaps answers) fuel state functions =
      Asked.instrumentFunctions pass fuel state functions := by
  induction functions generalizing state with
  | nil => rfl
  | cons function rest inductionHypothesis =>
      simp only [Asked.instrumentFunctions, Asked.instrumentFunction,
        withMaps_prepareEntry, withMaps_instrumentBlocks,
        inductionHypothesis]
      rfl

theorem runOnModule_withMaps (fuel : Nat) (module : Module) :
    (pass.withMaps answers).runOnModule fuel module =
      Asking.attempt answers (Asked.runOnModule pass fuel module) := by
  simp only [runOnModule, getId_withMaps, Asked.runOnModule,
    withMaps_instrumentFunctions]
  rfl

end AccessInstrumentationPass

namespace MappedPass

variable {State : Type} (mapped : MappedPass State)

def asked (fuel : Nat) (module : Module) : OptionT Asks (List Function) :=
  AccessInstrumentationPass.Asked.runOnModule mapped.pass fuel module

def runOnModule
    (fuel : Nat) (ids : State) (module : Module) :
    Option (List Function × State) :=
  Asking.attemptWith mapped.maps ids (mapped.asked fuel module)

/-- The maps as the pass leaves them, also where it stops. -/
def finalMaps (fuel : Nat) (ids : State) (module : Module) : State :=
  (Asking.runWith mapped.maps ids (mapped.asked fuel module).run).2

theorem extends_finalMaps (fuel : Nat) (ids : State) (module : Module) :
    mapped.maps.Extends ids (mapped.finalMaps fuel ids module) :=
  Asking.extends_runWith ids _

theorem eq_finalMaps_of_runOnModule
    {fuel : Nat} {ids later : State} {module : Module}
    {functions : List Function}
    (ran : mapped.runOnModule fuel ids module = some (functions, later)) :
    later = mapped.finalMaps fuel ids module := by
  rcases Option.map_eq_some_iff.mp ran with ⟨made, _, same⟩
  exact (Prod.mk.inj same).2.symm

/-- The maps at the end explain what the pass did. -/
theorem runOnModule_explained
    {fuel : Nat} {ids : State} {module : Module}
    {answers : IdMapName × String → Int}
    (explains :
      mapped.maps.Explains (mapped.finalMaps fuel ids module) answers) :
    (mapped.pass.withMaps answers).runOnModule fuel module =
      (mapped.runOnModule fuel ids module).map Prod.fst :=
  (mapped.pass.runOnModule_withMaps answers fuel module).trans
    (Asking.attempt_of_explains explains)

end MappedPass

end Dinamite.Instrument
