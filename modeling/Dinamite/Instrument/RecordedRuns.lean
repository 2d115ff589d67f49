import Dinamite.Instrument.RecordedEntry

/-!
# Instrumented programs

Whole programs, calls of their own functions included: the instrumented one
logs what a recorded run of the program before the pass notes, and but for the
log it behaves like the program before the pass.
-/

namespace Dinamite.Instrument

open AccessInstrumentationPass

variable {Val Mem : Type} {machine : Machine Val Mem} {keeps : Prop}

/-! ## Programs that agree -/

/-- Two functions that do the same on machines whose functions do the same. -/
structure Routine.Agree
    (keeps : Prop) (machine : Machine Val Mem) (left right : Routine) :
    Prop where
  name : left.name = right.name
  codes : ∀ bodies others : Bodies Val Mem, bodies.Agree keeps others →
    List.Forall₂ (Code.Agree keeps machine.fresh)
      (left.codes (machine.entering bodies))
      (right.codes (machine.entering others))

theorem rel_lookup
    {lefts rights : List Routine}
    (routines : List.Forall₂ (Routine.Agree keeps machine) lefts rights)
    (name : String) :
    Option.Rel (Routine.Agree keeps machine) (lookup lefts name)
      (lookup rights name) := by
  induction routines with
  | nil => exact .none
  | @cons left right lefts rights first _ inductionHypothesis =>
      unfold lookup at inductionHypothesis ⊢
      by_cases found : left.name = name
      · have foundRight : right.name = name := first.name ▸ found
        rw [List.find?_cons_of_pos (by simpa using found),
          List.find?_cons_of_pos (by simpa using foundRight)]
        exact .some first
      · have missed : ¬ right.name = name := first.name ▸ found
        rw [List.find?_cons_of_neg (by simpa using found),
          List.find?_cons_of_neg (by simpa using missed)]
        exact inductionHypothesis

/-- Calls that do the same for all arguments. -/
def CallsAgree
    (keeps : Prop)
    (left right : Option (List (Content Val) → Mem → Behaviour Val Mem)) :
    Prop :=
  Option.Rel
    (fun body other =>
      ∀ args memory, (body args memory).Agree keeps (other args memory))
    left right

section Programs

variable {lefts rights : List Routine}

theorem call_agree
    (routines : List.Forall₂ (Routine.Agree keeps machine) lefts rights)
    {bodies others : Bodies Val Mem} (agree : bodies.Agree keeps others)
    (steps : Nat) (name : String) :
    CallsAgree keeps ((machine.entering bodies).call lefts steps name)
      ((machine.entering others).call rights steps name) := by
  have found := rel_lookup routines name
  unfold Machine.call
  generalize lookup lefts name = left at found ⊢
  generalize lookup rights name = right at found ⊢
  cases found with
  | none => exact .none
  | @some left right routine =>
      have codes := routine.codes bodies others agree
      have sameEnd :
          left.codes (machine.entering bodies) = [] ↔
            right.codes (machine.entering others) = [] := by
        rw [← List.length_eq_zero_iff, ← List.length_eq_zero_iff,
          codes.length_eq]
      by_cases empty : left.codes (machine.entering bodies) = []
      · simp only [if_pos empty, if_pos (sameEnd.mp empty)]
        exact .none
      · simp only [if_neg empty, if_neg (fun other =>
          empty (sameEnd.mpr other))]
        exact .some fun args memory =>
          Machine.run_congr codes (.refl keeps _ _) bodies others name
            steps 0

theorem bodies_agree
    (routines : List.Forall₂ (Routine.Agree keeps machine) lefts rights)
    (steps depth : Nat) :
    (machine.bodies lefts steps depth).Agree keeps
      (machine.bodies rights steps depth) := by
  induction depth with
  | zero => exact fun _ => .none
  | succ depth inductionHypothesis =>
      intro name
      have calls := call_agree routines inductionHypothesis steps name
      simp only [Machine.bodies]
      generalize (machine.entering
        (machine.bodies lefts steps depth)).call lefts steps name =
          left at calls ⊢
      generalize (machine.entering
        (machine.bodies rights steps depth)).call rights steps name =
          right at calls ⊢
      cases calls with
      | none => exact .none
      | some same => exact .some fun args memory => (same args memory).effect

theorem behaviour_agree
    (routines : List.Forall₂ (Routine.Agree keeps machine) lefts rights)
    (steps depth : Nat) (name : String) :
    CallsAgree keeps (machine.behaviour lefts steps depth name)
      (machine.behaviour rights steps depth name) :=
  call_agree routines (bodies_agree routines steps depth) steps name

end Programs

theorem Effect.Agree.eq
    {first second : Effect Val Mem} (agree : first.Agree True second) :
    first = second := by
  cases agree with
  | returns result memory same => rw [same trivial]
  | halts memory same => rw [same trivial]

theorem Bodies.Agree.eq
    {first second : Bodies Val Mem} (agree : first.Agree True second) :
    first = second := by
  funext name
  have here := agree name
  generalize first name = left at here ⊢
  generalize second name = right at here ⊢
  cases here with
  | none => rfl
  | some same =>
      congr 1
      funext args memory
      exact (same args memory).eq

theorem CallsAgree.eq
    {left right : Option (List (Content Val) → Mem → Behaviour Val Mem)}
    (agree : CallsAgree True left right) : left = right := by
  cases agree with
  | none => rfl
  | some same =>
      congr 1
      funext args memory
      exact (same args memory).eq

/-! ## Declarations -/

/-- Functions without a body do not take part in a run. -/
theorem call_append
    (routines : List Routine) {declared : List Routine}
    (bare : ∀ routine ∈ declared, routine.codes machine = [])
    (steps : Nat) (name : String) :
    machine.call (routines ++ declared) steps name =
      machine.call routines steps name := by
  unfold Machine.call lookup
  rw [List.find?_append]
  cases routines.find? fun routine => routine.name = name with
  | some routine => rfl
  | none =>
      rw [Option.none_or]
      cases found : declared.find? fun routine => routine.name = name with
      | none => rfl
      | some routine =>
          simp only [if_pos (bare routine (List.mem_of_find?_eq_some found))]

theorem behaviour_append
    (routines : List Routine) {declared : List Routine}
    (bare : ∀ routine ∈ declared, ∀ machine : Machine Val Mem,
      routine.codes machine = [])
    (steps depth : Nat) (name : String) :
    machine.behaviour (routines ++ declared) steps depth name =
      machine.behaviour routines steps depth name := by
  have bodies :
      machine.bodies (routines ++ declared) steps depth =
        machine.bodies routines steps depth := by
    induction depth with
    | zero => rfl
    | succ depth inductionHypothesis =>
        funext other
        simp only [Machine.bodies, inductionHypothesis]
        rw [call_append routines fun routine member =>
          bare routine member _]
  unfold Machine.behaviour
  rw [bodies]
  exact call_append routines (fun routine member => bare routine member _)
    steps name

/-! ## The functions of a module -/

section Module

variable {pass : AccessInstrumentationPass} {fresh fuel : Nat}
variable {state final : PassState}

theorem Machine.Hosts.entering
    (hosts : machine.Hosts pass fresh) (bodies : Bodies Val Mem) :
    (machine.entering bodies).Hosts pass fresh :=
  ⟨hosts.fresh, hosts.isLog⟩

def Function.Sound
    (pass : AccessInstrumentationPass) (fresh : Nat) (function : Function) :
    Prop :=
  ∀ block ∈ function.blocks, ∀ inst ∈ block.insts, inst.Sound pass fresh

/-- A block that is left as it is. -/
theorem code_agree
    (hosts : machine.Hosts pass fresh) {block : Block}
    (sound : ∀ inst ∈ block.insts, inst.Sound pass fresh) :
    Code.Agree True machine.fresh (machine.code block)
      (machine.code block) := by
  refine ⟨rfl, means_insts ?_⟩
  intro inst member
  rw [hosts.fresh]
  exact (sound inst member).operands

theorem codes_of_instrumentFunction
    (hosts : machine.Hosts pass fresh) (noLog : pass.NoLogFunctionDefined)
    {function target : Function} (sound : function.Sound pass fresh)
    (selected : pass.selects function = true)
    (settled : Settled fresh state)
    (ran :
      pass.instrumentFunction fuel function state = some (target, final)) :
    List.Forall₂ (Code.Agree True machine.fresh)
      (target.routine.codes machine)
      ((pass.recorded state.nextId function).codes machine) := by
  rcases instrumentFunction_cases ran with
    ⟨blocks, rfl, _⟩ | ⟨entry, rest, first, middle, others, blocks, entryRan,
      othersRan, rfl⟩
  · simp only [Function.routine, recorded, blocks, List.map_nil]
    exact .nil
  · have blocksSound :
        ∀ block ∈ entry :: rest, ∀ inst ∈ block.insts,
          inst.Sound pass fresh := by
      rw [← blocks]
      exact sound
    rcases means_instrumentEntry hosts noLog
        (blocksSound entry List.mem_cons_self) settled entryRan with
      ⟨settledMiddle, entryAgrees⟩
    have othersAgree :
        List.Forall₂ (Code.Agree True machine.fresh)
          (others.map machine.code)
          (rest.map (pass.recordBlock machine (pass.decision function))) :=
      means_instrumentBlocks hosts noLog
        (fun block member =>
          blocksSound block (List.mem_cons_of_mem entry member))
        settledMiddle othersRan
    simp only [Function.routine, recorded, blocks, selected, if_true,
      List.map_cons]
    exact .cons entryAgrees othersAgree

/-- What the pass makes of a function does what its recorded run does. -/
theorem routine_agree
    (noLog : pass.NoLogFunctionDefined) {function target : Function}
    (sound : function.Sound pass fresh) (settled : Settled fresh state)
    (ran :
      (if pass.selects function then
          pass.instrumentFunction fuel function state
        else
          some (function, state)) = some (target, final))
    (hosts : machine.Hosts pass fresh) :
    Routine.Agree True machine target.routine
      (pass.recorded state.nextId function) := by
  have sameName : target.name = function.name := by
    by_cases selected : pass.selects function = true
    · rw [if_pos selected] at ran
      rcases instrumentFunction_cases ran with
        ⟨_, rfl, _⟩ | ⟨_, _, _, _, _, _, _, _, rfl⟩
      · rfl
      · rfl
    · rw [if_neg selected] at ran
      rcases Prod.mk.inj (Option.some.inj ran) with ⟨rfl, _⟩
      rfl
  refine ⟨sameName, ?_⟩
  intro bodies others agree
  obtain rfl := agree.eq
  have entered := hosts.entering bodies
  by_cases selected : pass.selects function = true
  · rw [if_pos selected] at ran
    exact codes_of_instrumentFunction entered noLog sound selected settled
      ran
  · rw [if_neg selected] at ran
    rcases Prod.mk.inj (Option.some.inj ran) with ⟨rfl, _⟩
    have codes :
        (pass.recorded state.nextId function).codes
            (machine.entering bodies) =
          function.blocks.map (machine.entering bodies).code := by
      simp only [recorded, if_neg selected]
      cases function.blocks with
      | nil => rfl
      | cons entry rest => rfl
    rw [codes]
    exact List.forall₂_same.mpr fun code member => by
      rcases List.mem_map.mp member with ⟨block, isBlock, rfl⟩
      exact code_agree entered (sound block isBlock)

theorem settled_of_step
    {function target : Function} (settled : Settled fresh state)
    (ran :
      (if pass.selects function then
          pass.instrumentFunction fuel function state
        else
          some (function, state)) = some (target, final)) :
    Settled fresh final := by
  split at ran
  · exact settled_of_instrumentFunction ran settled
  · rcases Prod.mk.inj (Option.some.inj ran) with ⟨_, rfl⟩
    exact settled

/-- The functions of a module, each with slots of its own. -/
theorem routines_agree
    (noLog : pass.NoLogFunctionDefined) {functions results : List Function}
    (sound : ∀ function ∈ functions, function.Sound pass fresh)
    (settled : Settled fresh state)
    (ran :
      pass.instrumentFunctions fuel state functions =
        some (results, final)) :
    ∃ slots : Nat → Nat,
      (∀ index, fresh ≤ slots index) ∧
        ∀ {Val Mem : Type} {machine : Machine Val Mem},
          machine.Hosts pass fresh →
            List.Forall₂ (Routine.Agree True machine)
              (results.map Function.routine)
              (functions.mapIdx fun index function =>
                pass.recorded (slots index) function) := by
  induction functions generalizing state results with
  | nil =>
      rcases Prod.mk.inj (Option.some.inj ran) with ⟨rfl, rfl⟩
      exact ⟨fun _ => fresh, fun _ => le_refl _, fun _ => .nil⟩
  | cons function rest inductionHypothesis =>
      rw [instrumentFunctions_cons] at ran
      rcases Option.bind_eq_some_iff.mp ran with
        ⟨⟨target, next⟩, here, continued⟩
      rcases Option.map_eq_some_iff.mp continued with
        ⟨⟨others, last⟩, there, equal⟩
      rcases Prod.mk.inj equal with ⟨rfl, rfl⟩
      have isSound := sound function List.mem_cons_self
      rcases inductionHypothesis
          (fun other member => sound other (List.mem_cons_of_mem _ member))
          (settled_of_step settled here) there with
        ⟨slots, young, agree⟩
      refine ⟨fun index => Nat.casesOn index state.nextId slots, ?_, ?_⟩
      · intro index
        cases index with
        | zero => exact settled.older
        | succ index => exact young index
      · intro _ _ machine hosts
        rw [List.map_cons, List.mapIdx_cons]
        exact .cons (routine_agree noLog isSound settled here hosts)
          (agree hosts)

end Module

/-! ## What instrumented programs log -/

/-- Instructions read results of instructions, and the allocation definitions
name arguments that the calls have. -/
def Module.Sound
    (pass : AccessInstrumentationPass) (module : Module) : Prop :=
  ∀ function ∈ module.functions, ∀ block ∈ function.blocks,
    ∀ inst ∈ block.insts,
      inst.OperandsBelow module.nextId ∧ pass.Fits inst

instance (pass : AccessInstrumentationPass) (module : Module) :
    Decidable (module.Sound pass) :=
  inferInstanceAs (Decidable (∀ function ∈ module.functions,
    ∀ block ∈ function.blocks, ∀ inst ∈ block.insts,
      inst.OperandsBelow module.nextId ∧ pass.Fits inst))

theorem sound_of_loaded
    {pass : AccessInstrumentationPass} {module : Module}
    (sound : module.Sound pass) :
    ∀ function ∈ pass.loadedFunctions module,
      function.Sound pass module.nextId := by
  intro function member block isBlock inst isInst
  rcases List.mem_append.mp member with defined | declared
  · have here := sound function defined block isBlock inst isInst
    exact ⟨module.older function defined block isBlock inst isInst, here.1,
      here.2⟩
  · rcases List.mem_map.mp declared with ⟨callee, _, rfl⟩
    cases isBlock

/-- The instrumented program is run as the program before the pass, with its
events, accesses and allocations noted: on every machine, for every number of
steps, depth of calls, arguments and memory, the result, the memory and the
whole log are the same. -/
theorem behaviour_of_runOnModule
    {pass : AccessInstrumentationPass} {module : Module}
    (noLog : pass.NoLogFunctionDefined) (sound : module.Sound pass)
    {fuel : Nat} {functions : List Function}
    (ran : pass.runOnModule fuel module = some functions) :
    ∃ slots : Nat → Nat,
      (∀ index, module.nextId ≤ slots index) ∧
        ∀ {Val Mem : Type} {machine : Machine Val Mem},
          machine.Hosts pass module.nextId →
            ∀ steps depth name,
              machine.behaviour (functions.map Function.routine) steps depth
                  name =
                machine.behaviour (pass.recordedModule slots module) steps
                  depth name := by
  rw [runOnModule_eq] at ran
  unfold recordedModule
  by_cases admitted : pass.insfilt.checkFileFilter module.identifier = true
  · rw [if_pos admitted] at ran
    rcases Option.map_eq_some_iff.mp ran with
      ⟨⟨results, last⟩, instrumented, rfl⟩
    rcases routines_agree noLog (sound_of_loaded sound)
        ⟨le_refl _, rfl⟩ instrumented with
      ⟨slots, young, agree⟩
    refine ⟨slots, young, ?_⟩
    intro Val Mem machine hosts steps depth name
    rw [if_pos admitted]
    have same := (behaviour_agree (agree hosts) steps depth name).eq
    rw [same, loadedFunctions, List.mapIdx_append]
    refine behaviour_append _ ?_ steps depth name
    intro routine member other
    rcases List.mem_mapIdx.mp member with ⟨index, inRange, rfl⟩
    simp only [recorded, List.getElem_map, Callee.declaration]
  · rw [if_neg admitted] at ran
    obtain rfl := Option.some.inj ran
    refine ⟨fun _ => module.nextId, fun _ => le_refl _, ?_⟩
    intro Val Mem machine hosts steps depth name
    rw [if_neg admitted]

/-! ## What the program notices -/

/-- A run without its log. -/
def Behaviour.unlogged {Val Mem : Type} :
    Behaviour Val Mem → Behaviour Val Mem
  | .runs memory _ => .runs memory []
  | .leaves result memory _ => .leaves result memory []
  | .halts memory _ => .halts memory []

theorem Behaviour.Agree.unlogged
    {first second : Behaviour Val Mem} (agree : first.Agree keeps second) :
    first.unlogged = second.unlogged := by
  cases agree <;> rfl

theorem CallsAgree.unlogged
    {left right : Option (List (Content Val) → Mem → Behaviour Val Mem)}
    (agree : CallsAgree keeps left right)
    (args : List (Content Val)) (memory : Mem) :
    (left.map fun body => (body args memory).unlogged) =
      right.map fun body => (body args memory).unlogged := by
  cases agree with
  | none => rfl
  | some same =>
      rw [Option.map_some, Option.map_some, (same args memory).unlogged]

section Unlogged

variable {pass : AccessInstrumentationPass} {fresh : Nat}
variable {decision : Decision} {bodies others : Bodies Val Mem}
variable {left right : Frame Val Mem}

theorem noting_agree
    (entries : Frame Val Mem → List (Entry Val Mem)) {mark : Nat}
    (agree : left.Agree False mark right) :
    (noting entries left).Agree False mark right :=
  { agree with log := False.elim }

theorem recordAll_agree
    (alike : bodies.Agree False others)
    (agree : left.Agree False machine.fresh right)
    {insts : List Inst}
    (below : ∀ inst ∈ insts, inst.OperandsBelow machine.fresh) :
    (pass.recordAll (machine.entering bodies) decision insts left).Agree
      False machine.fresh
      ((machine.entering others).stepAll insts right) := by
  induction insts generalizing left right with
  | nil => exact .goes agree
  | cons inst rest inductionHypothesis =>
      have stepped :=
        Machine.step_entering alike
          (noting_agree
            (pass.entriesBefore (machine.entering bodies) decision inst)
            agree)
          (le_refl machine.fresh) (below inst List.mem_cons_self)
      exact stepped.bind fun _ _ continued =>
        inductionHypothesis (noting_agree _ continued)
          fun other member => below other (List.mem_cons_of_mem _ member)

theorem recordEnd_agree
    (block : Block) {mark : Nat} (agree : left.Agree False mark right) :
    (pass.recordEnd (machine.entering bodies) decision block left).Agree
      False mark right := by
  unfold recordEnd
  split
  · exact noting_agree _ agree
  · exact agree

theorem bind_goes_eq (result : Result Val Mem) :
    result.bind .goes = result := by
  cases result <;> rfl

theorem recordRest_agree
    (alike : bodies.Agree False others) (block : Block)
    (agree : left.Agree False machine.fresh right) {insts : List Inst}
    (below : ∀ inst ∈ insts, inst.OperandsBelow machine.fresh) :
    ((pass.recordAll (machine.entering bodies) decision insts left).bind
        fun after =>
          .goes (pass.recordEnd (machine.entering bodies) decision block
            after)).Agree False machine.fresh
      ((machine.entering others).stepAll insts right) := by
  rw [← bind_goes_eq ((machine.entering others).stepAll insts right)]
  exact (recordAll_agree alike agree below).bind fun _ _ continued =>
    .goes (recordEnd_agree block continued)

/-- A recorded block does what the block does, but for the log. -/
theorem recordBlock_agree
    (alike : bodies.Agree False others) {block : Block}
    (below : ∀ inst ∈ block.insts, inst.OperandsBelow machine.fresh) :
    Code.Agree False machine.fresh
      (pass.recordBlock (machine.entering bodies) decision block)
      ((machine.entering others).code block) :=
  ⟨rfl, fun _ _ agree => recordRest_agree alike block agree below⟩

theorem recordEntry_agree
    (alike : bodies.Agree False others) (slot : Nat) (function : Function)
    {entry : Block}
    (below : ∀ inst ∈ entry.insts, inst.OperandsBelow machine.fresh) :
    Code.Agree False machine.fresh
      (pass.recordEntry (machine.entering bodies) slot function entry)
      ((machine.entering others).code entry) := by
  refine ⟨rfl, ?_⟩
  intro first second agree
  have original := splitFirst_append entry
  have front :
      ∀ inst ∈ entry.splitFirstInsertionPt.1,
        inst.OperandsBelow machine.fresh := by
    intro inst member
    refine below inst ?_
    rw [← original]
    exact List.mem_append_left _ member
  have back :
      ∀ inst ∈ entry.splitFirstInsertionPt.2,
        inst.OperandsBelow machine.fresh := by
    intro inst member
    refine below inst ?_
    rw [← original]
    exact List.mem_append_right _ member
  change Result.Agree False machine.fresh _
    ((machine.entering others).stepAll entry.insts second)
  rw [← original, Machine.stepAll_append]
  exact (Machine.stepAll_entering alike agree (le_refl _) front).bind
    fun _ _ atBack =>
      recordRest_agree alike entry
        (noting_agree _ (noting_agree _ atBack)) back

theorem recorded_agree
    (slot : Nat) {function : Function}
    (below : ∀ block ∈ function.blocks, ∀ inst ∈ block.insts,
      inst.OperandsBelow machine.fresh) :
    Routine.Agree False machine (pass.recorded slot function)
      function.routine := by
  refine ⟨rfl, ?_⟩
  intro bodies others alike
  simp only [recorded, Function.routine]
  cases blocks : function.blocks with
  | nil => exact .nil
  | cons entry rest =>
      rw [blocks] at below
      have entryBelow := below entry List.mem_cons_self
      have restBelow :
          ∀ block ∈ rest, ∀ inst ∈ block.insts,
            inst.OperandsBelow machine.fresh :=
        fun block member => below block (List.mem_cons_of_mem entry member)
      by_cases selected : pass.selects function = true
      · simp only [if_pos selected, List.map_cons]
        refine .cons (recordEntry_agree alike slot function entryBelow) ?_
        rw [List.forall₂_map_left_iff, List.forall₂_map_right_iff]
        exact List.forall₂_same.mpr fun block member =>
          recordBlock_agree alike (restBelow block member)
      · simp only [if_neg selected]
        rw [List.forall₂_map_left_iff, List.forall₂_map_right_iff]
        exact List.forall₂_same.mpr fun block member =>
          ⟨rfl, fun _ _ agree =>
            Machine.stepAll_entering alike agree (le_refl _)
              (below block member)⟩

end Unlogged

theorem forall₂_mapIdx_map
    {α : Type} {β γ : Type 1} {related : β → γ → Prop} {items : List α}
    {left : Nat → α → β} {right : α → γ}
    (all : ∀ index, ∀ item ∈ items, related (left index item) (right item)) :
    List.Forall₂ related (items.mapIdx left) (items.map right) := by
  induction items generalizing left with
  | nil => exact .nil
  | cons item rest inductionHypothesis =>
      rw [List.mapIdx_cons, List.map_cons]
      exact .cons (all 0 item List.mem_cons_self)
        (inductionHypothesis fun index other member =>
          all (index + 1) other (List.mem_cons_of_mem item member))

/-- But for the log, the instrumented program does what the program did before
the pass: on every machine, for every number of steps, depth of calls,
arguments and memory, it ends in the same way, with the same result and the
same memory. -/
theorem unlogged_of_runOnModule
    {pass : AccessInstrumentationPass} {module : Module}
    (noLog : pass.NoLogFunctionDefined) (sound : module.Sound pass)
    {fuel : Nat} {functions : List Function}
    (ran : pass.runOnModule fuel module = some functions)
    {Val Mem : Type} {machine : Machine Val Mem}
    (hosts : machine.Hosts pass module.nextId)
    (steps depth : Nat) (name : String)
    (args : List (Content Val)) (memory : Mem) :
    ((machine.behaviour (functions.map Function.routine) steps depth
        name).map fun body => (body args memory).unlogged) =
      (machine.behaviour (module.functions.map Function.routine) steps depth
        name).map fun body => (body args memory).unlogged := by
  rcases behaviour_of_runOnModule noLog sound ran with ⟨slots, _, same⟩
  rw [same hosts]
  unfold recordedModule
  by_cases admitted : pass.insfilt.checkFileFilter module.identifier = true
  · rw [if_pos admitted]
    have routines :
        List.Forall₂ (Routine.Agree False machine)
          (module.functions.mapIdx fun index function =>
            pass.recorded (slots index) function)
          (module.functions.map Function.routine) := by
      refine forall₂_mapIdx_map ?_
      intro index function member
      refine recorded_agree (slots index) ?_
      intro block isBlock inst isInst
      rw [hosts.fresh]
      exact (sound function member block isBlock inst isInst).1
    exact (behaviour_agree routines steps depth name).unlogged args memory
  · rw [if_neg admitted]

/-! ## A small machine -/

theorem allocatingModule_sound : allocatingModule.Sound instrumentsAll := by
  decide

theorem allocatingModule_widths : allocatingModule.WidthsOk := by
  intro function member
  rw [List.mem_singleton.mp member]
  refine ⟨by decide, ?_⟩
  intro block isBlock inst isInst type accessed
  rw [List.mem_singleton.mp isBlock] at isInst
  revert type
  revert inst
  decide

theorem instrumentsAll_noLog : instrumentsAll.NoLogFunctionDefined := by
  unfold NoLogFunctionDefined
  decide +kernel

/-- Values are numbers, and memory has one cell for each.  Slots of the program
and allocations are where their identities say. -/
def cellMachine (pass : AccessInstrumentationPass) (fresh : Nat) :
    Machine Int (Int → Content Int) where
  fresh := fresh
  isLog := fun callee =>
    (pass.lfm.accessFunctions ++ pass.lfm.eventFunctions).contains callee
  enter := fun _ => none
  global := fun _ => 0
  constant := fun _ _ => 0
  integer := fun value _ => value
  cast := fun _ _ _ value => value
  load := fun memory pointer _ =>
    match pointer with
    | .value address => memory address
    | .slot id => .slot id
  store := fun memory address content =>
    Function.update memory address content
  execute := fun inst seen =>
    .returns (some (.value (1000 + inst.id))) seen.memory []
  terminate := fun _ _ _ seen => (.leave none, seen.memory, [])

theorem cellMachine_hosts (pass : AccessInstrumentationPass) (fresh : Nat) :
    (cellMachine pass fresh).Hosts pass fresh :=
  ⟨rfl, fun _ member => List.contains_iff_mem.mpr member⟩

-- The argument 7 is logged on entry, when it is stored and when it is loaded
-- back; then the 8 bytes that are allocated are.
example :
    ((instrumentsAll.runOnModule 45 allocatingModule).bind fun functions =>
      ((cellMachine instrumentsAll 4).behaviour
        (functions.map Function.routine) 1 0 "abc").map fun body =>
          (body [.value 7] fun _ => .value 0).log.map fun entry =>
            (entry.callee.name, (entry.args.take 3))) =
      some
        [("logFnBegin", [.value 0]),
          ("logAccessI32", [.slot 4, .value 7, .value 'a'.toNat]),
          ("logAccessI32", [.value 1000, .value 7, .value 'w'.toNat]),
          ("logAccessI32", [.value 1000, .value 7, .value 'r'.toNat]),
          ("logAlloc", [.value 1003, .value 8, .value 1]),
          ("logFnEnd", [.value 0])] := by
  decide +kernel

end Dinamite.Instrument
