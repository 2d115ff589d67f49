import Dinamite.Instrument.CompiledRuns
import Dinamite.Instrument.ScopedBlocks

/-!
# Dominance

The pass keeps the order of definitions and uses: where every operand of a
module is defined in front of its use, in the block or in one that dominates
it, the same holds of what the pass returns, injected and inserted
instructions included.
-/

namespace Dinamite.Instrument

open Dinamite.Maps (Config)
open AccessInstrumentationPass

/-! ## Functions -/

namespace Function

/-- Every path from the entry to the second block leads through the first. -/
def Dominates (function : Function) (dominator block : Nat) : Prop :=
  ∀ path, function.PathFrom 0 path → path.getLast? = some block →
    dominator ∈ path

/-- What is in scope where a block begins: arguments, the given results of
terminators, and the values of blocks that dominate it. -/
def scopeAt
    (function : Function) (results : Nat → Set Value) (block : Nat) :
    Set Value :=
  function.argValues ∪ results block ∪
    {value | ∃ dominator found, dominator ≠ block ∧
      function.Dominates dominator block ∧
        function.blocks[dominator]? = some found ∧
          value ∈ valuesOf found.insts}

/-- Definitions dominate uses. -/
def Dominated
    (function : Function) (results : Nat → Set Value) : Prop :=
  ∀ block found, function.blocks[block]? = some found →
    Scoped (function.scopeAt results block) found.insts

end Function

/-- The functions have the same name and arguments, and block by block the
second keeps what the first has. -/
structure FunctionKept (source target : Function) : Prop where
  name : target.name = source.name
  args : target.argValues = source.argValues
  blocks :
    List.Forall₂ (BlockKept source.argValues) source.blocks target.blocks

theorem FunctionKept.refl (function : Function) :
    FunctionKept function function :=
  ⟨rfl, rfl, List.forall₂_same.mpr fun block _ => .refl block⟩

section Kept

variable {source target : Function} (kept : FunctionKept source target)

include kept

theorem FunctionKept.target_block
    {index : Nat} {block : Block}
    (isBlock : source.blocks[index]? = some block) :
    ∃ result, target.blocks[index]? = some result ∧
      BlockKept source.argValues block result := by
  rcases List.forall₂_iff_get.mp kept.blocks with ⟨length, ofBlocks⟩
  rcases List.getElem?_eq_some_iff.mp isBlock with ⟨present, rfl⟩
  have presentLater : index < target.blocks.length := length ▸ present
  exact ⟨_, List.getElem?_eq_getElem presentLater,
    ofBlocks index present presentLater⟩

theorem FunctionKept.source_block
    {index : Nat} {result : Block}
    (isResult : target.blocks[index]? = some result) :
    ∃ block, source.blocks[index]? = some block ∧
      BlockKept source.argValues block result := by
  rcases List.forall₂_iff_get.mp kept.blocks with ⟨length, ofBlocks⟩
  rcases List.getElem?_eq_some_iff.mp isResult with ⟨present, rfl⟩
  have presentBefore : index < source.blocks.length := length ▸ present
  exact ⟨_, List.getElem?_eq_getElem presentBefore,
    ofBlocks index presentBefore present⟩

theorem FunctionKept.edge : target.Edge = source.Edge := by
  funext block next
  unfold Function.Edge Function.successors
  cases isBlock : source.blocks[block]? with
  | none =>
      have absent : target.blocks[block]? = none := by
        rw [List.getElem?_eq_none_iff] at isBlock ⊢
        rwa [← kept.blocks.length_eq]
      rw [absent]
  | some found =>
      rcases kept.target_block isBlock with ⟨result, isResult, one⟩
      simp only [isResult, one.terminator]

theorem FunctionKept.pathFrom_iff {start : Nat} {path : List Nat} :
    target.PathFrom start path ↔ source.PathFrom start path := by
  have length := kept.blocks.length_eq
  constructor
  · rintro ⟨starts, edges, present⟩
    rw [kept.edge] at edges
    exact ⟨starts, edges, length ▸ present⟩
  · rintro ⟨starts, edges, present⟩
    rw [← kept.edge] at edges
    exact ⟨starts, edges, length ▸ present⟩

theorem FunctionKept.dominates_iff {dominator block : Nat} :
    target.Dominates dominator block ↔ source.Dominates dominator block := by
  simp only [Function.Dominates, kept.pathFrom_iff]

theorem FunctionKept.scopeAt_subset
    (results : Nat → Set Value) (block : Nat) :
    source.scopeAt results block ⊆ target.scopeAt results block := by
  refine Set.union_subset_union (by rw [kept.args]) ?_
  rintro value ⟨dominator, found, different, dominates, isFound, made⟩
  rcases kept.target_block isFound with ⟨result, isResult, one⟩
  exact ⟨dominator, result, different, kept.dominates_iff.mpr dominates,
    isResult, one.values made⟩

theorem FunctionKept.dominated
    {results : Nat → Set Value} (dominated : source.Dominated results) :
    target.Dominated results := by
  intro block found isFound
  rcases kept.source_block isFound with ⟨original, isBlock, one⟩
  have before :
      Scoped (target.scopeAt results block) original.insts :=
    (dominated block original isBlock).mono
      (kept.scopeAt_subset results block)
  refine one.within ?_ before
  rw [← kept.args]
  exact Set.subset_union_left.trans Set.subset_union_left

end Kept

/-- A declaration has no uses. -/
theorem dominated_of_empty
    {function : Function} (empty : function.blocks = [])
    (results : Nat → Set Value) : function.Dominated results := by
  intro block found isFound
  rw [empty] at isFound
  cases isFound

theorem dominated_of_kept
    {sources targets : List Function}
    (kept : List.Forall₂ FunctionKept sources targets)
    {results : String → Nat → Set Value}
    (dominated :
      ∀ function ∈ sources, function.Dominated (results function.name)) :
    ∀ function ∈ targets, function.Dominated (results function.name) := by
  induction kept with
  | nil => exact List.forall_mem_nil _
  | cons one _ inductionHypothesis =>
      rcases List.forall_mem_cons.mp dominated with ⟨first, others⟩
      refine List.forall_mem_cons.mpr ⟨?_, inductionHypothesis others⟩
      rw [one.name]
      exact one.dominated first

/-! ## The module -/

section Modules

variable {pass : AccessInstrumentationPass} {state final : PassState}
variable {fuel : Nat} (noLog : pass.NoLogFunctionDefined)

/-- The definitions only name arguments that calls in the function have. -/
def Function.Fits (pass : AccessInstrumentationPass) (function : Function) :
    Prop :=
  ∀ block ∈ function.blocks, ∀ inst ∈ block.insts, pass.Fits inst

include noLog

theorem kept_instrumentFunction
    {function target : Function}
    (ran :
      pass.instrumentFunction fuel function state = some (target, final))
    (fits : function.Fits pass) : FunctionKept function target := by
  rcases instrumentFunction_cases ran with
    ⟨_, rfl, _⟩ | ⟨entry, rest, first, middle, others, blocks, entryRan,
      othersRan, rfl⟩
  · exact .refl target
  · refine ⟨rfl, rfl, ?_⟩
    unfold Function.Fits at fits
    rw [blocks] at fits ⊢
    rcases List.forall_mem_cons.mp fits with ⟨ofEntry, ofRest⟩
    rcases kept_prepareEntry noLog function ofEntry with
      ⟨prepared, fitsPrepared⟩
    exact .cons
      (prepared.trans (kept_instrumentBlock noLog entryRan fitsPrepared))
      (kept_instrumentBlocks noLog othersRan ofRest)

theorem kept_instrumentFunctions
    {functions targets : List Function}
    (ran :
      pass.instrumentFunctions fuel state functions = some (targets, final))
    (fits : ∀ function ∈ functions, function.Fits pass) :
    List.Forall₂ FunctionKept functions targets := by
  refine @instrumentFunctions_induction pass fuel
    (fun sources targets _ =>
      (∀ function ∈ sources, function.Fits pass) →
        List.Forall₂ FunctionKept sources targets)
    ?_ [] [] functions targets state final ran (fun _ => .nil) fits
  intro sources targets state function target next instrumented earlier all
  rcases List.forall_mem_append.mp all with ⟨before, last⟩
  have one : FunctionKept function target := by
    split at instrumented
    · exact kept_instrumentFunction noLog instrumented
        (List.forall_mem_singleton.mp last)
    · rcases Prod.mk.inj (Option.some.inj instrumented) with ⟨rfl, rfl⟩
      exact .refl function
  exact List.rel_append (earlier before) (.cons one .nil)

/-- What is returned are the functions of the module, and declarations of the
library. -/
theorem kept_runOnModule
    {module : Module} {functions : List Function}
    (ran : pass.runOnModule fuel module = some functions)
    (fits : ∀ function ∈ module.functions, function.Fits pass) :
    ∃ declarations,
      (∀ function ∈ declarations, function.blocks = []) ∧
        List.Forall₂ FunctionKept (module.functions ++ declarations)
          functions := by
  rw [runOnModule_eq] at ran
  split at ran
  · rcases Option.map_eq_some_iff.mp ran with
      ⟨⟨targets, last⟩, instrumented, rfl⟩
    let declared :=
      (pass.lfm.table ++
        pass.lfm.ptrLogFunc :: pass.lfm.stringLogFunc ::
          pass.lfm.eventFunctions).map Callee.declaration
    have empty : ∀ function ∈ declared, function.blocks = [] := by
      intro function member
      rcases List.mem_map.mp member with ⟨callee, _, rfl⟩
      rfl
    refine ⟨declared, empty, kept_instrumentFunctions noLog instrumented ?_⟩
    refine List.forall_mem_append.mpr ⟨fits, ?_⟩
    intro function member block isBlock
    rw [empty function member] at isBlock
    cases isBlock
  · obtain rfl := Option.some.inj ran
    refine ⟨[], List.forall_mem_nil _, ?_⟩
    rw [List.append_nil]
    exact List.forall₂_same.mpr fun function _ => .refl function

end Modules

/-- Name, arguments, control flow and dominance are the same. -/
structure SameFlow (source target : Function) : Prop where
  name : target.name = source.name
  args : target.argValues = source.argValues
  edge : target.Edge = source.Edge
  dominates : target.Dominates = source.Dominates

theorem FunctionKept.sameFlow
    {source target : Function} (kept : FunctionKept source target) :
    SameFlow source target where
  name := kept.name
  args := kept.args
  edge := kept.edge
  dominates := by
    funext dominator block
    exact propext kept.dominates_iff

/-- If definitions dominate uses in a module, they do in what the pass returns
for it: its functions with the same control flow, and declarations. -/
theorem compiled_program_dominated
    {State : Type} (mapped : MappedPass State) (module : Module)
    (results : String → Nat → Set Value)
    (noLog : mapped.pass.NoLogFunctionDefined) (widths : module.WidthsOk)
    (fits : ∀ function ∈ module.functions, function.Fits mapped.pass)
    (dominated :
      ∀ function ∈ module.functions,
        function.Dominated (results function.name))
    {fuel : Nat} (enough : module.visitBound ≤ fuel) (ids : State) :
    ∃ functions later declarations,
      mapped.runOnModule fuel ids module = some (functions, later) ∧
        (∀ function ∈ declarations, function.blocks = []) ∧
          List.Forall₂ SameFlow (module.functions ++ declarations)
            functions ∧
            ∀ function ∈ functions,
              function.Dominated (results function.name) := by
  rcases mapped.exists_withMaps noLog widths enough ids with
    ⟨functions, later, answers, returned, ran⟩
  have sameNoLog : (mapped.pass.withMaps answers).NoLogFunctionDefined :=
    noLog
  have sameFits :
      ∀ function ∈ module.functions,
        function.Fits (mapped.pass.withMaps answers) :=
    fits
  rcases kept_runOnModule sameNoLog ran sameFits with
    ⟨declarations, empty, kept⟩
  refine ⟨functions, later, declarations, returned, empty,
    kept.imp fun _ _ => FunctionKept.sameFlow, ?_⟩
  refine dominated_of_kept kept (List.forall_mem_append.mpr ⟨dominated, ?_⟩)
  intro function member
  exact dominated_of_empty (empty function member) _

/-! ## A function with a branch -/

theorem Function.dominates_entry (function : Function) (block : Nat) :
    function.Dominates 0 block := by
  intro path isPath _
  exact List.mem_of_head? isPath.starts

/-- Where blocks use what the entry defines, or what they define themselves,
definitions dominate uses. -/
theorem dominated_of_entry
    {function : Function} {entry : Block} {rest : List Block}
    (blocks : function.blocks = entry :: rest)
    (ofEntry : Scoped function.argValues entry.insts)
    (ofRest : ∀ block ∈ rest,
      Scoped (function.argValues ∪ valuesOf entry.insts) block.insts)
    (results : Nat → Set Value) : function.Dominated results := by
  intro index found isFound
  rw [blocks] at isFound
  have ofArguments :
      function.argValues ⊆ function.scopeAt results index :=
    Set.subset_union_left.trans Set.subset_union_left
  cases index with
  | zero =>
      obtain rfl := Option.some.inj isFound
      exact ofEntry.mono ofArguments
  | succ index =>
      have inRest := ofRest found (List.mem_of_getElem? isFound)
      refine inRest.mono (Set.union_subset ofArguments ?_)
      intro value made
      refine Or.inr ⟨0, entry, (Nat.succ_ne_zero index).symm,
        function.dominates_entry _, ?_, made⟩
      rw [blocks]
      rfl

/-- The argument is stored in the entry and loaded in the blocks behind it. -/
def branchingFunction : Function :=
  let i : Value := .argument "pick" 0 "i" (.integer 32)
  let slot : Inst := ⟨0, "i.addr", .alloca (.integer 32), none⟩
  ⟨"pick", [("i", .integer 32)],
    [⟨[slot, ⟨1, "", .store i slot.value, none⟩], ⟨.branch [1, 2], none⟩⟩,
      ⟨[⟨2, "", .load slot.value, none⟩], ⟨.branch [2], none⟩⟩,
      ⟨[⟨3, "", .load slot.value, none⟩], ⟨.ret, none⟩⟩]⟩

def branchingModule : Module where
  identifier := "main.c"
  functions := [branchingFunction]
  nextId := 4
  older := by decide

theorem branchingModule_widths : branchingModule.WidthsOk := by
  intro function member
  rw [List.mem_singleton.mp member]
  refine ⟨by decide, ?_⟩
  intro block isBlock inst isInst type accessed
  revert type
  revert inst
  revert block
  decide

theorem branchingModule_fits :
    ∀ function ∈ branchingModule.functions,
      function.Fits instrumentsAll := by
  unfold Function.Fits
  decide

theorem branchingFunction_dominated :
    branchingFunction.Dominated fun _ => ∅ := by
  refine dominated_of_entry rfl ?_ ?_ _
  · refine ⟨List.forall_mem_nil _, List.forall_mem_cons.mpr ⟨?_, ?_⟩,
      trivial⟩
    · exact Or.inr (List.mem_singleton.mpr rfl)
    · exact List.forall_mem_singleton.mpr (Or.inl rfl)
  · have loads :
        ∀ id, Scoped
          (branchingFunction.argValues ∪
            valuesOf [(⟨0, "i.addr", .alloca (.integer 32), none⟩ : Inst),
              ⟨1, "", .store (.argument "pick" 0 "i" (.integer 32))
                (Inst.value ⟨0, "i.addr", .alloca (.integer 32), none⟩),
                none⟩])
          [⟨id, "",
            .load (Inst.value ⟨0, "i.addr", .alloca (.integer 32), none⟩),
            none⟩] := by
      intro id
      refine ⟨List.forall_mem_singleton.mpr (Or.inr ?_), trivial⟩
      exact mem_valuesOf List.mem_cons_self
    exact List.forall_mem_cons.mpr
      ⟨loads 2, List.forall_mem_singleton.mpr (loads 3)⟩

theorem compiled_program_dominated_branching :
    ∃ functions later declarations,
      (compilingPass Config.source instrumentsAll).runOnModule 60
          (fun _ => firstCompiler) branchingModule =
          some (functions, later) ∧
        (∀ function ∈ declarations, function.blocks = []) ∧
          List.Forall₂ SameFlow (branchingModule.functions ++ declarations)
            functions ∧
            ∀ function ∈ functions, function.Dominated fun _ => ∅ :=
  compiled_program_dominated (compilingPass Config.source instrumentsAll)
    branchingModule (fun _ _ => ∅) instrumentsAll_noLog
    branchingModule_widths branchingModule_fits
    (List.forall_mem_singleton.mpr branchingFunction_dominated)
    (by decide) fun _ => firstCompiler

end Dinamite.Instrument
