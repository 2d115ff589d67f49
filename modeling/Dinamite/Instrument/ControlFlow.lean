import Dinamite.Instrument.IR

/-!
# Control flow graphs

The blocks a terminator goes on to, and paths through the blocks of a function.
-/

namespace Dinamite.Instrument

/-- `getNumSuccessors` and `getSuccessor` of a terminator. -/
def TerminatorOp.successors : TerminatorOp → List Nat
  | .branch successors => successors
  | _ => []

namespace Function

def successors (function : Function) (block : Nat) : List Nat :=
  match function.blocks[block]? with
  | some found => found.terminator.op.successors
  | none => []

/-- Control can go on from the first block to the second. -/
def Edge (function : Function) (source target : Nat) : Prop :=
  target ∈ function.successors source

instance (function : Function) (source target : Nat) :
    Decidable (function.Edge source target) :=
  inferInstanceAs (Decidable (_ ∈ _))

theorem Edge.source_present
    {function : Function} {source target : Nat}
    (edge : function.Edge source target) :
    source < function.blocks.length := by
  unfold Edge successors at edge
  split at edge
  · rename_i found present
    exact (List.getElem?_eq_some_iff.mp present).1
  · cases edge

/-- A way through blocks of the function from a given one. -/
structure PathFrom
    (function : Function) (start : Nat) (path : List Nat) : Prop where
  starts : path.head? = some start
  edges : path.IsChain function.Edge
  present : ∀ block ∈ path, block < function.blocks.length

theorem PathFrom.singleton
    {function : Function} {block : Nat}
    (present : block < function.blocks.length) :
    function.PathFrom block [block] :=
  ⟨rfl, List.isChain_singleton block, by simpa using present⟩

theorem PathFrom.cons
    {function : Function} {block next : Nat} {path : List Nat}
    (present : block < function.blocks.length)
    (edge : function.Edge block next)
    (later : function.PathFrom next path) :
    function.PathFrom block (block :: path) := by
  refine ⟨rfl, ?_, ?_⟩
  · rw [List.isChain_cons]
    refine ⟨?_, later.edges⟩
    intro first isFirst
    obtain rfl := Option.some.inj (later.starts.symm.trans isFirst)
    exact edge
  · intro other member
    rcases List.mem_cons.mp member with rfl | inPath
    · exact present
    · exact later.present other inPath

/-- A path is its first block, or goes on from there. -/
theorem PathFrom.cases
    {function : Function} {block : Nat} {path : List Nat}
    (isPath : function.PathFrom block path) :
    path = [block] ∨
      ∃ next later, path = block :: later ∧ function.Edge block next ∧
        function.PathFrom next later := by
  rcases isPath with ⟨starts, edges, present⟩
  cases path with
  | nil => cases starts
  | cons first later =>
      obtain rfl := Option.some.inj starts
      cases later with
      | nil => exact Or.inl rfl
      | cons next later =>
          rcases List.isChain_cons.mp edges with ⟨edge, continued⟩
          exact Or.inr ⟨next, next :: later, rfl, edge next rfl, rfl,
            continued, fun other member =>
              present other (List.mem_cons_of_mem _ member)⟩

end Function

/-- A function with a body whose terminators name its own blocks. -/
structure Definition where
  function : Function
  entry : 0 < function.blocks.length
  successors_present :
    ∀ block ∈ function.blocks, ∀ next ∈ block.terminator.op.successors,
      next < function.blocks.length

theorem Definition.edge_present
    (code : Definition) {block next : Nat}
    (edge : code.function.Edge block next) :
    next < code.function.blocks.length := by
  unfold Function.Edge Function.successors at edge
  split at edge
  · rename_i found present
    exact code.successors_present found (List.mem_of_getElem? present)
      next edge
  · cases edge

end Dinamite.Instrument
