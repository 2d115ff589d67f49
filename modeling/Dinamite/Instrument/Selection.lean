import Dinamite.Filter.SizeGate
import Dinamite.Instrument.Arguments
import Dinamite.Util.ExplorePath

/-!
# Which functions the pass selects

How `runOnModule` measures a function for the size gate.
-/

namespace Dinamite.Instrument

open Dinamite.Util

/-! ## The measured size -/

section Measure

variable (document : Filter.InstrumentationFilter)
variable (findFunctionBackedges : Function → List (Nat × Nat))

/-- A function with loops counts as very large if the loop check is on. -/
def fnSize (function : Function) : Nat :=
  match document.getFunctionSizeMetric with
  | .ir => function.blocks.length
  | .loc => getFunctionLOCSize function
  | .path =>
      if checkFunctionLoops findFunctionBackedges function &&
          document.loopCheckEnabled then
        2 ^ 32 - 1
      else
        longestPathSize function

/-- The filter of a run: a document and the sizes it has the pass measure. -/
def InstrumentationFilter.measuring : InstrumentationFilter :=
  .ofDocument document (fnSize document findFunctionBackedges)

end Measure

/-- Control can come back to a block it can reach. -/
def HasReachableCycle (function : Function) : Prop :=
  ∃ block, Relation.ReflTransGen function.Edge 0 block ∧
    Relation.TransGen function.Edge block block

theorem HasReachableCycle.body
    {function : Function} (loops : HasReachableCycle function) :
    function.blocks ≠ [] := by
  intro empty
  rcases loops with ⟨block, _, cycle⟩
  rcases Relation.TransGen.head'_iff.mp cycle with ⟨next, edge, _⟩
  have present := edge.source_present
  rw [empty] at present
  cases present

section Gate

variable {document : Filter.InstrumentationFilter} {minimum : Int}
variable {findFunctionBackedges : Function → List (Nat × Nat)}
variable {function : Function}

theorem fnSize_of_loops
    (metric : document.getFunctionSizeMetric = .path)
    (enabled : document.loopCheckEnabled = true)
    (found : findFunctionBackedges function ≠ [])
    (body : function.blocks ≠ []) :
    fnSize document findFunctionBackedges function = 2 ^ 32 - 1 := by
  have loops :
      checkFunctionLoops findFunctionBackedges function = true := by
    rw [checkFunctionLoops, if_neg body, decide_eq_true_iff]
    exact fun none => found (List.length_eq_zero_iff.mp none)
  simp only [fnSize, metric, loops, enabled, Bool.and_self, if_true]

/-- The gate decides as it is to for every minimum that is not negative, and
for others where a rule or an enormous size decides; and functions with loops
are kept just as far. -/
theorem size_gate_iff
    (isMinimum : document.MinimumIs minimum)
    (low : -2 ^ 31 ≤ minimum) (high : minimum < 2 ^ 31)
    (function : Function)
    (finds :
      findFunctionBackedges function ≠ [] ↔ HasReachableCycle function) :
    (∀ name size,
        document.SizeGate minimum name size ↔
          0 ≤ minimum ∨ document.Ruled name ∨
            2 ^ 64 + minimum ≤ size) ∧
      (document.getFunctionSizeMetric = .path →
        document.loopCheckEnabled = true → HasReachableCycle function →
          ((InstrumentationFilter.measuring document
                findFunctionBackedges).checkFunctionSize function = true ↔
            0 ≤ minimum ∨ document.Ruled function.name)) := by
  refine ⟨fun name size => Filter.InstrumentationFilter.sizeGate_iff
    isMinimum low high, ?_⟩
  intro metric enabled loops
  have size :=
    fnSize_of_loops metric enabled (finds.mpr loops) loops.body
  change
    (document.checkFunctionSize function.name
      (fnSize document findFunctionBackedges function)).1 = true ↔ _
  rw [Filter.InstrumentationFilter.checkFunctionSize_iff isMinimum low high,
    size,
    Filter.InstrumentationFilter.castMinimum_le_iff low high]
  apply or_congr_left
  omega

end Gate

/-- A function that may stay in its second block. -/
def spinningFunction : Function where
  name := "spin"
  params := []
  blocks :=
    [⟨[], ⟨.branch [1], none⟩⟩, ⟨[], ⟨.branch [1, 2], none⟩⟩,
      ⟨[], ⟨.ret, none⟩⟩]

theorem spinningFunction_loops : HasReachableCycle spinningFunction :=
  ⟨1, .single (by decide), .single (by decide)⟩

/-- The function is dropped, loop or not, because the minimum is negative. -/
theorem spinningFunction_dropped :
    (∀ name size,
        Filter.negativeDocument.SizeGate (-1) name size ↔
          (0 : Int) ≤ -1 ∨ Filter.negativeDocument.Ruled name ∨
            2 ^ 64 + (-1 : Int) ≤ size) ∧
      (Filter.negativeDocument.getFunctionSizeMetric = .path →
        Filter.negativeDocument.loopCheckEnabled = true →
        HasReachableCycle spinningFunction →
          ((InstrumentationFilter.measuring Filter.negativeDocument
                fun _ => [(1, 1)]).checkFunctionSize spinningFunction =
              true ↔
            (0 : Int) ≤ -1 ∨
              Filter.negativeDocument.Ruled spinningFunction.name)) ∧
      (InstrumentationFilter.measuring Filter.negativeDocument
          fun _ => [(1, 1)]).checkFunctionSize spinningFunction = false := by
  have gate :=
    @size_gate_iff Filter.negativeDocument (-1) (fun _ => [(1, 1)])
      Filter.negativeDocument_minimumIs (by decide) (by decide)
      spinningFunction
      (iff_of_true (List.cons_ne_nil _ _) spinningFunction_loops)
  exact ⟨gate.1, gate.2, by decide +kernel⟩

end Dinamite.Instrument
