import Dinamite.Util.SearchRule

/-!
# What the path metric measures

The search keeps the lines of one simple path for each block.  Without cycles
it is a path to a return, which need not be the longest one, because the choice
at a block is made before the lines of its predecessors are known.
-/

namespace Dinamite.Util

open Dinamite.Instrument

/-! ## Lines of paths -/

theorem mem_pathLines
    {function : Function} {path : List Nat} {line : Int} :
    line ∈ pathLines function path ↔
      ∃ block ∈ path, line ∈ blockLines function block := by
  induction path with
  | nil => simp [pathLines]
  | cons block path inductionHypothesis =>
      simp [pathLines, inductionHypothesis]

theorem mem_foldl_insertLine
    {locs : List (Option DebugLoc)} {lineSet : Finset Int} {line : Int} :
    line ∈ locs.foldl insertLine lineSet ↔
      line ∈ lineSet ∨ ∃ loc ∈ locs, curline loc = line ∧ line ≠ -1 := by
  induction locs generalizing lineSet with
  | nil => simp
  | cons loc locs inductionHypothesis =>
      rw [List.foldl_cons, inductionHypothesis, insertLine]
      split
      case isTrue known =>
        rw [Finset.mem_insert]
        constructor
        · intro either
          rcases either with (rfl | before) | ⟨other, member, found⟩
          · exact Or.inr ⟨loc, List.mem_cons_self, rfl, known⟩
          · exact Or.inl before
          · exact Or.inr ⟨other, List.mem_cons_of_mem _ member, found⟩
        · intro either
          rcases either with before | ⟨other, member, found⟩
          · exact Or.inl (Or.inr before)
          · rcases List.mem_cons.mp member with rfl | later
            · exact Or.inl (Or.inl found.1.symm)
            · exact Or.inr ⟨other, later, found⟩
      case isFalse unknown =>
        constructor
        · intro either
          rcases either with before | ⟨other, member, found⟩
          · exact Or.inl before
          · exact Or.inr ⟨other, List.mem_cons_of_mem _ member, found⟩
        · intro either
          rcases either with before | ⟨other, member, found⟩
          · exact Or.inl before
          · rcases List.mem_cons.mp member with rfl | later
            · exact absurd (found.1 ▸ found.2) unknown
            · exact Or.inr ⟨other, later, found⟩

/-- Every line of a path is a line of the function. -/
theorem card_pathLines_le
    (function : Function) (path : List Nat) :
    (pathLines function path).card ≤ getFunctionLOCSize function := by
  apply Finset.card_le_card
  intro line member
  rcases mem_pathLines.mp member with ⟨block, _, inBlock⟩
  unfold blockLines at inBlock
  split at inBlock
  · rename_i found present
    rcases mem_foldl_insertLine.mp inBlock with impossible | ⟨loc, isLoc, eq⟩
    · exact absurd impossible (Finset.notMem_empty line)
    · refine mem_foldl_insertLine.mpr (Or.inr ⟨loc, ?_, eq⟩)
      exact List.mem_flatMap.mpr
        ⟨found, List.mem_of_getElem? present, isLoc⟩
  · exact absurd inBlock (Finset.notMem_empty line)

/-! ## Simple paths -/

/-- The lines lie on a simple path, all of whose blocks but the last are
finished. -/
def OnSimplePath
    (function : Function) (finished : Set Nat) (block : Nat)
    (lines : Finset Int) : Prop :=
  ∃ path, function.PathFrom block path ∧ path.Nodup ∧
    lines ⊆ pathLines function path ∧
    ∀ other ∈ path.dropLast, other ∈ finished

theorem onSimplePath_singleton
    {function : Function} {block : Nat}
    (present : block < function.blocks.length) (finished : Set Nat)
    {lines : Finset Int} (own : lines ⊆ blockLines function block) :
    OnSimplePath function finished block lines := by
  refine ⟨[block], .singleton present, List.nodup_singleton block, ?_,
    by simp⟩
  simpa [pathLines] using own

/-- A block in front of a path of a successor.  If the path leads back to the
block, it is cut there. -/
theorem onSimplePath_cons
    {function : Function} {finished : Set Nat} {block successor : Nat}
    {lines : Finset Int}
    (present : block < function.blocks.length)
    (unfinished : block ∉ finished)
    (edge : function.Edge block successor)
    (isFinished : successor ∈ finished)
    (later : OnSimplePath function finished successor lines) :
    OnSimplePath function (insert block finished) block
      (lines ∪ blockLines function block) := by
  rcases later with ⟨path, isPath, nodup, covered, inside⟩
  by_cases onPath : block ∈ path
  · have notEmpty : path ≠ [] := List.ne_nil_of_mem onPath
    have split := List.dropLast_append_getLast notEmpty
    have isLast : path.getLast notEmpty = block := by
      rw [← split] at onPath
      rcases List.mem_append.mp onPath with before | last
      · exact absurd (inside block before) unfinished
      · exact (List.mem_singleton.mp last).symm
    rw [isLast] at split
    have shorter : function.PathFrom successor path.dropLast := by
      refine ⟨?_, isPath.edges.dropLast, fun other member =>
        isPath.present other (List.mem_of_mem_dropLast member)⟩
      cases front : path.dropLast with
      | nil =>
          -- the path would be the block alone, which is not finished
          have starts := isPath.starts
          rw [← split, front] at starts
          obtain rfl : block = successor := Option.some.inj starts
          exact absurd isFinished unfinished
      | cons first rest =>
          have starts := isPath.starts
          rw [← split, front] at starts
          exact starts
    refine ⟨block :: path.dropLast, .cons present edge shorter, ?_, ?_, ?_⟩
    · refine List.nodup_cons.mpr
        ⟨fun before => unfinished (inside block before), ?_⟩
      exact nodup.sublist (List.dropLast_sublist path)
    · intro line member
      rw [mem_pathLines]
      rcases Finset.mem_union.mp member with inLines | own
      · rcases mem_pathLines.mp (covered inLines) with ⟨other, inPath, isLine⟩
        rw [← split] at inPath
        rcases List.mem_append.mp inPath with front | last
        · exact ⟨other, List.mem_cons_of_mem _ front, isLine⟩
        · obtain rfl := List.mem_singleton.mp last
          exact ⟨other, List.mem_cons_self, isLine⟩
      · exact ⟨block, List.mem_cons_self, own⟩
    · intro other member
      rcases List.mem_cons.mp (List.mem_of_mem_dropLast member) with
        rfl | front
      · exact Set.mem_insert _ _
      · exact Set.mem_insert_of_mem _ (inside other front)
  · refine ⟨block :: path, .cons present edge isPath,
      List.nodup_cons.mpr ⟨onPath, nodup⟩, ?_, ?_⟩
    · rw [pathLines, Finset.union_comm]
      exact Finset.union_subset_union_right covered
    · intro other member
      have notEmpty : path ≠ [] := by
        intro same
        subst same
        cases isPath.starts
      rw [List.dropLast_cons_of_ne_nil notEmpty] at member
      rcases List.mem_cons.mp member with rfl | front
      · exact Set.mem_insert _ _
      · exact Set.mem_insert_of_mem _ (inside other front)

theorem onSimplePath_of_known
    (code : Definition) {finished : Set Nat} {block successor : Nat}
    {lines : Finset Int}
    (present : block < code.function.blocks.length)
    (unfinished : block ∉ finished)
    (edge : code.function.Edge block successor)
    (known : Known code.function (OnSimplePath code.function) finished block
      successor lines) :
    OnSimplePath code.function (insert block finished) block
      (lines ∪ blockLines code.function block) := by
  cases known with
  | done isFinished holds =>
      exact onSimplePath_cons present unfinished edge isFinished holds
  | active notFinished back own =>
      by_cases same : successor = block
      · subst same
        rw [own, Finset.union_self]
        exact onSimplePath_singleton present _ (le_refl _)
      · have successorPresent := code.edge_present edge
        refine ⟨[block, successor],
          .cons present edge (.singleton successorPresent), ?_, ?_, ?_⟩
        · simpa using Ne.symm same
        · rw [own, Finset.union_comm]
          simp [pathLines]
        · simp

/-- The rule for arbitrary graphs. -/
def simplePathRule (code : Definition) : SearchRule code.function where
  Holds := OnSimplePath code.function
  mono := by
    intro finished more block lines grown onPath
    rcases onPath with ⟨path, isPath, nodup, covered, inside⟩
    exact ⟨path, isPath, nodup, covered, fun other member =>
      grown (inside other member)⟩
  leaf := fun _ _ present _ =>
    onSimplePath_singleton present _ (le_refl _)
  node := by
    intro finished block best present _ unfinished chosen
    rcases chosen.chosen with rfl | ⟨successor, lines, edge, known, rfl⟩
    · exact onSimplePath_singleton present _ (Finset.empty_subset _)
    · exact onSimplePath_of_known code present unfinished edge known

/-! ## The metric -/

/-- The search ends, and more fuel would change nothing. -/
theorem exists_visits (code : Definition) :
    ∃ visits, ∀ fuel, code.function.blocks.length < fuel →
      explorePath code.function fuel noVisits 0 = some visits := by
  have enough :
      unvisited code.function noVisits <
        code.function.blocks.length + 1 := by
    rw [Nat.lt_succ_iff]
    calc
      unvisited code.function noVisits
          ≤ (Finset.range code.function.blocks.length).card :=
        Finset.card_filter_le _ _
      _ = code.function.blocks.length := Finset.card_range _
  rcases explorePath_terminates code code.entry enough with ⟨visits, explored⟩
  exact ⟨visits, fun fuel more => explorePath_mono more explored⟩

theorem longestPathSize_eq
    (code : Definition) {visits : Visits} {lines : Finset Int}
    (explored :
      explorePath code.function (code.function.blocks.length + 1) noVisits
        0 = some visits)
    (found : visits 0 = some lines) :
    longestPathSize code.function = lines.card := by
  have notEmpty : code.function.blocks ≠ [] :=
    List.ne_nil_of_length_pos code.entry
  simp only [longestPathSize, notEmpty, if_false, explored, found,
    Option.getD_some]

/-- The numbers of lines on the simple paths from the entry. -/
def simplePathCounts (function : Function) : Set Nat :=
  {count | ∃ path, function.PathFrom 0 path ∧ path.Nodup ∧
    count = (pathLines function path).card}

/-- The search ends with lines of one simple path from the entry. -/
theorem explorePath_counts_simple_path (code : Definition) :
    ∃ visits lines,
      (∀ fuel, code.function.blocks.length < fuel →
        explorePath code.function fuel noVisits 0 = some visits) ∧
      visits 0 = some lines ∧
      (∃ path, code.function.PathFrom 0 path ∧ path.Nodup ∧
        lines ⊆ pathLines code.function path) ∧
      (∀ largest,
        IsGreatest (simplePathCounts code.function) largest →
          longestPathSize code.function ≤ largest) ∧
      longestPathSize code.function ≤
        getFunctionLOCSize code.function := by
  rcases exists_visits code with ⟨visits, explored⟩
  have ended := explored _ (Nat.lt_succ_self _)
  rcases (simplePathRule code).holds ended with
    ⟨lines, found, path, isPath, nodup, covered, _⟩
  have size := longestPathSize_eq code ended found
  have counted := Finset.card_le_card covered
  refine ⟨visits, lines, explored, found, ⟨path, isPath, nodup, covered⟩,
    ?_, ?_⟩
  · intro largest isLargest
    rw [size]
    exact counted.trans (isLargest.2 ⟨path, isPath, nodup, rfl⟩)
  · rw [size]
    exact counted.trans (card_pathLines_le code.function path)

/-! ## Acyclic functions -/

def Acyclic (function : Function) : Prop :=
  ∀ block, ¬ Relation.TransGen function.Edge block block

/-- Every block without successors ends in a return. -/
def LeavesReturn (function : Function) : Prop :=
  ∀ block, block < function.blocks.length →
    function.successors block = [] → Returns function block

/-- A path to a return. -/
structure ReturnPath
    (function : Function) (start : Nat) (path : List Nat) : Prop where
  isPath : function.PathFrom start path
  ends : ∃ last, path.getLast? = some last ∧ Returns function last

theorem ReturnPath.cons
    {function : Function} {block next : Nat} {path : List Nat}
    (present : block < function.blocks.length)
    (edge : function.Edge block next)
    (later : ReturnPath function next path) :
    ReturnPath function block (block :: path) := by
  rcases later with ⟨isPath, last, isLast, returns⟩
  have notEmpty : path ≠ [] := by
    intro same
    subst same
    cases isLast
  refine ⟨.cons present edge isPath, last, ?_, returns⟩
  rw [List.getLast?_cons_of_ne_nil notEmpty]
  exact isLast

theorem ReturnPath.of_continues
    {function : Function} {block : Nat} {path : List Nat}
    (returnPath : ReturnPath function block path)
    (continues : ¬ Returns function block) :
    ∃ next later, path = block :: later ∧ function.Edge block next ∧
      ReturnPath function next later := by
  rcases returnPath with ⟨isPath, last, isLast, returns⟩
  rcases isPath.cases with rfl | ⟨next, later, rfl, edge, continued⟩
  · obtain rfl := Option.some.inj isLast
    exact absurd returns continues
  · refine ⟨next, later, rfl, edge, continued, last, ?_, returns⟩
    have notEmpty : later ≠ [] := by
      intro same
      subst same
      cases continued.starts
    rw [List.getLast?_cons_of_ne_nil notEmpty] at isLast
    exact isLast

theorem Returns.not_edge
    {function : Function} {block successor : Nat}
    (returns : Returns function block) :
    ¬ function.Edge block successor := by
  rcases returns with ⟨found, present, isReturn⟩
  simp [Function.Edge, Function.successors, present, isReturn,
    TerminatorOp.successors]

theorem ReturnPath.of_returns
    {function : Function} {block : Nat} {path : List Nat}
    (returnPath : ReturnPath function block path)
    (returns : Returns function block) : path = [block] := by
  rcases returnPath.isPath.cases with alone | ⟨next, later, _, edge, _⟩
  · exact alone
  · exact absurd edge returns.not_edge

/-- The lines of a path to a return. -/
def OnReturnPath
    (function : Function) (_ : Set Nat) (block : Nat)
    (lines : Finset Int) : Prop :=
  ∃ path, ReturnPath function block path ∧
    lines = pathLines function path

/-- Wherever control goes on to a successor, every path from there to a return
repeats the same number of the lines of the block. -/
def RepeatsUniformly (function : Function) : Prop :=
  ∀ block successor,
    Relation.ReflTransGen function.Edge 0 block →
    function.Edge block successor →
      ∀ left right, ReturnPath function successor left →
        ReturnPath function successor right →
          (blockLines function block \ pathLines function left).card =
            (blockLines function block \ pathLines function right).card

/-- The lines of a path to a return, as many as any such path has if the block
can be reached. -/
def OnLongestPath
    (function : Function) (finished : Set Nat) (block : Nat)
    (lines : Finset Int) : Prop :=
  OnReturnPath function finished block lines ∧
    (RepeatsUniformly function →
      Relation.ReflTransGen function.Edge 0 block →
        ∀ path, ReturnPath function block path →
          (pathLines function path).card ≤ lines.card)

section Acyclic

variable {function : Function}

/-- Without cycles no successor is on the stack. -/
theorem holds_of_known
    (acyclic : Acyclic function)
    {Holds : Set Nat → Nat → Finset Int → Prop}
    {finished : Set Nat} {block successor : Nat} {lines : Finset Int}
    (edge : function.Edge block successor)
    (known : Known function Holds finished block successor lines) :
    Holds finished successor lines := by
  cases known with
  | done _ holds => exact holds
  | active _ back _ => exact absurd (.head' edge back) (acyclic block)

theorem exists_edge
    (leavesReturn : LeavesReturn function) {block : Nat}
    (present : block < function.blocks.length)
    (continues : ¬ Returns function block) :
    ∃ successor, function.Edge block successor := by
  apply List.exists_mem_of_ne_nil
  exact fun none => continues (leavesReturn block present none)

/-- The entry of a block is made from the entry of a successor, also when
nothing on the way has a line. -/
theorem chosen_successor
    {Holds : Set Nat → Nat → Finset Int → Prop}
    {finished : Set Nat} {block : Nat} {best : Finset Int}
    (hasEdge : ∃ successor, function.Edge block successor)
    (chosen : Chosen function Holds finished block best) :
    ∃ successor lines, function.Edge block successor ∧
      Known function Holds finished block successor lines ∧
      best = lines ∪ blockLines function block := by
  rcases chosen.chosen with rfl | found
  · rcases hasEdge with ⟨successor, edge⟩
    rcases chosen.largest successor edge with ⟨lines, known, bounded⟩
    refine ⟨successor, lines, edge, known, ?_⟩
    rw [Finset.card_empty, Nat.le_zero, Finset.card_eq_zero] at bounded
    exact bounded.symm
  · exact found

theorem onReturnPath_of_chosen
    (acyclic : Acyclic function) (leavesReturn : LeavesReturn function)
    {finished : Set Nat} {block : Nat} {best : Finset Int}
    (present : block < function.blocks.length)
    (continues : ¬ Returns function block)
    (chosen :
      Chosen function (OnLongestPath function) finished block best)
    (larger : Set Nat) :
    OnReturnPath function larger block best := by
  rcases
      chosen_successor (exists_edge leavesReturn present continues) chosen with
    ⟨successor, lines, edge, known, rfl⟩
  rcases holds_of_known acyclic edge known with ⟨⟨path, returnPath, rfl⟩, _⟩
  exact ⟨block :: path, returnPath.cons present edge,
    Finset.union_comm _ _⟩

/-- The best entry of a successor stays the best in front of the lines of the
block, because these add the same number of lines to all of its paths. -/
theorem card_le_of_chosen
    (acyclic : Acyclic function)
    {finished : Set Nat} {block : Nat} {best : Finset Int}
    (continues : ¬ Returns function block)
    (chosen :
      Chosen function (OnLongestPath function) finished block best)
    (uniform : RepeatsUniformly function)
    (reached : Relation.ReflTransGen function.Edge 0 block)
    {path : List Nat} (returnPath : ReturnPath function block path) :
    (pathLines function path).card ≤ best.card := by
  rcases returnPath.of_continues continues with
    ⟨next, later, rfl, edge, continued⟩
  rcases chosen.largest next edge with ⟨lines, known, bounded⟩
  rcases holds_of_known acyclic edge known with
    ⟨⟨kept, keptPath, rfl⟩, largest⟩
  have shorter := largest uniform (reached.tail edge) later continued
  have added := uniform block next reached edge later kept continued keptPath
  calc
    (blockLines function block ∪ pathLines function later).card
        = (blockLines function block \ pathLines function later).card +
            (pathLines function later).card :=
      (Finset.card_sdiff_add_card _ _).symm
    _ ≤ (blockLines function block \ pathLines function kept).card +
          (pathLines function kept).card := by
      rw [added]
      exact Nat.add_le_add_left shorter _
    _ = (pathLines function kept ∪ blockLines function block).card := by
      rw [Finset.card_sdiff_add_card, Finset.union_comm]
    _ ≤ best.card := bounded

end Acyclic

/-- The rule for graphs without cycles. -/
def returnPathRule
    (code : Definition) (acyclic : Acyclic code.function)
    (leavesReturn : LeavesReturn code.function) :
    SearchRule code.function where
  Holds := OnLongestPath code.function
  mono := fun _ holds => holds
  leaf := by
    intro finished block present returns
    have alone : ReturnPath code.function block [block] :=
      ⟨.singleton present, block, rfl, returns⟩
    have own :
        blockLines code.function block =
          pathLines code.function [block] := by
      simp [pathLines]
    refine ⟨⟨[block], alone, own⟩, ?_⟩
    intro _ _ path returnPath
    rw [returnPath.of_returns returns, own]
  node := by
    intro finished block best present continues _ chosen
    exact ⟨onReturnPath_of_chosen acyclic leavesReturn present continues
        chosen _,
      fun uniform reached _ returnPath =>
        card_le_of_chosen acyclic continues chosen uniform reached
          returnPath⟩

/-- The numbers of lines on the paths from the entry to a return. -/
def returnPathCounts (function : Function) : Set Nat :=
  {count | ∃ path, ReturnPath function 0 path ∧
    count = (pathLines function path).card}

/-- Without cycles the metric is the number of lines on a path to a return.  It
is the largest such number when the lines of a block recur as often on every
path from a successor. -/
theorem longestPathSize_of_acyclic
    (code : Definition) (acyclic : Acyclic code.function)
    (leavesReturn : LeavesReturn code.function) :
    longestPathSize code.function ∈ returnPathCounts code.function ∧
      (RepeatsUniformly code.function →
        IsGreatest (returnPathCounts code.function)
          (longestPathSize code.function)) := by
  rcases exists_visits code with ⟨visits, explored⟩
  have ended := explored _ (Nat.lt_succ_self _)
  rcases (returnPathRule code acyclic leavesReturn).holds ended with
    ⟨lines, found, ⟨path, returnPath, isPath⟩, largest⟩
  have counted :
      longestPathSize code.function ∈ returnPathCounts code.function := by
    refine ⟨path, returnPath, ?_⟩
    rw [longestPathSize_eq code ended found, isPath]
  refine ⟨counted, fun uniform => ⟨counted, ?_⟩⟩
  intro count isCount
  rcases isCount with ⟨other, otherPath, rfl⟩
  rw [longestPathSize_eq code ended found]
  exact largest uniform .refl other otherPath

instance (function : Function) (block : Nat) :
    Decidable (Returns function block) :=
  decidable_of_iff
    ((function.blocks[block]?.map fun found => found.terminator.op) =
      some .ret)
    Option.map_eq_some_iff

/-- A function whose terminators only go forward. -/
theorem acyclic_of_forward
    {function : Function}
    (forward : ∀ block < function.blocks.length,
      ∀ next ∈ function.successors block, block < next) :
    Acyclic function := by
  have increasing :
      ∀ source target, Relation.TransGen function.Edge source target →
        source < target := by
    intro source target path
    induction path with
    | single edge => exact forward _ edge.source_present _ edge
    | tail _ edge inductionHypothesis =>
        exact inductionHypothesis.trans
          (forward _ edge.source_present _ edge)
  exact fun block cycle => (increasing block block cycle).false

/-- A block with one instruction for each line. -/
def linesBlock (lines : List Int) (op : TerminatorOp) : Block where
  insts := lines.map fun line =>
    ⟨0, "", .other .void, some ⟨line, 1, "", ""⟩⟩
  terminator := ⟨op, none⟩

/-- A line of the entry recurs in one of the two branches. -/
def forkedCode : Definition where
  function :=
    ⟨"forked", [],
      [linesBlock [1] (.branch [1, 2]), linesBlock [2] .ret,
        linesBlock [1, 3] .ret]⟩
  entry := by decide
  successors_present := by decide

theorem longestPathSize_of_forkedCode :
    IsGreatest (returnPathCounts forkedCode.function)
      (longestPathSize forkedCode.function) := by
  have toReturn :
      ∀ block < forkedCode.function.blocks.length,
        ∀ next ∈ forkedCode.function.successors block,
          Returns forkedCode.function next := by
    decide +kernel
  have uniform : RepeatsUniformly forkedCode.function := by
    intro block successor _ edge left right leftPath rightPath
    have returns :=
      toReturn block edge.source_present successor edge
    rw [leftPath.of_returns returns, rightPath.of_returns returns]
  exact
    (longestPathSize_of_acyclic forkedCode
      (acyclic_of_forward (by decide +kernel))
      (by unfold LeavesReturn; decide +kernel)).2 uniform

/-- The branch with three lines is preferred, although its first two recur in
the entry. -/
def recurringCode : Definition where
  function :=
    ⟨"recurring", [],
      [linesBlock [1, 2] (.branch [1]), linesBlock [] (.branch [2, 3]),
        linesBlock [1, 2, 3] .ret, linesBlock [4, 5] .ret]⟩
  entry := by decide
  successors_present := by decide

theorem longestPathSize_misses_longer_path :
    Acyclic recurringCode.function ∧
      LeavesReturn recurringCode.function ∧
      longestPathSize recurringCode.function = 3 ∧
      4 ∈ returnPathCounts recurringCode.function := by
  refine ⟨acyclic_of_forward (by decide +kernel),
    by unfold LeavesReturn; decide +kernel, by decide +kernel,
    [0, 1, 3], ⟨⟨rfl, by decide +kernel, by decide +kernel⟩, 3, rfl,
      by decide +kernel⟩, by decide +kernel⟩

end Dinamite.Util
