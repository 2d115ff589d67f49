import Mathlib.Logic.Function.Basic

/-!
# Tables that remember their answers

A table is asked for keys, one after the other.  It may make an answer up from
whatever it has at that moment, but it gives a key the same answer ever after.
So what a computation made of a table can be explained in hindsight: it is what
the computation makes of a plain function, any function that agrees with the
answers remembered at the end.
-/

namespace Dinamite

universe u v w x

/-- Every answer is remembered, and none is forgotten. -/
structure MemoTable (State : Type u) (Key : Type v) (Answer : Type w) where
  ask : State → Key → Answer × State
  lookup : State → Key → Option Answer
  lookup_ask : ∀ state key,
    lookup (ask state key).2 key = some (ask state key).1
  lookup_kept : ∀ state key other answer,
    lookup state other = some answer →
      lookup (ask state key).2 other = some answer

namespace MemoTable

variable {State : Type u} {Key : Type v} {Answer : Type w}
variable (table : MemoTable State Key Answer)

/-- Nothing the earlier state remembers is forgotten. -/
def Extends (earlier later : State) : Prop :=
  ∀ key answer, table.lookup earlier key = some answer →
    table.lookup later key = some answer

/-- The function gives the answers that are remembered. -/
def Explains (state : State) (answers : Key → Answer) : Prop :=
  ∀ key answer, table.lookup state key = some answer →
    answers key = answer

variable {table}

theorem Extends.refl (state : State) : table.Extends state state :=
  fun _ _ found => found

theorem Extends.trans
    {first second third : State}
    (earlier : table.Extends first second)
    (later : table.Extends second third) :
    table.Extends first third :=
  fun key answer found => later key answer (earlier key answer found)

theorem extends_ask (state : State) (key : Key) :
    table.Extends state (table.ask state key).2 :=
  fun other answer found => table.lookup_kept state key other answer found

theorem Explains.of_extends
    {earlier later : State} {answers : Key → Answer}
    (explains : table.Explains later answers)
    (grows : table.Extends earlier later) :
    table.Explains earlier answers :=
  fun key answer found => explains key answer (grows key answer found)

theorem Explains.ask
    {state : State} {key : Key} {answers : Key → Answer}
    (explains : table.Explains (table.ask state key).2 answers) :
    answers key = (table.ask state key).1 :=
  explains key _ (table.lookup_ask state key)

theorem exists_explains [Nonempty Answer] (state : State) :
    ∃ answers, table.Explains state answers := by
  rcases ‹Nonempty Answer› with ⟨unasked⟩
  refine ⟨fun key => (table.lookup state key).getD unasked, ?_⟩
  intro key answer found
  simp only [found, Option.getD_some]

/-! ## A family of tables -/

section Family

variable {Index : Type x} [DecidableEq Index]

/-- One table for each index; a key is looked up in the table of its index. -/
def family (table : MemoTable State Key Answer) :
    MemoTable (Index → State) (Index × Key) Answer where
  ask := fun states key =>
    let asked := table.ask (states key.1) key.2
    (asked.1, Function.update states key.1 asked.2)
  lookup := fun states key => table.lookup (states key.1) key.2
  lookup_ask := by
    intro states key
    simp only [Function.update_self]
    exact table.lookup_ask _ _
  lookup_kept := by
    intro states key other answer found
    by_cases same : other.1 = key.1
    · simp only [same, Function.update_self]
      rw [same] at found
      exact table.lookup_kept _ _ _ _ found
    · simp only [Function.update_of_ne same]
      exact found

end Family

end MemoTable

end Dinamite
