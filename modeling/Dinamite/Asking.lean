import Dinamite.CursorLoop
import Dinamite.MemoTable

/-!
# Computations that ask

A computation asks for keys, one after the other, and goes on with every
answer.  It is left open who answers: a plain function can, and so can a table
that makes its answers up and remembers them.  The table's run is explained in
hindsight: its result is that of a plain function, any function that agrees
with the answers remembered at the end.
-/

namespace Dinamite

universe u v w x y

inductive Asking (Key : Type u) (Answer : Type v) (Result : Type w)
  | finished (result : Result)
  | ask (key : Key) (next : Answer → Asking Key Answer Result)

namespace Asking

variable {Key : Type u} {Answer : Type v}

section Monad

variable {Result : Type w} {Other : Type x}

def bind :
    Asking Key Answer Result → (Result → Asking Key Answer Other) →
      Asking Key Answer Other
  | .finished result, next => next result
  | .ask key answered, next =>
      .ask key fun answer => (answered answer).bind next

end Monad

instance : Monad (Asking Key Answer) where
  pure := .finished
  bind := .bind

def question (key : Key) : Asking Key Answer Answer :=
  .ask key .finished

/-! ## A function answers -/

section Run

variable {Result Other : Type w} (answers : Key → Answer)

def run : Asking Key Answer Result → Result
  | .finished result => result
  | .ask key next => run (next (answers key))

@[simp]
theorem run_pure (result : Result) :
    run answers (pure result) = result :=
  rfl

@[simp]
theorem run_bind
    (first : Asking Key Answer Result)
    (next : Result → Asking Key Answer Other) :
    run answers (first >>= next) = run answers (next (run answers first)) := by
  induction first with
  | finished result => rfl
  | ask key answered inductionHypothesis =>
      exact inductionHypothesis (answers key)

theorem run_ite
    (condition : Prop) [Decidable condition]
    (yes no : Asking Key Answer Result) :
    run answers (if condition then yes else no) =
      if condition then run answers yes else run answers no :=
  apply_ite _ _ _ _

/-- The run of a computation that may stop without a result. -/
def attempt (tried : OptionT (Asking Key Answer) Result) : Option Result :=
  run answers tried.run

@[simp]
theorem attempt_pure (result : Result) :
    attempt answers (pure result) = some result :=
  rfl

@[simp]
theorem attempt_failure :
    attempt answers (failure : OptionT (Asking Key Answer) Result) = none :=
  rfl

@[simp]
theorem attempt_liftM (asking : Asking Key Answer Result) :
    attempt answers (liftM asking) = some (run answers asking) :=
  run_bind answers asking fun result => pure (some result)

@[simp]
theorem attempt_bind
    (first : OptionT (Asking Key Answer) Result)
    (next : Result → OptionT (Asking Key Answer) Other) :
    attempt answers (first >>= next) =
      (attempt answers first).bind fun result =>
        attempt answers (next result) := by
  simp only [attempt, OptionT.run_bind, Option.elimM, run_bind]
  cases run answers first.run with
  | none => rfl
  | some result => rfl

/-- A last step that neither asks nor stops. -/
theorem attempt_bind_pure
    (first : OptionT (Asking Key Answer) Result) (last : Result → Other) :
    attempt answers (first >>= fun result => pure (last result)) =
      (attempt answers first).map last := by
  rw [attempt_bind, Option.map_eq_bind]
  rfl

theorem attempt_ite
    (condition : Prop) [Decidable condition]
    (yes no : OptionT (Asking Key Answer) Result) :
    attempt answers (if condition then yes else no) =
      if condition then attempt answers yes else attempt answers no :=
  apply_ite _ _ _ _

end Run

/-! ## A table answers -/

section RunWith

variable {State : Type x} {Result : Type w}
variable (table : MemoTable State Key Answer)

def runWith : State → Asking Key Answer Result → Result × State
  | state, .finished result => (result, state)
  | state, .ask key next =>
      let asked := table.ask state key
      runWith asked.2 (next asked.1)

/-- The run of a computation that may stop, and the table's last state if it
does not. -/
def attemptWith
    (state : State) (tried : OptionT (Asking Key Answer) Result) :
    Option (Result × State) :=
  let made := runWith table state tried.run
  made.1.map fun result => (result, made.2)

variable {table}

theorem extends_runWith
    (state : State) (asking : Asking Key Answer Result) :
    table.Extends state (asking.runWith table state).2 := by
  induction asking generalizing state with
  | finished result => exact .refl state
  | ask key next inductionHypothesis =>
      exact (MemoTable.extends_ask state key).trans
        (inductionHypothesis _ _)

/-- The answers remembered at the end explain the run. -/
theorem run_of_explains
    {state : State} {asking : Asking Key Answer Result}
    {answers : Key → Answer}
    (explains : table.Explains (runWith table state asking).2 answers) :
    asking.run answers = (asking.runWith table state).1 := by
  induction asking generalizing state with
  | finished result => rfl
  | ask key next inductionHypothesis =>
      have answered : answers key = (table.ask state key).1 :=
        MemoTable.Explains.ask (explains.of_extends (extends_runWith _ _))
      rw [run, answered]
      exact inductionHypothesis _ explains

theorem attempt_of_explains
    {state : State} {tried : OptionT (Asking Key Answer) Result}
    {answers : Key → Answer}
    (explains : table.Explains (runWith table state tried.run).2 answers) :
    attempt answers tried =
      (attemptWith table state tried).map Prod.fst := by
  rw [attempt, run_of_explains explains, attemptWith, Option.map_map]
  exact Option.map_id'.symm

end RunWith

/-! ## Loops -/

section Loop

open CursorLoop

variable {State Item : Type w}

/-- The loop over a list that grows, with visits that ask. -/
def loop
    (visit : State → Item → Option Item →
      OptionT (Asking Key Answer) (Visit State Item)) :
    Nat → State → List Item → List Item →
      OptionT (Asking Key Answer) (List Item × State)
  | _, state, done, [] => pure (done, state)
  | 0, _, _, _ :: _ => failure
  | fuel + 1, state, done, item :: rest => do
      let made ← visit state item rest.head?
      loop visit fuel made.state (done ++ made.before ++ [item])
        (made.after ++ rest)

@[simp]
theorem attempt_loop
    (visit : State → Item → Option Item →
      OptionT (Asking Key Answer) (Visit State Item))
    (answers : Key → Answer) (fuel : Nat) (state : State)
    (done items : List Item) :
    attempt answers (loop visit fuel state done items) =
      CursorLoop.loop
        (fun state item next => attempt answers (visit state item next))
        fuel state done items := by
  induction fuel generalizing state done items with
  | zero =>
      cases items with
      | nil => rfl
      | cons item rest => rfl
  | succ fuel inductionHypothesis =>
      cases items with
      | nil => rfl
      | cons item rest =>
          simp only [loop, CursorLoop.loop, attempt_bind,
            inductionHypothesis]

end Loop

end Asking

end Dinamite
