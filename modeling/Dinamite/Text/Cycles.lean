import Dinamite.Text.Summaries
import Dinamite.Transition

/-!
# Runs of the text back end

`logInit` opens the trace file with mode "w" and `logExit` closes it.  The pass
calls both in `main` and in every `_GLOBAL_` initialiser, so that a run opens
the file any number of times.
-/

namespace Dinamite.Text

open Dinamite.Fields
open Dinamite.Transition

/-- The static `out`, NULL in a closed state, and the trace file; `none` when
there is no such file yet. -/
inductive TextState where
  | closed (file : Option (List Char))
  | writing (file : List Char)
  deriving DecidableEq

def TextState.file : TextState → Option (List Char)
  | .closed file => file
  | .writing file => some file

inductive TextAction where
  | logInit (functionId : Int)
  | logExit (functionId : Int)
  | log (logged : LoggedCall)
  deriving DecidableEq

/-- Printing to a null stream is no step. -/
def TextState.step : TextState → TextAction → Option TextState
  -- fopen with mode "w" truncates what an earlier cycle has left
  | .closed _, .logInit _ => some (.writing [])
  | .writing file, .logInit _ => some (.writing file)
  | .closed file, .logExit _ => some (.closed file)
  | .writing file, .logExit _ => some (.closed (some file))
  | .closed _, .log _ => none
  | .writing file, .log logged => some (.writing (file ++ logged.line))

/-- The back end of one program run, started beside the given file. -/
def textSystem (file : Option (List Char)) :
    System TextState TextAction where
  initial := .closed file
  step := TextState.step

/-- `logInit`, logging calls and `logExit`. -/
structure Cycle where
  initId : Int
  calls : List LoggedCall
  exitId : Int

def Cycle.actions (cycle : Cycle) : List TextAction :=
  .logInit cycle.initId ::
    (cycle.calls.map TextAction.log ++ [.logExit cycle.exitId])

theorem run_log
    (start : Option (List Char)) (calls : List LoggedCall)
    (file : List Char) :
    (textSystem start).run (.writing file) (calls.map TextAction.log) =
      some (.writing (file ++ traceText calls)) := by
  induction calls generalizing file with
  | nil => simp [traceText, terminated]
  | cons logged calls inductionHypothesis =>
      have continued := inductionHypothesis (file ++ logged.line)
      rw [traceText_cons, ← List.append_assoc]
      exact continued

/-- A cycle leaves the lines of its own calls alone. -/
theorem run_cycle
    (start file : Option (List Char)) (cycle : Cycle) :
    (textSystem start).run (.closed file) cycle.actions =
      some (.closed (some (traceText cycle.calls))) := by
  have logged := run_log start cycle.calls []
  have exited :
      (textSystem start).run (.writing (traceText cycle.calls))
          [.logExit cycle.exitId] =
        some (.closed (some (traceText cycle.calls))) := rfl
  have continued :=
    (textSystem start).run_append_eq_some.mpr ⟨_, logged, exited⟩
  exact (textSystem start).run_cons_eq_some.mpr ⟨_, rfl, continued⟩

theorem run_cycles
    (start file : Option (List Char)) (earlier : List Cycle)
    (last : Cycle) :
    (textSystem start).run (.closed file)
        ((earlier ++ [last]).flatMap Cycle.actions) =
      some (.closed (some (traceText last.calls))) := by
  induction earlier generalizing file with
  | nil => simpa using run_cycle start file last
  | cons cycle earlier inductionHypothesis =>
      exact (textSystem start).run_append_eq_some.mpr
        ⟨_, run_cycle start file cycle, inductionHypothesis _⟩

/-- After the last `logExit` the file holds the line of every logging call of
the run exactly when only the last cycle has logging calls. -/
theorem trace_complete_iff
    (start : Option (List Char)) (earlier : List Cycle) (last : Cycle) :
    ∃ final,
      (textSystem start).run (textSystem start).initial
          ((earlier ++ [last]).flatMap Cycle.actions) = some final ∧
        (final.file =
            some (traceText ((earlier ++ [last]).flatMap Cycle.calls)) ↔
          ∀ cycle ∈ earlier, cycle.calls = []) := by
  refine ⟨_, run_cycles start start earlier last, ?_⟩
  rw [List.flatMap_append, traceText_append, List.flatMap_cons,
    List.flatMap_nil, List.append_nil, TextState.file, Option.some.injEq,
    List.self_eq_append_left, traceText_eq_nil_iff,
    List.flatMap_eq_nil_iff]

/-- A call that prints no string. -/
def eventCall (call : Trace.LogCall) : LoggedCall :=
  ⟨call, ⟨[], List.not_mem_nil⟩⟩

/-- An initialiser and `main` log one call each; the line of the first is
gone. -/
theorem second_cycle_truncates :
    ((textSystem none).run (textSystem none).initial
        ([Cycle.mk 1 [eventCall (.logFnBegin 2)] 1,
          Cycle.mk 3 [eventCall (.logFnBegin 4)] 3].flatMap
            Cycle.actions)).bind TextState.file =
        some ['f', 'b', ' ', '4', '\n'] ∧
      traceText [eventCall (.logFnBegin 2), eventCall (.logFnBegin 4)] =
        ['f', 'b', ' ', '2', '\n', 'f', 'b', ' ', '4', '\n'] := by
  decide

/-- The text of one cycle has one line for each of its calls, in order, and
determines the kind and the trailing integers of every call, as long as no
printed string contains a newline. -/
theorem cycle_read_back
    (start : Option (List Char)) {cycle other : Cycle}
    (readable : ∀ logged ∈ cycle.calls, logged.Readable)
    (otherReadable : ∀ logged ∈ other.calls, logged.Readable) :
    ((textSystem start).run (textSystem start).initial
        cycle.actions).bind TextState.file =
        some (terminated '\n' (cycle.calls.map LoggedCall.body)) ∧
      (∀ logged ∈ cycle.calls, '\n' ∉ logged.body) ∧
      (((textSystem start).run (textSystem start).initial
            cycle.actions).bind TextState.file =
          ((textSystem start).run (textSystem start).initial
            other.actions).bind TextState.file →
        cycle.calls.map LoggedCall.summary =
          other.calls.map LoggedCall.summary) := by
  have cycleRun := run_cycle start start cycle
  have otherRun := run_cycle start start other
  refine ⟨?_, ?_, ?_⟩
  · exact congrArg (fun final => final.bind TextState.file) cycleRun
  · intro logged member
    exact (readable logged member).newline_not_mem_body
  · intro same
    have files :=
      (congrArg (fun final => final.bind TextState.file) cycleRun).symm.trans
        (same.trans
          (congrArg (fun final => final.bind TextState.file) otherRun))
    exact summaries_eq_of_traceText_eq readable otherReadable
      (Option.some.inj files)

/-- A string read at 1:2:3. -/
def stringRead (chars : List Char) (noNul : '\x00' ∉ chars) : LoggedCall :=
  ⟨.logAccessStaticString 0 ⟨0, 114, 1, 2, 3, 4, 5⟩, ⟨chars, noNul⟩⟩

/-- The string "(nil)" and a null pointer print the same line. -/
theorem cycle_read_back_nil :
    [stringRead ['(', 'n', 'i', 'l', ')'] (by decide)].map
        LoggedCall.summary =
      [eventCall (.logAccessPtr 0 ⟨0, 114, 1, 2, 3, 4, 5⟩)].map
        LoggedCall.summary := by
  refine
    (@cycle_read_back none
      ⟨0, [stringRead ['(', 'n', 'i', 'l', ')'] (by decide)], 0⟩
      ⟨0, [eventCall (.logAccessPtr 0 ⟨0, 114, 1, 2, 3, 4, 5⟩)], 0⟩
      ?_ ?_).2.2 (by decide)
  · intro logged member
    obtain rfl := List.mem_singleton.mp member
    have noNewline : '\n' ∉ ['(', 'n', 'i', 'l', ')'] := by decide
    exact ⟨Or.inl rfl, noNewline⟩
  · intro logged member
    obtain rfl := List.mem_singleton.mp member
    exact ⟨Or.inl rfl, trivial⟩

/-- One call with a newline in its string. -/
def forgingCycle : Cycle :=
  ⟨0, [stringRead
    ['x', ' ', 'r', ' ', '1', ' ', '2', ' ', '3', ' ', '4', ' ', '5', '\n',
      '(', 'n', 'i', 'l', ')', ' ', 'y'] (by decide)], 0⟩

/-- Two calls. -/
def forgedCycle : Cycle :=
  ⟨0, [stringRead ['x'] (by decide), stringRead ['y'] (by decide)], 0⟩

/-- The string with a newline in it reads like the lines of two calls. -/
theorem newline_forges_line :
    (∀ logged ∈ forgingCycle.calls ++ forgedCycle.calls,
        logged.summary.KindKnown) ∧
      ((textSystem none).run (textSystem none).initial
          forgingCycle.actions).bind TextState.file =
        ((textSystem none).run (textSystem none).initial
          forgedCycle.actions).bind TextState.file ∧
      forgingCycle.calls.map LoggedCall.summary ≠
        forgedCycle.calls.map LoggedCall.summary := by
  refine ⟨?_, by decide, by decide⟩
  intro logged member
  simp only [forgingCycle, forgedCycle, List.cons_append, List.nil_append,
    List.mem_cons, List.not_mem_nil, or_false] at member
  rcases member with rfl | rfl | rfl <;> exact Or.inl rfl

end Dinamite.Text
