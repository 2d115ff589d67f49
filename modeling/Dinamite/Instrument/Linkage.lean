import Dinamite.Instrument.Recording
import Dinamite.Text.Cycles

/-!
# Calls of the instrumentation library

What a call of a log function hands to the library that the program is linked
with: the machine words of its arguments, and the string one of them may point
to.
-/

namespace Dinamite.Instrument

open Dinamite.Text
open Dinamite.Trace (Access LogCall IsAccessKind)

/-- The words that values are on the platform, and the strings in memory. -/
structure Linkage (Val Mem : Type) where
  word : Content Val → BitVec 64
  string : Mem → BitVec 64 → CString

/-- The library as it is linked; the module has no function of these names. -/
def linkedLibrary : LogLibrary :=
  ⟨instrumentationLibrary, fun _ => ""⟩

/-- An access function with the value it is called with. -/
def accessCall
    (name : String) (value : BitVec 64) (access : Access) :
    Option LogCall :=
  match name with
  | "logAccessPtr" => some (.logAccessPtr value access)
  | "logAccessStaticString" => some (.logAccessStaticString value access)
  | "logAccessI8" => some (.logAccessI8 (value.setWidth 8) access)
  | "logAccessI16" => some (.logAccessI16 (value.setWidth 16) access)
  | "logAccessI32" => some (.logAccessI32 (value.setWidth 32) access)
  | "logAccessI64" => some (.logAccessI64 value access)
  | "logAccessF32" => some (.logAccessF32 (value.setWidth 32) access)
  | "logAccessF64" => some (.logAccessF64 value access)
  | _ => none

def eventAction (name : String) (functionId : Int) : Option TextAction :=
  match name with
  | "logInit" => some (.logInit functionId)
  | "logExit" => some (.logExit functionId)
  | "logFnBegin" => some (.log (eventCall (.logFnBegin functionId)))
  | "logFnEnd" => some (.log (eventCall (.logFnEnd functionId)))
  | _ => none

namespace Linkage

variable {Val Mem : Type} (link : Linkage Val Mem)

/-- A parameter of type `int`. -/
def int (content : Content Val) : Int :=
  ((link.word content).setWidth 32).toInt

/-- A call of an access function, with the string that its value may point
to. -/
def accessAction
    (name : String) (memory : Mem) (value : BitVec 64) (access : Access) :
    Option TextAction :=
  (accessCall name value access).map fun call =>
    .log ⟨call, link.string memory value⟩

/-- The library function that is called, and its arguments. -/
def action (entry : Entry Val Mem) : Option TextAction :=
  match entry.args with
  | [functionId] => eventAction entry.callee.name (link.int functionId)
  | [addr, size, num, type, file, line, col] =>
      if entry.callee.name = "logAlloc" then
        some (.log (eventCall
          (.logAlloc (link.word addr) (link.word size) (link.word num)
            (link.int type) (link.int file) (link.int line)
            (link.int col))))
      else
        none
  | [ptr, value, type, file, line, col, typeId, varId] =>
      link.accessAction entry.callee.name entry.memory (link.word value)
        ⟨link.word ptr, link.int type, link.int file, link.int line,
          link.int col, link.int typeId, link.int varId⟩
  | _ => none

/-- The entries are these calls, one by one. -/
def Logs
    (log : List (Entry Val Mem)) (actions : List TextAction) : Prop :=
  log.map link.action = actions.map some

/-- Nothing but records of kinds that are known. -/
def Plain (log : List (Entry Val Mem)) : Prop :=
  ∃ calls : List LoggedCall,
    (∀ logged ∈ calls, logged.summary.KindKnown) ∧
      link.Logs log (calls.map TextAction.log)

/-- Records, and then the log is taken down. -/
def Exits (log : List (Entry Val Mem)) : Prop :=
  ∃ (calls : List LoggedCall) (functionId : Int),
    (∀ logged ∈ calls, logged.summary.KindKnown) ∧
      link.Logs log (calls.map TextAction.log ++ [.logExit functionId])

/-- How a log may go on when control does not come back. -/
def Ends (log : List (Entry Val Mem)) : Prop :=
  link.Plain log ∨ link.Exits log

variable {link}

theorem Logs.append
    {earlier later : List (Entry Val Mem)} {first second : List TextAction}
    (logs : link.Logs earlier first) (continued : link.Logs later second) :
    link.Logs (earlier ++ later) (first ++ second) := by
  unfold Logs at logs continued ⊢
  rw [List.map_append, List.map_append, logs, continued]

theorem plain_nil : link.Plain [] :=
  ⟨[], List.forall_mem_nil _, rfl⟩

theorem plain_singleton
    {entry : Entry Val Mem} {logged : LoggedCall}
    (action : link.action entry = some (.log logged))
    (known : logged.summary.KindKnown) : link.Plain [entry] := by
  refine ⟨[logged], ?_, ?_⟩
  · intro other member
    rw [List.mem_singleton.mp member]
    exact known
  · simp only [Logs, List.map_cons, List.map_nil, action]

theorem Plain.append
    {earlier later : List (Entry Val Mem)}
    (plain : link.Plain earlier) (continued : link.Plain later) :
    link.Plain (earlier ++ later) := by
  rcases plain with ⟨calls, known, logs⟩
  rcases continued with ⟨others, othersKnown, othersLogs⟩
  refine ⟨calls ++ others, ?_, ?_⟩
  · intro logged member
    exact (List.mem_append.mp member).elim (known logged)
      (othersKnown logged)
  · rw [List.map_append]
    exact logs.append othersLogs

theorem Plain.exits
    {earlier later : List (Entry Val Mem)}
    (plain : link.Plain earlier) (exits : link.Exits later) :
    link.Exits (earlier ++ later) := by
  rcases plain with ⟨calls, known, logs⟩
  rcases exits with ⟨others, functionId, othersKnown, othersLogs⟩
  refine ⟨calls ++ others, functionId, ?_, ?_⟩
  · intro logged member
    exact (List.mem_append.mp member).elim (known logged)
      (othersKnown logged)
  · rw [List.map_append, List.append_assoc]
    exact logs.append othersLogs

theorem Plain.ends
    {earlier later : List (Entry Val Mem)}
    (plain : link.Plain earlier) (ends : link.Ends later) :
    link.Ends (earlier ++ later) :=
  ends.imp plain.append plain.exits

end Linkage

/-! ## The functions of the library -/

theorem linked_name (name : String) :
    (linkedLibrary.loadExternalFunction name).name = name := by
  simp [LogLibrary.loadExternalFunction, linkedLibrary]

/-- The access functions that values are logged with. -/
def accessNames : List String :=
  ["logAccessPtr", "logAccessStaticString", "logAccessI8", "logAccessI16",
    "logAccessI32", "logAccessI64", "logAccessF64"]

theorem linked_getLogFunction
    {type : Ty} {function : String} {afunc : Callee}
    (found : linkedLibrary.loadFunctions.getLogFunction type function =
      .function afunc) :
    ∃ name ∈ accessNames,
      afunc = linkedLibrary.loadExternalFunction name := by
  unfold LogFunctionManager.getLogFunction at found
  split at found
  · cases found
    exact ⟨"logAccessF64", by decide, rfl⟩
  · split at found
    · split at found
      · cases found
        exact ⟨"logAccessPtr", by decide, rfl⟩
      · cases found
        exact ⟨"logAccessStaticString", by decide, rfl⟩
    · split at found
      · split at found
        · cases found
          exact ⟨"logAccessI8", by decide, rfl⟩
        · cases found
          exact ⟨"logAccessI8", by decide, rfl⟩
        · cases found
          exact ⟨"logAccessI16", by decide, rfl⟩
        · cases found
          exact ⟨"logAccessI32", by decide, rfl⟩
        · cases found
          exact ⟨"logAccessI64", by decide, rfl⟩
        · cases found
      · cases found

/-- Every access function takes its integers as such. -/
theorem linked_getParamType :
    ∀ name ∈ accessNames, ∀ index ∈ [2, 3, 4, 5, 6, 7],
      (linkedLibrary.loadExternalFunction name).getParamType index =
        .integer 32 := by
  decide

theorem exists_accessCall
    {name : String} (member : name ∈ accessNames)
    (value : BitVec 64) (access : Access) :
    ∃ call, accessCall name value access = some call ∧
      ∀ pointee, LoggedCall.summary ⟨call, pointee⟩ =
        .ofAccess access := by
  simp only [accessNames, List.mem_cons, List.not_mem_nil, or_false]
    at member
  rcases member with rfl | rfl | rfl | rfl | rfl | rfl | rfl
  all_goals exact ⟨_, rfl, fun _ => rfl⟩

/-! ## What is recorded -/

/-- The integers of the pass are read as they are. -/
def Linkage.Reads
    {Val Mem : Type} (link : Linkage Val Mem) (machine : Machine Val Mem) :
    Prop :=
  ∀ value,
    link.int (.value (machine.integer value (.integer 32))) =
      (BitVec.ofInt 32 value).toInt

section Entries

variable {Val Mem : Type} {link : Linkage Val Mem}
variable {machine : Machine Val Mem} {pass : AccessInstrumentationPass}
variable {decision : Decision} {frame : Frame Val Mem}

theorem lfm_of_linked (linked : pass.library = linkedLibrary) :
    pass.lfm = linkedLibrary.loadFunctions := by
  rw [AccessInstrumentationPass.lfm, linked]

/-- The kinds the pass gives to accesses. -/
theorem isAccessKind_of_char
    (reads : link.Reads machine) {accessType : Char}
    (kind : accessType = 'r' ∨ accessType = 'w' ∨ accessType = 'a') :
    IsAccessKind
      (link.int (machine.integerTo accessType.toNat (.integer 32))) := by
  have read :
      link.int (machine.integerTo accessType.toNat (.integer 32)) =
        (BitVec.ofInt 32 accessType.toNat).toInt :=
    reads accessType.toNat
  rw [read]
  unfold IsAccessKind
  rcases kind with rfl | rfl | rfl <;> decide

theorem plain_access
    {name : String} (member : name ∈ accessNames)
    {entry : Entry Val Mem} {memory : Mem} {value : BitVec 64}
    {access : Access}
    (action :
      link.action entry = link.accessAction name memory value access)
    (kind : IsAccessKind access.type) : link.Plain [entry] := by
  rcases exists_accessCall member value access with ⟨call, isCall, summary⟩
  have known :
      (LoggedCall.mk call (link.string memory value)).summary.KindKnown := by
    rw [summary]
    exact kind
  refine Linkage.plain_singleton ?_ known
  rw [action, Linkage.accessAction, isCall, Option.map_some]

theorem plain_accessEntries
    (linked : pass.library = linkedLibrary) (reads : link.Reads machine)
    (site : Nat) (function : String) (debugLoc : Option DebugLoc)
    (type : Ty) (accessed : Content Val) (destination : Value)
    (address : Content Val) {accessType : Char}
    (kind : accessType = 'r' ∨ accessType = 'w' ∨ accessType = 'a')
    (memory : Mem) :
    link.Plain
      (pass.accessEntries machine site function debugLoc type accessed
        destination address accessType memory) := by
  unfold AccessInstrumentationPass.accessEntries
  split
  · rename_i afunc found
    rw [lfm_of_linked linked] at found
    rcases linked_getLogFunction found with ⟨name, member, rfl⟩
    have integer := linked_getParamType name member 2 (by decide)
    have known := isAccessKind_of_char reads kind
    rw [← integer] at known
    apply plain_access member
    · simp only [Linkage.action, linked_name]
      rfl
    · exact known
  · exact Linkage.plain_nil

theorem plain_storeEntries
    (linked : pass.library = linkedLibrary) (reads : link.Reads machine)
    (si : Inst) (value pointer : Value) :
    link.Plain
      (pass.storeEntries machine decision si value pointer frame) := by
  unfold AccessInstrumentationPass.storeEntries
  split
  · refine plain_accessEntries linked reads _ _ _ _ _ _ _ ?_ _
    split
    · exact Or.inr (Or.inr rfl)
    · exact Or.inr (Or.inl rfl)
  · exact Linkage.plain_nil

theorem plain_loadEntries
    (linked : pass.library = linkedLibrary) (reads : link.Reads machine)
    (li : Inst) (pointer : Value) :
    link.Plain (pass.loadEntries machine decision li pointer frame) := by
  unfold AccessInstrumentationPass.loadEntries
  split
  · exact plain_accessEntries linked reads _ _ _ _ _ _ _ (Or.inl rfl) _
  · exact Linkage.plain_nil

theorem plain_argumentEntries
    (linked : pass.library = linkedLibrary) (reads : link.Reads machine)
    (function : String) (debugLoc : Option DebugLoc) (slot : Nat)
    (args : List Value) :
    link.Plain
      (pass.argumentEntries machine function debugLoc slot args frame) := by
  induction args generalizing slot with
  | nil => exact Linkage.plain_nil
  | cons arg rest inductionHypothesis =>
      exact (plain_accessEntries linked reads _ _ _ _ _ _ _
        (Or.inr (Or.inr rfl)) _).append (inductionHypothesis (slot + 2))

theorem plain_allocEntries
    (linked : pass.library = linkedLibrary)
    (ci : Inst) (fn : Callee) (args : List Value) (nextInst : Option Inst) :
    link.Plain
      (pass.allocEntries machine decision ci fn args nextInst frame) := by
  unfold AccessInstrumentationPass.allocEntries
  rw [lfm_of_linked linked]
  split
  · split
    · exact Linkage.plain_nil
    · apply Linkage.plain_singleton
      · simp only [Linkage.action, LogLibrary.loadFunctions, linked_name]
        rfl
      · trivial
  · exact Linkage.plain_nil

/-- An entry with one integer calls the library function of its name. -/
theorem logs_event
    {name : String} {functionId : Content Val} {action : TextAction}
    (isAction : eventAction name (link.int functionId) = some action)
    (memory : Mem) :
    link.Logs
      [⟨linkedLibrary.loadExternalFunction name, [functionId], memory⟩]
      [action] := by
  simp only [Linkage.Logs, List.map_cons, List.map_nil, Linkage.action,
    linked_name, isAction]

theorem plain_event
    {name : String} {functionId : Content Val} {call : LogCall}
    (isAction : eventAction name (link.int functionId) =
      some (.log (eventCall call)))
    (known : (eventCall call).summary.KindKnown) (memory : Mem) :
    link.Plain
      [⟨linkedLibrary.loadExternalFunction name, [functionId], memory⟩] :=
  Linkage.plain_singleton (List.cons.inj (logs_event isAction memory)).1
    known

theorem exits_exitEntries
    (linked : pass.library = linkedLibrary) {fn : Callee}
    (due : decision.logsEvents ∧ fn.name = "exit") :
    link.Exits (pass.exitEntries machine decision fn frame) := by
  unfold AccessInstrumentationPass.exitEntries
  rw [if_pos due, lfm_of_linked linked]
  exact ⟨[], _, List.forall_mem_nil _, logs_event rfl frame.memory⟩

/-! ## Functions that the process starts with -/

/-- `main` and static initialisers. -/
def isTopLevel (name : String) : Bool :=
  String.ofList (name.toList.take 8) = "_GLOBAL_" || name = "main"

theorem plain_eventEntries
    (linked : pass.library = linkedLibrary)
    (inner : isTopLevel decision.function = false) (event : FnEvents) :
    link.Plain (pass.eventEntries machine decision event frame) := by
  unfold AccessInstrumentationPass.eventEntries
  split
  · simp only [isTopLevel, Bool.or_eq_false_iff, decide_eq_false_iff_not]
      at inner
    simp only [AccessInstrumentationPass.eventLogFunc, if_neg inner.1,
      if_neg inner.2, lfm_of_linked linked, LogLibrary.loadFunctions]
    cases event with
    | fnBegin =>
        apply plain_event
        · rfl
        · trivial
    | fnEnd =>
        apply plain_event
        · rfl
        · trivial
  · exact Linkage.plain_nil

/-- Such a function calls `logInit` at its begin and `logExit` at its end. -/
theorem eventLogFunc_of_topLevel
    (linked : pass.library = linkedLibrary) {name : String}
    (topLevel : isTopLevel name = true) :
    pass.eventLogFunc name .fnBegin =
        linkedLibrary.loadExternalFunction "logInit" ∧
      pass.eventLogFunc name .fnEnd =
        linkedLibrary.loadExternalFunction "logExit" := by
  simp only [isTopLevel, Bool.or_eq_true, decide_eq_true_eq] at topLevel
  unfold AccessInstrumentationPass.eventLogFunc
  rw [lfm_of_linked linked]
  rcases topLevel with isGlobal | isMain
  · rw [if_pos isGlobal, if_pos isGlobal]
    exact ⟨rfl, rfl⟩
  · rw [if_pos isMain, if_pos isMain, ite_self, ite_self]
    exact ⟨rfl, rfl⟩

theorem logs_beginEntries
    (linked : pass.library = linkedLibrary)
    (topLevel : isTopLevel decision.function = true)
    (logs : decision.logsEvents = true) (frame : Frame Val Mem) :
    ∃ functionId,
      link.Logs (pass.eventEntries machine decision .fnBegin frame)
        [.logInit functionId] := by
  have callee := (eventLogFunc_of_topLevel linked topLevel).1
  unfold AccessInstrumentationPass.eventEntries
  rw [if_pos logs, callee]
  exact ⟨_, logs_event rfl frame.memory⟩

theorem logs_endEntries
    (linked : pass.library = linkedLibrary)
    (topLevel : isTopLevel decision.function = true)
    (logs : decision.logsEvents = true) (frame : Frame Val Mem) :
    ∃ functionId,
      link.Logs (pass.eventEntries machine decision .fnEnd frame)
        [.logExit functionId] := by
  have callee := (eventLogFunc_of_topLevel linked topLevel).2
  unfold AccessInstrumentationPass.eventEntries
  rw [if_pos logs, callee]
  exact ⟨_, logs_event rfl frame.memory⟩

end Entries

end Dinamite.Instrument
