import Dinamite.Maps.Json11

/-!
# The instrumentation filter

`InstrumentationFilter`: the filter document, the decisions taken from it, and
the table of function sizes.  Strings of the document are lists of characters,
as `json11` reads them.
-/

namespace Dinamite.Filter

open Dinamite.Maps Dinamite.Maps.Json11

/-! ## JSON values -/

section Accessors

def isNull : Json → Bool
  | .null => true
  | _ => false

def boolValue : Json → Bool
  | .bool value => value
  | _ => false

def stringValue : Json → List Char
  | .string value => value
  | _ => []

def arrayItems : Json → List Json
  | .array items => items
  | _ => []

/-- `object_items()` is a map: sorted by key, the last of equal keys counts. -/
def jsonObjectItems : Json → Std.ExtTreeMap String Json
  | .object members =>
      members.foldl
        (fun map member => map.insert (String.ofList member.1) member.2) ∅
  | _ => ∅

/-- `operator[]`; the null value for a missing key. -/
def member (json : Json) (key : String) : Json :=
  (jsonObjectItems json)[key]?.getD .null

end Accessors

/-! ## Patterns -/

/-- The length product of the source is 0 if one of the strings is empty. -/
def globMatch : List Char → List Char → Bool
  -- both done, matched
  | [], [] => true
  -- one is done, other has leftover characters
  | [], _ :: _ => false
  | glob :: rest, [] => (glob :: rest) = ['*']
  | first :: glob, head :: s =>
      if first = '*' then
        globMatch glob s || globMatch (first :: glob) s ||
          globMatch glob (head :: s)
      else if first ≠ head then
        false
      else
        globMatch glob s
termination_by glob s => glob.length + s.length

/-! ## The filter -/

inductive FnSizeMetrics where
  | loc
  | ir
  | path
  deriving DecidableEq, Repr

/-- `fname` is the path of `function_sizes.json`, fixed by the system of
processes; `doubles` is the platform's. -/
structure InstrumentationFilter where
  filters : Json := .null
  loaded : Bool := false
  functions : IntMap := ∅
  doubles : DoubleToInt := .leastOutside

namespace InstrumentationFilter

/-- The file's text, or nothing if it could not be opened. -/
def loadFilterData
    (self : InstrumentationFilter) (file : File) : InstrumentationFilter :=
  match file with
  | none => self
  | some text =>
      let filters := parse text
      { self with
        filters := filters
        loaded := if isNull filters then self.loaded else true }

variable (self : InstrumentationFilter)

def functionFilters : Json :=
  member (member self.filters "whitelist") "function_filters"

def findBestFunctionMatch (functionName : String) : String :=
  if isNull (member self.functionFilters functionName) then
    let keys := (jsonObjectItems self.functionFilters).keys
    let other := keys.find? fun key =>
      key ≠ "*" && globMatch key.toList functionName.toList
    match other with
    | some key => key
    | none => if "*" ∈ keys then "*" else ""
  else
    functionName

/-- Some entry of the array, behind a wildcard, matches the name. -/
def listsSuffix (array : Json) (name : String) : Bool :=
  (arrayItems array).any fun entry =>
    globMatch ('*' :: stringValue entry) name.toList

def checkFunctionBlacklist (functionName : String) : Bool :=
  self.loaded &&
    listsSuffix
      (member (member self.filters "blacklist") "function_filters")
      functionName

def checkFileBlacklist (fileName : String) : Bool :=
  self.loaded &&
    listsSuffix (member (member self.filters "blacklist") "file_filters")
      fileName

/-- The rule of the name lists the event. -/
def ruleLists (functionName eventType : String) : Bool :=
  let matchName := self.findBestFunctionMatch functionName
  (arrayItems
      (member (member self.functionFilters matchName) "events")).any
    fun entry => eventType.toList = stringValue entry

/-- `checkFunctionFilter` without the question whether "*" admits the event. -/
def checkOwnFilter (functionName eventType : String) : Bool :=
  if (jsonObjectItems self.functionFilters).size = 0 then
    true
  else
    self.ruleLists functionName eventType

/-- The source asks itself about "*" first; that call asks no further. -/
def checkFunctionFilter (functionName eventType : String) : Bool :=
  if !self.loaded then
    true
  else if self.checkFunctionBlacklist functionName then
    false
  else if functionName ≠ "*" &&
      !self.checkFunctionBlacklist "*" && self.checkOwnFilter "*" eventType
      then
    true
  else
    self.checkOwnFilter functionName eventType

def checkFunctionArgFilter (functionName : String) (arg : Int) : Bool :=
  if !self.loaded then
    false
  else
    let matchName := self.findBestFunctionMatch functionName
    match member (member self.functionFilters matchName) "arguments" with
    | .array items => items.any fun entry => entry.intValue self.doubles = arg
    | .string value => value = ['*']
    | _ => false

def checkFileFilter (fileName : String) : Bool :=
  if !self.loaded then
    true
  else if self.checkFileBlacklist fileName then
    false
  else
    let fileArray :=
      member (member self.filters "whitelist") "file_filters"
    if isNull fileArray then
      true
    else if (arrayItems fileArray).length = 0 then
      true
    else
      listsSuffix fileArray fileName

def loopCheckEnabled : Bool :=
  let enabled := member self.filters "check_small_function_loops"
  if isNull enabled then true else boolValue enabled

/-- Remembers the size of a function seen for the first time, then decides.
`size` is a `size_t`, kept in the table as an `int` and compared with the
minimum as a `size_t`. -/
def checkFunctionSize
    (functionName : String) (size : Nat) : Bool × InstrumentationFilter :=
  let recorded :=
    if size > 0 ∧ self.functions[functionName]? = none then
      { self with
        functions :=
          self.functions.insert functionName (Int.bmod size (2 ^ 32)) }
    else
      self
  let minimum := member self.filters "minimum_function_size"
  let passes :=
    if isNull minimum then
      true
    else if (minimum.intValue self.doubles % 2 ^ 64).toNat ≤ size then
      true
    else
      let bestMatch := self.findBestFunctionMatch functionName
      bestMatch ≠ "*" && bestMatch ≠ ""
  (passes, recorded)

def getFunctionSizeMetric : FnSizeMetrics :=
  let metric := member self.filters "function_size_metric"
  if isNull metric then
    .loc
  else if stringValue metric = "IR".toList then
    .ir
  else if stringValue metric = "LOC_PATH".toList then
    .path
  else
    .loc

end InstrumentationFilter

end Dinamite.Filter
