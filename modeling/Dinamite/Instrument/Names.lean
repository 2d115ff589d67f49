import Dinamite.Instrument.IR

/-!
# The names that are given ids

The texts under which types and variables are looked up in their maps.
-/

namespace Dinamite.Instrument

/-! ## Text -/

/-- Where a pattern first occurs. -/
def findText (pattern : List Char) : List Char → Option Nat
  | [] => if pattern.isEmpty then some 0 else none
  | head :: rest =>
      if pattern.isPrefixOf (head :: rest) then some 0
      else (findText pattern rest).map (· + 1)

/-- `if (text.find(prefix) == 0) text.erase(0, prefix length)`. -/
def erasePrefix (pattern text : List Char) : List Char :=
  if pattern.isPrefixOf text then text.drop pattern.length else text

/-- Variables that hold a parameter end in `.addr`. -/
def eraseAddr (text : List Char) : List Char :=
  if text.length > 5 ∧ text.drop (text.length - 5) = ".addr".toList then
    text.take (text.length - 5)
  else
    text

/-- What the names are made from: how a type is printed, how a symbol is
demangled, the field names the metadata crawler collected, what stands in an
index that was never assigned, and what is read of a text that is gone.  The
last two may differ from one instruction that asks for a name to the next. -/
structure Naming where
  print : Ty → String
  demangle : String → String
  getFieldName : String → Int → String
  unassigned : Nat → Int
  copied : Nat → String → String

namespace Naming

variable (naming : Naming)

def getValueType (type : Ty) : String :=
  let result := (naming.print type).toList
  if result.take 7 = "%struct".toList then
    String.ofList (result.drop 8)
  else
    String.ofList result

/-- The struct that a field is taken of. -/
def parentStruct (gep : GetElementPtr) : String :=
  match gep.sourceType with
  | .pointer (.struct name) => name
  | .pointer (.literalStruct _) => "literal"
  | _ => ""

/-- The text that `getGEPVarName` builds for the instruction `site`. -/
def gepVarText (site : Nat) (gep : GetElementPtr) : String :=
  let fieldIndex :=
    if gep.numOperands < 3 then -1
    else gep.fieldIndex.getD (naming.unassigned site)
  let parent :=
    erasePrefix "struct.".toList
      (erasePrefix "class.".toList (parentStruct gep).toList)
  let parent :=
    match findText "::".toList parent with
    | some dblcolon => parent.drop (dblcolon + 2)
    | none => parent
  let fieldName :=
    naming.getFieldName (String.ofList parent) fieldIndex
  String.ofList (eraseAddr (parent ++ '.' :: fieldName.toList))

/-- What is returned refers to a local string, and is copied when that one is
destroyed. -/
def getGEPVarName (site : Nat) (gep : GetElementPtr) : String :=
  naming.copied site (naming.gepVarText site gep)

/-- The class of `this`. -/
def getThisName (type : Ty) : String :=
  let thisclass :=
    erasePrefix "%struct.".toList
      (erasePrefix "%class.".toList (naming.getValueType type).toList)
  String.ofList (thisclass.filter (· ≠ '*') ++ ".this".toList)

/-- What a variable's name is prefixed with inside a function.  The text is
erased from the first parenthesis on, by at most its length less one. -/
def functionBase (currentFunction : String) : List Char :=
  let base := (naming.demangle currentFunction).toList
  match findText ['('] base with
  | none => base ++ "().".toList
  | some position =>
      base.take position ++ base.drop (position + (base.length - 1)) ++
        "().".toList

/-- The name of a variable that the instruction `site` accesses. -/
def getVarName
    (site : Nat) (currentFunction : String) (value : Value) : String :=
  if value.getName = "this.addr" then
    naming.getThisName value.getType
  else
    match value with
    | .instruction _ _ _ (some gep) => naming.getGEPVarName site gep
    | _ =>
        let base :=
          match value with
          | .globalVariable _ _ => "<global>.".toList
          | _ => naming.functionBase currentFunction
        let name := value.getName.toList
        let named :=
          if name.isEmpty then base ++ "<NA>".toList else base
        String.ofList (eraseAddr (named ++ name))

end Naming

end Dinamite.Instrument
