import Dinamite.Instrument.LogFunctions
import Dinamite.Numerals

/-!
# The file of allocation definitions

Every line that is no comment gives a name and three argument numbers: of the
count, the size and the address.  For a name that is defined more than once the
first line counts.
-/

namespace Dinamite.Instrument

open Dinamite.Numerals

/-! ## Reading the file -/

/-- The columns are the name, `numIdx`, `sizeIdx` and `addrIdx`. -/
def readDefinition (line : List Char) : Option AllocDefinition :=
  (readWord line).bind fun name =>
    (readInt name.2).bind fun numIdx =>
      (readInt numIdx.2).bind fun sizeIdx =>
        (readInt sizeIdx.2).map fun addrIdx =>
          { name := String.ofList name.1
            sizeIdx := sizeIdx.1
            numIdx := numIdx.1
            addrIdx := addrIdx.1 }

/-- `getline`: nothing comes behind a line break at the end. -/
def getLines (content : List Char) : List (List Char) :=
  let lines := content.splitOn '\n'
  if lines.getLast? = some [] then lines.dropLast else lines

def isComment (line : List Char) : Bool :=
  line.head? = some '#'

/-- The process exits at the first line that does not parse. -/
def readDefinitions : List (List Char) → Option AllocDefManager
  | [] => some []
  | line :: rest =>
      if isComment line then
        readDefinitions rest
      else
        (readDefinition line).bind fun allocDef =>
          (readDefinitions rest).map fun others => allocDef :: others

/-- What stands for a file that cannot be opened. -/
def standardDefs : AllocDefManager :=
  [{ name := "malloc", sizeIdx := 0, numIdx := -1, addrIdx := -1 },
    { name := "calloc", sizeIdx := 1, numIdx := 0, addrIdx := -1 }]

def loadAllocDefs (file : Option String) : Option AllocDefManager :=
  match file with
  | some content => readDefinitions (getLines content.toList)
  | none => some standardDefs

/-! ## The first definition of a name -/

/-- The first line that is about the name gives the definition. -/
inductive FirstDefines (name : String) (adef : AllocDefinition) :
    List (List Char) → Prop
  | here {line : List Char} {rest : List (List Char)}
      (noComment : isComment line = false)
      (read : readDefinition line = some adef)
      (same : adef.name = name) :
      FirstDefines name adef (line :: rest)
  | comment {line : List Char} {rest : List (List Char)}
      (skipped : isComment line = true)
      (later : FirstDefines name adef rest) :
      FirstDefines name adef (line :: rest)
  | other {line : List Char} {rest : List (List Char)}
      {different : AllocDefinition}
      (noComment : isComment line = false)
      (read : readDefinition line = some different)
      (differs : different.name ≠ name)
      (later : FirstDefines name adef rest) :
      FirstDefines name adef (line :: rest)

theorem getAllocDef_cons
    (allocDef : AllocDefinition) (adm : AllocDefManager) (name : String) :
    AllocDefManager.getAllocDef (allocDef :: adm) name =
      if allocDef.name = name then some allocDef
      else adm.getAllocDef name := by
  unfold AllocDefManager.getAllocDef
  rw [List.find?_cons]
  by_cases same : allocDef.name = name
  · simp [same]
  · simp [same]

/-- Looked up is what the first line about the name says. -/
theorem getAllocDef_eq_some_iff
    {lines : List (List Char)} {adm : AllocDefManager}
    (loaded : readDefinitions lines = some adm)
    {name : String} {adef : AllocDefinition} :
    adm.getAllocDef name = some adef ↔ FirstDefines name adef lines := by
  induction lines generalizing adm with
  | nil =>
      obtain rfl := Option.some.inj loaded
      exact iff_of_false nofun nofun
  | cons line lines inductionHypothesis =>
      unfold readDefinitions at loaded
      by_cases skipped : isComment line = true
      · rw [if_pos skipped] at loaded
        rw [inductionHypothesis loaded]
        constructor
        · exact fun later => .comment skipped later
        · intro defines
          cases defines with
          | here noComment read same =>
              exact absurd skipped (by rw [noComment]; decide)
          | comment _ later => exact later
          | other noComment read differs later =>
              exact absurd skipped (by rw [noComment]; decide)
      · rw [if_neg skipped] at loaded
        rw [Bool.not_eq_true] at skipped
        rcases Option.bind_eq_some_iff.mp loaded with
          ⟨allocDef, read, others⟩
        rcases Option.map_eq_some_iff.mp others with ⟨rest, isRest, rfl⟩
        rw [getAllocDef_cons]
        by_cases same : allocDef.name = name
        · rw [if_pos same]
          constructor
          · intro equal
            obtain rfl := Option.some.inj equal
            exact .here skipped read same
          · intro defines
            cases defines with
            | here _ readHere _ => exact read.symm.trans readHere
            | comment isSkipped _ =>
                exact absurd isSkipped (by rw [skipped]; decide)
            | other _ readOther differs _ =>
                obtain rfl := Option.some.inj (read.symm.trans readOther)
                exact absurd same differs
        · rw [if_neg same, inductionHypothesis isRest]
          constructor
          · exact fun later => .other skipped read same later
          · intro defines
            cases defines with
            | here _ readHere sameName =>
                obtain rfl := Option.some.inj (read.symm.trans readHere)
                exact absurd sameName same
            | comment isSkipped _ =>
                exact absurd isSkipped (by rw [skipped]; decide)
            | other _ _ _ later => exact later

/-! ## Columns -/

/-- Blanks stand between two columns. -/
structure IsGap (gap : List Char) : Prop where
  some : gap ≠ []
  allBlank : ∀ char ∈ gap, isSpace char = true

theorem IsGap.head_isSpace
    {gap rest : List Char} (isGap : IsGap gap) :
    ∀ char ∈ (gap ++ rest).head?, isSpace char = true := by
  intro char isHead
  cases gap with
  | nil => exact absurd rfl isGap.some
  | cons head gap =>
      obtain rfl := Option.some.inj isHead
      exact isGap.allBlank head List.mem_cons_self

theorem IsGap.head_not_isDigit
    {gap rest : List Char} (isGap : IsGap gap) :
    ∀ char ∈ (gap ++ rest).head?, char.isDigit = false := by
  intro char isHead
  by_contra digit
  rw [Bool.not_eq_false] at digit
  have blank := isGap.head_isSpace char isHead
  rw [isSpace_of_isDigit digit] at blank
  exact Bool.false_ne_true blank

/-- A name and three numbers in columns are read as they are written. -/
theorem readDefinition_columns
    {lead name first second third rest : List Char}
    {adef : AllocDefinition}
    (isName : adef.name = String.ofList name) (someName : name ≠ [])
    (noBlank : ∀ char ∈ name, isSpace char = false)
    (leadBlank : ∀ char ∈ lead, isSpace char = true)
    (firstGap : IsGap first) (secondGap : IsGap second)
    (thirdGap : IsGap third)
    (ends : ∀ char ∈ rest.head?, char.isDigit = false)
    (numFits : -2 ^ 31 ≤ adef.numIdx ∧ adef.numIdx < 2 ^ 31)
    (sizeFits : -2 ^ 31 ≤ adef.sizeIdx ∧ adef.sizeIdx < 2 ^ 31)
    (addrFits : -2 ^ 31 ≤ adef.addrIdx ∧ adef.addrIdx < 2 ^ 31) :
    readDefinition
        (lead ++ (name ++ (first ++ (intDigits adef.numIdx ++
          (second ++ (intDigits adef.sizeIdx ++
            (third ++ (intDigits adef.addrIdx ++ rest)))))))) =
      some adef := by
  rw [readDefinition,
    readWord_append leadBlank someName noBlank firstGap.head_isSpace,
    Option.bind_some,
    readInt_intDigits firstGap.allBlank numFits secondGap.head_not_isDigit,
    Option.bind_some,
    readInt_intDigits secondGap.allBlank sizeFits
      thirdGap.head_not_isDigit,
    Option.bind_some, readInt_intDigits thirdGap.allBlank addrFits ends,
    Option.map_some, ← isName]

example :
    loadAllocDefs (some "# func number size addr\n__wt_calloc 1 2 3 \n") =
      some
        [{ name := "__wt_calloc", sizeIdx := 2, numIdx := 1,
           addrIdx := 3 }] := by
  decide +kernel

end Dinamite.Instrument
