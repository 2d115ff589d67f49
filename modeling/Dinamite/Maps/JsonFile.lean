import Mathlib

/-!
# Integer maps and the JSON files that hold them

`IdMap` keeps its name table and its chunk pool as `map<string, int>` objects
that are dumped to and parsed from JSON text.
-/

namespace Dinamite.Maps

/-- `map<string, int>`. -/
abbrev IntMap :=
  Std.ExtTreeMap String Int

/-- `map[key]` read as a value.  A missing key is inserted with the value 0. -/
def subscript (map : IntMap) (key : String) : Int × IntMap :=
  (map[key]?.getD 0, map.insertIfNew key 0)

theorem getElem?_insert
    (map : IntMap) (key tested : String) (value : Int) :
    (map.insert key value)[tested]? =
      if key = tested then some value else map[tested]? := by
  simp [Std.ExtTreeMap.getElem?_insert]

@[simp]
theorem empty_union (map : IntMap) :
    (∅ : IntMap) ∪ map = map := by
  apply Std.ExtTreeMap.ext_getElem?
  intro key
  simp [Std.ExtTreeMap.getElem?_union]

/-- Reading a key that is present leaves the map alone. -/
theorem subscript_of_present
    {map : IntMap} {key : String} {value : Int}
    (present : map[key]? = some value) :
    subscript map key = (value, map) := by
  have member : key ∈ map :=
    Std.ExtTreeMap.mem_iff_isSome_getElem?.mpr (by rw [present]; rfl)
  have unchanged : map.insertIfNew key 0 = map := by
    apply Std.ExtTreeMap.ext_getElem?
    intro tested
    rw [Std.ExtTreeMap.getElem?_insertIfNew, if_neg]
    intro isNew
    rcases isNew with ⟨_, absent⟩
    exact absent member
  simp [subscript, present, unchanged]

/-- How a map becomes file text and how file text is read back.  `objectItems`
is the content of the object the text parses to, and the empty map when the
text does not parse: `readMapFromJson` never looks at the parse error. -/
structure JsonFormat where
  dump : IntMap → List Char
  objectItems : List Char → IntMap
  objectItems_dump : ∀ map, objectItems (dump map) = map
  objectItems_prefix :
    ∀ map text, text <+: dump map → text ≠ dump map →
      objectItems text = ∅

/-- The content of a file, `none` while it does not exist. -/
abbrev File :=
  Option (List Char)

/-- Entries of the file overwrite those of `mp`; the flag says whether the file
could be opened. -/
def readMapFromJson
    (format : JsonFormat) (mp : IntMap) (file : File) : Bool × IntMap :=
  match file with
  | none => (false, mp)
  | some text => (true, mp ∪ format.objectItems text)

def writeMapToJson (format : JsonFormat) (mp : IntMap) : List Char :=
  format.dump mp

/-- The entries of a file as its readers see them. -/
def fileEntries (format : JsonFormat) (file : File) : IntMap :=
  (readMapFromJson format ∅ file).2

@[simp]
theorem fileEntries_none (format : JsonFormat) :
    fileEntries format none = ∅ :=
  rfl

@[simp]
theorem fileEntries_some (format : JsonFormat) (text : List Char) :
    fileEntries format (some text) = format.objectItems text := by
  simp [fileEntries, readMapFromJson]

@[simp]
theorem objectItems_written (format : JsonFormat) (map : IntMap) :
    format.objectItems (writeMapToJson format map) = map :=
  format.objectItems_dump map

theorem readMapFromJson_entries
    (format : JsonFormat) (mp : IntMap) (file : File) (key : String) :
    (readMapFromJson format mp file).2[key]? =
      (fileEntries format file)[key]?.or mp[key]? := by
  cases file with
  | none =>
      simp [readMapFromJson]
  | some text =>
      simp [readMapFromJson, Std.ExtTreeMap.getElem?_union]

end Dinamite.Maps
