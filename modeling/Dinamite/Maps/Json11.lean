import Dinamite.Maps.JsonFile

/-!
# The JSON library

`json11` as far as integer maps need it: dumping a `map<string, int>`, and the
whole parser.  Texts are lists of characters rather than of bytes, so a lone
surrogate escape, which `json11` copies as three bytes outside UTF-8, has no
counterpart here.
-/

namespace Dinamite.Maps.Json11

/-- Numbers are `JsonInt` or `JsonDouble`; the latter is kept as it is
written, and rounded where it is read. -/
inductive Json where
  | null
  | bool (value : Bool)
  | int (value : Int)
  | double (value : Rat)
  | string (value : List Char)
  | array (items : List Json)
  | object (members : List (List Char × Json))

/-- `static_cast<int>` of the `double` that `strtod` reads.  Rounding passes no
integer; what does not fit an `int` becomes whatever the platform gives. -/
structure DoubleToInt where
  toInt : Rat → Int
  isInt : ∀ value, -2 ^ 31 ≤ toInt value ∧ toInt value < 2 ^ 31
  between :
    ∀ value, -2 ^ 31 ≤ value → value ≤ 2 ^ 31 - 1 →
      ⌊value⌋ ≤ toInt value ∧ toInt value ≤ ⌈value⌉

theorem DoubleToInt.toInt_intCast
    (doubles : DoubleToInt) {value : Int}
    (low : -2 ^ 31 ≤ value) (high : value < 2 ^ 31) :
    doubles.toInt value = value := by
  have fits :=
    doubles.between value (by exact_mod_cast low)
      (by exact_mod_cast Int.le_sub_one_of_lt high)
  rw [Int.floor_intCast, Int.ceil_intCast] at fits
  exact le_antisymm fits.2 fits.1

/-- The fraction cut off. -/
def cutOff (value : Rat) : Int :=
  value.num.tdiv value.den

theorem floor_le_cutOff_and_le_ceil (value : Rat) :
    ⌊value⌋ ≤ cutOff value ∧ cutOff value ≤ ⌈value⌉ := by
  rw [cutOff]
  rcases le_total 0 value.num with positive | negative
  · have same : value.num.tdiv value.den = ⌊value⌋ := by
      rw [Rat.floor_def', Int.tdiv_eq_ediv_of_nonneg positive]
    rw [same]
    exact ⟨le_refl _, Int.floor_le_ceil value⟩
  · have same : value.num.tdiv value.den = ⌈value⌉ := by
      rw [Rat.ceil_def', ← Int.tdiv_eq_ediv_of_nonneg (by omega),
        Int.neg_tdiv, neg_neg]
    rw [same]
    exact ⟨Int.floor_le_ceil value, le_refl _⟩

/-- Nothing is rounded, and what does not fit is the least `int`. -/
def DoubleToInt.leastOutside : DoubleToInt where
  toInt := fun value =>
    if -2 ^ 31 ≤ cutOff value ∧ cutOff value < 2 ^ 31 then cutOff value
    else -2 ^ 31
  isInt := by
    intro value
    split
    case isTrue fits => exact fits
    case isFalse => decide
  between := by
    intro value low high
    have inside := floor_le_cutOff_and_le_ceil value
    have least : -2 ^ 31 ≤ ⌊value⌋ :=
      Int.le_floor.mpr (by exact_mod_cast low)
    have greatest : ⌈value⌉ ≤ 2 ^ 31 - 1 :=
      Int.ceil_le.mpr (by exact_mod_cast high)
    rw [if_pos ⟨by omega, by omega⟩]
    exact inside

/-- `int_value()`: 0 for everything that is not a number. -/
def Json.intValue (doubles : DoubleToInt) : Json → Int
  | .int value => value
  | .double value => doubles.toInt value
  | _ => 0

/-- `int_value()` of the members of the maps.  They are read back as they were
dumped, which the `int` of the source does for ids below 2^31. -/
def Json.idValue : Json → Int
  | .int value => value
  | .double value => cutOff value
  | _ => 0

/-! ## Dumping -/

/-- `snprintf("\\u%04x")` of a control character. -/
def dumpControl (code : Nat) : List Char :=
  ['\\', 'u', '0', '0', Nat.digitChar (code / 16),
    Nat.digitChar (code % 16)]

def dumpChar (ch : Char) : List Char :=
  if ch = '\\' then ['\\', '\\']
  else if ch = '"' then ['\\', '"']
  else if ch = '\x08' then ['\\', 'b']
  else if ch = '\x0c' then ['\\', 'f']
  else if ch = '\n' then ['\\', 'n']
  else if ch = '\r' then ['\\', 'r']
  else if ch = '\t' then ['\\', 't']
  else if ch.toNat ≤ 0x1f then dumpControl ch.toNat
  else if ch.toNat = 0x2028 then ['\\', 'u', '2', '0', '2', '8']
  else if ch.toNat = 0x2029 then ['\\', 'u', '2', '0', '2', '9']
  else [ch]

/-- The characters of a string and the closing quote. -/
def dumpTail (value : List Char) : List Char :=
  value.flatMap dumpChar ++ ['"']

def dumpInt (value : Int) : List Char :=
  value.repr.toList

/-- The members of an object and the closing brace. -/
def dumpMembers : Bool → List (String × Int) → List Char
  | _, [] => ['}']
  | first, (key, value) :: rest =>
      (if first then [] else [',', ' ']) ++
        '"' :: dumpTail key.toList ++ ':' :: ' ' :: dumpInt value ++
          dumpMembers false rest

def dump (map : IntMap) : List Char :=
  '{' :: dumpMembers true map.toList

/-! ## Parsing -/

def isWhitespace (ch : Char) : Bool :=
  ch = ' ' || ch = '\r' || ch = '\n' || ch = '\t'

def consumeWhitespace (text : List Char) : List Char :=
  text.dropWhile isWhitespace

/-- The next character that is not whitespace, and what follows it. -/
def getNextToken (text : List Char) : Option (Char × List Char) :=
  match consumeWhitespace text with
  | [] => none
  | ch :: rest => some (ch, rest)

def hexDigit (ch : Char) : Option Nat :=
  if '0' ≤ ch ∧ ch ≤ '9' then some (ch.toNat - 48)
  else if 'a' ≤ ch ∧ ch ≤ 'f' then some (ch.toNat - 87)
  else if 'A' ≤ ch ∧ ch ≤ 'F' then some (ch.toNat - 55)
  else none

def hexCodepoint (a b c d : Char) : Option Nat := do
  let a ← hexDigit a
  let b ← hexDigit b
  let c ← hexDigit c
  let d ← hexDigit d
  return ((a * 16 + b) * 16 + c) * 16 + d

def simpleEscape (ch : Char) : Option Char :=
  if ch = 'b' then some '\x08'
  else if ch = 'f' then some '\x0c'
  else if ch = 'n' then some '\n'
  else if ch = 'r' then some '\r'
  else if ch = 't' then some '\t'
  else if ch = '"' ∨ ch = '\\' ∨ ch = '/' then some ch
  else none

/-- `encode_utf8` of the pending escaped code point, if any. -/
def encodePending : Option Nat → List Char
  | none => []
  | some codepoint => [Char.ofNat codepoint]

def prepend
    (front : List Char) (parsed : Option (List Char × List Char)) :
    Option (List Char × List Char) :=
  parsed.map fun found => (front ++ found.1, found.2)

/-- A `\u` escape: a trail surrogate completes a pending lead surrogate. -/
def joinSurrogates (last : Option Nat) (codepoint : Nat) :
    List Char × Option Nat :=
  match last with
  | some lead =>
      if 0xD800 ≤ lead ∧ lead ≤ 0xDBFF ∧
          0xDC00 ≤ codepoint ∧ codepoint ≤ 0xDFFF then
        (encodePending (some
          ((lead - 0xD800) * 1024 + (codepoint - 0xDC00) + 0x10000)), none)
      else
        (encodePending last, some codepoint)
  | none => ([], some codepoint)

/-- The string up to its closing quote, and what follows. -/
def parseString :
    Option Nat → List Char → Option (List Char × List Char)
  | _, [] => none
  | last, '"' :: rest => some (encodePending last, rest)
  | last, '\\' :: 'u' :: a :: b :: c :: d :: rest =>
      match hexCodepoint a b c d with
      | none => none
      | some codepoint =>
          let joined := joinSurrogates last codepoint
          prepend joined.1 (parseString joined.2 rest)
  | last, '\\' :: ch :: rest =>
      match simpleEscape ch with
      | none => none
      | some out => prepend (encodePending last ++ [out])
          (parseString none rest)
  | last, ch :: rest =>
      if ch.toNat ≤ 0x1f then none
      else prepend (encodePending last ++ [ch]) (parseString none rest)

def spanDigits (text : List Char) : List Char × List Char :=
  (text.takeWhile Char.isDigit, text.dropWhile Char.isDigit)

/-- At least one digit. -/
def someDigits (text : List Char) : Option (List Char × List Char) :=
  let digits := spanDigits text
  if digits.1 = [] then none else some digits

/-- The digits before the decimal point; no leading zeros. -/
def parseIntegerPart (text : List Char) :
    Option (List Char × List Char) :=
  match text with
  | '0' :: rest =>
      match rest with
      | next :: _ => if next.isDigit then none else some (['0'], rest)
      | [] => some (['0'], rest)
  | _ => someDigits text

/-- The digits after the decimal point, if there is one. -/
def parseFraction (text : List Char) : Option (List Char × List Char) :=
  match text with
  | '.' :: rest => someDigits rest
  | _ => some ([], text)

/-- Whether an exponent is negative, and what follows its sign. -/
def exponentSign (text : List Char) : Bool × List Char :=
  match text with
  | '-' :: rest => (true, rest)
  | '+' :: rest => (false, rest)
  | _ => (false, text)

/-- The digits after `e` or `E`, with the sign of the exponent. -/
def parseExponentDigits (text : List Char) :
    Option (Bool × List Char × List Char) :=
  (someDigits (exponentSign text).2).map fun digits =>
    ((exponentSign text).1, digits.1, digits.2)

/-- The exponent, if there is one: whether it is negative, and its digits. -/
def parseExponent (text : List Char) :
    Option (Bool × List Char × List Char) :=
  match text with
  | 'e' :: rest => parseExponentDigits rest
  | 'E' :: rest => parseExponentDigits rest
  | _ => some (false, [], text)

def isReal (text : List Char) : Bool :=
  match text with
  | ch :: _ => ch = '.' || ch = 'e' || ch = 'E'
  | [] => false

/-- The number that is written, which `strtod` rounds. -/
def decimalValue
    (negative : Bool) (integer fraction : List Char)
    (exponentNegative : Bool) (exponent : List Char) : Rat :=
  let mantissa : Rat :=
    (Nat.ofDigitChars 10 (integer ++ fraction) 0 : Rat) /
      (10 : Rat) ^ fraction.length
  let scale : Rat := (10 : Rat) ^ Nat.ofDigitChars 10 exponent 0
  let value := if exponentNegative then mantissa / scale
    else mantissa * scale
  if negative then -value else value

/-- Whether there is a minus sign, and what follows it. -/
def parseSign (text : List Char) : Bool × List Char :=
  match text with
  | '-' :: rest => (true, rest)
  | _ => (false, text)

def parseNumber (text : List Char) : Option (Json × List Char) :=
  let (negative, unsigned) := parseSign text
  match parseIntegerPart unsigned with
  | none => none
  | some (integer, rest) =>
      -- nine digits always fit an int; the sign counts as one of them
      if !isReal rest && decide (integer.length + negative.toNat ≤ 9) then
        let value : Int := Nat.ofDigitChars 10 integer 0
        some (.int (if negative then -value else value), rest)
      else
        match parseFraction rest with
        | none => none
        | some (fraction, rest) =>
            match parseExponent rest with
            | none => none
            | some (exponentNegative, exponent, rest) =>
                some (.double (decimalValue negative integer fraction
                  exponentNegative exponent), rest)

/-- The literal has to start at the character that was just read. -/
def expect (literal : List Char) (value : Json) (text : List Char) :
    Option (Json × List Char) :=
  if literal <+: text then some (value, text.drop literal.length)
  else none

def maxDepth : Nat := 200

mutual

/-- `fuel` bounds the recursion; every call consumes a character first. -/
def parseJson : Nat → Nat → List Char → Option (Json × List Char)
  | 0, _, _ => none
  | fuel + 1, depth, text =>
      if depth > maxDepth then
        none
      else
        match getNextToken text with
        | none => none
        | some (ch, rest) =>
            if ch = '-' ∨ ch.isDigit then
              parseNumber (ch :: rest)
            else if ch = 't' then
              expect ['t', 'r', 'u', 'e'] (.bool true) (ch :: rest)
            else if ch = 'f' then
              expect ['f', 'a', 'l', 's', 'e'] (.bool false) (ch :: rest)
            else if ch = 'n' then
              expect ['n', 'u', 'l', 'l'] .null (ch :: rest)
            else if ch = '"' then
              (parseString none rest).map fun found =>
                (.string found.1, found.2)
            else if ch = '{' then
              match getNextToken rest with
              | none => none
              | some (next, rest) =>
                  if next = '}' then some (.object [], rest)
                  else (parseMembers fuel depth next rest).map fun found =>
                    (.object found.1, found.2)
            else if ch = '[' then
              match getNextToken rest with
              | none => none
              | some (next, after) =>
                  if next = ']' then some (.array [], after)
                  else (parseItems fuel depth (next :: after)).map
                    fun found => (.array found.1, found.2)
            else
              none

/-- The members of an object, whose first token `ch` has been read. -/
def parseMembers :
    Nat → Nat → Char → List Char →
      Option (List (List Char × Json) × List Char)
  | 0, _, _, _ => none
  | fuel + 1, depth, ch, text =>
      if ch ≠ '"' then
        none
      else
        match parseString none text with
        | none => none
        | some (key, rest) =>
            match getNextToken rest with
            | none => none
            | some (colon, rest) =>
                if colon ≠ ':' then
                  none
                else
                  match parseJson fuel (depth + 1) rest with
                  | none => none
                  | some (value, rest) =>
                      match getNextToken rest with
                      | none => none
                      | some (next, rest) =>
                          if next = '}' then
                            some ([(key, value)], rest)
                          else if next ≠ ',' then
                            none
                          else
                            match getNextToken rest with
                            | none => none
                            | some (ch, rest) =>
                                (parseMembers fuel depth ch rest).map
                                  fun found =>
                                    ((key, value) :: found.1, found.2)

/-- The items of an array, from the first character of the first item. -/
def parseItems :
    Nat → Nat → List Char → Option (List Json × List Char)
  | 0, _, _ => none
  | fuel + 1, depth, text =>
      match parseJson fuel (depth + 1) text with
      | none => none
      | some (value, rest) =>
          match getNextToken rest with
          | none => none
          | some (next, rest) =>
              if next = ']' then
                some ([value], rest)
              else if next ≠ ',' then
                none
              else
                match getNextToken rest with
                | none => none
                | some (ch, rest) =>
                    (parseItems fuel depth (ch :: rest)).map fun found =>
                      (value :: found.1, found.2)

end

/-- What `parse_string` has not read yet when it fails. -/
def unreadOfString : List Char → List Char
  | [] => []
  | '\\' :: 'u' :: a :: b :: c :: d :: rest =>
      match hexCodepoint a b c d with
      | none => a :: b :: c :: d :: rest
      | some _ => unreadOfString rest
  | '\\' :: ch :: rest =>
      match simpleEscape ch with
      | none => rest
      | some _ => unreadOfString rest
  | ch :: rest =>
      if ch.toNat ≤ 0x1f then rest else unreadOfString rest

/-- A failed parse is the null value.  But `parse_string` fails with the empty
string, which stays where it is the whole value and was read to the end. -/
def failedValue (text : List Char) : Json :=
  match getNextToken text with
  | some ('"', rest) =>
      if consumeWhitespace (unreadOfString rest) = [] then .string []
      else .null
  | _ => .null

/-- `Json::parse`; trailing garbage fails the parse. -/
def parse (text : List Char) : Json :=
  match parseJson (text.length + 1) 0 text with
  | none => failedValue text
  | some (value, rest) =>
      if consumeWhitespace rest = [] then value else .null

/-- `object_items()` with `int_value()` of each member. -/
def objectItems (text : List Char) : IntMap :=
  match parse text with
  | .object members =>
      members.foldl
        (fun map member =>
          map.insert (String.ofList member.1) member.2.idValue) ∅
  | _ => ∅

end Dinamite.Maps.Json11
