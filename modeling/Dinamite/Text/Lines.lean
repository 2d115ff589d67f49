import Dinamite.Fields
import Dinamite.Trace.Records

/-!
# Lines of the text trace

The lines `textinstrumentation.c` prints, one format string for each logging
function, and how much of a call can be read back from its line.
-/

namespace Dinamite.Text

open Dinamite.Fields
open Dinamite.Trace

/-! ## Conversions of `fprintf` -/

/-- `%u`, `%hu` and `%llu` -/
def unsignedText (value : Nat) : List Char :=
  Nat.toDigits 10 value

/-- `%d` -/
def intText : Int → List Char
  | .ofNat value => Nat.toDigits 10 value
  | .negSucc value => '-' :: Nat.toDigits 10 (value + 1)

/-- `%c` -/
def charText (value : Int) : List Char :=
  [Char.ofNat (value % 256).toNat]

/-- `%p`, as the C library of the platform prints it -/
def pointerText (ptr : BitVec 64) : List Char :=
  if ptr = 0 then
    ['(', 'n', 'i', 'l', ')']
  else
    '0' :: 'x' :: Nat.toDigits 16 ptr.toNat

def roundHalfEven (numerator denominator : Nat) : Nat :=
  let quotient := numerator / denominator
  let rest := numerator % denominator
  if denominator < 2 * rest ∨ (2 * rest = denominator ∧ quotient % 2 = 1) then
    quotient + 1
  else
    quotient

/-- A value given in millionths, with its six decimals. -/
def fixedText (micros : Nat) : List Char :=
  Nat.toDigits 10 (micros / 10 ^ 6) ++
    '.' :: [5, 4, 3, 2, 1, 0].map fun place =>
      Nat.digitChar (micros / 10 ^ place % 10)

/-- The text `%f` prints for an IEEE number without its sign. -/
def magnitudeText (exponentBits fractionBits bits : Nat) : List Char :=
  let fraction := bits % 2 ^ fractionBits
  let exponent := bits / 2 ^ fractionBits % 2 ^ exponentBits
  if exponent = 2 ^ exponentBits - 1 then
    if fraction = 0 then ['i', 'n', 'f'] else ['n', 'a', 'n']
  else
    -- subnormal numbers have no hidden bit and the smallest exponent
    let significand :=
      if exponent = 0 then fraction else 2 ^ fractionBits + fraction
    let unit := 2 ^ (2 ^ (exponentBits - 1) - 1 + fractionBits)
    fixedText
      (roundHalfEven (significand * 2 ^ max exponent 1 * 10 ^ 6) unit)

/-- `%f` and `%lf`; a `float` is passed as the `double` of the same value -/
def floatText (exponentBits fractionBits bits : Nat) : List Char :=
  if bits / 2 ^ (fractionBits + exponentBits) = 1 then
    '-' :: magnitudeText exponentBits fractionBits bits
  else
    magnitudeText exponentBits fractionBits bits

/-! ## Lines -/

/-- The characters in front of the terminating NUL. -/
structure CString where
  chars : List Char
  noNul : '\x00' ∉ chars
  deriving DecidableEq

/-- A logging call with the string its pointer points to;
`logAccessStaticString` alone reads it. -/
structure LoggedCall where
  call : LogCall
  pointee : CString
  deriving DecidableEq

/-- The fields of an access line, whose formats differ in the second one. -/
def accessFields
    (valueText : List Char) (access : Access) : List (List Char) :=
  [pointerText access.ptr, valueText, charText access.type,
    intText access.file, intText access.line, intText access.col,
    intText access.typeId, intText access.varId]

/-- The conversions of a format string with their arguments. -/
def LoggedCall.fields (logged : LoggedCall) : List (List Char) :=
  match logged.call with
  | .logFnBegin functionId => [['f', 'b'], intText functionId]
  | .logFnEnd functionId => [['f', 'e'], intText functionId]
  | .logAlloc addr size num type file line col =>
      [pointerText addr, unsignedText size.toNat, unsignedText num.toNat,
        intText type, intText file, intText line, intText col]
  | .logAccessPtr value access =>
      accessFields (pointerText value) access
  | .logAccessStaticString _ access =>
      accessFields logged.pointee.chars access
  | .logAccessI8 value access =>
      accessFields (unsignedText value.toNat) access
  | .logAccessI16 value access =>
      accessFields (unsignedText value.toNat) access
  | .logAccessI32 value access =>
      accessFields (unsignedText value.toNat) access
  | .logAccessI64 value access =>
      accessFields (unsignedText value.toNat) access
  | .logAccessF32 bits access =>
      accessFields (floatText 8 23 bits.toNat) access
  | .logAccessF64 bits access =>
      accessFields (floatText 11 52 bits.toNat) access

/-- A line without its newline. -/
def LoggedCall.body (logged : LoggedCall) : List Char :=
  joined ' ' logged.fields

def LoggedCall.line (logged : LoggedCall) : List Char :=
  logged.body ++ ['\n']

/-- The lines of the calls, one after the other. -/
def traceText (calls : List LoggedCall) : List Char :=
  terminated '\n' (calls.map LoggedCall.body)

theorem traceText_append (earlier later : List LoggedCall) :
    traceText (earlier ++ later) = traceText earlier ++ traceText later := by
  simp only [traceText, terminated, List.map_append, List.flatMap_append]

theorem traceText_cons (logged : LoggedCall) (calls : List LoggedCall) :
    traceText (logged :: calls) = logged.line ++ traceText calls := by
  simp only [traceText, terminated, List.map_cons, List.flatMap_cons,
    LoggedCall.line]

/-- Every line has at least its newline. -/
theorem traceText_eq_nil_iff {calls : List LoggedCall} :
    traceText calls = [] ↔ calls = [] := by
  cases calls with
  | nil => simp [traceText, terminated]
  | cons logged calls => simp [traceText_cons, LoggedCall.line]

/-! ## Characters of the conversions -/

/-- The characters that part fields and lines. -/
def IsBlank (char : Char) : Prop :=
  char = ' ' ∨ char = '\n'

instance (char : Char) : Decidable (IsBlank char) :=
  inferInstanceAs (Decidable (_ ∨ _))

theorem digitChar_not_blank (digit : Nat) :
    ¬ IsBlank (Nat.digitChar digit) := by
  have notSpace : Nat.digitChar digit ≠ ' ' := by simp
  have notNewline : Nat.digitChar digit ≠ '\n' := by simp
  intro either
  rcases either with space | newline
  · exact notSpace space
  · exact notNewline newline

/-- A number is printed with digits alone, whatever the base. -/
theorem exists_digit_of_mem_toDigits
    {base value : Nat} (proper : 1 < base) {char : Char}
    (member : char ∈ Nat.toDigits base value) :
    ∃ digit, char = Nat.digitChar digit := by
  induction value using Nat.strongRecOn with
  | ind value inductionHypothesis =>
      rw [Nat.toDigits_eq_if proper] at member
      split at member
      case isTrue small =>
        exact ⟨value, List.mem_singleton.mp member⟩
      case isFalse large =>
        rcases List.mem_append.mp member with front | last
        · have smaller : value / base < value :=
            Nat.div_lt_self (by omega) proper
          exact inductionHypothesis _ smaller front
        · exact ⟨_, List.mem_singleton.mp last⟩

theorem toDigits_not_blank
    {base value : Nat} (proper : 1 < base) {char : Char}
    (member : char ∈ Nat.toDigits base value) : ¬ IsBlank char := by
  rcases exists_digit_of_mem_toDigits proper member with ⟨digit, rfl⟩
  exact digitChar_not_blank digit

theorem unsignedText_not_blank
    {value : Nat} {char : Char} (member : char ∈ unsignedText value) :
    ¬ IsBlank char :=
  toDigits_not_blank (by decide) member

theorem intText_not_blank
    {value : Int} {char : Char} (member : char ∈ intText value) :
    ¬ IsBlank char := by
  cases value with
  | ofNat value => exact toDigits_not_blank (by decide) member
  | negSucc value =>
      rcases List.mem_cons.mp member with rfl | later
      · decide
      · exact toDigits_not_blank (by decide) later

theorem pointerText_not_blank
    {ptr : BitVec 64} {char : Char} (member : char ∈ pointerText ptr) :
    ¬ IsBlank char := by
  unfold pointerText at member
  split at member
  case isTrue null =>
    have printed : ∀ char ∈ ['(', 'n', 'i', 'l', ')'], ¬ IsBlank char := by
      simp [IsBlank]
    exact printed char member
  case isFalse proper =>
    rcases List.mem_cons.mp member with rfl | later
    · decide
    · rcases List.mem_cons.mp later with rfl | digits
      · decide
      · exact toDigits_not_blank (by decide) digits

/-- A pointer starts with a bracket or a zero. -/
theorem pointerText_head (ptr : BitVec 64) :
    ∃ start rest, pointerText ptr = start :: rest ∧
      (start = '(' ∨ start = '0') := by
  unfold pointerText
  split
  · exact ⟨_, _, rfl, Or.inl rfl⟩
  · exact ⟨_, _, rfl, Or.inr rfl⟩

theorem fixedText_not_blank
    {micros : Nat} {char : Char} (member : char ∈ fixedText micros) :
    ¬ IsBlank char := by
  rcases List.mem_append.mp member with whole | fraction
  · exact toDigits_not_blank (by decide) whole
  · rcases List.mem_cons.mp fraction with rfl | decimals
    · decide
    · rcases List.mem_map.mp decimals with ⟨place, _, rfl⟩
      exact digitChar_not_blank _

theorem magnitudeText_not_blank
    {exponentBits fractionBits bits : Nat} {char : Char}
    (member : char ∈ magnitudeText exponentBits fractionBits bits) :
    ¬ IsBlank char := by
  have infinite : ∀ char ∈ ['i', 'n', 'f'], ¬ IsBlank char := by
    simp [IsBlank]
  have undefined : ∀ char ∈ ['n', 'a', 'n'], ¬ IsBlank char := by
    simp [IsBlank]
  unfold magnitudeText at member
  dsimp only at member
  split at member
  · split at member
    · exact infinite char member
    · exact undefined char member
  · exact fixedText_not_blank member

theorem floatText_not_blank
    {exponentBits fractionBits bits : Nat} {char : Char}
    (member : char ∈ floatText exponentBits fractionBits bits) :
    ¬ IsBlank char := by
  unfold floatText at member
  split at member
  · rcases List.mem_cons.mp member with rfl | later
    · decide
    · exact magnitudeText_not_blank later
  · exact magnitudeText_not_blank member

theorem charText_not_blank
    {type : Int} (known : IsAccessKind type) {char : Char}
    (member : char ∈ charText type) : ¬ IsBlank char := by
  rcases known with rfl | rfl | rfl <;>
    · obtain rfl := List.mem_singleton.mp member
      decide

/-! ## Reading the conversions back -/

theorem unsignedText_injective : Function.Injective unsignedText := by
  intro left right same
  have read :=
    congrArg (fun text => Nat.ofDigitChars 10 text 0) same
  simpa only [unsignedText, Nat.ofDigitChars_ten_toDigits] using read

theorem minus_not_mem_unsignedText (value : Nat) :
    '-' ∉ unsignedText value := by
  intro member
  have digit : '-'.isDigit = true :=
    Nat.isDigit_of_mem_toDigits (by decide) (by decide) member
  exact absurd digit (by decide)

theorem intText_injective : Function.Injective intText := by
  intro left right same
  cases left with
  | ofNat left =>
      cases right with
      | ofNat right => rw [unsignedText_injective same]
      | negSucc right =>
          have sign : '-' ∈ unsignedText left := by
            have equal : unsignedText left = intText (.negSucc right) := same
            rw [equal]
            exact List.mem_cons_self
          exact absurd sign (minus_not_mem_unsignedText left)
  | negSucc left =>
      cases right with
      | ofNat right =>
          have sign : '-' ∈ unsignedText right := by
            have equal : unsignedText right = intText (.negSucc left) :=
              same.symm
            rw [equal]
            exact List.mem_cons_self
          exact absurd sign (minus_not_mem_unsignedText right)
      | negSucc right =>
          have successors : left + 1 = right + 1 :=
            unsignedText_injective (List.cons.inj same).2
          rw [Nat.succ.inj successors]

theorem charText_injOn
    {left right : Int}
    (leftKnown : IsAccessKind left) (rightKnown : IsAccessKind right)
    (same : charText left = charText right) : left = right := by
  revert same
  rcases leftKnown with rfl | rfl | rfl <;>
    rcases rightKnown with rfl | rfl | rfl <;>
      decide

/-- An access kind is a letter. -/
theorem unsignedText_ne_charText
    {value : Nat} {type : Int} (known : IsAccessKind type) :
    unsignedText value ≠ charText type := by
  intro same
  have member : Char.ofNat (type % 256).toNat ∈ unsignedText value := by
    rw [same]
    exact List.mem_singleton_self _
  have digit := Nat.isDigit_of_mem_toDigits (by decide) (by decide) member
  revert digit
  rcases known with rfl | rfl | rfl <;> decide

end Dinamite.Text
