import Mathlib

/-!
# Words and numbers at the front of a text

Words and decimal integers as the C and C++ libraries read them: blanks, then
a word, or a sign and digits, and whatever comes behind.
-/

namespace Dinamite.Numerals

def isSpace (char : Char) : Bool :=
  char = ' ' || char = '\t' || char = '\n' || char = '\x0b' ||
    char = '\x0c' || char = '\r'

/-- Whether a minus sign stands in front, and the text behind the sign. -/
def readSign : List Char → Bool × List Char
  | '-' :: rest => (true, rest)
  | '+' :: rest => (false, rest)
  | text => (false, text)

/-- The integer at the front and the text behind it; nothing without a
digit. -/
def readInteger (text : List Char) : Option (Int × List Char) :=
  let signed := readSign (text.dropWhile isSpace)
  let digits := signed.2.takeWhile Char.isDigit
  let magnitude : Int := Nat.ofDigitChars 10 digits 0
  if digits.isEmpty then
    none
  else
    some
      (if signed.1 then -magnitude else magnitude,
        signed.2.dropWhile Char.isDigit)

theorem isSpace_of_isDigit
    {char : Char} (digit : char.isDigit = true) : isSpace char = false := by
  by_contra space
  rw [Bool.not_eq_false] at space
  simp only [isSpace, Bool.or_eq_true, decide_eq_true_iff] at space
  rcases space with ((((rfl | rfl) | rfl) | rfl) | rfl) | rfl
  all_goals exact absurd digit (by decide)

theorem readSign_of_isDigit
    {char : Char} {rest : List Char} (digit : char.isDigit = true) :
    readSign (char :: rest) = (false, char :: rest) := by
  unfold readSign
  split
  · rename_i same
    rw [(List.cons.inj same).1] at digit
    exact absurd digit (by decide)
  · rename_i same
    rw [(List.cons.inj same).1] at digit
    exact absurd digit (by decide)
  · rfl

/-- A number as it is written. -/
def intDigits (number : Int) : List Char :=
  if number < 0 then
    '-' :: Nat.toDigits 10 number.natAbs
  else
    Nat.toDigits 10 number.natAbs

theorem isDigit_of_mem_toDigits
    {number : Nat} {char : Char} (member : char ∈ Nat.toDigits 10 number) :
    char.isDigit = true :=
  Nat.isDigit_of_mem_toDigits (by decide) (by decide) member

theorem readSign_intDigits (number : Int) (rest : List Char) :
    readSign (intDigits number ++ rest) =
      (decide (number < 0), Nat.toDigits 10 number.natAbs ++ rest) := by
  unfold intDigits
  by_cases negative : number < 0
  · rw [if_pos negative, decide_eq_true negative]
    rfl
  · rw [if_neg negative, decide_eq_false negative]
    cases digits : Nat.toDigits 10 number.natAbs with
    | nil => exact absurd digits Nat.toDigits_ne_nil
    | cons head tail =>
        apply readSign_of_isDigit
        apply isDigit_of_mem_toDigits
        rw [digits]
        exact List.mem_cons_self

theorem dropWhile_isSpace_intDigits (number : Int) (rest : List Char) :
    (intDigits number ++ rest).dropWhile isSpace =
      intDigits number ++ rest := by
  unfold intDigits
  by_cases negative : number < 0
  · rw [if_pos negative]
    rfl
  · rw [if_neg negative]
    cases digits : Nat.toDigits 10 number.natAbs with
    | nil => exact absurd digits Nat.toDigits_ne_nil
    | cons head tail =>
        have headDigit : head.isDigit = true := by
          apply isDigit_of_mem_toDigits
          rw [digits]
          exact List.mem_cons_self
        rw [List.cons_append, List.dropWhile_cons_of_neg]
        rw [isSpace_of_isDigit headDigit]
        exact Bool.false_ne_true

/-- A number is read back, up to where its digits end. -/
theorem readInteger_intDigits
    {blanks rest : List Char} (number : Int)
    (allBlank : ∀ char ∈ blanks, isSpace char = true)
    (ends : ∀ char ∈ rest.head?, char.isDigit = false) :
    readInteger (blanks ++ (intDigits number ++ rest)) =
      some (number, rest) := by
  have noDigit : rest.takeWhile Char.isDigit = [] := by
    cases rest with
    | nil => rfl
    | cons head rest =>
        rw [List.takeWhile_cons_of_neg]
        rw [ends head rfl]
        exact Bool.false_ne_true
  have allLeft : rest.dropWhile Char.isDigit = rest := by
    have parts :=
      List.takeWhile_append_dropWhile (p := Char.isDigit) (l := rest)
    rwa [noDigit, List.nil_append] at parts
  have started :
      (blanks ++ (intDigits number ++ rest)).dropWhile isSpace =
        intDigits number ++ rest := by
    rw [List.dropWhile_append_of_pos allBlank,
      dropWhile_isSpace_intDigits]
  have digits :
      ∀ char ∈ Nat.toDigits 10 number.natAbs, char.isDigit = true :=
    fun _ => isDigit_of_mem_toDigits
  simp only [readInteger, started, readSign_intDigits,
    List.takeWhile_append_of_pos digits,
    List.dropWhile_append_of_pos digits, noDigit, allLeft,
    List.append_nil, Nat.ofDigitChars_ten_toDigits]
  have some : (Nat.toDigits 10 number.natAbs).isEmpty = false := by
    rw [List.isEmpty_eq_false_iff]
    exact Nat.toDigits_ne_nil
  have value :
      (if decide (number < 0) = true then -(number.natAbs : Int)
        else number.natAbs) = number := by
    simp only [decide_eq_true_eq]
    split
    · omega
    · omega
  rw [some, value]
  rfl

/-- The digits of a number are read as the number. -/
theorem readInteger_toDigits (number : Nat) :
    readInteger (Nat.toDigits 10 number) = some ((number : Int), []) := by
  have read :=
    @readInteger_intDigits [] [] (number : Int) nofun nofun
  have plain : intDigits (number : Int) = Nat.toDigits 10 number := by
    rw [intDigits, if_neg (by omega), Int.natAbs_natCast]
  rwa [List.nil_append, List.append_nil, plain] at read

/-! ## Streams -/

/-- `stream >> text`, and what is left of the stream. -/
def readWord (text : List Char) : Option (List Char × List Char) :=
  let started := text.dropWhile isSpace
  let word := started.takeWhile fun char => !isSpace char
  if word.isEmpty then
    none
  else
    some (word, started.dropWhile fun char => !isSpace char)

/-- `stream >> number`: nothing if the number is no `int`. -/
def readInt (text : List Char) : Option (Int × List Char) :=
  (readInteger text).bind fun read =>
    if -2 ^ 31 ≤ read.1 ∧ read.1 < 2 ^ 31 then some read else none

/-- A word is read back, up to the next blank. -/
theorem readWord_append
    {blanks word rest : List Char}
    (allBlank : ∀ char ∈ blanks, isSpace char = true)
    (someWord : word ≠ [])
    (noBlank : ∀ char ∈ word, isSpace char = false)
    (ends : ∀ char ∈ rest.head?, isSpace char = true) :
    readWord (blanks ++ (word ++ rest)) = some (word, rest) := by
  have inWord : ∀ char ∈ word, (!isSpace char) = true := by
    intro char member
    rw [noBlank char member]
    rfl
  have noMore : rest.takeWhile (fun char => !isSpace char) = [] := by
    cases rest with
    | nil => rfl
    | cons head rest =>
        rw [List.takeWhile_cons_of_neg]
        rw [ends head rfl]
        exact Bool.false_ne_true
  have allLeft : rest.dropWhile (fun char => !isSpace char) = rest := by
    have parts :=
      List.takeWhile_append_dropWhile (p := fun char => !isSpace char)
        (l := rest)
    rwa [noMore, List.nil_append] at parts
  have started :
      (blanks ++ (word ++ rest)).dropWhile isSpace = word ++ rest := by
    rw [List.dropWhile_append_of_pos allBlank]
    cases word with
    | nil => exact absurd rfl someWord
    | cons head word =>
        rw [List.cons_append, List.dropWhile_cons_of_neg]
        rw [noBlank head List.mem_cons_self]
        exact Bool.false_ne_true
  simp only [readWord, started, List.takeWhile_append_of_pos inWord,
    List.dropWhile_append_of_pos inWord, noMore, allLeft, List.append_nil]
  rw [if_neg]
  rw [List.isEmpty_iff]
  exact someWord

theorem readInt_intDigits
    {blanks rest : List Char} {number : Int}
    (allBlank : ∀ char ∈ blanks, isSpace char = true)
    (fits : -2 ^ 31 ≤ number ∧ number < 2 ^ 31)
    (ends : ∀ char ∈ rest.head?, char.isDigit = false) :
    readInt (blanks ++ (intDigits number ++ rest)) =
      some (number, rest) := by
  rw [readInt, readInteger_intDigits number allBlank ends]
  exact if_pos fits

end Dinamite.Numerals
