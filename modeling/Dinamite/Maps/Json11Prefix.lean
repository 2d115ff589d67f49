import Dinamite.Maps.Json11RoundTrip

/-!
# No proper prefix of a dump parses to an object

The parser is local: a parse that stopped inside a text goes the same way when
the text is extended.  A parsed prefix would therefore leave the rest of the
dump unread, which the round trip excludes.
-/

namespace Dinamite.Maps.Json11

/-! ## Locality -/

theorem parseString_extend
    {last : Option Nat} {text value rest : List Char}
    (parses : parseString last text = some (value, rest))
    (suffix : List Char) :
    parseString last (text ++ suffix) = some (value, rest ++ suffix) := by
  fun_induction parseString last text generalizing value with
  | case1 => cases parses
  | case2 last after =>
      rcases Prod.mk.inj (Option.some.inj parses) with ⟨rfl, rfl⟩
      simp [parseString]
  | case3 => cases parses
  | case4 =>
      rename_i codepoint isHex joined inductionHypothesis
      rcases prepend_eq_some.mp parses with ⟨tail, parsed, rfl⟩
      simp only [List.cons_append]
      rw [parseString]
      simp only [isHex]
      rw [inductionHypothesis parsed, prepend_some]
  | case5 => cases parses
  | case6 last ch after notHex out isEscape inductionHypothesis =>
      rcases prepend_eq_some.mp parses with ⟨tail, parsed, rfl⟩
      simp only [List.cons_append]
      rw [parseString]
      · simp only [isEscape]
        rw [inductionHypothesis parsed, prepend_some]
      · intro a b c d extra same
        subst same
        cases isEscape
  | case7 => cases parses
  | case8 last ch after notQuote notHex notEscape printable
      inductionHypothesis =>
      rcases prepend_eq_some.mp parses with ⟨tail, parsed, rfl⟩
      cases after with
      | nil => cases parsed
      | cons next after =>
          have notBackslash : ch ≠ '\\' := fun same =>
            notEscape next after same rfl
          simp only [List.cons_append]
          rw [parseString]
          · simp only [printable, if_false]
            rw [← List.cons_append, inductionHypothesis parsed,
              prepend_some]
          · exact notQuote
          · intro a b c d extra same
            exact absurd same notBackslash
          · intro letter extra same
            exact absurd same notBackslash

theorem spanDigits_extend
    {text digits rest : List Char}
    (span : spanDigits text = (digits, rest)) (unread : rest ≠ [])
    (suffix : List Char) :
    spanDigits (text ++ suffix) = (digits, rest ++ suffix) := by
  rcases Prod.mk.inj span with ⟨rfl, rfl⟩
  induction text with
  | nil => exact absurd rfl unread
  | cons ch text inductionHypothesis =>
      by_cases digit : ch.isDigit
      · simp only [List.dropWhile_cons_of_pos digit] at unread
        have later := inductionHypothesis unread
        simp only [spanDigits, Prod.mk.injEq] at later
        simp [spanDigits, digit, later]
      · simp [spanDigits, digit]

theorem someDigits_extend
    {text digits rest : List Char}
    (parses : someDigits text = some (digits, rest))
    (unread : rest ≠ []) (suffix : List Char) :
    someDigits (text ++ suffix) = some (digits, rest ++ suffix) := by
  simp only [someDigits] at parses
  split at parses
  · cases parses
  · rename_i nonempty
    have span := Option.some.inj parses
    rw [span] at nonempty
    simp [someDigits, spanDigits_extend span unread suffix, nonempty]

theorem parseIntegerPart_cons_of_ne
    {ch : Char} (notZero : ch ≠ '0') (rest : List Char) :
    parseIntegerPart (ch :: rest) = someDigits (ch :: rest) := by
  simp [parseIntegerPart, notZero]

theorem parseFraction_cons_of_ne
    {ch : Char} (notPoint : ch ≠ '.') (rest : List Char) :
    parseFraction (ch :: rest) = some ([], ch :: rest) := by
  simp [parseFraction, notPoint]

theorem parseExponent_cons_of_ne
    {ch : Char} (notLower : ch ≠ 'e') (notUpper : ch ≠ 'E')
    (rest : List Char) :
    parseExponent (ch :: rest) = some (false, [], ch :: rest) := by
  simp [parseExponent, notLower, notUpper]

theorem parseIntegerPart_extend
    {text digits rest : List Char}
    (parses : parseIntegerPart text = some (digits, rest))
    (unread : rest ≠ []) (suffix : List Char) :
    parseIntegerPart (text ++ suffix) = some (digits, rest ++ suffix) := by
  cases text with
  | nil => cases parses
  | cons ch text =>
      by_cases zero : ch = '0'
      · subst zero
        cases text with
        | nil =>
            rcases Prod.mk.inj (Option.some.inj parses) with ⟨rfl, rfl⟩
            exact absurd rfl unread
        | cons next text =>
            simp only [parseIntegerPart] at parses
            split at parses
            · cases parses
            · rename_i notDigit
              rcases Prod.mk.inj (Option.some.inj parses) with ⟨rfl, rfl⟩
              simp [parseIntegerPart, notDigit]
      · rw [parseIntegerPart_cons_of_ne zero] at parses
        rw [List.cons_append, parseIntegerPart_cons_of_ne zero,
          ← List.cons_append]
        exact someDigits_extend parses unread suffix

theorem parseFraction_extend
    {text digits rest : List Char}
    (parses : parseFraction text = some (digits, rest))
    (unread : rest ≠ []) (suffix : List Char) :
    parseFraction (text ++ suffix) = some (digits, rest ++ suffix) := by
  cases text with
  | nil =>
      rcases Prod.mk.inj (Option.some.inj parses) with ⟨rfl, rfl⟩
      exact absurd rfl unread
  | cons ch text =>
      by_cases point : ch = '.'
      · subst point
        exact someDigits_extend parses unread suffix
      · rw [parseFraction_cons_of_ne point] at parses
        rcases Prod.mk.inj (Option.some.inj parses) with ⟨rfl, rfl⟩
        exact parseFraction_cons_of_ne point (text ++ suffix)

theorem exponentSign_extend
    {text : List Char} (unread : text ≠ []) (suffix : List Char) :
    exponentSign (text ++ suffix) =
      ((exponentSign text).1, (exponentSign text).2 ++ suffix) := by
  cases text with
  | nil => exact absurd rfl unread
  | cons ch text =>
      by_cases minus : ch = '-'
      · subst minus
        rfl
      · by_cases plus : ch = '+'
        · subst plus
          rfl
        · simp [exponentSign, minus, plus]

theorem parseExponentDigits_extend
    {text digits rest : List Char} {negative : Bool}
    (parses : parseExponentDigits text = some (negative, digits, rest))
    (unread : rest ≠ []) (suffix : List Char) :
    parseExponentDigits (text ++ suffix) =
      some (negative, digits, rest ++ suffix) := by
  have nonempty : text ≠ [] := by
    intro same
    subst same
    cases parses
  rcases Option.map_eq_some_iff.mp parses with ⟨⟨found, after⟩, some_, same⟩
  obtain ⟨rfl, rfl, rfl⟩ := by
    simpa only [Prod.mk.injEq] using same
  simp only [parseExponentDigits, exponentSign_extend nonempty suffix,
    someDigits_extend some_ unread suffix, Option.map_some]

theorem parseExponent_extend
    {text digits rest : List Char} {negative : Bool}
    (parses : parseExponent text = some (negative, digits, rest))
    (unread : rest ≠ []) (suffix : List Char) :
    parseExponent (text ++ suffix) =
      some (negative, digits, rest ++ suffix) := by
  cases text with
  | nil =>
      obtain ⟨rfl, rfl, rfl⟩ := by
        simpa only [parseExponent, Option.some.injEq, Prod.mk.injEq]
          using parses
      exact absurd rfl unread
  | cons ch text =>
      by_cases lower : ch = 'e'
      · subst lower
        exact parseExponentDigits_extend parses unread suffix
      · by_cases upper : ch = 'E'
        · subst upper
          exact parseExponentDigits_extend parses unread suffix
        · rw [parseExponent_cons_of_ne lower upper] at parses
          obtain ⟨rfl, rfl, rfl⟩ := by
            simpa only [Option.some.injEq, Prod.mk.injEq] using parses
          exact parseExponent_cons_of_ne lower upper (text ++ suffix)

theorem parseSign_extend
    {text : List Char} (unread : text ≠ []) (suffix : List Char) :
    parseSign (text ++ suffix) =
      ((parseSign text).1, (parseSign text).2 ++ suffix) := by
  cases text with
  | nil => exact absurd rfl unread
  | cons ch text =>
      by_cases minus : ch = '-'
      · subst minus
        rfl
      · simp [parseSign, minus]

theorem isReal_extend
    {text : List Char} (unread : text ≠ []) (suffix : List Char) :
    isReal (text ++ suffix) = isReal text := by
  cases text with
  | nil => exact absurd rfl unread
  | cons ch text => rfl

theorem parseNumber_extend
    {text rest : List Char} {value : Json}
    (parses : parseNumber text = some (value, rest))
    (unread : rest ≠ []) (suffix : List Char) :
    parseNumber (text ++ suffix) = some (value, rest ++ suffix) := by
  have nonempty : text ≠ [] := by
    intro same
    subst same
    cases parses
  simp only [parseNumber] at parses
  split at parses
  · cases parses
  · rename_i integer after parsesInteger
    have afterNonempty : after ≠ [] := by
      intro same
      subst same
      split at parses
      · exact unread (Prod.mk.inj (Option.some.inj parses)).2.symm
      · exact unread (Prod.mk.inj (Option.some.inj parses)).2.symm
    have integerExtends :=
      parseIntegerPart_extend parsesInteger afterNonempty suffix
    simp only [parseNumber, parseSign_extend nonempty suffix,
      integerExtends, isReal_extend afterNonempty suffix]
    split at parses
    · rename_i fast
      rcases Prod.mk.inj (Option.some.inj parses) with ⟨rfl, rfl⟩
      rw [if_pos fast]
    · rename_i slow
      rw [if_neg slow]
      split at parses
      · cases parses
      · rename_i fraction afterFraction parsesFraction
        have fractionNonempty : afterFraction ≠ [] := by
          intro same
          subst same
          exact unread (Prod.mk.inj (Option.some.inj parses)).2.symm
        simp only [parseFraction_extend parsesFraction fractionNonempty
          suffix]
        split at parses
        · cases parses
        · rename_i negative exponent afterExponent parsesExponent
          rcases Prod.mk.inj (Option.some.inj parses) with ⟨rfl, rfl⟩
          simp only [parseExponent_extend parsesExponent unread suffix]

theorem getNextToken_extend
    {text rest : List Char} {ch : Char}
    (token : getNextToken text = some (ch, rest)) (suffix : List Char) :
    getNextToken (text ++ suffix) = some (ch, rest ++ suffix) := by
  induction text with
  | nil => cases token
  | cons head text inductionHypothesis =>
      by_cases white : isWhitespace head
      · simp only [getNextToken, consumeWhitespace, List.cons_append,
          List.dropWhile_cons_of_pos white] at token ⊢
        exact inductionHypothesis token
      · simp only [Bool.not_eq_true] at white
        rw [getNextToken_of_token white] at token
        rcases Prod.mk.inj (Option.some.inj token) with ⟨rfl, rfl⟩
        exact getNextToken_of_token white (text ++ suffix)

theorem expect_extend
    {literal text rest : List Char} {value found : Json}
    (parses : expect literal value text = some (found, rest))
    (suffix : List Char) :
    expect literal value (text ++ suffix) =
      some (found, rest ++ suffix) := by
  simp only [expect] at parses
  split at parses
  · rename_i isPrefix
    rcases Prod.mk.inj (Option.some.inj parses) with ⟨rfl, rfl⟩
    rcases isPrefix with ⟨after, rfl⟩
    simp [expect, List.append_assoc]
  · cases parses

/-- A parse that does not end with a number at the end of the text goes the
same way with more fuel and a longer text. -/
structure Extends (fuel : Nat) : Prop where
  json :
    ∀ depth text value rest, parseJson fuel depth text = some (value, rest) →
      (rest ≠ [] ∨ ∃ members, value = .object members) →
        ∀ extra suffix, parseJson (fuel + extra) depth (text ++ suffix) =
          some (value, rest ++ suffix)
  members :
    ∀ depth ch text found rest,
      parseMembers fuel depth ch text = some (found, rest) →
        ∀ extra suffix,
          parseMembers (fuel + extra) depth ch (text ++ suffix) =
            some (found, rest ++ suffix)
  items :
    ∀ depth text found rest,
      parseItems fuel depth text = some (found, rest) →
        ∀ extra suffix,
          parseItems (fuel + extra) depth (text ++ suffix) =
            some (found, rest ++ suffix)

theorem parseNumber_ne_object
    {text rest : List Char} {members : List (List Char × Json)} :
    parseNumber text ≠ some (.object members, rest) := by
  intro parses
  simp only [parseNumber] at parses
  split at parses
  · cases parses
  · split at parses
    · cases parses
    · split at parses
      · cases parses
      · split at parses
        · cases parses
        · cases parses

theorem extends_json
    {fuel : Nat} (shorter : Extends fuel)
    {depth : Nat} {text rest : List Char} {value : Json}
    (parses : parseJson (fuel + 1) depth text = some (value, rest))
    (ends : rest ≠ [] ∨ ∃ members, value = .object members)
    (extra : Nat) (suffix : List Char) :
    parseJson (fuel + extra + 1) depth (text ++ suffix) =
      some (value, rest ++ suffix) := by
  simp only [parseJson] at parses ⊢
  split at parses
  · cases parses
  · rename_i shallow
    rw [if_neg shallow]
    split at parses
    · cases parses
    · rename_i ch after token
      simp only [getNextToken_extend token suffix]
      -- the branches of the source, in its order
      split at parses
      · rename_i number
        rw [if_pos number]
        rcases ends with unread | ⟨members, rfl⟩
        · exact parseNumber_extend parses unread suffix
        · exact absurd parses parseNumber_ne_object
      rename_i notNumber
      rw [if_neg notNumber]
      split at parses
      · rename_i isTrue
        rw [if_pos isTrue]
        exact expect_extend parses suffix
      rename_i notTrue
      rw [if_neg notTrue]
      split at parses
      · rename_i isFalse
        rw [if_pos isFalse]
        exact expect_extend parses suffix
      rename_i notFalse
      rw [if_neg notFalse]
      split at parses
      · rename_i isNull
        rw [if_pos isNull]
        exact expect_extend parses suffix
      rename_i notNull
      rw [if_neg notNull]
      split at parses
      · rename_i isString
        rw [if_pos isString]
        rcases Option.map_eq_some_iff.mp parses with
          ⟨⟨content, tail⟩, string, same⟩
        rcases Prod.mk.inj same with ⟨rfl, rfl⟩
        rw [parseString_extend string suffix, Option.map_some]
      rename_i notString
      rw [if_neg notString]
      split at parses
      · rename_i isObject
        rw [if_pos isObject]
        split at parses
        · cases parses
        · rename_i next tail nextToken
          simp only [getNextToken_extend nextToken suffix]
          split at parses
          · rename_i closes
            rcases Prod.mk.inj (Option.some.inj parses) with ⟨rfl, rfl⟩
            rw [if_pos closes]
          · rename_i notClosed
            rw [if_neg notClosed]
            rcases Option.map_eq_some_iff.mp parses with
              ⟨⟨members, left⟩, object, same⟩
            rcases Prod.mk.inj same with ⟨rfl, rfl⟩
            rw [shorter.members _ _ _ _ _ object extra suffix,
              Option.map_some]
      rename_i notObject
      rw [if_neg notObject]
      split at parses
      · rename_i isArray
        rw [if_pos isArray]
        split at parses
        · cases parses
        · rename_i next tail nextToken
          simp only [getNextToken_extend nextToken suffix]
          split at parses
          · rename_i closes
            rcases Prod.mk.inj (Option.some.inj parses) with ⟨rfl, rfl⟩
            rw [if_pos closes]
          · rename_i notClosed
            rw [if_neg notClosed]
            rcases Option.map_eq_some_iff.mp parses with
              ⟨⟨items, left⟩, array, same⟩
            rcases Prod.mk.inj same with ⟨rfl, rfl⟩
            have extended := shorter.items _ _ _ _ array extra suffix
            rw [List.cons_append] at extended
            rw [extended, Option.map_some]
      · cases parses

theorem extends_members
    {fuel : Nat} (shorter : Extends fuel)
    {depth : Nat} {ch : Char} {text rest : List Char}
    {found : List (List Char × Json)}
    (parses :
      parseMembers (fuel + 1) depth ch text = some (found, rest))
    (extra : Nat) (suffix : List Char) :
    parseMembers (fuel + extra + 1) depth ch (text ++ suffix) =
      some (found, rest ++ suffix) := by
  simp only [parseMembers] at parses ⊢
  split at parses
  · cases parses
  rename_i isQuote
  rw [if_neg isQuote]
  split at parses
  · cases parses
  rename_i key afterKey parsesKey
  simp only [parseString_extend parsesKey suffix]
  split at parses
  · cases parses
  rename_i colon afterColon colonToken
  simp only [getNextToken_extend colonToken suffix]
  split at parses
  · cases parses
  rename_i isColon
  rw [if_neg isColon]
  split at parses
  · cases parses
  rename_i value afterValue parsesValue
  have unread : afterValue ≠ [] := by
    intro same
    subst same
    cases parses
  simp only [shorter.json _ _ _ _ parsesValue (Or.inl unread) extra suffix]
  split at parses
  · cases parses
  rename_i next afterNext nextToken
  simp only [getNextToken_extend nextToken suffix]
  split at parses
  · rename_i closes
    rcases Prod.mk.inj (Option.some.inj parses) with ⟨rfl, rfl⟩
    rw [if_pos closes]
  rename_i notClosed
  rw [if_neg notClosed]
  split at parses
  · cases parses
  rename_i isComma
  rw [if_neg isComma]
  split at parses
  · cases parses
  rename_i head afterHead headToken
  simp only [getNextToken_extend headToken suffix]
  rcases Option.map_eq_some_iff.mp parses with ⟨⟨members, left⟩, object, same⟩
  rcases Prod.mk.inj same with ⟨rfl, rfl⟩
  rw [shorter.members _ _ _ _ _ object extra suffix, Option.map_some]

theorem extends_items
    {fuel : Nat} (shorter : Extends fuel)
    {depth : Nat} {text rest : List Char} {found : List Json}
    (parses : parseItems (fuel + 1) depth text = some (found, rest))
    (extra : Nat) (suffix : List Char) :
    parseItems (fuel + extra + 1) depth (text ++ suffix) =
      some (found, rest ++ suffix) := by
  simp only [parseItems] at parses ⊢
  split at parses
  · cases parses
  rename_i value afterValue parsesValue
  have unread : afterValue ≠ [] := by
    intro same
    subst same
    cases parses
  simp only [shorter.json _ _ _ _ parsesValue (Or.inl unread) extra suffix]
  split at parses
  · cases parses
  rename_i next afterNext nextToken
  simp only [getNextToken_extend nextToken suffix]
  split at parses
  · rename_i closes
    rcases Prod.mk.inj (Option.some.inj parses) with ⟨rfl, rfl⟩
    rw [if_pos closes]
  rename_i notClosed
  rw [if_neg notClosed]
  split at parses
  · cases parses
  rename_i isComma
  rw [if_neg isComma]
  split at parses
  · cases parses
  rename_i head afterHead headToken
  simp only [getNextToken_extend headToken suffix]
  rcases Option.map_eq_some_iff.mp parses with ⟨⟨items, left⟩, array, same⟩
  rcases Prod.mk.inj same with ⟨rfl, rfl⟩
  have extended := shorter.items _ _ _ _ array extra suffix
  rw [List.cons_append] at extended
  rw [extended, Option.map_some]

theorem parse_extends (fuel : Nat) : Extends fuel := by
  induction fuel with
  | zero =>
      refine ⟨?_, ?_, ?_⟩
      · intro depth text value rest parses
        cases parses
      · intro depth ch text found rest parses
        cases parses
      · intro depth text found rest parses
        cases parses
  | succ fuel shorter =>
      refine ⟨?_, ?_, ?_⟩
      · intro depth text value rest parses ends extra suffix
        rw [Nat.add_right_comm]
        exact extends_json shorter parses ends extra suffix
      · intro depth ch text found rest parses extra suffix
        rw [Nat.add_right_comm]
        exact extends_members shorter parses extra suffix
      · intro depth text found rest parses extra suffix
        rw [Nat.add_right_comm]
        exact extends_items shorter parses extra suffix

/-! ## The format of the maps -/

theorem failedValue_ne_object
    (text : List Char) (members : List (List Char × Json)) :
    failedValue text ≠ .object members := by
  unfold failedValue
  split
  · split
    · exact Json.noConfusion
    · exact Json.noConfusion
  · exact Json.noConfusion

/-- A proper prefix of a dump is not an object. -/
theorem objectItems_of_prefix
    (map : IntMap) (text : List Char)
    (isPrefix : text <+: dump map) (proper : text ≠ dump map) :
    objectItems text = ∅ := by
  rcases isPrefix with ⟨suffix, whole⟩
  unfold objectItems
  split
  · rename_i members isObject
    unfold parse at isObject
    split at isObject
    · exact absurd isObject (failedValue_ne_object text members)
    · rename_i value rest parses
      split at isObject
      · subst isObject
        -- the same parse reads the whole dump and leaves `suffix` unread
        have extended :=
          (parse_extends _).json _ _ _ _ parses (Or.inr ⟨members, rfl⟩)
            suffix.length suffix
        rcases parseJson_dump map (dump map).length (le_refl _) with
          ⟨others, complete, _⟩
        have fuelEq :
            text.length + 1 + suffix.length = (dump map).length + 1 := by
          rw [← whole, List.length_append]
          omega
        rw [fuelEq, whole, complete] at extended
        have unread : ([] : List Char) = rest ++ suffix :=
          (Prod.mk.inj (Option.some.inj extended)).2
        have nothingLeft : suffix = [] :=
          (List.append_eq_nil_iff.mp unread.symm).2
        rw [nothingLeft, List.append_nil] at whole
        exact absurd whole proper
      · cases isObject
  · rfl

/-- The format `readMapFromJson` and `writeMapToJson` use. -/
def json11 : JsonFormat where
  dump := dump
  objectItems := objectItems
  objectItems_dump := objectItems_dump
  objectItems_prefix := objectItems_of_prefix

end Dinamite.Maps.Json11
