import Dinamite.Maps.Json11

/-!
# A dumped map parses back to itself

The round trip is shown part by part: strings with their escapes, numbers on
both ways through `parseNumber`, the members of an object, and the map that is
rebuilt from them.
-/

namespace Dinamite.Maps.Json11

/-! ## Round trip of strings -/

/-- A code point that cannot begin a surrogate pair. -/
def NotLead : Option Nat → Prop
  | none => True
  | some codepoint => codepoint < 0xD800

theorem joinSurrogates_notLead
    {last : Option Nat} (notLead : NotLead last) (codepoint : Nat) :
    joinSurrogates last codepoint =
      (encodePending last, some codepoint) := by
  cases last with
  | none => rfl
  | some lead =>
      simp only [NotLead] at notLead
      have low : ¬ 0xD800 ≤ lead := by omega
      simp [joinSurrogates, low]

theorem hexCodepoint_control
    {code : Nat} (control : code ≤ 0x1f) :
    hexCodepoint '0' '0' (Nat.digitChar (code / 16))
      (Nat.digitChar (code % 16)) = some code := by
  have bounded : ∀ code : Fin 32,
      hexCodepoint '0' '0' (Nat.digitChar (code.val / 16))
        (Nat.digitChar (code.val % 16)) = some code.val := by
    decide
  exact bounded ⟨code, by omega⟩

theorem encodePending_toNat (ch : Char) :
    encodePending (some ch.toNat) = [ch] := by
  simp [encodePending, Char.ofNat_toNat]

@[simp]
theorem prepend_some (front value rest : List Char) :
    prepend front (some (value, rest)) = some (front ++ value, rest) :=
  rfl

theorem prepend_eq_some
    {front value rest : List Char}
    {parsed : Option (List Char × List Char)} :
    prepend front parsed = some (value, rest) ↔
      ∃ tail, parsed = some (tail, rest) ∧ value = front ++ tail := by
  cases parsed with
  | none => simp [prepend]
  | some found =>
      rcases found with ⟨tail, after⟩
      simp only [prepend, Option.map_some, Option.some.injEq,
        Prod.mk.injEq]
      constructor
      · intro read
        rcases read with ⟨rfl, rfl⟩
        exact ⟨tail, ⟨rfl, rfl⟩, rfl⟩
      · intro read
        rcases read with ⟨_, ⟨rfl, rfl⟩, rfl⟩
        exact ⟨rfl, rfl⟩

/-- The ways a character is dumped. -/
inductive Dumped (ch : Char) : List Char → Prop
  | simple {letter : Char} (notHex : letter ≠ 'u')
      (isEscape : simpleEscape letter = some ch) :
      Dumped ch ['\\', letter]
  | hex {a b c d : Char} (isHex : hexCodepoint a b c d = some ch.toNat)
      (low : NotLead (some ch.toNat)) :
      Dumped ch ['\\', 'u', a, b, c, d]
  | plain (notBackslash : ch ≠ '\\') (notQuote : ch ≠ '"')
      (notControl : ¬ ch.toNat ≤ 0x1f) :
      Dumped ch [ch]

theorem dumped_dumpChar (ch : Char) : Dumped ch (dumpChar ch) := by
  unfold dumpChar
  split
  · rename_i same
    subst same
    exact .simple (by decide) (by decide)
  rename_i notBackslash
  split
  · rename_i same
    subst same
    exact .simple (by decide) (by decide)
  rename_i notQuote
  split
  · rename_i same
    subst same
    exact .simple (by decide) (by decide)
  split
  · rename_i same
    subst same
    exact .simple (by decide) (by decide)
  split
  · rename_i same
    subst same
    exact .simple (by decide) (by decide)
  split
  · rename_i same
    subst same
    exact .simple (by decide) (by decide)
  split
  · rename_i same
    subst same
    exact .simple (by decide) (by decide)
  split
  · rename_i control
    exact .hex (hexCodepoint_control control)
      (by simp only [NotLead]; omega)
  rename_i notControl
  split
  · rename_i separator
    exact .hex (by rw [separator]; decide) (by simp only [NotLead]; omega)
  split
  · rename_i separator
    exact .hex (by rw [separator]; decide) (by simp only [NotLead]; omega)
  · exact .plain notBackslash notQuote notControl

/-- One dumped character parses back to it, whatever follows. -/
theorem parseString_dumpChar
    {last : Option Nat} (notLead : NotLead last)
    (ch : Char) (value text rest : List Char)
    (tail :
      ∀ pending, NotLead pending →
        parseString pending text =
          some (encodePending pending ++ value, rest)) :
    parseString last (dumpChar ch ++ text) =
      some (encodePending last ++ ch :: value, rest) := by
  -- a simple escape or an unescaped character leaves nothing pending
  have plain := tail none trivial
  simp only [encodePending, List.nil_append] at plain
  have dumped := dumped_dumpChar ch
  generalize dumpChar ch = escaped at dumped ⊢
  cases dumped with
  | @simple letter notHex isEscape =>
      rw [List.cons_append, List.singleton_append, parseString]
      · simp [isEscape, plain, prepend]
      · intro a b c d after
        simp [notHex]
  | hex isHex low =>
      simp only [List.cons_append, List.nil_append]
      rw [parseString]
      simp [isHex, joinSurrogates_notLead notLead, tail _ low,
        encodePending_toNat, prepend]
  | plain notBackslash notQuote notControl =>
      rw [List.singleton_append, parseString]
      · simp [notControl, plain, prepend]
      · exact notQuote
      · intro a b c d after isBackslash
        exact absurd isBackslash notBackslash
      · intro letter after isBackslash
        exact absurd isBackslash notBackslash

theorem parseString_dumpTail
    (value rest : List Char)
    {last : Option Nat} (notLead : NotLead last) :
    parseString last (dumpTail value ++ rest) =
      some (encodePending last ++ value, rest) := by
  induction value generalizing last with
  | nil =>
      simp [dumpTail, parseString]
  | cons ch value inductionHypothesis =>
      simp only [dumpTail, List.flatMap_cons, List.append_assoc]
      apply parseString_dumpChar notLead
      intro pending low
      have tail := inductionHypothesis low
      simpa [dumpTail] using tail

theorem parseString_dumped (value rest : List Char) :
    parseString none (dumpTail value ++ rest) = some (value, rest) :=
  parseString_dumpTail value rest (show NotLead none from trivial)

/-! ## Round trip of numbers -/

/-- A number in a dumped object is followed by a comma or a brace. -/
inductive Delimited : List Char → Prop where
  | comma (rest : List Char) : Delimited (',' :: rest)
  | brace (rest : List Char) : Delimited ('}' :: rest)

theorem spanDigits_append
    {digits rest : List Char}
    (allDigits : ∀ ch ∈ digits, ch.isDigit = true)
    (delimited : Delimited rest) :
    spanDigits (digits ++ rest) = (digits, rest) := by
  cases delimited with
  | comma rest =>
      simp [spanDigits, List.takeWhile_append_of_pos allDigits,
        List.dropWhile_append_of_pos allDigits]
  | brace rest =>
      simp [spanDigits, List.takeWhile_append_of_pos allDigits,
        List.dropWhile_append_of_pos allDigits]

private theorem isDigit_toDigits
    (number : Nat) {ch : Char} (member : ch ∈ Nat.toDigits 10 number) :
    ch.isDigit = true :=
  Nat.isDigit_of_mem_toDigits (by decide) (by decide) member

private theorem digitChar_ne_zero :
    ∀ digit : Fin 10, digit ≠ 0 → Nat.digitChar digit ≠ '0' := by
  decide

/-- The decimal digits of a positive number do not begin with a zero. -/
theorem head_toDigits_ne_zero
    (number : Nat) (positive : 0 < number) (rest : List Char) :
    Nat.toDigits 10 number ≠ '0' :: rest := by
  induction number using Nat.strongRecOn generalizing rest with
  | _ number inductionHypothesis =>
      by_cases small : number < 10
      · rw [Nat.toDigits_of_lt_base small]
        intro same
        have headsEqual : Nat.digitChar number = '0' := by
          simpa using (List.cons.inj same).1
        exact digitChar_ne_zero ⟨number, small⟩
          (by simp only [ne_eq, Fin.ext_iff]; simp; omega) headsEqual
      · rw [Nat.toDigits_of_base_le (by decide) (by omega)]
        have shorter :=
          inductionHypothesis (number / 10) (by omega) (by omega)
        cases digits : Nat.toDigits 10 (number / 10) with
        | nil => exact absurd digits Nat.toDigits_ne_nil
        | cons head tail =>
            intro same
            rw [List.cons_append] at same
            rcases List.cons.inj same with ⟨rfl, _⟩
            exact shorter tail digits

theorem parseIntegerPart_toDigits
    (number : Nat) {rest : List Char} (delimited : Delimited rest) :
    parseIntegerPart (Nat.toDigits 10 number ++ rest) =
      some (Nat.toDigits 10 number, rest) := by
  by_cases positive : 0 < number
  · have span :=
      spanDigits_append (fun _ => isDigit_toDigits number)
        delimited
    unfold parseIntegerPart
    split
    · rename_i rest' same
      cases digits : Nat.toDigits 10 number with
      | nil => exact absurd digits Nat.toDigits_ne_nil
      | cons head tail =>
          rw [digits, List.cons_append] at same
          rcases List.cons.inj same with ⟨rfl, _⟩
          exact absurd digits (head_toDigits_ne_zero number positive tail)
    · simp [someDigits, span, Nat.toDigits_ne_nil]
  · obtain rfl : number = 0 := by omega
    rw [Nat.toDigits_zero]
    cases delimited with
    | comma rest => rfl
    | brace rest => rfl

theorem not_isReal_of_delimited
    {rest : List Char} (delimited : Delimited rest) :
    isReal rest = false := by
  cases delimited <;> rfl

theorem parseFraction_of_delimited
    {rest : List Char} (delimited : Delimited rest) :
    parseFraction rest = some ([], rest) := by
  cases delimited <;> rfl

theorem parseExponent_of_delimited
    {rest : List Char} (delimited : Delimited rest) :
    parseExponent rest = some (false, [], rest) := by
  cases delimited <;> rfl

/-- Without fraction and exponent the value is the integer itself, on the fast
path for ints and on the way through `strtod`. -/
theorem decimalValue_integer (negative : Bool) (number : Nat) :
    (decimalValue negative (Nat.toDigits 10 number) [] false []) =
      ((if negative then -(number : Int) else number : Int) : Rat) := by
  cases negative <;>
    simp [decimalValue, Nat.ofDigitChars_ten_toDigits]

theorem parseSign_toDigits
    (negative : Bool) (number : Nat) (rest : List Char) :
    parseSign ((if negative then ['-'] else []) ++
        (Nat.toDigits 10 number ++ rest)) =
      (negative, Nat.toDigits 10 number ++ rest) := by
  cases negative with
  | true => rfl
  | false =>
      simp only [Bool.false_eq_true, if_false, List.nil_append]
      unfold parseSign
      split
      · rename_i after same
        cases digits : Nat.toDigits 10 number with
        | nil => exact absurd digits Nat.toDigits_ne_nil
        | cons head tail =>
            rw [digits, List.cons_append] at same
            rcases List.cons.inj same with ⟨rfl, _⟩
            have impossible : Char.isDigit '-' = true :=
              isDigit_toDigits number
                (by rw [digits]; exact List.mem_cons_self)
            exact absurd impossible (by decide)
      · rfl

theorem parseNumber_of_sign
    (negative : Bool) (number : Nat) {rest : List Char}
    (delimited : Delimited rest) :
    ∃ value,
      parseNumber ((if negative then ['-'] else []) ++
          (Nat.toDigits 10 number ++ rest)) = some (value, rest) ∧
        value.idValue =
          if negative then -(number : Int) else number := by
  simp only [parseNumber, parseSign_toDigits,
    parseIntegerPart_toDigits number delimited,
    not_isReal_of_delimited delimited,
    parseFraction_of_delimited delimited,
    parseExponent_of_delimited delimited,
    Nat.ofDigitChars_ten_toDigits]
  split
  · exact ⟨_, rfl, rfl⟩
  · refine ⟨_, rfl, ?_⟩
    rw [Json.idValue, cutOff, decimalValue_integer, Rat.num_intCast,
      Rat.den_intCast, Nat.cast_one, Int.tdiv_one]

theorem parseNumber_dumpInt
    (value : Int) {rest : List Char} (delimited : Delimited rest) :
    ∃ parsed,
      parseNumber (dumpInt value ++ rest) = some (parsed, rest) ∧
        parsed.idValue = value := by
  cases value with
  | ofNat number =>
      rcases parseNumber_of_sign false number delimited with
        ⟨parsed, same, result⟩
      refine ⟨parsed, ?_, result⟩
      simpa [dumpInt, Int.repr, Nat.repr] using same
  | negSucc number =>
      rcases parseNumber_of_sign true (number + 1) delimited with
        ⟨parsed, same, result⟩
      refine ⟨parsed, ?_, ?_⟩
      · simpa [dumpInt, Int.repr, Nat.repr] using same
      · rw [result]
        rfl

/-! ## Round trip of objects -/

theorem getNextToken_of_token
    {ch : Char} (token : isWhitespace ch = false) (rest : List Char) :
    getNextToken (ch :: rest) = some (ch, rest) := by
  simp [getNextToken, consumeWhitespace, List.dropWhile, token]

theorem getNextToken_of_space
    {ch : Char} (token : isWhitespace ch = false) (rest : List Char) :
    getNextToken (' ' :: ch :: rest) = some (ch, rest) := by
  have space : isWhitespace ' ' = true := by decide
  simp [getNextToken, consumeWhitespace, List.dropWhile, token, space]

private theorem not_isWhitespace_of_isDigit
    {ch : Char} (digit : ch.isDigit = true) :
    isWhitespace ch = false := by
  by_contra white
  simp only [isWhitespace, Bool.not_eq_false, Bool.or_eq_true,
    decide_eq_true_eq] at white
  rcases white with ((rfl | rfl) | rfl) | rfl <;>
    exact absurd digit (by decide)

/-- A dumped int begins with its sign or a digit. -/
theorem dumpInt_head (value : Int) :
    ∃ ch rest, dumpInt value = ch :: rest ∧
      isWhitespace ch = false ∧ (ch = '-' ∨ ch.isDigit = true) := by
  cases value with
  | ofNat number =>
      have text : dumpInt (.ofNat number) = Nat.toDigits 10 number := by
        simp [dumpInt, Int.repr, Nat.repr]
      cases digits : Nat.toDigits 10 number with
      | nil => exact absurd digits Nat.toDigits_ne_nil
      | cons head tail =>
          have digit : head.isDigit = true :=
            isDigit_toDigits number
              (by rw [digits]; exact List.mem_cons_self)
          exact ⟨head, tail, text.trans digits,
            not_isWhitespace_of_isDigit digit, Or.inr digit⟩
  | negSucc number =>
      have text : dumpInt (.negSucc number) =
          '-' :: Nat.toDigits 10 (number + 1) := by
        simp [dumpInt, Int.repr, Nat.repr]
      exact ⟨'-', _, text, by decide, Or.inl rfl⟩

/-- A member's value is read after the space behind its colon. -/
theorem parseJson_dumpInt
    (fuel depth : Nat) (shallow : depth ≤ maxDepth)
    (value : Int) {rest : List Char} (delimited : Delimited rest) :
    ∃ parsed,
      parseJson (fuel + 1) depth (' ' :: (dumpInt value ++ rest)) =
          some (parsed, rest) ∧
        parsed.idValue = value := by
  rcases parseNumber_dumpInt value delimited with ⟨parsed, parses, result⟩
  rcases dumpInt_head value with ⟨ch, tail, text, token, isNumber⟩
  refine ⟨parsed, ?_, result⟩
  have notDeep : ¬ depth > maxDepth := by omega
  rw [text, List.cons_append] at parses ⊢
  simp only [parseJson, notDeep, if_false,
    getNextToken_of_space token, isNumber, if_true, parses]

/-- The parsed member carries the entry. -/
structure MemberOf
    (entry : String × Int) (member : List Char × Json) : Prop where
  key_eq : member.1 = entry.1.toList
  value_eq : member.2.idValue = entry.2

theorem delimited_dumpMembers (entries : List (String × Int)) :
    Delimited (dumpMembers false entries) := by
  cases entries with
  | nil => exact .brace []
  | cons entry rest => exact .comma _

/-- The members of a dump, from behind the first quote. -/
theorem parseMembers_dumpMembers
    (fuel depth : Nat) (shallow : depth < maxDepth)
    (key : String) (value : Int) (entries : List (String × Int))
    (enough : entries.length + 2 ≤ fuel) :
    ∃ members,
      parseMembers fuel depth '"'
          (dumpTail key.toList ++
            ':' :: ' ' :: (dumpInt value ++ dumpMembers false entries)) =
          some (members, []) ∧
        List.Forall₂ MemberOf ((key, value) :: entries) members := by
  induction entries generalizing fuel key value with
  | nil =>
      obtain ⟨fuel, rfl⟩ : ∃ less, fuel = less + 2 :=
        ⟨fuel - 2, by simp only [List.length_nil] at enough; omega⟩
      rcases parseJson_dumpInt fuel (depth + 1) shallow value
          (delimited_dumpMembers []) with
        ⟨parsed, parses, result⟩
      refine ⟨[(key.toList, parsed)], ?_,
        .cons ⟨rfl, result⟩ .nil⟩
      have colon : isWhitespace ':' = false := by decide
      have brace : isWhitespace '}' = false := by decide
      rw [parseMembers]
      simp only [ne_eq, not_true_eq_false, if_false,
        parseString_dumped, getNextToken_of_token colon, parses]
      simp only [dumpMembers, getNextToken_of_token brace, if_true]
  | cons entry entries inductionHypothesis =>
      rcases entry with ⟨nextKey, nextValue⟩
      obtain ⟨fuel, rfl⟩ : ∃ less, fuel = less + 2 :=
        ⟨fuel - 2, by omega⟩
      rcases parseJson_dumpInt fuel (depth + 1) shallow value
          (delimited_dumpMembers ((nextKey, nextValue) :: entries)) with
        ⟨parsed, parses, result⟩
      obtain ⟨members, parsesRest, carried⟩ :=
        inductionHypothesis (fuel + 1) nextKey nextValue
          (by simp only [List.length_cons] at enough; omega)
      refine ⟨(key.toList, parsed) :: members, ?_,
        .cons ⟨rfl, result⟩ carried⟩
      have colon : isWhitespace ':' = false := by decide
      have comma : isWhitespace ',' = false := by decide
      have quote : isWhitespace '"' = false := by decide
      have notBrace : ¬ (',' : Char) = '}' := by decide
      rw [parseMembers]
      simp only [ne_eq, not_true_eq_false, if_false,
        parseString_dumped, getNextToken_of_token colon, parses]
      simp only [dumpMembers, Bool.false_eq_true, if_false,
        List.cons_append, List.nil_append, List.append_assoc,
        getNextToken_of_token comma, notBrace, not_true_eq_false,
        getNextToken_of_space quote, parsesRest, Option.map_some]

theorem dumpMembers_length (entries : List (String × Int)) :
    ∀ first, entries.length < (dumpMembers first entries).length := by
  induction entries with
  | nil =>
      intro first
      cases first <;> decide
  | cons entry entries inductionHypothesis =>
      rcases entry with ⟨key, value⟩
      intro first
      have shorter := inductionHypothesis false
      simp only [dumpMembers, List.length_cons, List.length_append]
      omega

/-- A dump parses to an object with the entries of the map. -/
theorem parseJson_dump (map : IntMap) (fuel : Nat)
    (enough : (dump map).length ≤ fuel) :
    ∃ members,
      parseJson (fuel + 1) 0 (dump map) = some (.object members, []) ∧
        List.Forall₂ MemberOf map.toList members := by
  have brace : isWhitespace '{' = false := by decide
  have close : isWhitespace '}' = false := by decide
  have quote : isWhitespace '"' = false := by decide
  have notDigit : ¬ (('{' : Char) = '-' ∨ Char.isDigit '{' = true) := by
    decide
  have length := dumpMembers_length map.toList true
  simp only [dump, List.length_cons] at enough ⊢
  cases entries : map.toList with
  | nil =>
      refine ⟨[], ?_, .nil⟩
      simp only [dumpMembers, parseJson, Nat.not_lt_zero, gt_iff_lt,
        if_false, getNextToken_of_token brace, notDigit,
        getNextToken_of_token close, if_true]
      simp
  | cons entry rest =>
      rcases entry with ⟨key, value⟩
      rw [entries, List.length_cons] at length
      rw [entries] at enough
      obtain ⟨members, parses, carried⟩ :=
        parseMembers_dumpMembers fuel 0 (by decide) key value rest
          (by omega)
      refine ⟨members, ?_, carried⟩
      have notClose : ¬ ('"' : Char) = '}' := by decide
      simp only [dumpMembers, if_true, List.nil_append, parseJson,
        Nat.not_lt_zero, gt_iff_lt, if_false, List.append_assoc,
        List.cons_append,
        getNextToken_of_token brace, notDigit,
        getNextToken_of_token quote, notClose, parses]
      simp

/-- Inserting the parsed members rebuilds the map. -/
theorem foldl_members
    {entries : List (String × Int)} {members : List (List Char × Json)}
    (carried : List.Forall₂ MemberOf entries members) (start : IntMap) :
    members.foldl
        (fun map member =>
          map.insert (String.ofList member.1) member.2.idValue) start =
      entries.foldl (fun map entry => map.insert entry.1 entry.2) start := by
  induction carried generalizing start with
  | nil => rfl
  | cons head _ inductionHypothesis =>
      rw [List.foldl_cons, List.foldl_cons, head.key_eq, head.value_eq,
        String.ofList_toList, inductionHypothesis]

theorem foldl_toList (map : IntMap) :
    map.toList.foldl (fun built entry => built.insert entry.1 entry.2) ∅ =
      map := by
  rw [← Std.ExtTreeMap.ofList_eq_foldl]
  apply Std.ExtTreeMap.ext_getElem?
  intro key
  cases present : map[key]? with
  | none =>
      apply Std.ExtTreeMap.getElem?_ofList_of_contains_eq_false
      rw [Bool.eq_false_iff, ne_eq, List.contains_iff_mem, List.mem_map]
      intro listed
      rcases listed with ⟨⟨name, value⟩, member, rfl⟩
      have bound :=
        Std.ExtTreeMap.mem_toList_iff_getElem?_eq_some.mp member
      rw [present] at bound
      cases bound
  | some value =>
      exact Std.ExtTreeMap.getElem?_ofList_of_mem Std.ReflCmp.compare_self
        Std.ExtTreeMap.distinct_keys_toList
        (Std.ExtTreeMap.mem_toList_iff_getElem?_eq_some.mpr present)

theorem objectItems_dump (map : IntMap) :
    objectItems (dump map) = map := by
  rcases parseJson_dump map (dump map).length (le_refl _) with
    ⟨members, parses, carried⟩
  simp only [objectItems, parse, parses]
  simp only [consumeWhitespace, List.dropWhile_nil, if_true]
  rw [foldl_members carried, foldl_toList]

end Dinamite.Maps.Json11
