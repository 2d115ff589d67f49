import Dinamite.Filter.GlobMatch

/-!
# Which rule decides

The rule `findBestFunctionMatch` picks is the first one in key order that
`globMatch` accepts, apart from "*".  It is a most specific one if the keys are
in the right order.
-/

namespace Dinamite.Filter

open Dinamite.Glob Dinamite.Maps Dinamite.Maps.Json11

/-! ## Keys and the names they match -/

/-- The names for which `globMatch` accepts a key. -/
def accepted (key : String) : Set String :=
  { name | globMatch key.toList name.toList = true }

theorem mem_accepted_iff {key name : String} :
    name ∈ accepted key ↔ globMatch key.toList name.toList = true :=
  Iff.rfl

/-- The key consists of wildcards. -/
def OnlyStars (key : String) : Prop :=
  key.toList ≠ [] ∧ ∀ character ∈ key.toList, character = '*'

theorem onlyStars_star : OnlyStars "*" := by
  constructor
  · exact List.cons_ne_nil '*' []
  · intro character member
    exact List.mem_singleton.mp member

theorem OnlyStars.matches
    {key : String} (stars : OnlyStars key) {name : String} (some : name ≠ "") :
    name ∈ accepted key := by
  rw [mem_accepted_iff, globMatch_eq_matchesLast]
  apply matchesLast_of_stars stars.2 stars.1
  exact fun empty => some (String.toList_eq_nil_iff.mp empty)

/-- Only wildcards match the text "*". -/
theorem onlyStars_of_globMatch_star
    {glob : List Char} (matched : globMatch glob ['*'] = true) :
    ∀ character ∈ glob, character = '*' := by
  intro character member
  rw [globMatch_eq_matchesLast] at matched
  rcases matched with ⟨pieces, splits, _⟩
  by_contra notStar
  have inText := mem_of_splits splits member notStar
  exact notStar (List.mem_singleton.mp inText)

theorem star_mem_accepted_iff {key : String} :
    "*" ∈ accepted key ↔ OnlyStars key := by
  constructor
  · intro matched
    constructor
    · intro empty
      rw [mem_accepted_iff, empty] at matched
      simp [globMatch] at matched
    · exact onlyStars_of_globMatch_star matched
  · intro stars
    exact stars.matches (by decide)

theorem mem_accepted_empty_iff {name : String} :
    name ∈ accepted "" ↔ name = "" := by
  rw [mem_accepted_iff, globMatch_eq_matchesLast,
    show ("" : String).toList = [] from rfl, matchesLast_nil_iff,
    String.toList_eq_nil_iff]

/-- The names that a key stands for as a pattern. -/
def language (key : String) : Set String :=
  { name | Matches '*' key.toList name.toList }

theorem accepted_subset_language (key : String) :
    accepted key ⊆ language key := by
  intro name isAccepted
  rw [mem_accepted_iff, globMatch_eq_matchesLast] at isAccepted
  exact isAccepted.matches

/-- A key is one of the names it stands for. -/
theorem mem_language_self (key : String) : key ∈ language key := by
  show Matches '*' key.toList key.toList
  induction key.toList with
  | nil => exact ⟨[], splits_nil⟩
  | cons token glob inductionHypothesis =>
      rcases inductionHypothesis with ⟨pieces, splits⟩
      exact ⟨[token] :: pieces, splits.cons (Or.inr rfl)⟩

/-- To compare what two keys stand for it is enough to match one of them, as a
text, against the other. -/
theorem language_subset_iff {key other : String} :
    language other ⊆ language key ↔
      Matches '*' key.toList other.toList := by
  constructor
  · intro subset
    exact subset (mem_language_self other)
  · intro covers name matched
    exact covers.trans matched

/-- The key `other` is more specific than `key`. -/
def Narrower (other key : String) : Prop :=
  Matches '*' key.toList other.toList ∧
    ¬ Matches '*' other.toList key.toList

theorem language_ssubset_iff {key other : String} :
    language other ⊂ language key ↔ Narrower other key :=
  and_congr language_subset_iff (not_congr language_subset_iff)

namespace InstrumentationFilter

variable (filter : InstrumentationFilter)

/-- The keys of the whitelist's function filters, in order. -/
def ruleKeys : List String :=
  (jsonObjectItems filter.functionFilters).keys

/-- The key has a rule that is not null. -/
def HasRule (key : String) : Prop :=
  isNull (member filter.functionFilters key) = false

theorem HasRule.mem_ruleKeys
    {filter : InstrumentationFilter} {key : String}
    (rule : filter.HasRule key) : key ∈ filter.ruleKeys := by
  rw [ruleKeys, Std.ExtTreeMap.mem_keys]
  by_contra missing
  rw [HasRule, member, Std.ExtTreeMap.getElem?_eq_none missing] at rule
  cases rule

/-- The key is a rule's and is accepted for the name. -/
def Accepted (name key : String) : Prop :=
  key ∈ filter.ruleKeys ∧ name ∈ accepted key

/-- The first key that is accepted, "*" not counted. -/
structure FirstAccepted (name key : String) : Prop where
  matched : filter.Accepted name key
  notStar : key ≠ "*"
  first :
    ∀ earlier, filter.Accepted name earlier → earlier ≠ "*" →
      ¬ earlier < key

/-- The search through the keys. -/
def otherKey (name : String) : Option String :=
  filter.ruleKeys.find? fun key =>
    key ≠ "*" && globMatch key.toList name.toList

variable {filter} {name : String}

theorem otherKey_eq_none (none : filter.otherKey name = none) :
    ∀ key, filter.Accepted name key → key = "*" := by
  intro key matched
  have passes := List.find?_eq_none.mp none key matched.1
  by_contra notStar
  apply passes
  rw [Bool.and_eq_true, decide_eq_true_iff]
  exact ⟨notStar, matched.2⟩

theorem otherKey_eq_some
    {key : String} (found : filter.otherKey name = some key) :
    filter.FirstAccepted name key := by
  have split := List.find?_eq_some_iff_append.mp found
  rcases split with ⟨passes, before, behind, keys, earlierFail⟩
  rw [Bool.and_eq_true, decide_eq_true_iff] at passes
  have ordered : (before ++ key :: behind).Pairwise (· < ·) := by
    rw [← keys]
    exact Std.ExtTreeMap.ordered_keys.imp compare_lt_iff_lt.mp
  refine ⟨⟨?_, passes.2⟩, passes.1, ?_⟩
  · rw [keys]
    exact List.mem_append_right _ List.mem_cons_self
  · intro earlier matched notStar smaller
    have place := matched.1
    rw [keys] at place
    rcases List.mem_append.mp place with inFront | fromHere
    · have fails := earlierFail earlier inFront
      rw [Bool.not_eq_true', Bool.and_eq_false_iff,
        decide_eq_false_iff_not] at fails
      rcases fails with isStar | different
      · exact isStar notStar
      · exact absurd matched.2 (Bool.eq_false_iff.mp different)
    · rcases List.mem_cons.mp fromHere with same | later
      · exact absurd smaller (same ▸ lt_irrefl earlier)
      · have after := (List.pairwise_append.mp ordered).2.1
        have larger := (List.pairwise_cons.mp after).1 earlier later
        exact absurd smaller (not_lt.mpr (le_of_lt larger))

theorem FirstAccepted.unique
    {key other : String}
    (one : filter.FirstAccepted name key)
    (two : filter.FirstAccepted name other) : key = other := by
  have notLess := two.first key one.matched one.notStar
  have notGreater := one.first other two.matched two.notStar
  exact le_antisymm (not_lt.mp notGreater) (not_lt.mp notLess)

/-- What the search for the best rule comes to. -/
inductive Found (filter : InstrumentationFilter) (name : String) :
    String → Prop
  | own (rule : filter.HasRule name) : Found filter name name
  | other {key : String} (noRule : ¬ filter.HasRule name)
      (first : filter.FirstAccepted name key) : Found filter name key
  | star (noRule : ¬ filter.HasRule name) (present : "*" ∈ filter.ruleKeys)
      (only : ∀ key, filter.Accepted name key → key = "*") :
      Found filter name "*"
  | nothing (noRule : ¬ filter.HasRule name)
      (absent : "*" ∉ filter.ruleKeys)
      (only : ∀ key, filter.Accepted name key → key = "*") :
      Found filter name ""

theorem found_findBestFunctionMatch
    (filter : InstrumentationFilter) (name : String) :
    filter.Found name (filter.findBestFunctionMatch name) := by
  unfold findBestFunctionMatch
  split
  case isFalse rule => exact .own (Bool.eq_false_iff.mpr rule)
  case isTrue null =>
    have noRule : ¬ filter.HasRule name := by
      rw [HasRule, null]
      exact Bool.noConfusion
    cases search : filter.otherKey name with
    | some key =>
        have first := otherKey_eq_some search
        rw [otherKey, ruleKeys] at search
        simp only [search]
        exact .other noRule first
    | none =>
        have only := otherKey_eq_none search
        rw [otherKey, ruleKeys] at search
        simp only [search]
        by_cases present : "*" ∈ filter.ruleKeys
        · rw [ruleKeys] at present
          simp only [if_pos present]
          exact .star noRule present only
        · have absent := present
          rw [ruleKeys] at absent
          simp only [if_neg absent]
          exact .nothing noRule present only

/-! ## The most specific rule -/

section MostSpecific

variable (filter : InstrumentationFilter)

/-- The key is a rule's and matches the name. -/
def Matched (name key : String) : Prop :=
  key ∈ filter.ruleKeys ∧ name ∈ language key

/-- The best rule for a name: its own one, or one that no rule more specific
than it matches; "*" where nothing else does, and "" where nothing does. -/
structure MostSpecific (name best : String) : Prop where
  own : filter.HasRule name → best = name
  matched :
    ¬ filter.HasRule name → best ≠ "*" → best ≠ "" →
      filter.Matched name best
  minimal :
    ¬ filter.HasRule name → best ≠ "*" → best ≠ "" →
      ∀ other, filter.Matched name other →
        ¬ language other ⊂ language best
  star :
    ¬ filter.HasRule name → best = "*" →
      "*" ∈ filter.ruleKeys ∧
        ∀ key, filter.Matched name key → key = "*"
  empty :
    ¬ filter.HasRule name → best = "" → ∀ key, ¬ filter.Matched name key

/-- The search stops at this key, or at an earlier one: it is a rule's, and in
its match the last of two final stars stands for something. -/
structure Seen (name key : String) : Prop where
  present : key ∈ filter.ruleKeys
  notStar : key ≠ "*"
  stands : MatchesLast '*' key.toList name.toList

/-- The order of the keys agrees with how specific they are: where there is a
key narrower than one that is seen, another one is seen earlier. -/
structure KeysInOrder (name : String) : Prop where
  noEmptyKey : name = "" → "" ∉ filter.ruleKeys
  seen :
    ∀ key, filter.Matched name key → key ≠ "*" →
      ∃ other, filter.Seen name other
  ordered :
    ∀ key other, filter.Seen name key → filter.Matched name other →
      Narrower other key →
        ∃ earlier, filter.Seen name earlier ∧ earlier < key

end MostSpecific

section Search

variable {filter : InstrumentationFilter} {name key : String}

theorem Accepted.toMatched
    (accepted : filter.Accepted name key) : filter.Matched name key :=
  ⟨accepted.1, accepted_subset_language key accepted.2⟩

theorem seen_iff :
    filter.Seen name key ↔ filter.Accepted name key ∧ key ≠ "*" := by
  rw [Accepted, mem_accepted_iff, globMatch_eq_matchesLast]
  constructor
  · intro seen
    exact ⟨⟨seen.present, seen.stands⟩, seen.notStar⟩
  · rintro ⟨⟨present, stands⟩, notStar⟩
    exact ⟨present, notStar, stands⟩

/-- No key stands in front of the empty one. -/
theorem eq_empty_of_le (least : key ≤ "") : key = "" := by
  have notBehind : ¬ ("" : String).toList < key.toList := least
  cases characters : key.toList with
  | nil => exact String.toList_eq_nil_iff.mp characters
  | cons head rest =>
      rw [characters] at notBehind
      exact absurd (List.nil_lt_cons head rest) notBehind

/-- The empty key is seen for the empty name. -/
theorem seen_empty
    (noName : name = "") (present : "" ∈ filter.ruleKeys) :
    filter.Seen name "" :=
  seen_iff.mpr
    ⟨⟨present, mem_accepted_empty_iff.mpr noName⟩, by decide⟩

/-- Without a "*", a key that is accepted for the name would be its own. -/
theorem Found.not_accepted
    (absent : "*" ∉ filter.ruleKeys)
    (only : ∀ key, filter.Accepted name key → key = "*")
    (key : String) : ¬ filter.Accepted name key := by
  intro accepted
  rw [only key accepted] at accepted
  exact absent accepted.1

theorem FirstAccepted.seen
    (first : filter.FirstAccepted name key) : filter.Seen name key :=
  seen_iff.mpr ⟨first.matched, first.notStar⟩

theorem FirstAccepted.le_of_seen
    (first : filter.FirstAccepted name key) {other : String}
    (seen : filter.Seen name other) : key ≤ other := by
  have accepted := seen_iff.mp seen
  exact not_lt.mp (first.first other accepted.1 accepted.2)

theorem not_seen
    (only : ∀ key, filter.Accepted name key → key = "*") (key : String) :
    ¬ filter.Seen name key := by
  intro seen
  have accepted := seen_iff.mp seen
  exact accepted.2 (only key accepted.1)

/-- Where no key is seen, the keys are in order if only "*" matches. -/
theorem keysInOrder_of_not_seen
    (notSeen : ∀ key, ¬ filter.Seen name key)
    (onlyStar : ∀ key, filter.Matched name key → key = "*") :
    filter.KeysInOrder name where
  noEmptyKey := fun noName present =>
    notSeen "" (seen_empty noName present)
  seen := fun key matched notStar =>
    absurd (onlyStar key matched) notStar
  ordered := fun key _ seen => absurd seen (notSeen key)

theorem KeysInOrder.eq_star
    (inOrder : filter.KeysInOrder name)
    (notSeen : ∀ key, ¬ filter.Seen name key)
    (matched : filter.Matched name key) : key = "*" := by
  by_contra notStar
  rcases inOrder.seen key matched notStar with ⟨other, seen⟩
  exact notSeen other seen

/-- Where the first key that is accepted is a most specific one. -/
theorem keysInOrder_of_first
    (first : filter.FirstAccepted name key) (noRule : ¬ filter.HasRule name)
    (best : filter.MostSpecific name key) : filter.KeysInOrder name := by
  have notEmpty : key ≠ "" :=
    fun same => best.empty noRule same key first.matched.toMatched
  constructor
  · intro noName present
    have least := first.le_of_seen (seen_empty noName present)
    exact notEmpty (eq_empty_of_le least)
  · intro _ _ _
    exact ⟨key, first.seen⟩
  · intro other narrower seen matched isNarrower
    by_cases same : key = other
    · subst same
      exact absurd (language_ssubset_iff.mpr isNarrower)
        (best.minimal noRule first.notStar notEmpty narrower matched)
    · exact ⟨key, first.seen,
        lt_of_le_of_ne (first.le_of_seen seen) same⟩

/-- Where the keys are in order, the first one that is accepted is neither
empty nor less specific than another one. -/
theorem KeysInOrder.first
    (inOrder : filter.KeysInOrder name)
    (first : filter.FirstAccepted name key) :
    key ≠ "" ∧
      ∀ other, filter.Matched name other →
        ¬ language other ⊂ language key := by
  constructor
  · intro noKey
    subst noKey
    exact inOrder.noEmptyKey (mem_accepted_empty_iff.mp first.matched.2)
      first.matched.1
  · intro other matched inside
    have narrower := language_ssubset_iff.mp inside
    rcases inOrder.ordered key other first.seen matched narrower with
      ⟨earlier, seen, less⟩
    exact absurd less (not_lt.mpr (first.le_of_seen seen))

end Search

/-- The search finds a most specific rule just if the name has a rule of its
own or the keys are in order. -/
theorem findBestFunctionMatch_mostSpecific_iff
    (filter : InstrumentationFilter) (name : String) :
    filter.MostSpecific name (filter.findBestFunctionMatch name) ↔
      filter.HasRule name ∨ filter.KeysInOrder name := by
  have search := found_findBestFunctionMatch filter name
  generalize filter.findBestFunctionMatch name = chosen at search ⊢
  constructor
  · intro best
    cases search with
    | own rule => exact Or.inl rule
    | other noRule first =>
        exact Or.inr (keysInOrder_of_first first noRule best)
    | star noRule _ only =>
        exact Or.inr (keysInOrder_of_not_seen (not_seen only)
          (best.star noRule rfl).2)
    | nothing noRule _ only =>
        exact Or.inr (keysInOrder_of_not_seen (not_seen only)
          fun key matched =>
            absurd matched (best.empty noRule rfl key))
  · intro specific
    cases search with
    | own rule =>
        have noOther : ¬ ¬ filter.HasRule name := not_not_intro rule
        exact
          { own := fun _ => rfl
            matched := fun other => absurd other noOther
            minimal := fun other => absurd other noOther
            star := fun other => absurd other noOther
            empty := fun other => absurd other noOther }
    | other noRule first =>
        have ⟨notEmpty, minimal⟩ :=
          (specific.resolve_left noRule).first first
        exact
          { own := fun rule => absurd rule noRule
            matched := fun _ _ _ => first.matched.toMatched
            minimal := fun _ _ _ => minimal
            star := fun _ same => absurd same first.notStar
            empty := fun _ same => absurd same notEmpty }
    | star noRule present only =>
        have inOrder := specific.resolve_left noRule
        exact
          { own := fun rule => absurd rule noRule
            matched := fun _ different => absurd rfl different
            minimal := fun _ different => absurd rfl different
            star := fun _ _ =>
              ⟨present, fun _ => inOrder.eq_star (not_seen only)⟩
            empty := fun _ same => absurd same (by decide) }
    | nothing noRule absent only =>
        have inOrder := specific.resolve_left noRule
        exact
          { own := fun rule => absurd rule noRule
            matched := fun _ _ different => absurd rfl different
            minimal := fun _ _ different => absurd rfl different
            star := fun _ same => absurd same (by decide)
            empty := fun _ _ key matched => by
              rw [inOrder.eq_star (not_seen only) matched] at matched
              exact absent matched.1 }

end InstrumentationFilter

/-- Two rules, the second of which is the more specific one. -/
def overlappingDocument : InstrumentationFilter :=
  InstrumentationFilter.loadFilterData {} <| some
    ("\x7b\"whitelist\": \x7b\"function_filters\": \x7b" ++
      "\"a*\": \x7b\"events\": [\"function\"]\x7d, " ++
      "\"ab*\": \x7b\"events\": [\"access\"]\x7d" ++
      "\x7d\x7d\x7d").toList

/-- The search stops at "a*" although "ab*" matches as well. -/
theorem findBestFunctionMatch_misses_more_specific :
    ¬ ∀ (filter : InstrumentationFilter) (name : String),
      filter.MostSpecific name (filter.findBestFunctionMatch name) := by
  intro always
  have best := always overlappingDocument "abc"
  rw [show overlappingDocument.findBestFunctionMatch "abc" = "a*" by
    decide +kernel] at best
  have noRule : ¬ overlappingDocument.HasRule "abc" := by
    unfold InstrumentationFilter.HasRule
    decide +kernel
  have present : "ab*" ∈ overlappingDocument.ruleKeys := by
    decide +kernel
  have matched : overlappingDocument.Matched "abc" "ab*" :=
    ⟨present, [['a'], ['b'], ['c']],
      splits_nil.cons (Or.inl rfl) |>.cons (Or.inr rfl) |>.cons
        (Or.inr rfl)⟩
  apply best.minimal noRule (by decide) (by decide) "ab*" matched
  rw [language_ssubset_iff]
  constructor
  · exact ⟨[['a'], ['b', '*']],
      splits_nil.cons (Or.inl rfl) |>.cons (Or.inr rfl)⟩
  · intro reverse
    have covered := (splits_char_iff (by decide)).mp reverse.choose_spec
    rcases covered with ⟨_, _, _, later⟩
    have clash := (splits_char_iff (by decide)).mp later
    exact absurd clash.1 (by decide)

end Dinamite.Filter
