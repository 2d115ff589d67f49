import Dinamite.Filter.FunctionRules

/-!
# Which functions the filter admits

`checkFunctionFilter` asks itself about the name "*".  The answer is that of
the rule "*", of a rule whose key is more stars than one, or, where no key is
made of stars, of the rule with the empty key.
-/

namespace Dinamite.Filter

open Dinamite.Glob Dinamite.Maps Dinamite.Maps.Json11

namespace InstrumentationFilter

section Decision

variable (filter : InstrumentationFilter)

def blacklist : List Json :=
  arrayItems (member (member filter.filters "blacklist") "function_filters")

/-- Some entry, behind a wildcard, matches the name. -/
def Blacklisted (name : String) : Prop :=
  ∃ entry ∈ filter.blacklist,
    globMatch ('*' :: stringValue entry) name.toList = true

/-- The rule of the key lists the event. -/
def Lists (key eventType : String) : Prop :=
  ∃ entry ∈ arrayItems (member (member filter.functionFilters key) "events"),
    stringValue entry = eventType.toList

/-- The rule chosen for a name that some rule matches, as its key or by its
pattern, lists the event. -/
def ChosenLists (name eventType : String) : Prop :=
  (∃ key ∈ filter.ruleKeys, key = name ∨ name ∈ accepted key) ∧
    filter.Lists (filter.findBestFunctionMatch name) eventType

/-- What the filter is to admit. -/
structure Admits (name eventType : String) : Prop where
  notBlacklisted : ¬ filter.Blacklisted name
  listed :
    filter.ruleKeys = [] ∨
      ("*" ∈ filter.ruleKeys ∧ filter.Lists "*" eventType) ∨
        filter.ChosenLists name eventType

/-- The key whose rule answers for "*" where that has none: the first one of
several stars, or the empty one if no key is made of stars. -/
inductive StandsIn : String → Prop
  | stars {key : String} (noRule : ¬ filter.HasRule "*")
      (first : filter.FirstAccepted "*" key) : StandsIn key
  | empty (noStars : ∀ key ∈ filter.ruleKeys, ¬ OnlyStars key) : StandsIn ""

/-- A rule that answers for "*" lists the event. -/
def StrayLists (eventType : String) : Prop :=
  ∃ key, filter.StandsIn key ∧ filter.Lists key eventType

end Decision

section Lists

variable {filter : InstrumentationFilter} {name key eventType : String}

theorem Lists.hasRule
    (lists : filter.Lists key eventType) : filter.HasRule key := by
  rcases lists with ⟨entry, inEvents, _⟩
  rw [HasRule]
  by_contra null
  rw [Bool.not_eq_false] at null
  have missing : member filter.functionFilters key = .null := by
    revert null
    cases member filter.functionFilters key with
    | null =>
        intro _
        rfl
    | _ =>
        intro null
        cases null
  rw [missing] at inEvents
  simp [member, jsonObjectItems, arrayItems] at inEvents

theorem ruleLists_iff :
    filter.ruleLists name eventType = true ↔
      filter.Lists (filter.findBestFunctionMatch name) eventType := by
  simp only [ruleLists, Lists, List.any_eq_true, decide_eq_true_iff,
    eq_comm (a := eventType.toList)]

theorem checkOwnFilter_iff :
    filter.checkOwnFilter name eventType = true ↔
      filter.ruleKeys = [] ∨
        filter.Lists (filter.findBestFunctionMatch name) eventType := by
  have noKeys :
      (jsonObjectItems filter.functionFilters).size = 0 ↔
        filter.ruleKeys = [] := by
    rw [ruleKeys, ← List.length_eq_zero_iff, Std.ExtTreeMap.length_keys]
  unfold checkOwnFilter
  by_cases empty : filter.ruleKeys = []
  · rw [if_pos (noKeys.mpr empty)]
    exact iff_of_true rfl (Or.inl empty)
  · rw [if_neg fun size => empty (noKeys.mp size), ruleLists_iff,
      or_iff_right empty]

theorem checkFunctionBlacklist_iff (loaded : filter.loaded = true) :
    filter.checkFunctionBlacklist name = true ↔ filter.Blacklisted name := by
  simp only [checkFunctionBlacklist, loaded, Bool.true_and, listsSuffix,
    List.any_eq_true, Blacklisted, blacklist]

/-- An entry that blacklists "*" consists of stars and blacklists all. -/
theorem Blacklisted.of_star
    (blacklisted : filter.Blacklisted "*") (some : name ≠ "") :
    filter.Blacklisted name := by
  rcases blacklisted with ⟨entry, inList, matched⟩
  refine ⟨entry, inList, ?_⟩
  rw [globMatch_eq_matchesLast]
  apply matchesLast_of_stars (onlyStars_of_globMatch_star matched)
  · exact List.cons_ne_nil _ _
  · exact fun empty => some (String.toList_eq_nil_iff.mp empty)

/-- The rule "*" itself, or one that stands in for it, answers for "*". -/
theorem lists_star_iff :
    filter.Lists (filter.findBestFunctionMatch "*") eventType ↔
      ("*" ∈ filter.ruleKeys ∧ filter.Lists "*" eventType) ∨
        filter.StrayLists eventType := by
  have search := found_findBestFunctionMatch filter "*"
  generalize filter.findBestFunctionMatch "*" = chosen at search ⊢
  have noStars
      (absent : "*" ∉ filter.ruleKeys)
      (only : ∀ key, filter.Accepted "*" key → key = "*") :
      ∀ key ∈ filter.ruleKeys, ¬ OnlyStars key :=
    fun key present stars =>
      Found.not_accepted absent only key
        ⟨present, star_mem_accepted_iff.mpr stars⟩
  constructor
  · intro lists
    cases search with
    | own rule => exact Or.inl ⟨rule.mem_ruleKeys, lists⟩
    | other noRule first => exact Or.inr ⟨_, .stars noRule first, lists⟩
    | star _ present _ => exact Or.inl ⟨present, lists⟩
    | nothing _ absent only =>
        exact Or.inr ⟨"", .empty (noStars absent only), lists⟩
  · intro either
    rcases either with ⟨present, lists⟩ | ⟨key, standsIn, lists⟩
    · cases search with
      | own _ => exact lists
      | other noRule _ => exact absurd lists.hasRule noRule
      | star noRule _ _ => exact lists
      | nothing noRule _ _ => exact absurd lists.hasRule noRule
    · cases standsIn with
      | stars noRule first =>
          cases search with
          | own rule => exact absurd rule noRule
          | other _ foundFirst =>
              rw [foundFirst.unique first]
              exact lists
          | star _ _ only =>
              exact absurd (only _ first.matched) first.notStar
          | nothing _ _ only =>
              exact absurd (only _ first.matched) first.notStar
      | empty none =>
          cases search with
          | own rule => exact absurd onlyStars_star (none _ rule.mem_ruleKeys)
          | other _ first =>
              exact absurd (star_mem_accepted_iff.mp first.matched.2)
                (none _ first.matched.1)
          | star _ present _ => exact absurd onlyStars_star (none _ present)
          | nothing _ _ _ => exact lists

/-- Where no rule matches the name, the empty key answers for it, as for
"*". -/
theorem lists_name_iff (some : name ≠ "") :
    filter.Lists (filter.findBestFunctionMatch name) eventType →
      filter.ChosenLists name eventType ∨ filter.StrayLists eventType := by
  have search := found_findBestFunctionMatch filter name
  intro lists
  by_cases matched :
      ∃ key ∈ filter.ruleKeys, key = name ∨ name ∈ accepted key
  · exact Or.inl ⟨matched, lists⟩
  · have noStars : ∀ key ∈ filter.ruleKeys, ¬ OnlyStars key :=
      fun key present stars =>
        matched ⟨key, present, Or.inr (stars.matches some)⟩
    have nothing : filter.findBestFunctionMatch name = "" := by
      generalize filter.findBestFunctionMatch name = chosen at search ⊢
      cases search with
      | own rule => exact absurd ⟨_, rule.mem_ruleKeys, Or.inl rfl⟩ matched
      | other _ first =>
          exact absurd ⟨_, first.matched.1, Or.inr first.matched.2⟩ matched
      | star _ present _ => exact absurd onlyStars_star (noStars _ present)
      | nothing _ _ _ => rfl
    rw [nothing] at lists
    exact Or.inr ⟨"", .empty noStars, lists⟩

/-- What the code admits. -/
theorem checkFunctionFilter_iff
    (loaded : filter.loaded = true) (some : name ≠ "")
    (notStar : name ≠ "*") :
    filter.checkFunctionFilter name eventType = true ↔
      ¬ filter.Blacklisted name ∧
        (filter.ruleKeys = [] ∨
          ("*" ∈ filter.ruleKeys ∧ filter.Lists "*" eventType) ∨
            filter.ChosenLists name eventType ∨
              filter.StrayLists eventType) := by
  unfold checkFunctionFilter
  rw [loaded, Bool.not_true, if_neg Bool.false_ne_true]
  by_cases blacklisted : filter.Blacklisted name
  · rw [if_pos ((checkFunctionBlacklist_iff loaded).mpr blacklisted)]
    exact iff_of_false Bool.false_ne_true fun both => both.1 blacklisted
  · have starFree : filter.checkFunctionBlacklist "*" = false := by
      rw [Bool.eq_false_iff, Ne, checkFunctionBlacklist_iff loaded]
      exact fun star => blacklisted (star.of_star some)
    rw [if_neg fun found =>
      blacklisted ((checkFunctionBlacklist_iff loaded).mp found)]
    simp only [notStar, starFree, ne_eq, not_false_eq_true, decide_true,
      Bool.not_false, Bool.true_and, blacklisted, true_and]
    split
    case isTrue own =>
      rw [checkOwnFilter_iff, lists_star_iff] at own
      refine iff_of_true rfl ?_
      rcases own with empty | star | stray
      · exact Or.inl empty
      · exact Or.inr (Or.inl star)
      · exact Or.inr (Or.inr (Or.inr stray))
    case isFalse own =>
      rw [checkOwnFilter_iff, lists_star_iff, not_or, not_or] at own
      rcases own with ⟨someRule, noStar, noStray⟩
      rw [checkOwnFilter_iff, or_iff_right someRule, or_iff_right someRule,
        or_iff_right noStar, or_iff_left noStray]
      constructor
      · intro lists
        exact (lists_name_iff some lists).resolve_right noStray
      · exact And.right

/-- Only a document with rules, none of them for "*", has rules that stand in
for it. -/
theorem StrayLists.not_listed
    (stray : filter.StrayLists eventType) :
    filter.ruleKeys ≠ [] ∧
      ¬ ("*" ∈ filter.ruleKeys ∧ filter.Lists "*" eventType) := by
  rcases stray with ⟨key, standsIn, lists⟩
  constructor
  · exact List.ne_nil_of_mem lists.hasRule.mem_ruleKeys
  · intro star
    cases standsIn with
    | stars noRule _ => exact noRule star.2.hasRule
    | empty noStars => exact noStars _ star.1 onlyStars_star

/-- The filter admits what it is to admit, unless a rule that answers for "*"
lists the event of a function that is neither blacklisted nor admitted by the
rule chosen for it. -/
theorem checkFunctionFilter_admits_iff
    (loaded : filter.loaded = true) (some : name ≠ "")
    (notStar : name ≠ "*") :
    (filter.checkFunctionFilter name eventType = true ↔
        filter.Admits name eventType) ↔
      (filter.StrayLists eventType →
        filter.Blacklisted name ∨ filter.ChosenLists name eventType) := by
  rw [checkFunctionFilter_iff loaded some notStar]
  constructor
  · intro agree stray
    by_contra neither
    rw [not_or] at neither
    have admits :=
      agree.mp ⟨neither.1, Or.inr (Or.inr (Or.inr stray))⟩
    rcases admits.listed with empty | star | chosen
    · exact stray.not_listed.1 empty
    · exact stray.not_listed.2 star
    · exact neither.2 chosen
  · intro harmless
    constructor
    · intro admitted
      rcases admitted with ⟨free, empty | star | chosen | stray⟩
      · exact ⟨free, Or.inl empty⟩
      · exact ⟨free, Or.inr (Or.inl star)⟩
      · exact ⟨free, Or.inr (Or.inr chosen)⟩
      · exact ⟨free, Or.inr (Or.inr ((harmless stray).resolve_left free))⟩
    · intro admits
      refine ⟨admits.notBlacklisted, ?_⟩
      rcases admits.listed with empty | star | chosen
      · exact Or.inl empty
      · exact Or.inr (Or.inl star)
      · exact Or.inr (Or.inr (Or.inl chosen))

end Lists

end InstrumentationFilter

/-! ## A document with an empty key -/

/-- One rule, for the function without a name. -/
def emptyKeyDocument : InstrumentationFilter :=
  InstrumentationFilter.loadFilterData {} <| some
    ("\x7b\"whitelist\": \x7b\"function_filters\": \x7b" ++
      "\"\": \x7b\"events\": [\"function\"]\x7d" ++
      "\x7d\x7d\x7d").toList

theorem emptyKeyDocument_admits_iff :
    emptyKeyDocument.loaded = true ∧
      ((emptyKeyDocument.checkFunctionFilter "f" "access" = true ↔
          emptyKeyDocument.Admits "f" "access") ↔
        (emptyKeyDocument.StrayLists "access" →
          emptyKeyDocument.Blacklisted "f" ∨
            emptyKeyDocument.ChosenLists "f" "access")) :=
  ⟨by decide +kernel,
    InstrumentationFilter.checkFunctionFilter_admits_iff
      (by decide +kernel) (by decide) (by decide)⟩

/-- No rule matches the function, but it gets the events of the empty key. -/
theorem checkFunctionFilter_admits_unmatched :
    ¬ ∀ (filter : InstrumentationFilter) (name eventType : String),
      filter.loaded = true → name ≠ "" → name ≠ "*" →
        (filter.checkFunctionFilter name eventType = true ↔
          filter.Admits name eventType) := by
  intro always
  have agree :=
    always emptyKeyDocument "f" "function" (by decide +kernel) (by decide)
      (by decide)
  have admits := agree.mp (by decide +kernel)
  have keys : emptyKeyDocument.ruleKeys = [""] := by decide +kernel
  rcases admits.listed with none | star | chosen
  · rw [keys] at none
    cases none
  · rw [keys] at star
    exact absurd (List.mem_singleton.mp star.1) (by decide)
  · rcases chosen.1 with ⟨key, present, same⟩
    rw [keys] at present
    rw [List.mem_singleton.mp present, mem_accepted_empty_iff] at same
    rcases same with same | same
    · exact absurd same (by decide)
    · exact absurd same (by decide)

end Dinamite.Filter
