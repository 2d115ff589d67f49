import Dinamite.Filter.FunctionRules

/-!
# The size gate

Which sizes pass.  The minimum is an `int` that is compared as a `size_t`, so
that a negative one is larger than any function.
-/

namespace Dinamite.Filter

open Dinamite.Maps Dinamite.Maps.Json11

/-! ## Members of a document -/

/-- The document with a member set; the last of equal keys counts. -/
def setMember (json : Json) (key : String) (value : Json) : Json :=
  match json with
  | .object members => .object (members ++ [(key.toList, value)])
  | other => other

theorem member_setMember
    {json : Json} (isObject : ∃ members, json = .object members)
    (key : String) (value : Json) (other : String) :
    member (setMember json key value) other =
      if other = key then value else member json other := by
  rcases isObject with ⟨members, rfl⟩
  simp only [member, setMember, jsonObjectItems, List.foldl_append,
    List.foldl_cons, List.foldl_nil, String.ofList_toList,
    Std.ExtTreeMap.getElem?_insert, compare_eq_iff_eq]
  by_cases same : key = other
  · simp [same]
  · simp [same, Ne.symm same]

/-- An integer, as a `JsonInt` or as a `JsonDouble`. -/
def IsInteger (json : Json) (value : Int) : Prop :=
  json = .int value ∨ json = .double value

theorem IsInteger.intValue
    {json : Json} {value : Int} (integer : IsInteger json value)
    (low : -2 ^ 31 ≤ value) (high : value < 2 ^ 31)
    (doubles : DoubleToInt) : json.intValue doubles = value := by
  rcases integer with rfl | rfl
  · rfl
  · exact doubles.toInt_intCast low high

theorem IsInteger.notNull
    {json : Json} {value : Int} (integer : IsInteger json value) :
    isNull json = false := by
  rcases integer with rfl | rfl
  · rfl
  · rfl

/-! ## The comparison -/

namespace InstrumentationFilter

variable (filter : InstrumentationFilter)

/-- The minimum size of the document. -/
def MinimumIs (minimum : Int) : Prop :=
  IsInteger (member filter.filters "minimum_function_size") minimum

/-- A rule other than "*" is found for the name. -/
def Ruled (name : String) : Prop :=
  filter.findBestFunctionMatch name ≠ "*" ∧
    filter.findBestFunctionMatch name ≠ ""

/-- The document with another minimum. -/
def withMinimum (minimum : Int) : InstrumentationFilter :=
  { filter with
    filters :=
      setMember filter.filters "minimum_function_size" (.int minimum) }

variable {filter} {minimum : Int} {name : String} {size : Nat}

theorem MinimumIs.isObject (isMinimum : filter.MinimumIs minimum) :
    ∃ members, filter.filters = .object members := by
  cases filters : filter.filters with
  | object members => exact ⟨members, rfl⟩
  | _ =>
      have notNull := IsInteger.notNull isMinimum
      rw [filters] at notNull
      simp [member, jsonObjectItems, isNull] at notNull

theorem withMinimum_minimumIs
    (isMinimum : filter.MinimumIs minimum) (raised : Int) :
    (filter.withMinimum raised).MinimumIs raised := by
  refine Or.inl ?_
  rw [withMinimum, member_setMember isMinimum.isObject, if_pos rfl]

theorem withMinimum_findBestFunctionMatch
    (isMinimum : filter.MinimumIs minimum) (raised : Int) :
    (filter.withMinimum raised).findBestFunctionMatch name =
      filter.findBestFunctionMatch name := by
  have same :
      (filter.withMinimum raised).functionFilters =
        filter.functionFilters := by
    rw [functionFilters, functionFilters, withMinimum,
      member_setMember isMinimum.isObject, if_neg (by decide)]
  simp only [findBestFunctionMatch, same]

theorem withMinimum_ruled
    (isMinimum : filter.MinimumIs minimum) (raised : Int) :
    (filter.withMinimum raised).Ruled name ↔ filter.Ruled name := by
  rw [Ruled, Ruled, withMinimum_findBestFunctionMatch isMinimum]

/-- What passes the gate, by the comparison of the source. -/
def PassesSize (filter : InstrumentationFilter) (name : String) (size : Nat) :
    Prop :=
  isNull (member filter.filters "minimum_function_size") = true ∨
    ((member filter.filters "minimum_function_size").intValue
        filter.doubles % 2 ^ 64).toNat ≤ size ∨
      filter.Ruled name

theorem checkFunctionSize_eq_true_iff :
    (filter.checkFunctionSize name size).1 = true ↔
      filter.PassesSize name size := by
  unfold checkFunctionSize PassesSize
  dsimp only
  split
  case isTrue null => exact iff_of_true rfl (Or.inl null)
  case isFalse someMinimum =>
    rw [or_iff_right someMinimum]
    split
    case isTrue large => exact iff_of_true rfl (Or.inl large)
    case isFalse small =>
      rw [or_iff_right small, Bool.and_eq_true, decide_eq_true_iff,
        decide_eq_true_iff, Ruled]

/-- The gate of a document whose minimum is an integer that fits an `int`. -/
theorem checkFunctionSize_iff
    (isMinimum : filter.MinimumIs minimum)
    (low : -2 ^ 31 ≤ minimum) (high : minimum < 2 ^ 31) :
    (filter.checkFunctionSize name size).1 = true ↔
      (minimum % 2 ^ 64).toNat ≤ size ∨ filter.Ruled name := by
  rw [checkFunctionSize_eq_true_iff, PassesSize,
    IsInteger.notNull isMinimum, IsInteger.intValue isMinimum low high,
    or_iff_right Bool.false_ne_true]

/-- A minimum that is not negative is compared as it is, and a negative one as
if it were larger by the size of the type. -/
theorem castMinimum_le_iff
    (low : -2 ^ 31 ≤ minimum) (high : minimum < 2 ^ 31) :
    (minimum % 2 ^ 64).toNat ≤ size ↔
      (0 ≤ minimum ∧ minimum ≤ size) ∨ 2 ^ 64 + minimum ≤ size := by
  rcases lt_or_ge minimum 0 with negative | notNegative
  · have wraps : minimum % 2 ^ 64 = 2 ^ 64 + minimum := by omega
    rw [wraps]
    omega
  · have same : minimum % 2 ^ 64 = minimum := by omega
    rw [same]
    omega

/-- What the size gate is to decide. -/
structure SizeGate
    (filter : InstrumentationFilter) (minimum : Int) (name : String)
    (size : Nat) : Prop where
  decides :
    (filter.checkFunctionSize name size).1 = true ↔
      minimum ≤ size ∨ filter.Ruled name
  /-- A larger minimum admits nothing more. -/
  monotone :
    ∀ raised, minimum ≤ raised → raised < 2 ^ 31 →
      ((filter.withMinimum raised).checkFunctionSize name size).1 = true →
        (filter.checkFunctionSize name size).1 = true

theorem sizeGate_iff
    (isMinimum : filter.MinimumIs minimum)
    (low : -2 ^ 31 ≤ minimum) (high : minimum < 2 ^ 31) :
    filter.SizeGate minimum name size ↔
      0 ≤ minimum ∨ filter.Ruled name ∨ 2 ^ 64 + minimum ≤ size := by
  constructor
  · intro gate
    by_contra outside
    rw [not_or, not_or] at outside
    rcases outside with ⟨negative, notRuled, small⟩
    have admitted := gate.decides.mpr (Or.inl (by omega))
    rw [checkFunctionSize_iff isMinimum low high, castMinimum_le_iff low high,
      or_iff_left notRuled] at admitted
    omega
  · intro inside
    constructor
    · rw [checkFunctionSize_iff isMinimum low high,
        castMinimum_le_iff low high]
      rcases inside with notNegative | ruled | large
      · apply or_congr_left
        omega
      · exact iff_of_true (Or.inr ruled) (Or.inr ruled)
      · exact iff_of_true (Or.inl (Or.inr large)) (Or.inl (by omega))
    · intro raised more below admitted
      rw [checkFunctionSize_iff (withMinimum_minimumIs isMinimum raised)
          (low.trans more) below,
        castMinimum_le_iff (low.trans more) below,
        withMinimum_ruled isMinimum] at admitted
      rw [checkFunctionSize_iff isMinimum low high,
        castMinimum_le_iff low high]
      rcases admitted with large | ruled
      · rcases inside with notNegative | ruled | larger
        · apply Or.inl
          omega
        · exact Or.inr ruled
        · exact Or.inl (Or.inr larger)
      · exact Or.inr ruled

end InstrumentationFilter

/-- A document whose minimum is negative. -/
def negativeDocument : InstrumentationFilter where
  filters :=
    .object
      [("function_size_metric".toList, .string "LOC_PATH".toList),
        ("minimum_function_size".toList, .int (-1))]
  loaded := true

theorem negativeDocument_minimumIs : negativeDocument.MinimumIs (-1) := by
  refine Or.inl ?_
  have set :
      member
          (setMember
            (.object
              [("function_size_metric".toList, .string "LOC_PATH".toList)])
            "minimum_function_size" (.int (-1)))
          "minimum_function_size" =
        .int (-1) := by
    rw [member_setMember ⟨_, rfl⟩, if_pos rfl]
  exact set

theorem checkFunctionSize_misses_negative :
    ¬ ∀ (filter : InstrumentationFilter) (minimum : Int) (name : String)
        (size : Nat),
      filter.MinimumIs minimum → -2 ^ 31 ≤ minimum → minimum < 2 ^ 31 →
        filter.SizeGate minimum name size := by
  intro always
  have gate :=
    always negativeDocument (-1) "f" 5 negativeDocument_minimumIs
      (by decide) (by decide)
  have admitted := gate.decides.mpr (Or.inl (by decide))
  revert admitted
  decide +kernel

end Dinamite.Filter
