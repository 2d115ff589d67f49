import Dinamite.Numerals
import Dinamite.Text.Lines
import Dinamite.Trace.Threads

/-!
# The excluded thread ids

`DINAMITE_EXCLUDE_TID` is copied into a buffer of `MAX_THREADS` characters
before it is split, so that of a long list only the front is read, with
whatever the memory behind it holds.
-/

namespace Dinamite.Trace

open Dinamite.Numerals Dinamite.Text

/-! ## The library -/

/-- `atoi`: `strtol`, which stops at the ends of `long`, cut to an `int`. -/
def atoi (text : List Char) : Int :=
  match readInteger text with
  | some read => Int.bmod (max (-2 ^ 63) (min read.1 (2 ^ 63 - 1))) (2 ^ 32)
  | none => 0

/-- The token in front of the first comma, and the text behind it. -/
def strsep (text : List Char) : List Char × Option (List Char) :=
  (text.takeWhile (· ≠ ','),
    match text.dropWhile (· ≠ ',') with
    | [] => none
    | _ :: rest => some rest)

theorem length_of_strsep
    {text rest : List Char} (behind : (strsep text).2 = some rest) :
    rest.length < text.length := by
  have shorter := (List.dropWhile_suffix (l := text) (· ≠ ',')).length_le
  unfold strsep at behind
  cases dropped : text.dropWhile (· ≠ ',') with
  | nil =>
      rw [dropped] at behind
      cases behind
  | cons head tail =>
      rw [dropped] at behind shorter
      obtain rfl := Option.some.inj behind
      exact shorter

/-! ## The exclusion -/

/-- The loop over the tokens. -/
def namesTid (tid : Int) (text : List Char) : Bool :=
  let split := strsep text
  if atoi split.1 = tid then
    true
  else
    match _ : split.2 with
    | some rest => namesTid tid rest
    | none => false
termination_by text.length
decreasing_by exact length_of_strsep ‹_›

/-- What `strlen` and `strsep` find in the buffer.  All but its last character
are copied, and a value that fills them leaves no terminating NUL: the text
goes on with what stands in memory from the last character on. -/
def copiedValue (value beyond : CString) : List Char :=
  if value.chars.length < 127 then
    value.chars
  else
    value.chars.take 127 ++ beyond.chars

/-- `__dinamite_exclude_tid`, given the variable and the memory behind the
copied characters. -/
def excludeTid
    (environment : Option CString) (beyond : CString) (tid : Int) : Bool :=
  match environment with
  | none => false
  | some value =>
      let excludedTids := copiedValue value beyond
      if excludedTids.length < 1 then false else namesTid tid excludedTids

/-- The runtime of a process with this variable. -/
def Runtime.ofEnvironment
    (environment : Option CString) (beyond : CString)
    (malloc : Int → Nat → Logentry) : Runtime where
  excludeTid := Trace.excludeTid environment beyond
  malloc := malloc

/-! ## Fields -/

/-- Some field between commas is read as the id. -/
def Names (text : List Char) (tid : Int) : Prop :=
  ∃ field ∈ text.splitOn ',', atoi field = tid

theorem splitOn_eq_strsep (text : List Char) :
    text.splitOn ',' =
      (strsep text).1 ::
        match (strsep text).2 with
        | some rest => rest.splitOn ','
        | none => [] := by
  have free : ',' ∉ text.takeWhile (· ≠ ',') := by
    intro member
    have passes := List.mem_takeWhile_imp member
    simp at passes
  have whole := List.takeWhile_append_dropWhile (p := (· ≠ ',')) (l := text)
  unfold strsep
  cases dropped : text.dropWhile (· ≠ ',') with
  | nil =>
      rw [dropped, List.append_nil] at whole
      rw [whole] at free ⊢
      exact List.splitOn_eq_singleton free
  | cons head tail =>
      have isComma : head = ',' := by
        have stops := List.head?_dropWhile_not (· ≠ ',') text
        rw [dropped] at stops
        simpa using stops
      nth_rewrite 1 [← whole]
      rw [dropped, isComma, List.splitOn_append_cons_self_of_not_mem free]

theorem names_iff_strsep {text : List Char} {tid : Int} :
    Names text tid ↔
      atoi (strsep text).1 = tid ∨
        ∃ rest, (strsep text).2 = some rest ∧ Names rest tid := by
  unfold Names
  rw [splitOn_eq_strsep]
  cases (strsep text).2 with
  | none => simp
  | some rest => simp

/-- The loop reads every field. -/
theorem namesTid_iff {tid : Int} {text : List Char} :
    namesTid tid text = true ↔ Names text tid := by
  fun_induction namesTid tid text with
  | case1 text split same =>
      exact iff_of_true rfl (names_iff_strsep.mpr (Or.inl same))
  | case2 text split different rest behind inductionHypothesis =>
      rw [inductionHypothesis, @names_iff_strsep text,
        or_iff_right different]
      constructor
      · exact fun names => ⟨rest, behind, names⟩
      · intro either
        rcases either with ⟨other, isRest, names⟩
        rw [Option.some.inj (behind.symm.trans isRest)]
        exact names
  | case3 text split different behind =>
      rw [names_iff_strsep, or_iff_right different]
      refine iff_of_false Bool.false_ne_true ?_
      intro either
      rcases either with ⟨rest, isRest, _⟩
      rw [behind] at isRest
      cases isRest

theorem copiedValue_ne_nil
    {value : CString} (beyond : CString) (some : value.chars ≠ []) :
    copiedValue value beyond ≠ [] := by
  unfold copiedValue
  split
  · exact some
  · intro empty
    have cut := (List.append_eq_nil_iff.mp empty).1
    rcases List.take_eq_nil_iff.mp cut with none | isEmpty
    · exact absurd none (by decide)
    · exact some isEmpty

theorem excludeTid_iff
    {value beyond : CString} {tid : Int} (some : value.chars ≠ []) :
    excludeTid (.some value) beyond tid = true ↔
      Names (copiedValue value beyond) tid := by
  have long : ¬ (copiedValue value beyond).length < 1 := by
    rw [Nat.lt_one_iff, List.length_eq_zero_iff]
    exact copiedValue_ne_nil beyond some
  simp only [excludeTid, if_neg long, namesTid_iff]

/-! ## Values that are cut -/

theorem atoi_toDigits {number : Nat} (small : number < 2 ^ 31) :
    atoi (Nat.toDigits 10 number) = number := by
  have inRange :
      max (-2 ^ 63) (min (number : Int) (2 ^ 63 - 1)) = number := by
    omega
  rw [atoi, readInteger_toDigits]
  simp only [inRange]
  rw [Int.bmod_def]
  omega

/-- The memory behind the copied characters may hold a comma and a number. -/
def namingTid (number : Nat) : CString where
  chars := ',' :: Nat.toDigits 10 number
  noNul := by
    intro member
    rcases List.mem_cons.mp member with isComma | inDigits
    · exact absurd isComma (by decide)
    · have digit :=
        Nat.isDigit_of_mem_toDigits (b := 10) (by decide) (by decide) inDigits
      exact absurd digit (by decide)

theorem names_of_namingTid
    {front : List Char} {number : Nat} (small : number < 2 ^ 31) :
    Names (front ++ (namingTid number).chars) number := by
  refine ⟨Nat.toDigits 10 number, ?_, atoi_toDigits small⟩
  have noComma : ',' ∉ Nat.toDigits 10 number := by
    intro member
    have digit :=
      Nat.isDigit_of_mem_toDigits (b := 10) (by decide) (by decide) member
    exact absurd digit (by decide)
  rw [namingTid, List.splitOn_append_cons_self,
    List.splitOn_eq_singleton noComma]
  exact List.mem_append_right _ (List.mem_singleton_self _)

/-- The whole list decides just if it has at most 126 characters, or its first
127 characters name the id whatever follows them. -/
theorem excludeTid_follows_list_iff
    {value : CString} (some : value.chars ≠ []) {tid : Int}
    (low : 0 ≤ tid) (high : tid < maxThreads) :
    (∀ beyond,
        excludeTid (.some value) beyond tid = true ↔
          Names value.chars tid) ↔
      value.chars.length < 127 ∨
        ∀ rest : CString, Names (value.chars.take 127 ++ rest.chars) tid := by
  constructor
  · intro follows
    by_contra cut
    rw [not_or, not_forall] at cut
    rcases cut with ⟨long, rest, notNamed⟩
    have isLong (beyond : CString) :
        copiedValue value beyond =
          value.chars.take 127 ++ beyond.chars := by
      rw [copiedValue, if_neg long]
    -- what the memory holds decides, whatever the list says
    have unnamed : ¬ Names value.chars tid := by
      rw [← follows rest, excludeTid_iff some, isLong]
      exact notNamed
    apply unnamed
    rw [← follows (namingTid tid.toNat), excludeTid_iff some, isLong]
    have named :=
      @names_of_namingTid (value.chars.take 127) tid.toNat (by
        rw [maxThreads] at high
        omega)
    rw [Int.toNat_of_nonneg low] at named
    exact named
  · intro inside beyond
    rw [excludeTid_iff some]
    by_cases short : value.chars.length < 127
    · rw [copiedValue, if_pos short]
    · have always := inside.resolve_left short
      rw [copiedValue, if_neg short]
      have whole :
          Names
            (value.chars.take 127 ++ value.chars.drop 127) tid :=
        always
          ⟨value.chars.drop 127,
            fun member => value.noNul (List.mem_of_mem_drop member)⟩
      rw [List.take_append_drop] at whole
      exact iff_of_true (always beyond) whole

/-- The records of a drawn id are discarded just if a list of at most 126
characters names it. -/
theorem tidOf_ofEnvironment_iff
    {value beyond : CString} {malloc : Int → Nat → Logentry} {tid : Int}
    (some : value.chars ≠ []) (short : value.chars.length < 127)
    (high : tid < maxThreads) :
    (Runtime.ofEnvironment (.some value) beyond malloc).tidOf tid =
        maxThreads ↔
      Names value.chars tid := by
  have excluded :
      excludeTid (.some value) beyond tid = true ↔ Names value.chars tid := by
    rw [excludeTid_iff some, copiedValue, if_pos short]
  rw [Runtime.tidOf, Runtime.ofEnvironment, ← excluded]
  by_cases isExcluded : excludeTid (.some value) beyond tid = true
  · rw [if_pos isExcluded]
    exact iff_of_true rfl isExcluded
  · rw [if_neg isExcluded]
    exact iff_of_false (ne_of_lt high) isExcluded

/-! ## A long list -/

/-- The ids from 0 to 49. -/
def fiftyIds : CString where
  chars :=
    ("0,1,2,3,4,5,6,7,8,9,10,11,12,13,14,15,16,17,18,19,20,21,22,23,24," ++
      "25,26,27,28,29,30,31,32,33,34,35,36,37,38,39,40,41,42,43,44,45,46," ++
      "47,48,49").toList
  noNul := by decide +kernel

theorem fiftyIds_follows_iff :
    (∀ beyond,
        excludeTid (some fiftyIds) beyond 49 = true ↔
          Names fiftyIds.chars 49) ↔
      fiftyIds.chars.length < 127 ∨
        ∀ rest : CString,
          Names (fiftyIds.chars.take 127 ++ rest.chars) 49 :=
  excludeTid_follows_list_iff (by decide +kernel) (by decide) (by decide)

/-- The last of the ids is cut off. -/
theorem excludeTid_misses_end_of_list :
    ¬ ∀ (value beyond : CString) (tid : Int),
      value.chars ≠ [] → 0 ≤ tid → tid < maxThreads →
        (excludeTid (some value) beyond tid = true ↔
          Names value.chars tid) := by
  intro always
  have follows :=
    always fiftyIds ⟨[], nofun⟩ 49 (by decide +kernel) (by decide)
      (by decide)
  have named : Names fiftyIds.chars 49 := by
    rw [← namesTid_iff]
    decide +kernel
  have missed : excludeTid (some fiftyIds) ⟨[], nofun⟩ 49 = false := by
    decide +kernel
  rw [follows.mpr named] at missed
  cases missed

end Dinamite.Trace
