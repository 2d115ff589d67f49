import Dinamite.Filter.InstrumentationFilter
import Dinamite.Glob

/-!
# What `globMatch` decides

`globMatch` stops at the end of the string unless exactly one `'*'` is left of
the pattern.  So it accepts the matches in which the second of two final stars
stands for at least one character, and these are all matches unless the pattern
ends in two stars.
-/

namespace Dinamite.Filter

open Dinamite.Glob

theorem globMatch_eq_matchesLast (glob s : List Char) :
    globMatch glob s = true ↔ MatchesLast '*' glob s := by
  fun_induction globMatch glob s with
  | case1 => simp [matchesLast_nil_iff]
  | case2 head tail => simp [matchesLast_nil_iff]
  | case3 first glob =>
      rw [matchesLast_empty_iff (List.cons_ne_nil first glob),
        decide_eq_true_iff]
  | case4 glob head s one more none =>
      rw [matchesLast_star_iff, Bool.or_eq_true, Bool.or_eq_true, one, more,
        none, or_assoc]
  | case5 first glob head s notStar different =>
      rw [matchesLast_char_iff notStar]
      simp [different]
  | case6 first glob head s notStar same continued =>
      rw [matchesLast_char_iff notStar, continued]
      simp [Classical.not_not.mp same]

/-- The pattern does not end in two stars, or the string has no match, or it
has one in which the last star stands for at least one character. -/
def FinalStarsStand (glob s : List Char) : Prop :=
  EndsInTwoStars '*' glob → Matches '*' glob s →
    ∃ pieces, Splits '*' glob pieces s ∧ LastStands pieces

theorem globMatch_decides_iff (glob s : List Char) :
    (globMatch glob s = true ↔ Matches '*' glob s) ↔
      FinalStarsStand glob s := by
  rw [globMatch_eq_matchesLast]
  constructor
  · intro decides ends matched
    obtain ⟨pieces, splits, last⟩ := decides.mpr matched
    exact ⟨pieces, splits, last ends⟩
  · intro stand
    refine ⟨MatchesLast.matches, fun matched => ?_⟩
    by_cases ends : EndsInTwoStars '*' glob
    · obtain ⟨pieces, splits, last⟩ := stand ends matched
      exact ⟨pieces, splits, fun _ => last⟩
    · obtain ⟨pieces, splits⟩ := matched
      exact ⟨pieces, splits, fun both => absurd both ends⟩

/-- Two stars match the empty string, but `globMatch` says no. -/
theorem globMatch_misses_empty :
    ¬ ∀ glob s : List Char,
      globMatch glob s = true ↔ Matches '*' glob s := by
  intro decides
  have matched : Matches '*' ['*', '*'] [] :=
    ⟨[[], []], (splits_nil.cons (Or.inl rfl)).cons (Or.inl rfl)⟩
  have accepted := (decides ['*', '*'] []).mpr matched
  simp [globMatch] at accepted

example : globMatch "a*c*d".toList "abcdd".toList = true := by
  simp [globMatch]

end Dinamite.Filter
