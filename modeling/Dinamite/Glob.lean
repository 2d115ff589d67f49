import Mathlib

/-!
# Patterns with a wildcard

A pattern is a list of characters, one of which, `star`, stands for any piece
of text; every other one stands for itself.
-/

namespace Dinamite.Glob

universe u

variable {α : Type u}

/-- What one character of a pattern stands for. -/
def Stands (star token : α) (piece : List α) : Prop :=
  token = star ∨ piece = [token]

/-- The text is split into one piece for every character of the pattern. -/
structure Splits
    (star : α) (glob : List α) (pieces : List (List α))
    (text : List α) : Prop where
  stands : List.Forall₂ (Stands star) glob pieces
  flatten : pieces.flatten = text

def Matches (star : α) (glob text : List α) : Prop :=
  ∃ pieces, Splits star glob pieces text

section Splits

variable {star token : α} {glob text : List α}
variable {pieces : List (List α)}

theorem splits_nil : Splits star [] [] ([] : List α) :=
  ⟨.nil, rfl⟩

theorem Splits.cons
    (splits : Splits star glob pieces text)
    {piece : List α} (stands : Stands star token piece) :
    Splits star (token :: glob) (piece :: pieces) (piece ++ text) :=
  ⟨.cons stands splits.stands, by rw [List.flatten_cons, splits.flatten]⟩

/-- The first piece of a split, and what is left. -/
theorem Splits.uncons
    (splits : Splits star (token :: glob) pieces text) :
    ∃ piece rest others,
      pieces = piece :: others ∧ text = piece ++ rest ∧
        Stands star token piece ∧ Splits star glob others rest := by
  cases splits.stands with
  | @cons _ piece _ others stands later =>
      refine ⟨piece, others.flatten, others, rfl, ?_, stands, later, rfl⟩
      rw [← splits.flatten, List.flatten_cons]

theorem Splits.length
    (splits : Splits star glob pieces text) :
    glob.length = pieces.length :=
  splits.stands.length_eq

theorem Splits.ne_nil
    (splits : Splits star glob pieces text) (some : glob ≠ []) :
    pieces ≠ [] := by
  intro same
  subst same
  exact some (List.eq_nil_of_length_eq_zero splits.length)

theorem splits_nil_iff :
    Splits star [] pieces text ↔ pieces = [] ∧ text = [] := by
  constructor
  · intro splits
    have none : pieces = [] :=
      List.eq_nil_of_length_eq_zero splits.length.symm
    refine ⟨none, ?_⟩
    rw [← splits.flatten, none, List.flatten_nil]
  · intro bothNil
    rcases bothNil with ⟨rfl, rfl⟩
    exact splits_nil

/-- A character that is no wildcard takes itself off the text. -/
theorem splits_char_iff
    (notStar : token ≠ star) {head : α} {rest : List α} :
    Splits star (token :: glob) pieces (head :: rest) ↔
      token = head ∧
        ∃ others, pieces = [token] :: others ∧
          Splits star glob others rest := by
  constructor
  · intro splits
    rcases splits.uncons with ⟨piece, left, others, rfl, isText, stands, later⟩
    rcases stands with isStar | rfl
    · exact absurd isStar notStar
    · rcases List.cons.inj isText with ⟨rfl, rfl⟩
      exact ⟨rfl, others, rfl, later⟩
  · intro splitOff
    rcases splitOff with ⟨rfl, others, rfl, later⟩
    exact later.cons (Or.inr rfl)

end Splits

section Matches

variable {star token : α} {glob text : List α}

theorem matches_nil_iff : Matches star [] text ↔ text = [] := by
  simp [Matches, splits_nil_iff]

/-- Without text there is nothing but wildcards. -/
theorem eq_star_of_splits_nil
    {pieces : List (List α)} (splits : Splits star glob pieces []) :
    ∀ character ∈ glob, character = star := by
  induction glob generalizing pieces with
  | nil => exact nofun
  | cons token glob inductionHypothesis =>
      rcases splits.uncons with ⟨piece, rest, others, _, isText, stands, later⟩
      have bothNil := List.append_eq_nil_iff.mp isText.symm
      rw [bothNil.2] at later
      intro character member
      rcases List.mem_cons.mp member with rfl | deeper
      · rcases stands with isStar | isChar
        · exact isStar
        · rw [bothNil.1] at isChar
          cases isChar
      · exact inductionHypothesis later character deeper

/-- A character that is no wildcard stands in the text. -/
theorem mem_of_splits
    {pieces : List (List α)} (splits : Splits star glob pieces text)
    (member : token ∈ glob) (notStar : token ≠ star) : token ∈ text := by
  induction glob generalizing pieces text with
  | nil => cases member
  | cons first glob inductionHypothesis =>
      rcases splits.uncons with
        ⟨piece, rest, others, _, isText, stands, later⟩
      rw [isText]
      rcases List.mem_cons.mp member with here | further
      · apply List.mem_append_left
        rw [here] at notStar ⊢
        rw [stands.resolve_left notStar]
        exact List.mem_singleton_self first
      · apply List.mem_append_right
        exact inductionHypothesis later further

/-- A pattern that accepts another pattern accepts what that one accepts. -/
theorem Matches.trans
    {other : List α} (outer : Matches star glob other)
    (inner : Matches star other text) : Matches star glob text := by
  rcases outer with ⟨pieces, splits⟩
  induction glob generalizing pieces other text with
  | nil =>
      rw [matches_nil_iff.mp ⟨pieces, splits⟩] at inner
      exact inner
  | cons token glob inductionHypothesis =>
      rcases splits.uncons with
        ⟨piece, rest, others, _, isOther, stands, later⟩
      rw [isOther] at inner
      rcases inner with ⟨textPieces, textSplits⟩
      have front := List.forall₂_take piece.length textSplits.stands
      have back := List.forall₂_drop piece.length textSplits.stands
      rw [List.take_left] at front
      rw [List.drop_left] at back
      have whole :
          text =
            (textPieces.take piece.length).flatten ++
              (textPieces.drop piece.length).flatten := by
        rw [← List.flatten_append, List.take_append_drop,
          textSplits.flatten]
      rcases inductionHypothesis ⟨_, back, rfl⟩ others later with
        ⟨restPieces, restSplits⟩
      rw [whole]
      refine ⟨_, restSplits.cons ?_⟩
      rcases stands with isStar | isToken
      · exact Or.inl isStar
      · -- a character that stands for itself does so in the text as well
        rw [isToken] at front ⊢
        rcases List.forall₂_cons_left_iff.mp front with
          ⟨found, none, first, last, same⟩
        rw [List.forall₂_nil_left_iff.mp last] at same
        rw [same, List.flatten_singleton]
        exact first

end Matches

/-! ## Patterns that end in two wildcards -/

/-- The last two characters are wildcards. -/
def EndsInTwoStars (star : α) (glob : List α) : Prop :=
  [star, star] <:+ glob

/-- The last piece is not empty. -/
def LastStands (pieces : List (List α)) : Prop :=
  pieces.getLast? ≠ some []

/-- A match in which the second of two final wildcards stands for at least one
character. -/
def MatchesLast (star : α) (glob text : List α) : Prop :=
  ∃ pieces, Splits star glob pieces text ∧
    (EndsInTwoStars star glob → LastStands pieces)

section MatchesLast

variable {star token : α} {glob text : List α}

theorem MatchesLast.matches
    (matched : MatchesLast star glob text) : Matches star glob text := by
  obtain ⟨pieces, splits, _⟩ := matched
  exact ⟨pieces, splits⟩

theorem endsInTwoStars_cons_iff :
    EndsInTwoStars star (token :: glob) ↔
      (token = star ∧ glob = [star]) ∨ EndsInTwoStars star glob := by
  simp only [EndsInTwoStars, List.suffix_cons_iff, List.cons.injEq,
    eq_comm (a := star), eq_comm (a := [star])]

theorem EndsInTwoStars.ne_nil
    (ends : EndsInTwoStars star glob) : glob ≠ [] := by
  intro same
  subst same
  exact absurd (List.suffix_nil.mp ends) (List.cons_ne_nil _ _)

theorem lastStands_cons
    {piece : List α} {pieces : List (List α)} (some : pieces ≠ []) :
    LastStands (piece :: pieces) ↔ LastStands pieces := by
  rcases List.exists_cons_of_ne_nil some with ⟨head, tail, rfl⟩
  rw [LastStands, List.getLast?_cons_cons, LastStands]

theorem not_endsInTwoStars_singleton : ¬ EndsInTwoStars star [token] := by
  intro ends
  have short := ends.length_le
  simp at short

theorem matchesLast_nil_iff : MatchesLast star [] text ↔ text = [] := by
  constructor
  · intro matched
    exact matches_nil_iff.mp matched.matches
  · intro same
    subst same
    exact ⟨[], splits_nil, fun ends => absurd rfl ends.ne_nil⟩

/-- Only a single wildcard matches the empty text. -/
theorem matchesLast_empty_iff (some : glob ≠ []) :
    MatchesLast star glob [] ↔ glob = [star] := by
  constructor
  · intro isMatch
    rcases isMatch with ⟨pieces, splits, last⟩
    have allStars := eq_star_of_splits_nil splits
    by_contra notSingle
    have ends : EndsInTwoStars star glob := by
      rw [List.eq_replicate_of_mem allStars] at notSingle some ⊢
      cases glob with
      | nil => exact absurd rfl some
      | cons token glob =>
          cases glob with
          | nil => exact absurd rfl notSingle
          | cons other glob =>
              refine ⟨List.replicate glob.length star, ?_⟩
              rw [show [star, star] = List.replicate 2 star from rfl,
                List.replicate_append_replicate]
              rfl
    have piecesSome : pieces ≠ [] := splits.ne_nil some
    have emptyPieces := List.flatten_eq_nil_iff.mp splits.flatten
    refine last ends ?_
    rw [List.getLast?_eq_some_getLast piecesSome,
      emptyPieces _ (List.getLast_mem piecesSome)]
  · intro same
    subst same
    refine ⟨[[]], splits_nil.cons (Or.inl rfl), fun ends => ?_⟩
    exact absurd ends not_endsInTwoStars_singleton

theorem matchesLast_char_iff
    (notStar : token ≠ star) {head : α} {rest : List α} :
    MatchesLast star (token :: glob) (head :: rest) ↔
      token = head ∧ MatchesLast star glob rest := by
  have sameEnd :
      EndsInTwoStars star (token :: glob) ↔ EndsInTwoStars star glob := by
    rw [endsInTwoStars_cons_iff]
    exact or_iff_right fun isStar => notStar isStar.1
  constructor
  · intro isMatch
    rcases isMatch with ⟨pieces, splits, last⟩
    rcases (splits_char_iff notStar).mp splits with
      ⟨isHead, others, rfl, later⟩
    refine ⟨isHead, others, later, fun ends => ?_⟩
    exact (lastStands_cons (later.ne_nil ends.ne_nil)).mp
      (last (sameEnd.mpr ends))
  · intro further
    rcases further with ⟨isHead, others, later, last⟩
    refine ⟨[token] :: others,
      (splits_char_iff notStar).mpr ⟨isHead, others, rfl, later⟩, ?_⟩
    intro ends
    have someGlob := (sameEnd.mp ends).ne_nil
    exact (lastStands_cons (later.ne_nil someGlob)).mpr
      (last (sameEnd.mp ends))

/-- The pattern goes on behind the first of two final wildcards. -/
theorem EndsInTwoStars.tail_ne_nil
    (ends : EndsInTwoStars star (token :: glob)) : glob ≠ [] := by
  intro same
  subst same
  exact not_endsInTwoStars_singleton ends

/-- A wildcard may stand for any piece in front of what is matched. -/
theorem MatchesLast.cons_star
    (matched : MatchesLast star glob text) (piece : List α)
    (some : piece ++ text ≠ []) :
    MatchesLast star (star :: glob) (piece ++ text) := by
  by_cases single : glob = [star]
  · -- two wildcards: the second one takes everything
    subst single
    have whole : Splits star [star] [piece ++ text] (piece ++ text) := by
      simpa using splits_nil.cons (Or.inl rfl)
    refine ⟨[[], piece ++ text], whole.cons (Or.inl rfl), fun _ => ?_⟩
    simpa [LastStands] using some
  · obtain ⟨pieces, splits, last⟩ := matched
    refine ⟨piece :: pieces, splits.cons (Or.inl rfl), fun ends => ?_⟩
    have later : EndsInTwoStars star glob :=
      (endsInTwoStars_cons_iff.mp ends).resolve_left fun both =>
        single both.2
    exact (lastStands_cons (splits.ne_nil ends.tail_ne_nil)).mpr
      (last later)

/-- A wildcard in front of text stands for one character, for more, or for
none. -/
theorem matchesLast_star_iff {head : α} {rest : List α} :
    MatchesLast star (star :: glob) (head :: rest) ↔
      MatchesLast star glob rest ∨
        MatchesLast star (star :: glob) rest ∨
          MatchesLast star glob (head :: rest) := by
  constructor
  · intro isMatch
    rcases isMatch with ⟨pieces, splits, last⟩
    rcases splits.uncons with ⟨piece, left, others, rfl, isText, _, later⟩
    have lastOthers (ends : EndsInTwoStars star (star :: glob)) :
        LastStands others :=
      (lastStands_cons (later.ne_nil ends.tail_ne_nil)).mp (last ends)
    cases piece with
    | nil =>
        obtain rfl : head :: rest = left := isText
        refine Or.inr (Or.inr ⟨others, later, fun ends => ?_⟩)
        exact lastOthers (endsInTwoStars_cons_iff.mpr (Or.inr ends))
    | cons first piece =>
        rcases List.cons.inj isText with ⟨rfl, rfl⟩
        refine Or.inr (Or.inl
          ⟨piece :: others, later.cons (Or.inl rfl), fun ends => ?_⟩)
        exact (lastStands_cons (later.ne_nil ends.tail_ne_nil)).mpr
          (lastOthers ends)
  · intro either
    rcases either with one | more | none
    · exact one.cons_star [head] (List.cons_ne_nil head rest)
    · rcases more with ⟨pieces, splits, last⟩
      rcases splits.uncons with ⟨piece, left, others, rfl, rfl, _, later⟩
      refine ⟨(head :: piece) :: others, later.cons (Or.inl rfl),
        fun ends => ?_⟩
      have someOthers := later.ne_nil ends.tail_ne_nil
      exact (lastStands_cons someOthers).mpr
        ((lastStands_cons someOthers).mp (last ends))
    · exact none.cons_star [] (List.cons_ne_nil head rest)

/-- Wildcards accept every text but the empty one. -/
theorem matchesLast_of_stars
    (allStars : ∀ character ∈ glob, character = star) (some : glob ≠ [])
    (someText : text ≠ []) : MatchesLast star glob text := by
  induction glob with
  | nil => exact absurd rfl some
  | cons token glob inductionHypothesis =>
      rw [allStars token List.mem_cons_self]
      by_cases last : glob = []
      · subst last
        refine ⟨[text], ?_, fun ends => ?_⟩
        · have whole : Splits star [star] [text] (text ++ []) :=
            splits_nil.cons (Or.inl rfl)
          rw [List.append_nil] at whole
          exact whole
        · exact absurd ends not_endsInTwoStars_singleton
      · have later :=
          inductionHypothesis
            (fun character member =>
              allStars character (List.mem_cons_of_mem _ member))
            last
        exact later.cons_star [] someText

end MatchesLast

end Dinamite.Glob
