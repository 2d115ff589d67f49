import Mathlib

/-!
# Separated text

Texts put together from fields with a separator between or behind them, and
when the fields can be told from the text.
-/

namespace Dinamite.Fields

universe u

variable {α : Type u} {separator : α}

/-- Every field with the separator in front of it. -/
def preceded (separator : α) (fields : List (List α)) : List α :=
  fields.flatMap fun field => separator :: field

/-- Every field with the separator behind it. -/
def terminated (separator : α) (fields : List (List α)) : List α :=
  fields.flatMap fun field => field ++ [separator]

/-- The fields with the separator between them. -/
def joined (separator : α) : List (List α) → List α
  | [] => []
  | first :: fields => first ++ preceded separator fields

theorem preceded_append (separator : α) (front back : List (List α)) :
    preceded separator (front ++ back) =
      preceded separator front ++ preceded separator back :=
  List.flatMap_append

theorem joined_append
    (separator : α) (first : List α) (front back : List (List α)) :
    joined separator (first :: front ++ back) =
      joined separator (first :: front) ++ preceded separator back := by
  simp only [joined, List.cons_append, preceded_append, List.append_assoc]

/-- The text in front of the first separator. -/
theorem append_cons_inj
    {left right leftRest rightRest : List α}
    (leftFree : separator ∉ left) (rightFree : separator ∉ right)
    (same : left ++ separator :: leftRest =
      right ++ separator :: rightRest) :
    left = right ∧ leftRest = rightRest := by
  induction left generalizing right with
  | nil =>
      cases right with
      | nil => exact ⟨rfl, (List.cons.inj same).2⟩
      | cons head right =>
          have isSeparator : separator = head := (List.cons.inj same).1
          rw [isSeparator] at rightFree
          exact absurd List.mem_cons_self rightFree
  | cons head left inductionHypothesis =>
      cases right with
      | nil =>
          have isSeparator : head = separator := (List.cons.inj same).1
          rw [isSeparator] at leftFree
          exact absurd List.mem_cons_self leftFree
      | cons other right =>
          rcases List.cons.inj same with ⟨rfl, continued⟩
          have deeper :=
            inductionHypothesis
              (fun member => leftFree (List.mem_cons_of_mem _ member))
              (fun member => rightFree (List.mem_cons_of_mem _ member))
              continued
          exact ⟨congrArg (List.cons head) deeper.1, deeper.2⟩

/-- The text behind the last separator. -/
theorem append_cons_inj_right
    {left right leftField rightField : List α}
    (leftFree : separator ∉ leftField) (rightFree : separator ∉ rightField)
    (same : left ++ separator :: leftField =
      right ++ separator :: rightField) :
    left = right ∧ leftField = rightField := by
  have reversed := congrArg List.reverse same
  simp only [List.reverse_append, List.reverse_cons, List.append_assoc,
    List.singleton_append] at reversed
  have both :=
    append_cons_inj (by simpa using leftFree) (by simpa using rightFree)
      reversed
  exact ⟨List.reverse_injective both.2, List.reverse_injective both.1⟩

/-- As many fields as are free of the separator can be read from the right. -/
theorem append_preceded_inj
    {left right : List α} {leftFields rightFields : List (List α)}
    (sameLength : leftFields.length = rightFields.length)
    (leftFree : ∀ field ∈ leftFields, separator ∉ field)
    (rightFree : ∀ field ∈ rightFields, separator ∉ field)
    (same : left ++ preceded separator leftFields =
      right ++ preceded separator rightFields) :
    left = right ∧ leftFields = rightFields := by
  induction leftFields using List.reverseRecOn generalizing rightFields with
  | nil =>
      have none : rightFields = [] :=
        List.eq_nil_of_length_eq_zero sameLength.symm
      subst none
      simpa [preceded] using same
  | append_singleton leftFields leftLast inductionHypothesis =>
      rcases List.eq_nil_or_concat rightFields with
        rfl | ⟨rightInit, rightLast, rfl⟩
      · simp at sameLength
      · rw [List.concat_eq_append] at *
        rw [preceded_append, preceded_append] at same
        simp only [preceded, List.flatMap_cons, List.flatMap_nil,
          List.append_nil, ← List.append_assoc] at same
        have peeled :=
          append_cons_inj_right
            (leftFree leftLast (by simp)) (rightFree rightLast (by simp))
            same
        have deeper :=
          inductionHypothesis (by simpa using sameLength)
            (fun field member => leftFree field (by simp [member]))
            (fun field member => rightFree field (by simp [member]))
            peeled.1
        exact ⟨deeper.1, by rw [deeper.2, peeled.2]⟩

/-- Lines free of their terminator can be read from their text. -/
theorem terminated_inj
    {leftFields rightFields : List (List α)}
    (leftFree : ∀ field ∈ leftFields, separator ∉ field)
    (rightFree : ∀ field ∈ rightFields, separator ∉ field)
    (same : terminated separator leftFields =
      terminated separator rightFields) :
    leftFields = rightFields := by
  induction leftFields generalizing rightFields with
  | nil =>
      cases rightFields with
      | nil => rfl
      | cons right rightFields => simp [terminated] at same
  | cons left leftFields inductionHypothesis =>
      cases rightFields with
      | nil => simp [terminated] at same
      | cons right rightFields =>
          simp only [terminated, List.flatMap_cons, List.append_assoc,
            List.singleton_append] at same
          have peeled :=
            append_cons_inj (leftFree left List.mem_cons_self)
              (rightFree right List.mem_cons_self) same
          have deeper :=
            inductionHypothesis
              (fun field member =>
                leftFree field (List.mem_cons_of_mem _ member))
              (fun field member =>
                rightFree field (List.mem_cons_of_mem _ member))
              peeled.2
          rw [peeled.1, deeper]

theorem not_mem_joined
    {other : α} (different : other ≠ separator) {fields : List (List α)}
    (free : ∀ field ∈ fields, other ∉ field) :
    other ∉ joined separator fields := by
  cases fields with
  | nil => exact List.not_mem_nil
  | cons first fields =>
      intro member
      rcases List.mem_append.mp member with front | later
      · exact free first List.mem_cons_self front
      · rcases List.mem_flatMap.mp later with ⟨field, isField, here⟩
        rcases List.mem_cons.mp here with isSeparator | inField
        · exact different isSeparator
        · exact free field (List.mem_cons_of_mem _ isField) inField

end Dinamite.Fields
