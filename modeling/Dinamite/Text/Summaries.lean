import Dinamite.Text.Lines

/-!
# What a line says

Every line ends in the integer arguments of its call.  They are free of blanks,
so they can be read from the right whatever stands in front of them, a string
with spaces included.
-/

namespace Dinamite.Text

open Dinamite.Fields
open Dinamite.Trace

/-- The kind of a call and its integer arguments from the access kind on. -/
inductive Summary where
  | fnBegin (functionId : Int)
  | fnEnd (functionId : Int)
  | alloc (size num : BitVec 64) (type file line col : Int)
  | access (kind file line col typeId varId : Int)
  deriving DecidableEq

def Summary.ofAccess (access : Access) : Summary :=
  .access access.type access.file access.line access.col access.typeId
    access.varId

def LoggedCall.summary (logged : LoggedCall) : Summary :=
  match logged.call with
  | .logFnBegin functionId => .fnBegin functionId
  | .logFnEnd functionId => .fnEnd functionId
  | .logAlloc _ size num type file line col =>
      .alloc size num type file line col
  | .logAccessPtr _ access => .ofAccess access
  | .logAccessStaticString _ access => .ofAccess access
  | .logAccessI8 _ access => .ofAccess access
  | .logAccessI16 _ access => .ofAccess access
  | .logAccessI32 _ access => .ofAccess access
  | .logAccessI64 _ access => .ofAccess access
  | .logAccessF32 _ access => .ofAccess access
  | .logAccessF64 _ access => .ofAccess access

/-- An access is 'r', 'w' or 'a'. -/
def Summary.KindKnown : Summary → Prop
  | .access kind .. => IsAccessKind kind
  | _ => True

/-- The fields at the end of the line. -/
def Summary.fields : Summary → List (List Char)
  | .fnBegin functionId => [intText functionId]
  | .fnEnd functionId => [intText functionId]
  | .alloc size num type file line col =>
      [unsignedText size.toNat, unsignedText num.toNat, intText type,
        intText file, intText line, intText col]
  | .access kind file line col typeId varId =>
      [charText kind, intText file, intText line, intText col,
        intText typeId, intText varId]

/-- What can stand in front of these fields. -/
def Summary.Front : Summary → List Char → Prop
  | .fnBegin _, front => front = ['f', 'b']
  | .fnEnd _, front => front = ['f', 'e']
  | .alloc .., front =>
      ∃ start rest, front = start :: rest ∧ (start = '(' ∨ start = '0')
  | .access .., front =>
      ∃ start rest, front = start :: rest ∧ (start = '(' ∨ start = '0')

theorem body_access
    (valueText : List Char) (access : Access) :
    ∃ front, (Summary.ofAccess access).Front front ∧
      joined ' ' (accessFields valueText access) =
        front ++ preceded ' ' (Summary.ofAccess access).fields := by
  rcases pointerText_head access.ptr with ⟨start, rest, text, isStart⟩
  refine ⟨joined ' ' [pointerText access.ptr, valueText],
    ⟨start, rest ++ preceded ' ' [valueText], ?_, isStart⟩, ?_⟩
  · rw [joined, text, List.cons_append]
  · exact joined_append ' ' _ [valueText] (Summary.ofAccess access).fields

/-- A line ends in the fields of its summary. -/
theorem body_eq (logged : LoggedCall) :
    ∃ front, logged.summary.Front front ∧
      logged.body = front ++ preceded ' ' logged.summary.fields := by
  rcases logged with ⟨call, pointee⟩
  cases call with
  | logFnBegin functionId => exact ⟨['f', 'b'], rfl, rfl⟩
  | logFnEnd functionId => exact ⟨['f', 'e'], rfl, rfl⟩
  | logAlloc addr size num type file line col =>
      exact ⟨pointerText addr, pointerText_head addr, rfl⟩
  | logAccessPtr value access => exact body_access _ access
  | logAccessStaticString value access => exact body_access _ access
  | logAccessI8 value access => exact body_access _ access
  | logAccessI16 value access => exact body_access _ access
  | logAccessI32 value access => exact body_access _ access
  | logAccessI64 value access => exact body_access _ access
  | logAccessF32 bits access => exact body_access _ access
  | logAccessF64 bits access => exact body_access _ access

/-- No blank in the fields a line ends in. -/
theorem fields_not_blank
    {summary : Summary} (known : summary.KindKnown)
    {field : List Char} (isField : field ∈ summary.fields)
    {char : Char} (member : char ∈ field) : ¬ IsBlank char := by
  cases summary with
  | fnBegin functionId =>
      obtain rfl := List.mem_singleton.mp isField
      exact intText_not_blank member
  | fnEnd functionId =>
      obtain rfl := List.mem_singleton.mp isField
      exact intText_not_blank member
  | alloc size num type file line col =>
      simp only [Summary.fields, List.mem_cons, List.not_mem_nil,
        or_false] at isField
      rcases isField with rfl | rfl | rfl | rfl | rfl | rfl
      · exact unsignedText_not_blank member
      · exact unsignedText_not_blank member
      all_goals exact intText_not_blank member
  | access kind file line col typeId varId =>
      simp only [Summary.fields, List.mem_cons, List.not_mem_nil,
        or_false] at isField
      rcases isField with rfl | rfl | rfl | rfl | rfl | rfl
      · exact charText_not_blank known member
      all_goals exact intText_not_blank member

theorem space_not_mem_fields
    {summary : Summary} (known : summary.KindKnown) :
    ∀ field ∈ summary.fields, ' ' ∉ field :=
  fun _ isField member =>
    fields_not_blank known isField member (Or.inl rfl)

/-- Begin and end events print a tag, every other line starts with a
pointer. -/
def Summary.isEvent : Summary → Bool
  | .fnBegin _ => true
  | .fnEnd _ => true
  | _ => false

theorem length_fields (summary : Summary) :
    summary.fields.length = if summary.isEvent then 1 else 6 := by
  cases summary <;> rfl

/-- The first character of a line tells events from the others. -/
theorem Summary.Front.head
    {summary : Summary} {front : List Char} (fits : summary.Front front) :
    ∃ start rest, front = start :: rest ∧
      (summary.isEvent = true ↔ start = 'f') := by
  have pointer :
      (∃ start rest, front = start :: rest ∧
        (start = '(' ∨ start = '0')) →
      ∃ start rest, front = start :: rest ∧
        (false = true ↔ start = 'f') := by
    intro isPointer
    rcases isPointer with ⟨start, rest, rfl, isStart⟩
    refine ⟨start, rest, rfl, ?_⟩
    rcases isStart with rfl | rfl
    · decide
    · decide
  cases summary with
  | fnBegin functionId =>
      exact ⟨'f', ['b'], fits, fun _ => rfl, fun _ => rfl⟩
  | fnEnd functionId =>
      exact ⟨'f', ['e'], fits, fun _ => rfl, fun _ => rfl⟩
  | alloc => exact pointer fits
  | access => exact pointer fits

/-- What stands in front of the fields and the fields can be told from the
line. -/
theorem front_and_fields_eq
    {left right : Summary}
    (leftKnown : left.KindKnown) (rightKnown : right.KindKnown)
    {leftFront rightFront : List Char}
    (leftFits : left.Front leftFront) (rightFits : right.Front rightFront)
    (same : leftFront ++ preceded ' ' left.fields =
      rightFront ++ preceded ' ' right.fields) :
    leftFront = rightFront ∧ left.fields = right.fields := by
  rcases leftFits.head with ⟨leftStart, leftRest, leftText, leftHead⟩
  rcases rightFits.head with ⟨rightStart, rightRest, rightText, rightHead⟩
  have sameStart : leftStart = rightStart := by
    rw [leftText, rightText] at same
    exact (List.cons.inj same).1
  have sameEvent : left.isEvent = right.isEvent := by
    rw [Bool.eq_iff_iff, leftHead, rightHead, sameStart]
  refine append_preceded_inj ?_ (space_not_mem_fields leftKnown)
    (space_not_mem_fields rightKnown) same
  rw [length_fields, length_fields, sameEvent]

/-- The summary of a call is determined by its line. -/
theorem summary_eq_of_front
    {left right : Summary}
    (leftKnown : left.KindKnown) (rightKnown : right.KindKnown)
    {leftFront rightFront : List Char}
    (leftFits : left.Front leftFront) (rightFits : right.Front rightFront)
    (same : leftFront ++ preceded ' ' left.fields =
      rightFront ++ preceded ' ' right.fields) :
    left = right := by
  rcases front_and_fields_eq leftKnown rightKnown leftFits rightFits same with
    ⟨rfl, fields⟩
  have lengths := congrArg List.length fields
  cases left with
  | fnBegin leftId =>
      obtain rfl : leftFront = ['f', 'b'] := leftFits
      cases right with
      | fnBegin rightId => rw [intText_injective (List.cons.inj fields).1]
      | fnEnd rightId =>
          have tags : ['f', 'b'] = ['f', 'e'] := rightFits
          exact absurd tags (by decide)
      | alloc => cases lengths
      | access => cases lengths
  | fnEnd leftId =>
      obtain rfl : leftFront = ['f', 'e'] := leftFits
      cases right with
      | fnBegin rightId =>
          have tags : ['f', 'e'] = ['f', 'b'] := rightFits
          exact absurd tags (by decide)
      | fnEnd rightId => rw [intText_injective (List.cons.inj fields).1]
      | alloc => cases lengths
      | access => cases lengths
  | alloc leftSize leftNum =>
      cases right with
      | fnBegin rightId => cases lengths
      | fnEnd rightId => cases lengths
      | alloc rightSize rightNum =>
          simp only [Summary.fields, List.cons.injEq, and_true,
            unsignedText_injective.eq_iff, intText_injective.eq_iff,
            BitVec.toNat_inj] at fields
          simpa only [Summary.alloc.injEq] using fields
      | access =>
          exact absurd (List.cons.inj fields).1
            (unsignedText_ne_charText rightKnown)
  | access leftKind =>
      cases right with
      | fnBegin rightId => cases lengths
      | fnEnd rightId => cases lengths
      | alloc =>
          exact absurd (List.cons.inj fields).1.symm
            (unsignedText_ne_charText leftKnown)
      | access rightKind =>
          simp only [Summary.fields, List.cons.injEq, and_true,
            intText_injective.eq_iff] at fields
          rcases fields with ⟨kinds, others⟩
          have kind := charText_injOn leftKnown rightKnown kinds
          simpa only [Summary.access.injEq] using ⟨kind, others⟩

/-! ## Lines that can be read -/

/-- A string is printed without a newline in it. -/
def LoggedCall.OneLine (logged : LoggedCall) : Prop :=
  match logged.call with
  | .logAccessStaticString .. => '\n' ∉ logged.pointee.chars
  | _ => True

structure LoggedCall.Readable (logged : LoggedCall) : Prop where
  kindKnown : logged.summary.KindKnown
  oneLine : logged.OneLine

theorem newline_not_mem_of_not_blank
    {text : List Char} (printed : ∀ char ∈ text, ¬ IsBlank char) :
    '\n' ∉ text :=
  fun member => printed '\n' member (Or.inr rfl)

theorem newline_not_mem_accessFields
    {valueText : List Char} (valueLine : '\n' ∉ valueText)
    {access : Access} (known : IsAccessKind access.type) :
    ∀ field ∈ accessFields valueText access, '\n' ∉ field := by
  intro field isField
  rcases List.mem_cons.mp isField with rfl | later
  · exact newline_not_mem_of_not_blank fun _ => pointerText_not_blank
  · rcases List.mem_cons.mp later with rfl | trailing
    · exact valueLine
    · have summaryKnown : (Summary.ofAccess access).KindKnown := known
      have numbers : field ∈ (Summary.ofAccess access).fields := trailing
      exact newline_not_mem_of_not_blank fun _ =>
        fields_not_blank summaryKnown numbers

/-- A call prints one line. -/
theorem LoggedCall.Readable.newline_not_mem_body
    {logged : LoggedCall} (readable : logged.Readable) :
    '\n' ∉ logged.body := by
  rcases readable with ⟨known, oneLine⟩
  apply not_mem_joined (by decide)
  rcases logged with ⟨call, pointee⟩
  cases call with
  | logFnBegin functionId =>
      intro field isField
      rcases List.mem_cons.mp isField with rfl | number
      · decide
      · exact newline_not_mem_of_not_blank fun _ =>
          fields_not_blank known number
  | logFnEnd functionId =>
      intro field isField
      rcases List.mem_cons.mp isField with rfl | number
      · decide
      · exact newline_not_mem_of_not_blank fun _ =>
          fields_not_blank known number
  | logAlloc addr size num type file line col =>
      intro field isField
      rcases List.mem_cons.mp isField with rfl | numbers
      · exact newline_not_mem_of_not_blank fun _ => pointerText_not_blank
      · exact newline_not_mem_of_not_blank fun _ =>
          fields_not_blank known numbers
  | logAccessPtr value access =>
      exact newline_not_mem_accessFields
        (newline_not_mem_of_not_blank fun _ => pointerText_not_blank) known
  | logAccessStaticString value access =>
      exact newline_not_mem_accessFields oneLine known
  | logAccessI8 value access | logAccessI16 value access
  | logAccessI32 value access | logAccessI64 value access =>
      exact newline_not_mem_accessFields
        (newline_not_mem_of_not_blank fun _ => unsignedText_not_blank) known
  | logAccessF32 bits access | logAccessF64 bits access =>
      exact newline_not_mem_accessFields
        (newline_not_mem_of_not_blank fun _ => floatText_not_blank) known

theorem summary_eq_of_body_eq
    {left right : LoggedCall}
    (leftKnown : left.summary.KindKnown)
    (rightKnown : right.summary.KindKnown)
    (same : left.body = right.body) :
    left.summary = right.summary := by
  rcases body_eq left with ⟨leftFront, leftFits, leftBody⟩
  rcases body_eq right with ⟨rightFront, rightFits, rightBody⟩
  rw [leftBody, rightBody] at same
  exact summary_eq_of_front leftKnown rightKnown leftFits rightFits same

/-- There is one line for each call. -/
theorem count_newline_traceText
    {calls : List LoggedCall}
    (readable : ∀ logged ∈ calls, logged.Readable) :
    (traceText calls).count '\n' = calls.length := by
  induction calls with
  | nil => rfl
  | cons first rest inductionHypothesis =>
      rcases List.forall_mem_cons.mp readable with ⟨here, later⟩
      rw [traceText_cons, LoggedCall.line, List.append_assoc,
        List.count_append,
        List.count_eq_zero.mpr here.newline_not_mem_body,
        List.singleton_append, List.count_cons_self,
        inductionHypothesis later, List.length_cons, Nat.zero_add]

/-- The summaries of the calls are determined by the text. -/
theorem summaries_eq_of_traceText_eq
    {left right : List LoggedCall}
    (leftReadable : ∀ logged ∈ left, logged.Readable)
    (rightReadable : ∀ logged ∈ right, logged.Readable)
    (same : traceText left = traceText right) :
    left.map LoggedCall.summary = right.map LoggedCall.summary := by
  have bodies : left.map LoggedCall.body = right.map LoggedCall.body := by
    refine terminated_inj ?_ ?_ same
    · intro body isBody
      rcases List.mem_map.mp isBody with ⟨logged, member, rfl⟩
      exact (leftReadable logged member).newline_not_mem_body
    · intro body isBody
      rcases List.mem_map.mp isBody with ⟨logged, member, rfl⟩
      exact (rightReadable logged member).newline_not_mem_body
  clear same
  induction left generalizing right with
  | nil =>
      obtain rfl : right = [] := by simpa using bodies.symm
      rfl
  | cons first left inductionHypothesis =>
      cases right with
      | nil => simp at bodies
      | cons second right =>
          rcases List.cons.inj bodies with ⟨firstBody, laterBodies⟩
          have here :=
            summary_eq_of_body_eq
              (leftReadable first List.mem_cons_self).kindKnown
              (rightReadable second List.mem_cons_self).kindKnown firstBody
          have later :=
            inductionHypothesis
              (fun logged member =>
                leftReadable logged (List.mem_cons_of_mem _ member))
              (fun logged member =>
                rightReadable logged (List.mem_cons_of_mem _ member))
              laterBodies
          rw [List.map_cons, List.map_cons, here, later]

end Dinamite.Text
