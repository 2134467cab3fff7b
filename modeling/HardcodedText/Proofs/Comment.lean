import HardcodedText.Proofs.Scanner.Blanking

/-!
A text without its ordinary comments. Only comments that hold none of the markers become blank:
the rest of the text, its lines and its literals stay, and so do the comments with a marker. What is
left has no ordinary comment, so that blanking it again changes nothing.
-/

namespace HardcodedText

def isMarked (markers : List Text) (text : Text) (span : Span) : Bool :=
  markers.any fun marker => marker.occursIn (span.of text)

def isLineEnd (c : Char) : Bool :=
  c == '\r' || c == '\n'

theorem stripComments_eq (text : Text) (markers : List Text) :
    stripComments text markers =
      blankOut isLineEnd ((commentSpans text).filter fun span => !isMarked markers text span)
        text :=
  rfl

@[simp] theorem length_stripComments (text : Text) (markers : List Text) :
    (stripComments text markers).length = text.length := by
  rw [stripComments_eq, length_blankOut]

theorem getElem?_blankOut (kept : Char → Bool) (spans : List Span) (text : Text)
    (offset : Nat) :
    (blankOut kept spans text)[offset]? =
      text[offset]?.map fun c => if !kept c && spans.any (·.contains offset) then ' ' else c := by
  rw [blankOut, List.getElem?_map, List.getElem?_zipIdx, Option.map_map]
  cases text[offset]? with
  | none => rfl
  | some c => simp

theorem blankOut_nil (kept : Char → Bool) (text : Text) : blankOut kept [] text = text := by
  rw [blankOut_eq]
  apply blankFrom_uncovered
  intro offset _ _
  rfl

theorem blankOut_blankOut (kept : Char → Bool) (spans others : List Span) (text : Text) :
    blankOut kept spans (blankOut kept others text) = blankOut kept (spans ++ others) text := by
  apply List.ext_getElem?
  intro place
  rw [getElem?_blankOut, getElem?_blankOut, getElem?_blankOut, Option.map_map, List.any_append]
  cases text[place]? with
  | none => rfl
  | some c =>
      simp only [Option.map_some, Function.comp_apply, Option.some_inj]
      cases stays : kept c <;> cases others.any (·.contains place) <;> simp [stays]

theorem blankOut_perm (kept : Char → Bool) {spans others : List Span} (same : spans.Perm others)
    (text : Text) : blankOut kept spans text = blankOut kept others text := by
  apply List.ext_getElem?
  intro place
  rw [getElem?_blankOut, getElem?_blankOut, same.any_eq]

theorem blankOut_lineEnd {kept : Char → Bool} {lineEnd : Char} (stays : kept lineEnd = true)
    (visible : lineEnd ≠ ' ') (spans : List Span) (text : Text) (offset : Nat) :
    (blankOut kept spans text)[offset]? = some lineEnd ↔ text[offset]? = some lineEnd := by
  rw [getElem?_blankOut]
  cases text[offset]? with
  | none => rfl
  | some c =>
      rw [Option.map_some, Option.some_inj, Option.some_inj]
      split
      next blanked =>
        constructor
        · intro blank
          exact absurd blank.symm visible
        · rintro rfl
          simp [stays] at blanked
      next => rfl

/-- A place of a list takes it apart. -/
theorem exists_split {α : Type} {values : List α} {place : Nat} {value : α}
    (read : values[place]? = some value) :
    ∃ before behind, values = before ++ value :: behind ∧ before.length = place := by
  obtain ⟨inside, rfl⟩ := List.getElem?_eq_some_iff.mp read
  refine ⟨values.take place, values.drop (place + 1), ?_, by rw [List.length_take]; omega⟩
  rw [← List.drop_eq_getElem_cons, List.take_append_drop]

/-! The comments of a text, apart from each other. -/

theorem SpansOrdered.sublist {first last : Nat} {spans fewer : List Span}
    (ordered : SpansOrdered first last spans) (sublist : fewer.Sublist spans) :
    SpansOrdered first last fewer :=
  ⟨ordered.apart.sublist sublist, fun span member => ordered.bounded span (sublist.subset member)⟩

theorem SpansOrdered.eq_of_contains {first last offset : Nat} {spans : List Span}
    (ordered : SpansOrdered first last spans) {left right : Span} (leftMember : left ∈ spans)
    (rightMember : right ∈ spans) (inLeft : left.contains offset = true)
    (inRight : right.contains offset = true) : left = right := by
  rw [Span.contains_iff] at inLeft inRight
  have apart : left = right ∨ left.stop ≤ right.start ∨ right.stop ≤ left.start := by
    apply List.Pairwise.forall_of_forall_of_flip (l := spans)
      (R := fun left right => left = right ∨ left.stop ≤ right.start ∨ right.stop ≤ left.start)
    · intro span _
      exact Or.inl rfl
    · exact ordered.apart.imp fun before => Or.inr (Or.inl before)
    · exact ordered.apart.imp fun before => Or.inr (Or.inr before)
    · exact leftMember
    · exact rightMember
  rcases apart with same | before | after
  · exact same
  · omega
  · omega

theorem commentSpans_sublist (text : Text) : (commentSpans text).Sublist (inertSpans text) := by
  apply List.Sublist.append
  · induction run text with
    | nil => exact List.Sublist.slnil
    | cons moment later ih =>
        rw [List.filterMap_cons, List.filterMap_cons]
        cases ends : moment.comment? with
        | none =>
            cases moment.inert? with
            | none => exact ih
            | some span => exact ih.cons span
        | some span =>
            rw [Moment.inert?_of_comment? ends]
            exact ih.cons_cons span
  · cases modeAfter (run text) with
    | lineComment start => exact List.Sublist.refl _
    | blockComment start depth => exact List.Sublist.refl _
    | _ => exact List.nil_sublist _

theorem commentSpans_ordered (text : Text) : SpansOrdered 0 text.length (commentSpans text) :=
  (inertSpans_ordered text).sublist (commentSpans_sublist text)

theorem filterMap_comment?_keeps (length : Nat) (chosen : Span → Bool) (moments : List Moment) :
    (moments.filter (commentSelection length chosen).keeps).filterMap Moment.comment? =
      (moments.filterMap Moment.comment?).filter fun span => !chosen span := by
  rw [List.filter_filterMap, List.filterMap_filter]
  apply List.filterMap_congr
  intro moment _
  cases ends : moment.comment? with
  | none => simp [Selection.keeps, commentSelection, ends]
  | some span =>
      cases here : chosen span <;>
        simp [Selection.keeps, commentSelection, ends, Option.filter, here]

theorem openComment_keeps (length : Nat) (chosen : Span → Bool) (mode : Mode) :
    openComment length (if (openComment length mode).any chosen then .code else mode) =
      (openComment length mode).filter fun span => !chosen span := by
  cases mode with
  | lineComment start => cases here : chosen ⟨start, length⟩ <;> simp [openComment, here]
  | blockComment start depth => cases here : chosen ⟨start, length⟩ <;> simp [openComment, here]
  | _ => rfl

theorem commentSpans_eq (text : Text) :
    commentSpans text = (Cursor.code.closings 0 text).filterMap Moment.comment? ++
      openComment text.length (Cursor.code.advance 0 text []).mode := by
  rw [filterMap_closings (fun _ _ => Moment.isClosing_of_comment?), ← Cursor.modeAfter_eq]
  rfl

/-- The comments that are left are those with a marker. -/
theorem commentSpans_stripComments (text : Text) (markers : List Text) :
    commentSpans (stripComments text markers) =
      (commentSpans text).filter (isMarked markers text) := by
  have blanks := blanks_stripComments text markers
  rw [commentSpans_eq, commentSpans_eq, blanks.closings_eq, blanks.mode_eq, length_stripComments,
    filterMap_comment?_keeps, List.filter_append]
  have marked : (fun span : Span => !(!markers.any fun marker => marker.occursIn (span.of text))) =
      isMarked markers text := by
    funext span
    rw [Bool.not_not, isMarked]
  rw [marked]
  congr 1
  exact (openComment_keeps _ _ _).trans (by rw [marked])

theorem mem_inertSpans_of_stripComments {text : Text} {markers : List Text} {span : Span}
    (member : span ∈ inertSpans (stripComments text markers)) : span ∈ inertSpans text := by
  have blanks := blanks_stripComments text markers
  rw [inertSpans_eq, inertFrom, List.mem_append] at member
  rw [inertSpans_eq, inertFrom, List.mem_append]
  rcases member with closed | opened
  · rw [blanks.closings_eq] at closed
    obtain ⟨moment, kept, ends⟩ := List.mem_filterMap.mp closed
    exact Or.inl (List.mem_filterMap.mpr ⟨moment, (List.mem_filter.mp kept).1, ends⟩)
  · rw [blanks.mode_eq, length_stripComments] at opened
    split at opened
    · simp [openInert] at opened
    · exact Or.inr opened

/-- A literal or comment stays one, unless it is a comment that becomes blank. -/
theorem mem_commentSpans_or_stripComments {text : Text} (markers : List Text) {span : Span}
    (member : span ∈ inertSpans text) :
    (span ∈ commentSpans text ∧ isMarked markers text span = false) ∨
      span ∈ inertSpans (stripComments text markers) := by
  by_cases comment : span ∈ commentSpans text
  · cases marked : isMarked markers text span with
    | false => exact Or.inl ⟨comment, rfl⟩
    | true =>
        refine Or.inr ((commentSpans_sublist _).subset ?_)
        rw [commentSpans_stripComments]
        exact List.mem_filter.mpr ⟨comment, marked⟩
  · have blanks := blanks_stripComments text markers
    rw [inertSpans_eq, inertFrom, List.mem_append] at member
    rw [commentSpans_eq, List.mem_append, not_or] at comment
    rw [inertSpans_eq, inertFrom, List.mem_append]
    refine Or.inr ?_
    rcases member with closed | opened
    · obtain ⟨moment, listed, ends⟩ := List.mem_filterMap.mp closed
      refine Or.inl (List.mem_filterMap.mpr ⟨moment, ?_, ends⟩)
      rw [blanks.closings_eq]
      refine List.mem_filter.mpr ⟨listed, ?_⟩
      cases found : moment.comment? with
      | none => simp [Selection.keeps, commentSelection, found]
      | some other =>
          obtain rfl := Option.some_inj.mp ((Moment.inert?_of_comment? found).symm.trans ends)
          exact absurd (List.mem_filterMap.mpr ⟨moment, listed, found⟩) comment.1
    · refine Or.inr ?_
      rw [blanks.mode_eq, length_stripComments]
      rw [Nat.zero_add] at opened ⊢
      generalize (Cursor.code.advance 0 text []).mode = mode at opened comment ⊢
      cases mode with
      | lineComment start => exact absurd opened comment.2
      | blockComment start depth => exact absurd opened comment.2
      | _ => exact opened

theorem getElem?_stripComments_of_kept {text : Text} {markers : List Text} {offset : Nat}
    (kept : ∀ span ∈ commentSpans text, span.contains offset = true →
      isMarked markers text span = true) :
    (stripComments text markers)[offset]? = text[offset]? := by
  have uncovered : ((commentSpans text).filter fun span => !isMarked markers text span).any
      (·.contains offset) = false := by
    rw [List.any_eq_false]
    intro span member covers
    obtain ⟨listed, unmarked⟩ := List.mem_filter.mp member
    rw [kept span listed covers] at unmarked
    exact absurd unmarked (by decide)
  rw [stripComments_eq, getElem?_blankOut, uncovered]
  simp

theorem getElem?_stripComments_of_blanked {text : Text} {markers : List Text} {span : Span}
    (listed : span ∈ commentSpans text) (unmarked : isMarked markers text span = false)
    {offset : Nat} (covers : span.contains offset = true) {c : Char}
    (read : text[offset]? = some c) :
    (stripComments text markers)[offset]? = some (if isLineEnd c then c else ' ') := by
  have covered : ((commentSpans text).filter fun span => !isMarked markers text span).any
      (·.contains offset) = true := by
    rw [List.any_eq_true]
    exact ⟨span, List.mem_filter.mpr ⟨listed, by rw [unmarked]; rfl⟩, covers⟩
  rw [stripComments_eq, getElem?_blankOut, covered, read, Option.map_some]
  cases lineEnd : isLineEnd c <;> simp

theorem Span.of_congr {span : Span} {text other : Text}
    (same : ∀ offset, span.contains offset = true → other[offset]? = text[offset]?) :
    span.of other = span.of text := by
  apply List.ext_getElem?
  intro place
  rw [Span.of, Span.of, List.getElem?_take, List.getElem?_take]
  split
  next inside =>
    rw [List.getElem?_drop, List.getElem?_drop]
    apply same
    rw [Span.contains_iff]
    omega
  next => rfl

theorem of_stripComments_of_marked {text : Text} {markers : List Text} {span : Span}
    (listed : span ∈ commentSpans text) (marked : isMarked markers text span = true) :
    span.of (stripComments text markers) = span.of text := by
  apply Span.of_congr
  intro offset inside
  apply getElem?_stripComments_of_kept
  intro other member covers
  obtain rfl := (commentSpans_ordered text).eq_of_contains member listed covers inside
  exact marked

theorem stripComments_stripComments (text : Text) (markers : List Text) :
    stripComments (stripComments text markers) markers = stripComments text markers := by
  have none : (commentSpans (stripComments text markers)).filter
      (fun span => !isMarked markers (stripComments text markers) span) = [] := by
    rw [commentSpans_stripComments, List.filter_eq_nil_iff]
    intro span member
    obtain ⟨listed, marked⟩ := List.mem_filter.mp member
    have still : isMarked markers (stripComments text markers) span = true := by
      rw [isMarked, of_stripComments_of_marked listed marked]
      exact marked
    rw [still]
    decide
  rw [stripComments_eq (stripComments text markers), none, blankOut_nil]

/-- Blanking the comments without a marker keeps the length, the line ends, everything outside of
them and the literals. The comments with a marker are left, no others, and blanking again changes
nothing. -/
theorem stripComments_keeps_all_but_ordinary (text : Text) (markers : List Text) :
    (stripComments text markers).length = text.length ∧
    (∀ lineEnd ∈ ['\n', '\r'], ∀ offset : Nat,
      (stripComments text markers)[offset]? = some lineEnd ↔ text[offset]? = some lineEnd) ∧
    (∀ offset : Nat, (∀ span ∈ commentSpans text, span.contains offset = true →
        isMarked markers text span = true) →
      (stripComments text markers)[offset]? = text[offset]?) ∧
    (∀ span ∈ commentSpans text, isMarked markers text span = false →
      ∀ (offset : Nat) (c : Char), span.contains offset = true → text[offset]? = some c →
        (stripComments text markers)[offset]? = some (if isLineEnd c then c else ' ')) ∧
    stringLiterals (stripComments text markers) = stringLiterals text ∧
    commentSpans (stripComments text markers) =
      (commentSpans text).filter (isMarked markers text) ∧
    stripComments (stripComments text markers) markers = stripComments text markers := by
  refine ⟨length_stripComments text markers, ?_, ?_, ?_, stringLiterals_stripComments text markers,
    commentSpans_stripComments text markers, stripComments_stripComments text markers⟩
  · intro lineEnd listed offset
    have ends : isLineEnd lineEnd = true ∧ lineEnd ≠ ' ' := by
      rcases List.mem_pair.mp listed with rfl | rfl <;> decide
    exact blankOut_lineEnd ends.1 ends.2 _ text offset
  · intro offset kept
    exact getElem?_stripComments_of_kept kept
  · intro span listed unmarked offset c covers read
    exact getElem?_stripComments_of_blanked listed unmarked covers read

theorem stripComments_keeps_all_but_ordinary_mixed :
    let text : Text := "f(/* a */'b'); // keep\n// c\r\n".toList
    let markers : List Text := ["keep".toList]
    isMarked markers text ⟨2, 9⟩ = false ∧ isMarked markers text ⟨15, 22⟩ = true ∧
      (stripComments text markers)[5]? = some ' ' ∧
      (stripComments text markers)[18]? = text[18]? ∧
      commentSpans (stripComments text markers) = [⟨15, 22⟩] := by
  intro text markers
  have comments : commentSpans text = [⟨2, 9⟩, ⟨15, 22⟩, ⟨23, 28⟩] := by decide
  have ordinary : isMarked markers text ⟨2, 9⟩ = false := by decide
  have marked : isMarked markers text ⟨15, 22⟩ = true := by decide
  obtain ⟨-, -, outside, inside, -, left, -⟩ := stripComments_keeps_all_but_ordinary text markers
  refine ⟨ordinary, marked, ?_, ?_, ?_⟩
  · exact inside ⟨2, 9⟩ (by rw [comments]; decide) ordinary 5 'a' (by decide) (by decide)
  · apply outside
    rw [comments]
    decide
  · rw [left, comments]
    decide

end HardcodedText
