import HardcodedText.Proofs.InertSpans
import HardcodedText.Proofs.Scanner.Boundary

/-!
The first lines of a text. What the scanner reads as code there does not depend on the lines that
follow, nor do the comments that end there. So up to a character in code the text without its
ordinary comments is that of the first lines alone.
-/

namespace HardcodedText

variable {front : Text}

theorem exists_run_append (ends : EndsLine front) (more : Text) :
    ∃ cursor : Cursor, run (front ++ more) = run front ++ cursor.run front.length more := by
  have split := Cursor.run_separated Cursor.sound_code (Or.inl ends : Separated front more) 0
  rw [Nat.zero_add] at split
  exact ⟨_, split⟩

theorem readAsCode_append (ends : EndsLine front) (more : Text) {offset : Nat}
    (within : offset < front.length) :
    ReadAsCode (front ++ more) offset ↔ ReadAsCode front offset := by
  obtain ⟨cursor, split⟩ := exists_run_append ends more
  rw [ReadAsCode, ReadAsCode, split]
  constructor
  · rintro ⟨moment, member, reads⟩
    rcases List.mem_append.mp member with here | later
    · exact ⟨moment, here, reads⟩
    · have behind := (Cursor.run_bounds later).1
      have first := reads.first
      omega
  · rintro ⟨moment, member, reads⟩
    exact ⟨moment, List.mem_append_left _ member, reads⟩

theorem stop_eq_of_mem_openComment {length : Nat} {mode : Mode} {span : Span}
    (member : span ∈ openComment length mode) : span.stop = length := by
  cases mode with
  | lineComment start =>
      obtain rfl := List.mem_singleton.mp member
      rfl
  | blockComment start depth =>
      obtain rfl := List.mem_singleton.mp member
      rfl
  | _ => simp [openComment] at member

theorem mem_commentSpans_of_closed {text : Text} {span : Span} (before : span.stop < text.length) :
    span ∈ commentSpans text ↔ span ∈ (run text).filterMap Moment.comment? := by
  rw [commentSpans, List.mem_append, or_iff_left]
  intro opened
  have stop := stop_eq_of_mem_openComment opened
  omega

theorem mem_commentSpans_append (ends : EndsLine front) (more : Text) {span : Span}
    (before : span.stop < front.length) :
    span ∈ commentSpans (front ++ more) ↔ span ∈ commentSpans front := by
  obtain ⟨cursor, split⟩ := exists_run_append ends more
  have within : span.stop < (front ++ more).length := by
    rw [List.length_append]
    omega
  rw [mem_commentSpans_of_closed before, mem_commentSpans_of_closed within, split,
    List.filterMap_append, List.mem_append, or_iff_left]
  intro later
  obtain ⟨moment, member, found⟩ := List.mem_filterMap.mp later
  have behind := (Cursor.run_bounds member).1
  have order := Cursor.le_next_of_mem_run member
  unfold Moment.comment? at found
  split at found
  next =>
    obtain rfl := Option.some_inj.mp found
    simp only at before
    omega
  next => simp at found

theorem isMarked_append {span : Span} (within : span.stop ≤ front.length) (markers : List Text)
    (more : Text) : isMarked markers (front ++ more) span = isMarked markers front span := by
  have slice : span.of (front ++ more) = span.of front := Span.of_append_left within more
  rw [isMarked, isMarked, slice]

theorem stop_le_of_readAsCode {text : Text} {offset : Nat} (inCode : ReadAsCode text offset)
    {span : Span} (comment : span ∈ commentSpans text) (begun : span.start ≤ offset) :
    span.stop ≤ offset := by
  have uncovered := List.any_eq_false.mp ((readAsCode_iff text offset).mp inCode).2 span
    ((commentSpans_sublist text).subset comment)
  rw [Span.contains_iff] at uncovered
  omega

/-- The ordinary comments that begin before a character in code are those of the first lines. -/
theorem mem_ordinary_append (ends : EndsLine front) (more : Text) (markers : List Text)
    {offset : Nat} (inCode : ReadAsCode front offset) {span : Span} (begun : span.start ≤ offset) :
    (span ∈ commentSpans (front ++ more) ∧ isMarked markers (front ++ more) span = false) ↔
      span ∈ commentSpans front ∧ isMarked markers front span = false := by
  have within := ((readAsCode_iff front offset).mp inCode).1
  constructor
  · rintro ⟨comment, unmarked⟩
    have inCode' := (readAsCode_append ends more within).mpr inCode
    have stop := stop_le_of_readAsCode inCode' comment begun
    rw [isMarked_append (by omega)] at unmarked
    exact ⟨(mem_commentSpans_append ends more (by omega)).mp comment, unmarked⟩
  · rintro ⟨comment, unmarked⟩
    have stop := stop_le_of_readAsCode inCode comment begun
    rw [← isMarked_append (by omega) markers more] at unmarked
    exact ⟨(mem_commentSpans_append ends more (by omega)).mpr comment, unmarked⟩

theorem take_stripComments_append (ends : EndsLine front) (more : Text) (markers : List Text)
    {offset : Nat} (inCode : ReadAsCode front offset) :
    (stripComments (front ++ more) markers).take offset =
      (stripComments front markers).take offset := by
  have within := ((readAsCode_iff front offset).mp inCode).1
  apply List.ext_getElem?
  intro place
  rw [List.getElem?_take, List.getElem?_take]
  split
  next before =>
    have blanked :
        ((commentSpans (front ++ more)).filter fun span =>
          !isMarked markers (front ++ more) span).any (·.contains place) =
        ((commentSpans front).filter fun span => !isMarked markers front span).any
          (·.contains place) := by
      rw [Bool.eq_iff_iff, List.any_eq_true, List.any_eq_true]
      apply exists_congr
      intro span
      rw [List.mem_filter, List.mem_filter, Bool.not_eq_true', Bool.not_eq_true',
        Span.contains_iff]
      apply and_congr_left
      intro covers
      exact mem_ordinary_append ends more markers inCode (by omega)
    rw [stripComments_eq, stripComments_eq, getElem?_blankOut, getElem?_blankOut,
      List.getElem?_append_left (by omega), blanked]
  next => rfl

end HardcodedText
