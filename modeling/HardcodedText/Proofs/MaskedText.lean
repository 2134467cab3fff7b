import HardcodedText.Proofs.NamedToken
import HardcodedText.Proofs.Scanner.Insertion

/-!
A text without its literals. Only closed literals become blank: the rest of the text, its lines and
its comments stay, and so does a literal that is open at the end. What is left has no closed
literal, so that blanking it again changes nothing.
-/

namespace HardcodedText

def literalSelection : Selection where
  closed moment := moment.literalSpan?.isSome
  unclosed _ := false

theorem Moment.inert?_of_literalSpan? {moment : Moment} {span : Span}
    (ends : moment.literalSpan? = some span) : moment.inert? = some span := by
  unfold Moment.literalSpan? at ends
  split at ends
  next closes => simpa [Moment.inert?, closes] using ends
  next => simp at ends

theorem Moment.isClosing_of_literalSpan? {moment : Moment} {span : Span}
    (ends : moment.literalSpan? = some span) : moment.event.isClosing = true :=
  Moment.isClosing_of_inert? (Moment.inert?_of_literalSpan? ends)

theorem map_span_eq_spansFrom (text : Text) :
    (stringLiterals text).map StringLiteral.span = literalSelection.spansFrom 0 text := by
  have closed : (run text).filterMap Moment.literalSpan? =
      (Cursor.code.closings 0 text).filterMap Moment.literalSpan? :=
    (filterMap_closings (fun _ _ => Moment.isClosing_of_literalSpan?) Cursor.code 0 text).symm
  have still : literalSelection.unclosed (Cursor.code.advance 0 text []).mode = false := rfl
  rw [map_span_stringLiterals, closed, Selection.spansFrom, still, if_neg (by decide),
    List.append_nil, List.filterMap_filter]
  apply List.filterMap_congr
  intro moment _
  cases ends : moment.literalSpan? with
  | none => simp [literalSelection, ends]
  | some span => simp [literalSelection, ends, Moment.inert?_of_literalSpan? ends]

theorem blanks_maskLiterals (text : Text) :
    Blanks literalSelection 0 text (maskLiterals text) := by
  have harmless (c : Char) (stays : (c == '\n') = true) : isQuote c = false ∧ c ≠ '/' := by
    rw [beq_iff_eq.mp stays]
    decide
  refine blanks_blankFrom (by decide) harmless literalSelection 0 text _ ?_
  intro offset _
  rw [map_span_eq_spansFrom]

@[simp] theorem length_maskLiterals (text : Text) : (maskLiterals text).length = text.length := by
  rw [maskLiterals, length_blankOut]

theorem stringLiterals_maskLiterals (text : Text) : stringLiterals (maskLiterals text) = [] := by
  rw [stringLiterals_eq, (blanks_maskLiterals text).literals_eq, List.filterMap_eq_nil_iff]
  intro moment member
  have stays := (List.mem_filter.mp member).2
  cases closes : moment.event with
  | literalClose delimiter start =>
      simp [Selection.keeps, literalSelection, Moment.literalSpan?, closes] at stays
  | _ => simp [Moment.literalIn?, closes]

/-- No comment is lost with the literals, and what stands between them forms none. -/
theorem commentSpans_maskLiterals (text : Text) :
    commentSpans (maskLiterals text) = commentSpans text := by
  have blanks := blanks_maskLiterals text
  have closed : ((Cursor.code.closings 0 text).filter literalSelection.keeps).filterMap
      Moment.comment? = (Cursor.code.closings 0 text).filterMap Moment.comment? := by
    rw [List.filterMap_filter]
    apply List.filterMap_congr
    intro moment _
    cases closes : moment.event with
    | literalClose delimiter start => simp [Moment.comment?, closes]
    | _ => simp [Selection.keeps, literalSelection, Moment.literalSpan?, closes]
  rw [commentSpans_eq, commentSpans_eq, blanks.closings_eq, blanks.mode_eq, length_maskLiterals,
    closed]
  rfl

theorem getElem?_maskLiterals_outside {text : Text} {offset : Nat}
    (outside : ¬ InLiteral text offset) : (maskLiterals text)[offset]? = text[offset]? := by
  obtain ⟨covered, inside, copy⟩ := getElem?_maskLiterals text offset
  rw [← inside, Bool.not_eq_true] at outside
  rw [copy, outside]
  simp

theorem getElem?_maskLiterals_inside {text : Text} {offset : Nat} {c : Char}
    (within : InLiteral text offset) (read : text[offset]? = some c) :
    (maskLiterals text)[offset]? = some (if c = '\n' then '\n' else ' ') := by
  obtain ⟨covered, inside, copy⟩ := getElem?_maskLiterals text offset
  rw [copy, inside.mpr within, read, Option.map_some]
  by_cases lineFeed : c = '\n' <;> simp [lineFeed]

/-- Blanking the closed literals keeps the length, the line feeds, everything outside of them and
the comments. No closed literal is left, and blanking again changes nothing. -/
theorem maskLiterals_keeps_all_but_literals (text : Text) :
    (maskLiterals text).length = text.length ∧
    (∀ offset : Nat, (maskLiterals text)[offset]? = some '\n' ↔ text[offset]? = some '\n') ∧
    (∀ offset : Nat, ¬ InLiteral text offset →
      (maskLiterals text)[offset]? = text[offset]?) ∧
    (∀ (offset : Nat) (c : Char), InLiteral text offset → text[offset]? = some c →
      (maskLiterals text)[offset]? = some (if c = '\n' then '\n' else ' ')) ∧
    stringLiterals (maskLiterals text) = [] ∧
    commentSpans (maskLiterals text) = commentSpans text ∧
    maskLiterals (maskLiterals text) = maskLiterals text := by
  refine ⟨length_maskLiterals text, ?_, fun _ => getElem?_maskLiterals_outside,
    fun _ _ => getElem?_maskLiterals_inside, stringLiterals_maskLiterals text,
    commentSpans_maskLiterals text, ?_⟩
  · intro offset
    exact blankOut_lineEnd (by decide) (by decide) _ text offset
  · rw [maskLiterals, stringLiterals_maskLiterals, List.map_nil, blankOut_nil]

theorem maskLiterals_keeps_all_but_literals_unclosed :
    let text : Text := "a '''b\n// c''' /* 'd' */ /'e'* 'f // g".toList
    InLiteral text 7 ∧ ¬ InLiteral text 17 ∧ (maskLiterals text)[7]? = some ' ' ∧
      (maskLiterals text)[17]? = text[17]? ∧ stringLiterals (maskLiterals text) = [] ∧
      commentSpans (maskLiterals text) = [⟨15, 24⟩] := by
  intro text
  have literals : (stringLiterals text).map StringLiteral.span = [⟨2, 14⟩, ⟨26, 29⟩] := by decide
  have inside : InLiteral text 7 := inLiteral_iff.mp (by rw [literals]; decide)
  have outside : ¬ InLiteral text 17 := fun within =>
    absurd (inLiteral_iff.mpr within) (by rw [literals]; decide)
  obtain ⟨-, -, keeps, blanks, none, comments, -⟩ := maskLiterals_keeps_all_but_literals text
  refine ⟨inside, outside, ?_, keeps 17 outside, none, ?_⟩
  · exact blanks 7 '/' inside (by decide)
  · rw [comments]
    decide

end HardcodedText
