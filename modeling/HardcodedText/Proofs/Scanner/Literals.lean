import HardcodedText.Proofs.Scanner.Spans

/-!
The closed literals of a text. They are listed from left to right without overlap, and each of them
is written in the text where it says it begins.
-/

namespace HardcodedText

def Moment.literalIn? (index : Nat) (text : Text) (moment : Moment) : Option StringLiteral :=
  match moment.event with
  | .literalClose delimiter start =>
      some {
        delimiter := delimiter
        content := Span.of ⟨start + delimiter.width - index, moment.index - index⟩ text
        start := start
        length := moment.next - start }
  | _ => none

def literalsFrom (index : Nat) (text : Text) : List StringLiteral :=
  (Cursor.code.closings index text).filterMap (Moment.literalIn? index text)

def Enclosure.literal? (enclosure : Enclosure) (inner : Text) : Option StringLiteral :=
  match enclosure with
  | .literal delimiter start =>
      some ⟨delimiter, inner, start, (enclosure.written inner).length⟩
  | _ => none

theorem Moment.isClosing_of_literalIn? {index : Nat} {text : Text} {moment : Moment}
    {literal : StringLiteral} (found : moment.literalIn? index text = some literal) :
    moment.event.isClosing = true := by
  unfold Moment.literalIn? at found
  split at found
  · rename_i closes
    simp [closes, Event.isClosing]
  · simp at found

theorem stringLiterals_eq (text : Text) : stringLiterals text = literalsFrom 0 text := by
  rw [stringLiterals, literalsFrom, filterMap_closings (fun _ _ => Moment.isClosing_of_literalIn?)]
  rfl

theorem start_le_of_mem_closings {index : Nat} {text : Text} {moment : Moment} {span : Span}
    (member : moment ∈ Cursor.code.closings index text) (ends : moment.inert? = some span) :
    index ≤ span.start := by
  apply ((inertFrom_ordered index text).bounded span ?_).1
  rw [inertFrom, List.mem_append]
  exact Or.inl (List.mem_filterMap.mpr ⟨moment, member, ends⟩)

theorem Moment.literalIn?_append {index : Nat} {front text : Text} {moment : Moment}
    (member : moment ∈ Cursor.code.closings (index + front.length) text) :
    moment.literalIn? index (front ++ text) =
      moment.literalIn? (index + front.length) text := by
  cases closes : moment.event with
  | literalClose delimiter start =>
      have ends : moment.inert? = some ⟨start, moment.next⟩ := by simp [inert?, closes]
      have later : index + front.length ≤ start := start_le_of_mem_closings member ends
      have place : start + delimiter.width - index =
          front.length + (start + delimiter.width - (index + front.length)) := by omega
      have width : moment.index - index - (start + delimiter.width - index) =
          moment.index - (index + front.length) -
            (start + delimiter.width - (index + front.length)) := by omega
      simp only [literalIn?, closes, Span.of]
      rw [width, place, List.drop_length_add_append]
  | _ => simp [literalIn?, closes]

theorem filterMap_literalIn?_append (index : Nat) (front text : Text) :
    (Cursor.code.closings (index + front.length) text).filterMap
        (Moment.literalIn? index (front ++ text)) =
      literalsFrom (index + front.length) text := by
  apply List.filterMap_congr
  intro moment member
  exact Moment.literalIn?_append member

@[simp] theorem literalsFrom_nil (index : Nat) : literalsFrom index [] = [] := by
  simp [literalsFrom]

theorem literalsFrom_plain {index : Nat} {c : Char} {rest : Text}
    (step : Mode.code.step index c rest = ⟨.none, 1, .code⟩) :
    literalsFrom index (c :: rest) = literalsFrom (index + 1) rest := by
  rw [literalsFrom, closings_plain step]
  exact filterMap_literalIn?_append index [c] rest

theorem Enclosure.literalIn?_closingAt {index : Nat} {enclosure : Enclosure} {inner rest : Text}
    (start : enclosure.start = index) (before : Mode) :
    (enclosure.closingAt index inner before).literalIn? index (enclosure.written inner ++ rest) =
      enclosure.literal? inner := by
  cases enclosure with
  | literal delimiter first =>
      obtain rfl : first = index := start
      have content : Span.of ⟨delimiter.width, (delimiter.text ++ inner).length⟩
          (delimiter.text ++ inner ++ delimiter.text ++ rest) = inner := by
        rw [Span.of, List.length_append, Delimiter.length_text, Nat.add_sub_cancel_left,
          List.append_assoc, List.append_assoc, ← Delimiter.length_text, List.drop_left,
          List.take_left]
      simp only [Moment.literalIn?, Enclosure.closingAt, Enclosure.closing, Enclosure.literal?,
        Enclosure.opener, Nat.add_sub_cancel_left]
      rw [Enclosure.written, Enclosure.opener, Enclosure.terminator, content]
  | _ => rfl

theorem literalsFrom_of_closings {index : Nat} {enclosure : Enclosure} {inner rest : Text}
    {before : Mode} (start : enclosure.start = index)
    (listed : Cursor.code.closings index (enclosure.written inner ++ rest) =
      enclosure.closingAt index inner before ::
        Cursor.code.closings (index + (enclosure.written inner).length) rest) :
    literalsFrom index (enclosure.written inner ++ rest) =
      (enclosure.literal? inner).toList ++
        literalsFrom (index + (enclosure.written inner).length) rest := by
  rw [literalsFrom, listed, List.filterMap_cons, Enclosure.literalIn?_closingAt start,
    filterMap_literalIn?_append]
  cases enclosure.literal? inner <;> rfl

theorem literalsFrom_closed {index : Nat} {enclosure : Enclosure} {inner rest : Text}
    (encloses : Encloses index enclosure inner rest) :
    literalsFrom index (enclosure.written inner ++ rest) =
      (enclosure.literal? inner).toList ++
        literalsFrom (index + (enclosure.written inner).length) rest := by
  obtain ⟨before, listed⟩ := encloses.closings_eq
  exact literalsFrom_of_closings encloses.start_eq (listed rest (Erases.refl rest))

theorem literalsFrom_unclosed {index : Nat} {enclosure : Enclosure} {text : Text}
    (left : LeftOpen index enclosure text) : literalsFrom index text = [] := by
  rw [literalsFrom, left.silent]
  rfl

structure StringLiteral.WrittenIn (literal : StringLiteral) (index : Nat) (text : Text) : Prop where
  quoted : isQuote literal.delimiter.quote = true
  length_eq : literal.length = literal.raw.length
  first : index ≤ literal.start
  last : literal.stop ≤ index + text.length
  slice : Span.of ⟨literal.start - index, literal.stop - index⟩ text = literal.raw

theorem StringLiteral.WrittenIn.append {literal : StringLiteral} {index : Nat} {front text : Text}
    (written : literal.WrittenIn (index + front.length) text) :
    literal.WrittenIn index (front ++ text) where
  quoted := written.quoted
  length_eq := written.length_eq
  first := by
    have first := written.first
    omega
  last := by
    have last := written.last
    rw [List.length_append]
    omega
  slice := by
    have first := written.first
    have place : literal.start - index =
        front.length + (literal.start - (index + front.length)) := by omega
    have width : literal.stop - index - (literal.start - index) =
        literal.stop - (index + front.length) - (literal.start - (index + front.length)) := by
      omega
    rw [← written.slice, Span.of, Span.of]
    simp only
    rw [width, place, List.drop_length_add_append]

theorem Enclosure.literal?_writtenIn {index : Nat} {enclosure : Enclosure} {inner rest : Text}
    (encloses : Encloses index enclosure inner rest) {literal : StringLiteral}
    (found : enclosure.literal? inner = some literal) :
    literal.WrittenIn index (enclosure.written inner ++ rest) ∧ literal.start = index ∧
      literal.stop = index + (enclosure.written inner).length := by
  have start := encloses.start_eq
  have sound := encloses.sound
  cases enclosure with
  | literal delimiter first =>
      obtain rfl : first = index := start
      obtain rfl := Option.some_inj.mp found
      refine ⟨⟨sound, rfl, Nat.le_refl _, ?_, ?_⟩, rfl, rfl⟩
      · simp only [StringLiteral.stop, List.length_append]
        omega
      · simp only [StringLiteral.stop, StringLiteral.raw, Span.of, Nat.sub_self,
          Nat.add_sub_cancel_left, Nat.sub_zero, List.drop_zero]
        exact List.take_left
  | lineComment first => simp [Enclosure.literal?] at found
  | blockComment first => simp [Enclosure.literal?] at found

theorem literalsFrom_writtenIn (index : Nat) (text : Text) :
    ∀ literal ∈ literalsFrom index text, literal.WrittenIn index text := by
  induction index, text using code_induction with
  | nil index => simp
  | plain index c rest _ step ih =>
      intro literal member
      rw [literalsFrom_plain step] at member
      have written : literal.WrittenIn (index + [c].length) rest := ih literal member
      exact written.append
  | closed index enclosure inner rest encloses ih =>
      intro literal member
      rw [literalsFrom_closed encloses, List.mem_append, Option.mem_toList] at member
      rcases member with found | member
      · exact (Enclosure.literal?_writtenIn encloses found).1
      · exact (ih literal member).append
  | unclosed index enclosure text _ left => simp [literalsFrom_unclosed left]

theorem literalsFrom_apart (index : Nat) (text : Text) :
    (literalsFrom index text).Pairwise fun left right => left.stop ≤ right.start := by
  induction index, text using code_induction with
  | nil index => simp
  | plain index c rest _ step ih => rwa [literalsFrom_plain step]
  | closed index enclosure inner rest encloses ih =>
      rw [literalsFrom_closed encloses, List.pairwise_append]
      refine ⟨?_, ih, ?_⟩
      · cases enclosure.literal? inner <;> simp
      · intro literal found later member
        rw [Option.mem_toList] at found
        rw [(Enclosure.literal?_writtenIn encloses found).2.2]
        exact (literalsFrom_writtenIn _ _ later member).first
  | unclosed index enclosure text _ left => simp [literalsFrom_unclosed left]

theorem stringLiterals_apart (text : Text) :
    (stringLiterals text).Pairwise fun left right => left.stop ≤ right.start := by
  rw [stringLiterals_eq]
  exact literalsFrom_apart 0 text

theorem stringLiterals_writtenIn {text : Text} {literal : StringLiteral}
    (member : literal ∈ stringLiterals text) : literal.WrittenIn 0 text := by
  rw [stringLiterals_eq] at member
  exact literalsFrom_writtenIn 0 text literal member

theorem StringLiteral.WrittenIn.start_lt_stop {literal : StringLiteral} {index : Nat} {text : Text}
    (written : literal.WrittenIn index text) : literal.start < literal.stop := by
  have positive := List.length_pos_iff.mpr literal.delimiter.text_ne_nil
  have length := written.length_eq
  simp only [StringLiteral.raw, List.length_append] at length
  simp only [StringLiteral.stop]
  omega

theorem StringLiteral.WrittenIn.stop_eq {literal : StringLiteral} {index : Nat} {text : Text}
    (written : literal.WrittenIn index text) :
    literal.stop = literal.start + literal.content.length + 2 * literal.delimiter.width := by
  have length := written.length_eq
  simp only [StringLiteral.raw, List.length_append, Delimiter.length_text] at length
  simp only [StringLiteral.stop]
  omega

theorem Delimiter.getElem?_text {delimiter : Delimiter} {place : Nat}
    (inside : place < delimiter.width) : delimiter.text[place]? = some delimiter.quote := by
  have repeated : delimiter.text = List.replicate delimiter.width delimiter.quote := by
    cases delimiter with
    | mk quote tripled => cases tripled <;> rfl
  rw [repeated, List.getElem?_replicate, if_pos inside]

theorem quotes_of_mem_stringLiterals {text : Text} {literal : StringLiteral}
    (member : literal ∈ stringLiterals text) :
    text[literal.start]? = some literal.delimiter.quote ∧
      text[literal.stop - 1]? = some literal.delimiter.quote := by
  have written := stringLiterals_writtenIn member
  have slice : literal.span.of text = literal.raw := written.slice
  have order := written.start_lt_stop
  have stop := written.stop_eq
  have positive : 0 < literal.delimiter.width := by
    rw [← Delimiter.length_text]
    exact List.length_pos_iff.mpr literal.delimiter.text_ne_nil
  have read (place : Nat) (inside : place < literal.stop - literal.start) :
      text[literal.start + place]? = literal.raw[place]? := by
    have within : place < literal.span.stop - literal.span.start := inside
    rw [← slice, Span.getElem?_of within]
    rfl
  constructor
  · have first := read 0 (by omega)
    rw [Nat.add_zero] at first
    rw [first, StringLiteral.raw, List.append_assoc, List.getElem?_append_left
      (by rw [Delimiter.length_text]; omega), Delimiter.getElem?_text positive]
  · have last := read (literal.stop - literal.start - 1) (by omega)
    have place : literal.start + (literal.stop - literal.start - 1) = literal.stop - 1 := by omega
    rw [place] at last
    rw [last, StringLiteral.raw, List.getElem?_append_right
      (by rw [List.length_append, Delimiter.length_text]; omega), List.length_append,
      Delimiter.length_text, Delimiter.getElem?_text (by omega)]

theorem slice_of_mem_stringLiterals {text : Text} {literal : StringLiteral}
    (member : literal ∈ stringLiterals text) : literal.raw = literal.span.of text :=
  (stringLiterals_writtenIn member).slice.symm

theorem bounds_of_mem_stringLiterals {text : Text} {literal : StringLiteral}
    (member : literal ∈ stringLiterals text) :
    literal.start < literal.stop ∧ literal.stop ≤ text.length := by
  have written := stringLiterals_writtenIn member
  have last := written.last
  exact ⟨written.start_lt_stop, by omega⟩

theorem StringLiteral.head?_raw (literal : StringLiteral) :
    literal.raw.head? = some literal.delimiter.quote := by
  cases tripled : literal.delimiter.tripled <;> simp [raw, Delimiter.text, tripled]

theorem eq_or_apart_of_mem_stringLiterals {text : Text} {left right : StringLiteral}
    (leftMember : left ∈ stringLiterals text) (rightMember : right ∈ stringLiterals text) :
    left = right ∨ left.stop ≤ right.start ∨ right.stop ≤ left.start := by
  apply List.Pairwise.forall_of_forall_of_flip (l := stringLiterals text)
    (R := fun left right => left = right ∨ left.stop ≤ right.start ∨ right.stop ≤ left.start)
  · intro literal _
    exact Or.inl rfl
  · exact (stringLiterals_apart text).imp fun before => Or.inr (Or.inl before)
  · exact (stringLiterals_apart text).imp fun before => Or.inr (Or.inr before)
  · exact leftMember
  · exact rightMember

end HardcodedText
