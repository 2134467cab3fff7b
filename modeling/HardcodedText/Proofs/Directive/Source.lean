import HardcodedText.Proofs.Directive.Cell
import HardcodedText.Proofs.Scanner.Parentheses

/-!
The cells of a text whose comments are hidden. The copy is the text without its comments. What is
asked of the cells is asked here of each comment: what stands before it and behind it, and what it
holds.
-/

namespace HardcodedText

/-! Where comments begin and end. -/

/-- A comment begins with a slash, and ends with a slash, before a line feed or with the text. -/
structure CommentIn (index : Nat) (text : Text) (span : Span) : Prop where
  head : text[span.start - index]? = some '/'
  last : text[span.stop - 1 - index]? = some '/' ∨ text[span.stop - index]? = some '\n' ∨
    span.stop = index + text.length

theorem CommentIn.append {index : Nat} {front text : Text} {span : Span}
    (comment : CommentIn (index + front.length) text span)
    (first : index + front.length ≤ span.start) (order : span.start < span.stop) :
    CommentIn index (front ++ text) span where
  head := by
    rw [List.getElem?_append_right (by omega), Nat.sub_sub]
    exact comment.head
  last := by
    have before : span.stop - 1 - index - front.length =
        span.stop - 1 - (index + front.length) := by
      omega
    have behind : span.stop - index - front.length = span.stop - (index + front.length) := by omega
    rw [List.getElem?_append_right (by omega), List.getElem?_append_right (by omega), before,
      behind, List.length_append, ← Nat.add_assoc]
    exact comment.last

theorem Encloses.lineFeed {index start : Nat} {inner rest : Text}
    (encloses : Encloses index (.lineComment start) inner rest) : rest.head? = some '\n' := by
  have arrives := encloses.arrives
  have quiet := encloses.quiet
  obtain rfl : start = index := encloses.start_eq
  have shape : (Enclosure.lineComment start).written inner = '/' :: '/' :: inner := by
    simp [Enclosure.written, Enclosure.opener, Enclosure.terminator]
  have inside : ((Cursor.code.next start '/' ('/' :: inner ++ rest)).advance (start + 1)
      ('/' :: inner) rest).mode.enclosure = some (.lineComment start) := by
    apply Cursor.enclosed_of_quiet
    · simp [Cursor.next, Cursor.code, Mode.consume, Mode.settle, Mode.step, stepCode, isQuote,
        Mode.enclosure]
    · intro moment member
      have bound := quiet moment (by
        rw [shape, List.cons_append, Cursor.closings_cons]
        exact List.mem_append_right _ member)
      simp only [Enclosure.opener, List.length_append, List.length_cons, List.length_nil] at bound ⊢
      omega
  rw [shape, Cursor.advance] at arrives
  cases rest with
  | nil =>
      rw [arrives.2] at inside
      simp [Mode.enclosure] at inside
  | cons c rest =>
      by_contra other
      have noLineFeed : c ≠ '\n' := by
        rintro rfl
        exact other rfl
      rw [arrives.eq_code noLineFeed] at inside
      simp [Mode.enclosure, Cursor.code] at inside

theorem Encloses.commentIn {index : Nat} {enclosure : Enclosure} {inner rest : Text}
    (encloses : Encloses index enclosure inner rest) (comment : enclosure.isComment = true) :
    CommentIn index (enclosure.written inner ++ rest)
      ⟨index, index + (enclosure.written inner).length⟩ := by
  cases enclosure with
  | literal delimiter first => simp [Enclosure.isComment] at comment
  | lineComment first =>
      obtain ⟨more, split⟩ := List.head?_eq_some_iff.mp encloses.lineFeed
      refine ⟨by simp [Enclosure.written, Enclosure.opener], Or.inr (Or.inl ?_)⟩
      rw [Nat.add_sub_cancel_left, List.getElem?_append_right (Nat.le_refl _), Nat.sub_self, split]
      rfl
  | blockComment first =>
      refine ⟨by simp [Enclosure.written, Enclosure.opener], Or.inl ?_⟩
      have shape : (Enclosure.blockComment first).written inner =
          '/' :: '*' :: inner ++ ['*'] ++ ['/'] := by
        simp [Enclosure.written, Enclosure.opener, Enclosure.terminator]
      have place : index + ((Enclosure.blockComment first).written inner).length - 1 - index =
          ('/' :: '*' :: inner ++ ['*']).length := by
        simp only [shape, List.length_append, List.length_cons, List.length_nil]
        omega
      simp only [place]
      rw [shape, List.append_assoc, List.getElem?_append_right (Nat.le_refl _), Nat.sub_self]
      rfl

theorem LeftOpen.slash {index : Nat} {enclosure : Enclosure} {c : Char} {rest : Text}
    (left : LeftOpen index enclosure (c :: rest)) (comment : enclosure.isComment = true) :
    c = '/' := by
  rcases left.head with quote | slash
  · have entered := left.enters
    simp only [Cursor.next, Cursor.code, Mode.consume, Mode.settle, Mode.step, stepCode, quote,
      if_true, Mode.enclosure, Option.some_inj] at entered
    subst entered
    simp [Enclosure.isComment] at comment
  · exact slash

theorem commentIn_of_mem_spansFrom (length index : Nat) (text : Text) :
    ∀ span ∈ (commentSelection length fun _ => true).spansFrom index text,
      CommentIn index text span := by
  have bounds {index : Nat} {text : Text} {span : Span}
      (member : span ∈ (commentSelection length fun _ => true).spansFrom index text) :=
    (inertFrom_ordered index text).bounded span (Selection.spansFrom_subset index text member)
  induction index, text using code_induction with
  | nil index =>
      intro span member
      simpa using Selection.spansFrom_subset index [] member
  | plain index c rest _ step ih =>
      intro span member
      rw [Selection.spansFrom_plain step] at member
      obtain ⟨first, order, -⟩ := bounds member
      have later : CommentIn (index + [c].length) rest span := ih span member
      exact later.append first order
  | closed index enclosure inner rest encloses ih =>
      intro span member
      obtain ⟨before, listed⟩ := encloses.closings_eq
      rw [Selection.spansFrom_closed encloses (listed rest (Erases.refl rest)), closed_closingAt,
        List.mem_append] at member
      rcases member with here | later
      · split at here
        next comment =>
          rw [List.mem_singleton.mp here]
          exact encloses.commentIn comment
        next => simp at here
      · obtain ⟨first, order, -⟩ := bounds later
        exact (ih span later).append first order
  | unclosed index enclosure text nonempty left =>
      intro span member
      rw [Selection.spansFrom_unclosed left, unclosed_of_enclosure left.inside] at member
      split at member
      next comment =>
        rw [List.mem_singleton.mp member]
        cases text with
        | nil => exact absurd rfl nonempty
        | cons c rest =>
            refine ⟨?_, Or.inr (Or.inr rfl)⟩
            rw [left.slash comment, Nat.sub_self]
            rfl
      next => simp at member

theorem commentIn_of_mem_commentSpans {text : Text} {span : Span}
    (member : span ∈ commentSpans text) : CommentIn 0 text span := by
  have chosen := filter_commentSpans (fun _ => true) text
  rw [List.filter_true] at chosen
  rw [chosen] at member
  exact commentIn_of_mem_spansFrom text.length 0 text span member

/-! The cells of a text. -/

def commentCells (text : Text) : List Cell :=
  text.zipIdx.map fun (c, offset) => ⟨c, (commentSpans text).any (·.contains offset)⟩

theorem getElem?_commentCells (text : Text) (place : Nat) :
    (commentCells text)[place]? =
      text[place]?.map fun c => ⟨c, (commentSpans text).any (·.contains place)⟩ := by
  rw [commentCells, List.getElem?_map, List.getElem?_zipIdx, Option.map_map]
  cases text[place]? with
  | none => rfl
  | some c => simp

@[simp] theorem shown_commentCells (text : Text) : shown (commentCells text) = text := by
  apply List.ext_getElem?
  intro place
  rw [shown, List.getElem?_map, getElem?_commentCells, Option.map_map]
  cases text[place]? <;> rfl

theorem stripComments_nil (text : Text) :
    stripComments text [] = blankOut isLineEnd (commentSpans text) text := by
  have all : (commentSpans text).filter (fun span => !isMarked [] text span) = commentSpans text :=
    List.filter_eq_self.mpr fun _ _ => rfl
  rw [stripComments_eq, all]

/-- The kept comments go with the others when all are removed. -/
theorem stripComments_nil_stripComments (text : Text) (markers : List Text) :
    stripComments (stripComments text markers) [] = stripComments text [] := by
  rw [stripComments_nil, stripComments_nil, commentSpans_stripComments, stripComments_eq,
    blankOut_blankOut]
  exact blankOut_perm _ (List.filter_append_perm _ _) text

@[simp] theorem veiled_commentCells (text : Text) :
    veiled (commentCells text) = stripComments text [] := by
  apply List.ext_getElem?
  intro place
  rw [stripComments_nil, getElem?_blankOut, veiled, List.getElem?_map, getElem?_commentCells,
    Option.map_map]
  cases text[place]? <;> rfl

section Cells

variable {text : Text} {front back : List Cell} {cell : Cell}
  (split : commentCells text = front ++ cell :: back)

include split

theorem read_of_split : text[front.length]? = some cell.char ∧
    cell.hidden = (commentSpans text).any (·.contains front.length) := by
  have read : (commentCells text)[front.length]? = some cell := by
    rw [split, List.getElem?_append_right (Nat.le_refl _), Nat.sub_self]
    rfl
  rw [getElem?_commentCells, Option.map_eq_some_iff] at read
  obtain ⟨c, found, rfl⟩ := read
  exact ⟨found, rfl⟩

theorem exists_span_of_hidden (hidden : cell.hidden = true) :
    ∃ span ∈ commentSpans text, span.start ≤ front.length ∧ front.length < span.stop := by
  rw [(read_of_split split).2, List.any_eq_true] at hidden
  obtain ⟨span, listed, covers⟩ := hidden
  rw [Span.contains_iff] at covers
  exact ⟨span, listed, covers⟩

theorem outside_of_visible (visible : cell.isVisible) {span : Span}
    (listed : span ∈ commentSpans text) : front.length < span.start ∨ span.stop ≤ front.length := by
  rw [Cell.isVisible, (read_of_split split).2, List.any_eq_false] at visible
  have covers := visible span listed
  rw [Span.contains_iff] at covers
  omega

end Cells

/-- A comment that is set apart from the code around it: it stands behind no name, dot or literal
and before no literal, argument list or colon, blanks and other comments aside, and it holds no
quote, no colon and no keyword that matters for a call. -/
structure StandsApart (text : Text) (span : Span) : Prop where
  before : ∀ c ∈ (Text.trimEnd ((stripComments text []).take span.start)).getLast?,
    isWordChar c = false ∧ isQuote c = false ∧ c ≠ '.'
  after : ∀ c ∈ (Text.trimStart ((stripComments text []).drop span.stop)).head?, MayFollow c
  quiet : ∀ c ∈ span.of text, isQuote c = false ∧ c ≠ ':'
  wordless : ∀ word ∈ "const".toList :: denyingKeywords, Text.occursIn word (span.of text) = false

instance (text : Text) (span : Span) : Decidable (StandsApart text span) :=
  decidable_of_iff
    ((Text.trimEnd ((stripComments text []).take span.start)).getLast?.all
        (fun c => !isWordChar c && !isQuote c && c != '.') = true ∧
      (Text.trimStart ((stripComments text []).drop span.stop)).head?.all
        (fun c => decide (MayFollow c)) = true ∧
      (span.of text).all (fun c => !isQuote c && c != ':') = true ∧
      ∀ word ∈ "const".toList :: denyingKeywords, Text.occursIn word (span.of text) = false)
    ⟨fun ⟨before, after, quiet, wordless⟩ =>
        ⟨by simpa [Option.all_eq_true, and_assoc] using before,
          by simpa [Option.all_eq_true] using after, by simpa using quiet, wordless⟩,
      fun apart => ⟨by simpa [Option.all_eq_true, and_assoc] using apart.before,
        by simpa [Option.all_eq_true] using apart.after, by simpa using apart.quiet,
        apart.wordless⟩⟩

section StandsApart

variable {text : Text} (apart : ∀ span ∈ commentSpans text, StandsApart text span)

theorem opens_commentCells {cell next : Cell} (pair : [cell, next] <:+: commentCells text)
    (visible : cell.isVisible) (hidden : next.hidden = true) : next.char = '/' := by
  obtain ⟨left, right, whole⟩ := pair
  have first : commentCells text = left ++ cell :: next :: right := by simp [← whole]
  have second : commentCells text = (left ++ [cell]) ++ next :: right := by simp [← whole]
  obtain ⟨span, listed, start, stop⟩ := exists_span_of_hidden second hidden
  have outside := outside_of_visible first visible listed
  have head := (commentIn_of_mem_commentSpans listed).head
  rw [List.length_append, List.length_singleton] at start stop
  have place : span.start - 0 = (left ++ [cell]).length := by
    rw [List.length_append, List.length_singleton]
    omega
  rw [place, (read_of_split second).1, Option.some_inj] at head
  exact head

theorem closes_commentCells {cell next : Cell} (pair : [cell, next] <:+: commentCells text)
    (hidden : cell.hidden = true) (visible : next.isVisible) :
    cell.char = '/' ∨ next.char = '\n' := by
  obtain ⟨left, right, whole⟩ := pair
  have first : commentCells text = left ++ cell :: next :: right := by simp [← whole]
  have second : commentCells text = (left ++ [cell]) ++ next :: right := by simp [← whole]
  obtain ⟨span, listed, start, stop⟩ := exists_span_of_hidden first hidden
  have outside := outside_of_visible second visible listed
  rw [List.length_append, List.length_singleton] at outside
  have place : span.stop = (left ++ [cell]).length := by
    rw [List.length_append, List.length_singleton]
    omega
  have read := (read_of_split second).1
  rcases (commentIn_of_mem_commentSpans listed).last with slash | lineFeed | ends
  · have before : span.stop - 1 - 0 = left.length := by omega
    rw [before, (read_of_split first).1, Option.some_inj] at slash
    exact Or.inl slash
  · rw [Nat.sub_zero, place, read, Option.some_inj] at lineFeed
    exact Or.inr lineFeed
  · have inside := (List.getElem?_eq_some_iff.mp read).1
    omega

theorem Span.infix_of {span : Span} {left run right : Text} (start : span.start ≤ left.length)
    (stop : left.length + run.length ≤ span.stop) : run <:+: span.of (left ++ run ++ right) := by
  rw [Span.of, List.append_assoc, List.drop_append_of_le_length start, List.take_append,
    List.take_append, List.length_drop, List.take_of_length_le (by omega : run.length ≤ _)]
  exact ⟨_, _, List.append_assoc _ _ _⟩

/-- Hidden cells that leave one comment enter another one, at its slash. -/
theorem slash_of_leaving {left run right : List Cell}
    (whole : left ++ run ++ right = commentCells text)
    (hidden : ∀ cell ∈ run, cell.hidden = true) {span : Span} (comment : span ∈ commentSpans text)
    (start : span.start ≤ left.length) (stop : left.length < span.stop)
    (short : span.stop < left.length + run.length) : '/' ∈ shown run := by
  obtain ⟨width, place⟩ : ∃ width, span.stop = left.length + width :=
    ⟨span.stop - left.length, by omega⟩
  have inside : width < run.length := by omega
  obtain ⟨before, behind, split, length⟩ := exists_split (List.getElem?_eq_getElem inside)
  generalize run[width] = cell at split
  subst split
  have split : commentCells text = (left ++ before) ++ cell :: (behind ++ right) := by
    simp [← whole]
  obtain ⟨next, listed, first, last⟩ := exists_span_of_hidden split (hidden cell (by simp))
  rw [List.length_append, length, ← place] at first last
  have entered : next.start = span.stop := by
    by_contra earlier
    have same : next = span := by
      have inNext : next.contains (span.stop - 1) = true := by
        rw [Span.contains_iff]
        omega
      have inSpan : span.contains (span.stop - 1) = true := by
        rw [Span.contains_iff]
        omega
      exact (commentSpans_ordered text).eq_of_contains listed comment inNext inSpan
    rw [same] at last
    omega
  have head := (commentIn_of_mem_commentSpans listed).head
  have here : next.start - 0 = (left ++ before).length := by
    rw [List.length_append, length]
    omega
  rw [here, (read_of_split split).1, Option.some_inj] at head
  rw [← head]
  exact List.mem_map_of_mem (by simp)

include apart

theorem before_commentCells {cell next : Cell} {gap : List Cell}
    (reach : cell :: (gap ++ [next]) <:+: commentCells text) (visible : cell.isVisible)
    (nonblank : isBlank cell.char = false) (blanks : ∀ other ∈ gap, isBlank other.veiled = true)
    (hidden : next.hidden = true) :
    isWordChar cell.char = false ∧ isQuote cell.char = false ∧ cell.char ≠ '.' := by
  obtain ⟨left, right, whole⟩ := reach
  have first : commentCells text = left ++ cell :: (gap ++ next :: right) := by simp [← whole]
  have second : commentCells text = (left ++ cell :: gap) ++ next :: right := by simp [← whole]
  obtain ⟨span, listed, start, stop⟩ := exists_span_of_hidden second hidden
  have outside := outside_of_visible first visible listed
  rw [List.length_append, List.length_cons] at start stop
  obtain ⟨width, place⟩ : ∃ width, span.start = left.length + (width + 1) :=
    ⟨span.start - left.length - 1, by omega⟩
  have taken : (commentCells text).take span.start = left ++ cell :: gap.take width := by
    rw [first, place, List.take_length_add_append, List.take_succ_cons,
      List.take_append_of_le_length (by omega)]
  have copied : (stripComments text []).take span.start =
      veiled left ++ cell.char :: veiled (gap.take width) := by
    rw [← veiled_commentCells, veiled, ← List.map_take, taken, List.map_append, List.map_cons,
      Cell.veiled_of_isVisible visible]
    rfl
  apply (apart span listed).before
  rw [copied, Text.trimEnd, List.getLast?_reverse, List.reverse_append, List.reverse_cons,
    List.append_assoc, List.singleton_append, Text.dropWhile_isBlank_append _ nonblank]
  · exact rfl
  · intro c member
    obtain ⟨other, inGap, rfl⟩ := List.mem_map.mp (List.mem_reverse.mp member)
    exact blanks other (List.mem_of_mem_take inGap)

theorem after_commentCells {cell next : Cell} {gap : List Cell}
    (reach : cell :: (gap ++ [next]) <:+: commentCells text) (hidden : cell.hidden = true)
    (blanks : ∀ other ∈ gap, isBlank other.veiled = true) (visible : next.isVisible)
    (nonblank : isBlank next.char = false) : MayFollow next.char := by
  obtain ⟨left, right, whole⟩ := reach
  have first : commentCells text = left ++ cell :: (gap ++ next :: right) := by simp [← whole]
  have second : commentCells text = (left ++ cell :: gap) ++ next :: right := by simp [← whole]
  obtain ⟨span, listed, start, stop⟩ := exists_span_of_hidden first hidden
  have outside := outside_of_visible second visible listed
  rw [List.length_append, List.length_cons] at outside
  obtain ⟨width, place⟩ : ∃ width, span.stop = left.length + (width + 1) :=
    ⟨span.stop - left.length - 1, by omega⟩
  have dropped : (commentCells text).drop span.stop = gap.drop width ++ next :: right := by
    rw [first, place, List.drop_length_add_append, List.drop_succ_cons,
      List.drop_append_of_le_length (by omega)]
  have copied : (stripComments text []).drop span.stop =
      veiled (gap.drop width) ++ next.char :: veiled right := by
    rw [← veiled_commentCells, veiled, ← List.map_drop, dropped, List.map_append, List.map_cons,
      Cell.veiled_of_isVisible visible]
    rfl
  apply (apart span listed).after
  rw [copied, Text.trimStart, Text.dropWhile_isBlank_append _ nonblank]
  · exact rfl
  · intro c member
    obtain ⟨other, inGap, rfl⟩ := List.mem_map.mp member
    exact blanks other (List.mem_of_mem_drop inGap)

theorem quiet_commentCells {cell : Cell} (member : cell ∈ commentCells text)
    (hidden : cell.hidden = true) : isQuote cell.char = false ∧ cell.char ≠ ':' := by
  obtain ⟨front, back, split⟩ := List.append_of_mem member
  obtain ⟨span, listed, start, stop⟩ := exists_span_of_hidden split hidden
  apply (apart span listed).quiet
  have read := (read_of_split split).1
  have place : span.start + (front.length - span.start) = front.length := by omega
  rw [← place, ← Span.getElem?_of (by omega)] at read
  exact List.mem_of_getElem? read

theorem wordless_commentCells {run : List Cell} (within : run <:+: commentCells text)
    (hidden : ∀ cell ∈ run, cell.hidden = true) :
    shown run ∉ "const".toList :: denyingKeywords := by
  intro listed
  have plain : ∀ word ∈ "const".toList :: denyingKeywords, word ≠ [] ∧ '/' ∉ word := by decide
  obtain ⟨nonempty, slashless⟩ := plain _ listed
  obtain ⟨left, right, whole⟩ := within
  obtain ⟨first, rest, rfl⟩ : ∃ first rest, run = first :: rest :=
    List.exists_cons_of_ne_nil fun empty => nonempty (by rw [empty]; rfl)
  have opens : commentCells text = left ++ first :: (rest ++ right) := by simp [← whole]
  obtain ⟨span, comment, start, stop⟩ := exists_span_of_hidden opens (hidden first (by simp))
  have reaches : left.length + (first :: rest).length ≤ span.stop := by
    by_contra short
    exact slashless (slash_of_leaving whole hidden comment start stop (by omega))
  have written : shown left ++ shown (first :: rest) ++ shown right = text := by
    rw [← shown_append, ← shown_append, whole, shown_commentCells]
  have occurs : Text.occursIn (shown (first :: rest)) (span.of text) = true := by
    rw [Text.occursIn_iff, ← written]
    exact Span.infix_of (by rwa [length_shown]) (by rwa [length_shown, length_shown])
  rw [(apart span comment).wordless _ listed] at occurs
  exact absurd occurs (by decide)

theorem setApart_commentCells : SetApart (commentCells text) where
  opens _ _ := opens_commentCells
  closes _ _ := closes_commentCells
  after _ _ _ := after_commentCells apart
  before _ _ _ := before_commentCells apart
  quiet _ := quiet_commentCells apart
  wordless _ := wordless_commentCells apart

end StandsApart

end HardcodedText
