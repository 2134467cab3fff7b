import HardcodedText.Proofs.Detection
import HardcodedText.Proofs.Directive.Arguments
import HardcodedText.Proofs.Directive.Source

/-!
Argument lists of a text and of the text without its comments. Outside of the comments the same
places are inert, so a parenthesis in code opens an argument list in both texts or in none, and the
two lists are the shown and the veiled side of the same cells.
-/

namespace HardcodedText

/-! Literals and comments of the text without its comments. -/

/-- Outside of the comments the same places are inert in both texts. -/
theorem contains_inertSpans_stripComments {text : Text} {offset : Nat}
    (outside : ∀ span ∈ commentSpans text, span.contains offset = false) :
    (SpanSet.ofSpans (inertSpans (stripComments text []))).contains offset =
      (SpanSet.ofSpans (inertSpans text)).contains offset := by
  rw [SpanSet.contains_ofSpans (inertSpans_ordered _),
    SpanSet.contains_ofSpans (inertSpans_ordered _), Bool.eq_iff_iff, List.any_eq_true,
    List.any_eq_true]
  constructor
  · rintro ⟨span, listed, covers⟩
    exact ⟨span, mem_inertSpans_of_stripComments listed, covers⟩
  · rintro ⟨span, listed, covers⟩
    rcases mem_commentSpans_or_stripComments [] listed with ⟨comment, -⟩ | kept
    · rw [outside span comment] at covers
      exact absurd covers (by decide)
    · exact ⟨span, kept, covers⟩

theorem span_mem_inertSpans {text : Text} {literal : StringLiteral}
    (member : literal ∈ stringLiterals text) : literal.span ∈ inertSpans text := by
  rw [stringLiterals_eq] at member
  obtain ⟨moment, listed, found⟩ := List.mem_filterMap.mp member
  rw [inertSpans_eq]
  unfold Moment.literalIn? at found
  split at found
  next delimiter start closes =>
    have ends : moment.inert? = some ⟨start, moment.next⟩ := by simp [Moment.inert?, closes]
    have here : ⟨start, moment.next⟩ ∈ inertFrom 0 text :=
      List.mem_append_left _ (List.mem_filterMap.mpr ⟨moment, listed, ends⟩)
    have order := ((inertFrom_ordered 0 text).bounded _ here).2.1
    obtain rfl := Option.some_inj.mp found
    have stop : start + (moment.next - start) = moment.next := by
      simp only at order
      omega
    simpa [StringLiteral.span, StringLiteral.stop, stop] using here
  next => simp at found

/-- No literal reaches into a comment. -/
theorem literal_outside_comment {text : Text} {literal : StringLiteral} {span : Span} {offset : Nat}
    (member : literal ∈ stringLiterals text) (comment : span ∈ commentSpans text)
    (covers : span.contains offset = true) : literal.span.contains offset = false := by
  by_contra inside
  have same := (inertSpans_ordered text).eq_of_contains (span_mem_inertSpans member)
    ((commentSpans_sublist text).subset comment) (by simpa using inside) covers
  have slash := (commentIn_of_mem_commentSpans comment).head
  have start : span.start - 0 = literal.start := by
    rw [← same]
    rfl
  rw [start, (quotes_of_mem_stringLiterals member).1, Option.some_inj] at slash
  have quoted := (stringLiterals_writtenIn member).quoted
  rw [slash] at quoted
  exact absurd quoted (by decide)

theorem StringLiteral.shift_injective {distance : Nat} (left right : StringLiteral)
    (same : left.shift distance = right.shift distance) : left = right := by
  cases left
  cases right
  simpa [StringLiteral.shift] using same

/-! Argument lists. -/

section Arguments

variable {text : Text}

theorem literals_veiled {place : Nat} {cells : List Cell}
    (original : ArgumentsAt text place (shown cells))
    (copied : ArgumentsAt (stripComments text []) place (veiled cells)) :
    stringLiterals (veiled cells) = stringLiterals (shown cells) := by
  obtain ⟨front, more, split⟩ := original.split
  obtain ⟨front', more', split'⟩ := copied.split
  have literals := split.literals_eq
  have literals' := split'.literals_eq
  have range : argumentSpan place (veiled cells) = argumentSpan place (shown cells) := by
    rw [argumentSpan, argumentSpan, length_veiled, length_shown]
  rw [stringLiterals_stripComments, range, ← literals] at literals'
  exact (List.map_inj_right StringLiteral.shift_injective).mp literals'

theorem outsideHidden_of_split {front cells back : List Cell} {opening : Cell}
    (split : commentCells text = front ++ opening :: (cells ++ back))
    (original : ArgumentsAt text front.length (shown cells)) :
    OutsideHidden ((stringLiterals (shown cells)).map StringLiteral.span) cells where
  uncovered := by
    intro place cell read hidden
    rw [List.any_eq_false]
    intro span listed
    obtain ⟨literal, member, rfl⟩ := List.mem_map.mp listed
    obtain ⟨before, behind, rfl, rfl⟩ := exists_split read
    have here : commentCells text = (front ++ opening :: before) ++ cell :: (behind ++ back) := by
      simp [split]
    obtain ⟨comment, found, start, stop⟩ := exists_span_of_hidden here hidden
    obtain ⟨_, _, arguments⟩ := original.split
    have outside := literal_outside_comment (arguments.shift_mem member) found
      (Span.contains_iff.mpr ⟨start, stop⟩)
    rw [← Bool.not_eq_true, Span.contains_iff] at outside
    rw [Span.contains_iff]
    simp only [StringLiteral.span, StringLiteral.stop, StringLiteral.shift, List.length_append,
      List.length_cons] at outside ⊢
    omega
  quoted := by
    intro span listed
    obtain ⟨literal, member, rfl⟩ := List.mem_map.mp listed
    have written := stringLiterals_writtenIn member
    have first := (quotes_of_mem_stringLiterals member).1
    rw [shown, List.getElem?_map, Option.map_eq_some_iff] at first
    obtain ⟨cell, read, quote⟩ := first
    refine ⟨written.start_lt_stop, cell, read, ?_⟩
    rw [quote]
    exact written.quoted

variable (apart : ∀ span ∈ commentSpans text, StandsApart text span)

include apart

/-- A parenthesis in code opens the same argument list in both texts, if it is closed at all. -/
theorem exists_argumentCells {place : Nat} (parenthesis : text[place]? = some '(')
    (outside : ∀ span ∈ inertSpans text, span.contains place = false) :
    (extractBalanced text place = none ∧ extractBalanced (stripComments text []) place = none) ∨
      ∃ opening cells, ArgumentCells opening cells ∧
        extractBalanced text place = some (shown cells) ∧
        extractBalanced (stripComments text []) place = some (veiled cells) := by
  have lengths := length_extractBalanced_stripComments parenthesis outside
  cases original : extractBalanced text place with
  | none =>
      rw [original, Option.map_none, Option.map_eq_none_iff] at lengths
      exact Or.inl ⟨rfl, lengths⟩
  | some inside =>
      rw [original, Option.map_some, Option.map_eq_some_iff] at lengths
      obtain ⟨inside', copied, length⟩ := lengths
      obtain ⟨front, rest, split, rfl, balanced⟩ := extractBalanced_eq_some_iff.mp original
      obtain ⟨more, rfl⟩ := Cursor.balanced_eq_some balanced
      obtain ⟨front', rest', split', length', balanced'⟩ := extractBalanced_eq_some_iff.mp copied
      obtain ⟨more', rfl⟩ := Cursor.balanced_eq_some balanced'
      rw [← shown_commentCells text] at split
      obtain ⟨before, behind, cells, rfl, opened⟩ := List.map_eq_append_iff.mp split
      obtain ⟨opening, behind, rfl, isOpening, listed⟩ := List.map_eq_cons_iff.mp opened
      obtain ⟨args, behind, rfl, rfl, closed⟩ := List.map_eq_append_iff.mp listed
      -- The two lists have one length and begin at one place, so they are the same cells.
      have copy := split'
      rw [← veiled_commentCells, cells, veiled_append, veiled_cons, veiled_append] at copy
      rw [List.length_map] at length' parenthesis outside original copied
      obtain ⟨-, behindFront⟩ := List.append_inj copy (by rw [length_veiled, length'])
      obtain ⟨isCopied, behindOpening⟩ := List.cons_eq_cons.mp behindFront
      obtain ⟨rfl, -⟩ := List.append_inj behindOpening
        (by rw [length_veiled, length, List.length_map])
      have within : opening :: args <:+: commentCells text := ⟨before, behind, by simp [cells]⟩
      have arguments : ArgumentsAt text before.length (shown args) :=
        ⟨parenthesis, outside, original⟩
      have read : (stripComments text [])[before.length]? = some '(' := by
        rw [split', ← length', List.getElem?_append_right (Nat.le_refl _), Nat.sub_self]
        rfl
      have arguments' : ArgumentsAt (stripComments text []) before.length (veiled args) :=
        ⟨read, fun span listed => outside span (mem_inertSpans_of_stripComments listed), copied⟩
      refine Or.inr ⟨opening, args, ⟨(setApart_commentCells apart).of_isInfix within, ?_,
        literals_veiled arguments arguments', outsideHidden_of_split cells arguments⟩, rfl, ?_⟩
      · exact Cell.isVisible_of_veiled (by rw [isCopied]; decide)
      · rw [List.length_map]
        exact copied

end Arguments

end HardcodedText
