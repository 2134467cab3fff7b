import HardcodedText.Proofs.Directive.Token
import HardcodedText.Proofs.NestedCalls

/-!
The filters beside a hidden comment. What follows a literal is looked at from its closing quote on,
what stands before it from its opening quote back. A comment that is set apart is never reached, so
that every filter gives the same answer in both texts.
-/

namespace HardcodedText

/-! What follows the literal. -/

theorem isLocalizingSelection_veiled {cells : List Cell} (apart : SetApart cells)
    (begins : Begins cells) :
    isLocalizingSelection (veiled cells) = isLocalizingSelection (shown cells) := by
  obtain ⟨front, back, rfl, runOf⟩ := exists_run inside_isWordChar apart.fenced begins.startsVisible
  have after : (veiled (front ++ back)).drop (shown front).length = veiled back := by
    rw [veiled_append, runOf.veiled_front, List.drop_left]
  have before : (shown (front ++ back)).drop (shown front).length = shown back := by
    rw [shown_append, List.drop_left]
  simp only [isLocalizingSelection, runOf.takeWhile_shown, runOf.takeWhile_veiled, after, before]
  cases nonempty : front.getLast? with
  | none =>
      rw [List.getLast?_eq_none_iff.mp nonempty]
      simp
  | some last =>
      obtain ⟨init, rfl⟩ := List.getLast?_eq_some_iff.mp nonempty
      obtain ⟨visible, word⟩ := runOf.run last (by simp)
      have within : last :: back <:+: init ++ [last] ++ back := ⟨init, [], by simp⟩
      obtain ⟨rest, trimmed⟩ := (apart.of_isInfix within).trimmed_after visible (Or.inl word)
      rw [Text.trimStart, Text.trimStart, trimmed.head?_veiled]

section After

variable {quote : Cell} {cells : List Cell} (apart : SetApart (quote :: cells))
  (visible : quote.isVisible) (quoted : isQuote quote.char = true)

include apart visible quoted

theorem head?_trimStart_veiled :
    (Text.trimStart (veiled cells)).head? = (Text.trimStart (shown cells)).head? := by
  obtain ⟨rest, trimmed⟩ := apart.trimmed_after visible (Or.inr (Or.inl quoted))
  exact trimmed.head?_veiled

theorem isLocalizedBy_veiled : isLocalizedBy (veiled cells) = isLocalizedBy (shown cells) := by
  obtain ⟨rest, trimmed⟩ := apart.trimmed_after visible (Or.inr (Or.inl quoted))
  rw [isLocalizedBy, isLocalizedBy, selection, selection, Text.trimStart, Text.trimStart,
    trimmed.veiled_eq, trimmed.shown_eq]
  have within := (trimmed.suffix.trans (List.suffix_cons quote cells)).isInfix
  cases rest with
  | nil => rfl
  | cons dot rest =>
      obtain ⟨seen, -⟩ := trimmed.begins dot rfl
      rw [veiled_cons, shown_cons, Cell.veiled_of_isVisible seen]
      by_cases isDot : dot.char = '.'
      · obtain ⟨selected, further⟩ :=
          (apart.of_isInfix within).trimmed_after seen (Or.inr (Or.inr isDot))
        have inside := ((further.suffix.trans (List.suffix_cons dot rest)).isInfix).trans within
        simp only [isDot, Text.trimStart, further.veiled_eq, further.shown_eq, Option.any_some]
        exact isLocalizingSelection_veiled (apart.of_isInfix inside) further.begins
      · simp [isDot]

end After

/-! What stands before the literal. -/

theorem inside_isWordChar_or_dot : Inside fun c => isWordChar c || c == '.' := by
  refine ⟨by decide, ?_⟩
  intro c blank
  have different : c ≠ '.' := by
    rintro rfl
    exact absurd blank (by decide)
  simp [isWordChar_of_isBlank blank, different]

theorem endsInCallName_veiled {name : Text} (plain : Plain name) {reversed : List Cell}
    (fenced : Fenced reversed) (starts : StartsVisible reversed) :
    endsInCallName name (veiled reversed) = endsInCallName name (shown reversed) := by
  have backwards : Plain name.reverse := fun c member => plain c (List.mem_reverse.mp member)
  rw [endsInCallName, endsInCallName, isPrefixOf_veiled backwards fenced starts]
  cases found : name.reverse.isPrefixOf (shown reversed) with
  | false => rfl
  | true =>
      obtain ⟨front, back, rfl, visible, same⟩ :=
        tokenAt_of_shown backwards fenced starts (List.isPrefixOf_iff_prefix.mp found)
      have length : name.length = front.length := by
        rw [← List.length_reverse, ← same, length_shown]
      have nonblank : ∀ cell ∈ front, cell.isVisible ∧ isBlank cell.char = false := by
        intro cell member
        refine ⟨visible cell member, (backwards cell.char ?_).1⟩
        rw [← same]
        exact List.mem_map_of_mem member
      rw [drop_veiled length.symm, drop_shown length.symm,
        head?_any_veiled inside_isWordChar_or_dot fenced starts nonblank]

theorem endsInCallName_blank {name : Text} (plain : Plain name) {c : Char}
    (blank : isBlank c = true) (reversed : Text) :
    endsInCallName name (c :: reversed) = name.isEmpty := by
  cases last : name.getLast? with
  | none =>
      rw [List.getLast?_eq_none_iff.mp last]
      simp [endsInCallName, inside_isWordChar_or_dot.blank c blank]
  | some d =>
      obtain ⟨init, rfl⟩ := List.getLast?_eq_some_iff.mp last
      have different : (d == c) = false := by
        rw [beq_eq_false_iff_ne]
        rintro rfl
        rw [(plain d (by simp)).1] at blank
        exact absurd blank (by decide)
      simp [endsInCallName, List.isPrefixOf, different]

theorem anyPastBlanks_veiled {name : Text} (plain : Plain name) {gap rest : List Cell}
    (fenced : Fenced rest) (blanks : IsGap gap) (begins : Begins rest) :
    anyPastBlanks (endsInCallName name) (veiled (gap ++ rest)) =
      anyPastBlanks (endsInCallName name) (shown (gap ++ rest)) := by
  induction gap with
  | nil =>
      have here := endsInCallName_veiled plain fenced begins.startsVisible
      rw [List.nil_append]
      cases rest with
      | nil => exact here
      | cons cell rest =>
          obtain ⟨visible, nonblank⟩ := begins cell rfl
          rw [veiled_cons, shown_cons] at here ⊢
          rw [anyPastBlanks, anyPastBlanks, here, Cell.veiled_of_isVisible visible, nonblank,
            Bool.false_and, Bool.false_and]
  | cons cell gap ih =>
      obtain ⟨visible, blank⟩ := blanks cell List.mem_cons_self
      have later := ih fun other member => blanks other (List.mem_cons_of_mem _ member)
      rw [List.cons_append, veiled_cons, shown_cons, Cell.veiled_of_isVisible visible,
        anyPastBlanks, anyPastBlanks, endsInCallName_blank plain blank,
        endsInCallName_blank plain blank, later]

/-- The cells before a quote, a parenthesis or a colon, read backwards and without blanks. -/
theorem SetApart.before_reversed {cell : Cell} {more cells : List Cell}
    (apart : SetApart cells) (within : (cell :: more).reverse <:+: cells)
    (visible : cell.isVisible)
    (holds : isQuote cell.char = true ∨ cell.char = '(' ∨ cell.char = ':') :
    ∃ rest, TrimmedTo more rest := by
  rw [List.reverse_cons] at within
  obtain ⟨rest, trimmed⟩ := (apart.of_isInfix within).trimmed_before visible holds
  rw [List.reverse_reverse] at trimmed
  exact ⟨rest, trimmed⟩

section Before

variable {quote : Cell} {cells : List Cell} (apart : SetApart (cells ++ [quote]))
  (visible : quote.isVisible) (quoted : isQuote quote.char = true)

include apart visible quoted

theorem getLast?_trimEnd_veiled :
    (Text.trimEnd (veiled cells)).getLast? = (Text.trimEnd (shown cells)).getLast? := by
  obtain ⟨rest, trimmed⟩ := apart.trimmed_before visible (Or.inl quoted)
  have last := trimmed.head?_veiled
  rw [shown, veiled, List.map_reverse, List.map_reverse] at last
  rw [Text.trimEnd, Text.trimEnd, List.getLast?_reverse, List.getLast?_reverse]
  exact last

/-- What the text ends in, without its blanks and read backwards. -/
theorem exists_reversed : ∃ rest, rest.reverse <:+: cells ++ [quote] ∧ Begins rest ∧
    (Text.trimEnd (shown cells)).reverse = shown rest ∧
    (Text.trimEnd (veiled cells)).reverse = veiled rest := by
  obtain ⟨rest, trimmed⟩ := apart.trimmed_before visible (Or.inl quoted)
  have suffix := List.reverse_prefix.mpr trimmed.suffix
  rw [List.reverse_reverse] at suffix
  refine ⟨rest, (suffix.trans (List.prefix_append cells [quote])).isInfix, trimmed.begins, ?_, ?_⟩
  · rw [Text.trimEnd, List.reverse_reverse, ← trimmed.shown_eq, shown, shown, List.map_reverse]
  · rw [Text.trimEnd, List.reverse_reverse, ← trimmed.veiled_eq, veiled, veiled, List.map_reverse]

theorem endsInCall_veiled {calls : List Text} (plain : ∀ name ∈ calls, Plain name) :
    endsInCall calls (veiled cells) = endsInCall calls (shown cells) := by
  obtain ⟨rest, within, begins, original, copied⟩ := exists_reversed apart visible quoted
  rw [endsInCall, endsInCall, original, copied]
  cases rest with
  | nil => rfl
  | cons cell more =>
      obtain ⟨seen, -⟩ := begins cell rfl
      rw [veiled_cons, shown_cons, Cell.veiled_of_isVisible seen]
      by_cases parenthesis : cell.char = '('
      · obtain ⟨behind, trimmed⟩ := apart.before_reversed within seen (Or.inr (Or.inl parenthesis))
        obtain ⟨gap, rfl, blanks⟩ := trimmed.gap
        have inside : behind.reverse <:+: cells ++ [quote] := by
          refine List.IsInfix.trans ?_ within
          exact ⟨[], gap.reverse ++ [cell], by simp⟩
        have fenced := (apart.of_isInfix inside).fenced_reverse
        rw [List.reverse_reverse] at fenced
        simp only [parenthesis]
        congr 1
        apply any_congr_of_mem
        intro name listed
        exact anyPastBlanks_veiled (plain name listed) fenced blanks trimmed.begins
      · simp [parenthesis]

theorem trailingName_veiled : trailingName (veiled cells) = trailingName (shown cells) := by
  obtain ⟨rest, within, begins, original, copied⟩ := exists_reversed apart visible quoted
  rw [trailingName, trailingName, original, copied]
  cases rest with
  | nil => rfl
  | cons cell more =>
      obtain ⟨seen, -⟩ := begins cell rfl
      rw [veiled_cons, shown_cons, Cell.veiled_of_isVisible seen]
      by_cases colon : cell.char = ':'
      · obtain ⟨behind, trimmed⟩ := apart.before_reversed within seen (Or.inr (Or.inr colon))
        have inside : behind.reverse <:+: cells ++ [quote] := by
          refine List.IsInfix.trans ?_ within
          exact (List.reverse_prefix.mpr
            (trimmed.suffix.trans (List.suffix_cons cell more))).isInfix
        have fenced := (apart.of_isInfix inside).fenced_reverse
        rw [List.reverse_reverse] at fenced
        obtain ⟨front, back, rfl, runOf⟩ :=
          exists_run inside_isWordChar fenced trimmed.begins.startsVisible
        simp only [colon, Text.trimStart, trimmed.veiled_eq, trimmed.shown_eq,
          runOf.takeWhile_veiled, runOf.takeWhile_shown]
      · simp [colon]

end Before

def QuoteAt (cells : List Cell) (place : Nat) : Prop :=
  ∃ cell, cells[place]? = some cell ∧ cell.isVisible ∧ isQuote cell.char = true

theorem shown_window (cells : List Cell) (first last : Nat) :
    ((shown cells).take last).drop first = shown ((cells.take last).drop first) := by
  rw [shown, shown, List.map_drop, List.map_take]

theorem veiled_window (cells : List Cell) (first last : Nat) :
    ((veiled cells).take last).drop first = veiled ((cells.take last).drop first) := by
  rw [veiled, veiled, List.map_drop, List.map_take]

theorem drop_of_getElem? {cells : List Cell} {place : Nat} {cell : Cell}
    (found : cells[place]? = some cell) : cells.drop place = cell :: cells.drop (place + 1) := by
  obtain ⟨inside, rfl⟩ := List.getElem?_eq_some_iff.mp found
  exact List.drop_eq_getElem_cons inside

/-- The technical calls are words, and beside literals and calls the default patterns are looked
for. -/
structure PlainTables (tables : FilterTables) : Prop where
  technicalCalls : ∀ name ∈ tables.technicalCalls, Plain name
  contextPatterns_eq : tables.contextPatterns = defaultContextPatterns
  localizedSuffixes_eq : tables.localizedSuffixes = defaultLocalizedSuffixes

section Classify

variable {cells : List Cell} (apart : SetApart cells) {content : Text} {offset width : Nat}
  (wide : 0 < width) (room : offset + content.length + 2 * width ≤ cells.length)
  (opening : QuoteAt cells offset)
  (closing : QuoteAt cells (offset + content.length + 2 * width - 1))

include apart wide room opening closing

/-- The windows on both sides of a literal, with the quotes next to them. -/
theorem exists_windows :
    ∃ front back first last, SetApart (front ++ [first]) ∧ first.isVisible ∧
      isQuote first.char = true ∧ SetApart (last :: back) ∧ last.isVisible ∧
      isQuote last.char = true ∧
      LiteralContext.before ⟨content, shown cells, offset, width⟩ = shown front ∧
      LiteralContext.before ⟨content, veiled cells, offset, width⟩ = veiled front ∧
      LiteralContext.after ⟨content, shown cells, offset, width⟩ = shown back ∧
      LiteralContext.after ⟨content, veiled cells, offset, width⟩ = veiled back := by
  obtain ⟨first, firstAt, firstVisible, firstQuote⟩ := opening
  obtain ⟨last, lastAt, lastVisible, lastQuote⟩ := closing
  have start := (List.getElem?_eq_some_iff.mp firstAt).1
  refine ⟨(cells.take offset).drop (offset - contextSpan),
    (cells.drop (offset + content.length + 2 * width)).take contextSpan, first, last, ?_,
    firstVisible, firstQuote, ?_, lastVisible, lastQuote, ?_, ?_, ?_, ?_⟩
  · apply apart.of_isInfix
    refine ⟨(cells.take offset).take (offset - contextSpan), cells.drop (offset + 1), ?_⟩
    rw [← List.append_assoc, List.take_append_drop, List.append_assoc, List.singleton_append,
      ← drop_of_getElem? firstAt, List.take_append_drop]
  · have reached := drop_of_getElem? lastAt
    rw [Nat.sub_add_cancel (by omega)] at reached
    apply apart.of_isInfix
    have within : last :: (cells.drop (offset + content.length + 2 * width)).take contextSpan <+:
        cells.drop (offset + content.length + 2 * width - 1) := by
      rw [reached, List.cons_prefix_cons]
      exact ⟨rfl, List.take_prefix _ _⟩
    exact within.isInfix.trans (List.drop_suffix _ cells).isInfix
  · rw [before_eq (by rw [length_shown]; omega), shown_window]
  · rw [before_eq (by rw [length_veiled]; omega), veiled_window]
  · rw [after_eq (by rw [length_shown]; omega), shown, shown, List.map_take, List.map_drop]
  · rw [after_eq (by rw [length_veiled]; omega), veiled, veiled, List.map_take, List.map_drop]

theorem fires_veiled {tables : FilterTables} (plain : PlainTables tables) (filter : Filter) :
    filter.fires ⟨content, veiled cells, offset, width⟩ tables =
      filter.fires ⟨content, shown cells, offset, width⟩ tables := by
  obtain ⟨front, back, first, last, beforeApart, firstVisible, firstQuote, afterApart, lastVisible,
    lastQuote, before, before', after, after'⟩ := exists_windows apart wide room opening closing
  have following := head?_trimStart_veiled afterApart lastVisible lastQuote
  cases filter with
  | localized =>
      simp only [Filter.fires, isLocalized, after, after',
        suffixes_eq_isLocalizedBy plain.localizedSuffixes_eq,
        isLocalizedBy_veiled afterApart lastVisible lastQuote]
  | symbolReference =>
      simp only [Filter.fires, isSymbolReference, before, before', after, after', following,
        getLast?_trimEnd_veiled beforeApart firstVisible firstQuote]
  | technicalArgument =>
      simp only [Filter.fires, isTechnicalArgument, before, before', after, after', following,
        endsInCall_veiled beforeApart firstVisible firstQuote plain.technicalCalls,
        trailingName_veiled beforeApart firstVisible firstQuote]
  | _ => rfl

theorem classify_veiled {tables : FilterTables} (plain : PlainTables tables) :
    classify ⟨content, veiled cells, offset, width⟩ tables =
      classify ⟨content, shown cells, offset, width⟩ tables := by
  have same : (fun filter : Filter => filter.fires ⟨content, veiled cells, offset, width⟩ tables) =
      fun filter => filter.fires ⟨content, shown cells, offset, width⟩ tables :=
    funext fun filter => fires_veiled apart wide room opening closing plain filter
  rw [classify, classify, classifyBy, classifyBy, same]

end Classify

end HardcodedText
