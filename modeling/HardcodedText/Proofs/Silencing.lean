import HardcodedText.Proofs.Comment
import HardcodedText.Proofs.Excerpt

/-!
Lines that report nothing. A marker silences its own line, the line after it or all lines from its
own on, the lines being those of the text as it is. Matches are numbered by the lines of the text
without its ordinary comments. The main statement says that both count the same lines: a match is
reported exactly if no marker of the text silences the line on which it starts.
-/

namespace HardcodedText

/-- A marker on one of the lines silences the line with this number. -/
def Silenced (lines : List Text) (number : Nat) : Prop :=
  ∃ marked line, lines[marked]? = some line ∧
    ((lineMarker.occursIn line = true ∧ number = marked) ∨
      (nextLineMarker.occursIn line = true ∧ (number = marked ∨ number = marked + 1)) ∨
      (fileMarker.occursIn line = true ∧ marked ≤ number))

/-- The match begins on the line and in the column that it gives, the lines being the given ones. -/
def Match.StartsIn (lines : List Text) (found : Match) : Prop :=
  ∃ row c, lines[found.start.line]? = some row ∧ row[found.start.column]? = some c ∧
    found.literal.head? = some c

/-! The rules of a text. -/

theorem any_covers_if (stated : Bool) (rule : IgnoreRule) (number : Int) :
    (if stated then [rule] else []).any (IgnoreRule.covers number) = true ↔
      stated = true ∧ rule.covers number = true := by
  cases stated <;> simp

theorem any_covers_rulesOfLine (last : Nat) (line : Text) (marked number : Nat) :
    (rulesOfLine last line marked).any (IgnoreRule.covers number) = true ↔
      (lineMarker.occursIn line = true ∧ number = marked) ∨
      (nextLineMarker.occursIn line = true ∧ number = marked + 1) ∨
      (fileMarker.occursIn line = true ∧ marked ≤ number ∧ number ≤ last) := by
  have own : (IgnoreRule.line marked).covers number = true ↔ number = marked := by
    rw [IgnoreRule.covers, beq_iff_eq]
    omega
  have next : (IgnoreRule.nextLine (marked + 1)).covers number = true ↔ number = marked + 1 := by
    rw [IgnoreRule.covers, beq_iff_eq]
    omega
  have below : (IgnoreRule.block marked last).covers number = true ↔
      marked ≤ number ∧ number ≤ last := by
    rw [IgnoreRule.covers, Bool.and_eq_true, decide_eq_true_eq, decide_eq_true_eq]
    omega
  rw [rulesOfLine, List.any_append, List.any_append, Bool.or_eq_true, Bool.or_eq_true,
    any_covers_if, any_covers_if, any_covers_if, own, next, below, or_assoc]

theorem isIgnored_ignoreRules (text : Text) (number : Nat) :
    isIgnored (ignoreRules text) number = true ↔
      ∃ marked line, (text.splitOn '\n')[marked]? = some line ∧
        (rulesOfLine ((text.splitOn '\n').length - 1) line marked).any
          (IgnoreRule.covers number) = true := by
  simp only [isIgnored, ignoreRules, List.any_flatMap, List.any_eq_true]
  constructor
  · rintro ⟨⟨line, marked⟩, listed, covered⟩
    exact ⟨marked, line, List.mem_zipIdx_iff_getElem?.mp listed, covered⟩
  · rintro ⟨marked, line, listed, covered⟩
    exact ⟨(line, marked), List.mem_zipIdx_iff_getElem?.mpr listed, covered⟩

theorem lineMarker_of_nextLineMarker {line : Text}
    (occurs : nextLineMarker.occursIn line = true) : lineMarker.occursIn line = true :=
  Text.occursIn_trans (by decide) occurs

theorem Silenced.marked {lines : List Text} {number : Nat} (silenced : Silenced lines number) :
    ∃ line ∈ lines, lineMarker.occursIn line = true := by
  obtain ⟨marked, line, listed, silencing⟩ := silenced
  refine ⟨line, List.mem_of_getElem? listed, ?_⟩
  rcases silencing with ⟨own, -⟩ | ⟨next, -⟩ | ⟨below, -⟩
  · exact own
  · exact lineMarker_of_nextLineMarker next
  · exact Text.occursIn_trans (by decide) below

/-- On the lines that a text has, the rules cover those that its markers silence. -/
theorem isIgnored_iff_silenced {text : Text} {number : Nat}
    (within : number < (text.splitOn '\n').length) :
    isIgnored (ignoreRules text) number = true ↔ Silenced (text.splitOn '\n') number := by
  rw [isIgnored_ignoreRules]
  constructor
  · rintro ⟨marked, line, listed, covered⟩
    refine ⟨marked, line, listed, ?_⟩
    rcases (any_covers_rulesOfLine _ _ _ _).mp covered with own | ⟨next, after⟩ | ⟨below, from', -⟩
    · exact Or.inl own
    · exact Or.inr (Or.inl ⟨next, Or.inr after⟩)
    · exact Or.inr (Or.inr ⟨below, from'⟩)
  · rintro ⟨marked, line, listed, silencing⟩
    refine ⟨marked, line, listed, (any_covers_rulesOfLine _ _ _ _).mpr ?_⟩
    rcases silencing with own | ⟨next, same | after⟩ | ⟨below, from'⟩
    · exact Or.inl own
    · exact Or.inl ⟨lineMarker_of_nextLineMarker next, same⟩
    · exact Or.inr (Or.inl ⟨next, after⟩)
    · exact Or.inr (Or.inr ⟨below, from', by omega⟩)

/-! The lines of matches. -/

theorem getElem?_of_stripComments {text : Text} {markers : List Text} {offset : Nat} {c : Char}
    (read : (stripComments text markers)[offset]? = some c) (visible : c ≠ ' ') :
    text[offset]? = some c := by
  rw [stripComments_eq, getElem?_blankOut, Option.map_eq_some_iff] at read
  obtain ⟨original, stands, blanked⟩ := read
  split at blanked
  · exact absurd blanked.symm visible
  · rwa [← blanked]

theorem candidates_head {source : Text} {catalog : List WidgetPattern} {tables : FilterTables}
    {found : Match} (member : found ∈ candidates source catalog tables) :
    ∃ c, found.literal.head? = some c ∧ isQuote c = true := by
  obtain ⟨site, -, literal, inside, -, rfl⟩ := mem_candidates.mp member
  exact ⟨literal.delimiter.quote, literal.head?_raw, (stringLiterals_writtenIn inside).quoted⟩

theorem candidates_startsIn {text : Text} {markers : List Text} {catalog : List WidgetPattern}
    {tables : FilterTables} {found : Match}
    (member : found ∈ candidates (stripComments text markers) catalog tables) :
    found.StartsIn (text.splitOn '\n') := by
  obtain ⟨c, first, quote⟩ := candidates_head member
  obtain ⟨start, stop, literal, order, -, position, -⟩ := candidates_slice member
  have stands : (stripComments text markers)[start]? = some c := by
    rw [← Span.head?_of order, ← literal, first]
  have read := getElem?_of_stripComments stands (ne_space_of_isQuote quote)
  have noLineFeed : c ≠ '\n' := by
    rintro rfl
    simp [isQuote] at quote
  obtain ⟨line, cut, stands⟩ := LineIndex.getElem?_position read noLineFeed
  rw [lineIndex_stripComments] at position
  rw [← position] at cut stands
  exact ⟨line, c, cut, stands, first⟩

/-- Of the matches without duplicates, those are reported whose line is not silenced. -/
theorem mem_findHardcoded {text : Text} {catalog : List WidgetPattern} {tables : FilterTables}
    {found : Match} :
    found ∈ findHardcoded text catalog tables ↔
      found ∈ dedupe (candidates (stripComments text ignoreMarkers) catalog tables) ∧
      ¬ Silenced (text.splitOn '\n') found.start.line := by
  rw [findHardcoded, filterIgnored, List.mem_filter]
  apply and_congr_right
  intro listed
  obtain ⟨line, c, cut, -⟩ := candidates_startsIn ((dedupe_sublist _).subset listed)
  have within := (List.getElem?_eq_some_iff.mp cut).1
  rw [← isIgnored_iff_silenced within]
  simp

/-- Every match starts where it says in the lines of the text. A line with the line marker reports
nothing, one with the next-line marker silences itself and the line after it, and one with the file
marker silences itself and all lines after it. The other matches are reported, in the order in which
they were found. -/
theorem matches_on_unsilenced_lines (text : Text) (catalog : List WidgetPattern)
    (tables : FilterTables) :
    (∀ found ∈ dedupe (candidates (stripComments text ignoreMarkers) catalog tables),
      found.StartsIn (text.splitOn '\n')) ∧
    (∀ number line, (text.splitOn '\n')[number]? = some line →
      ∀ found ∈ findHardcoded text catalog tables,
        (lineMarker.occursIn line = true → found.start.line ≠ number) ∧
        (nextLineMarker.occursIn line = true →
          found.start.line ≠ number ∧ found.start.line ≠ number + 1) ∧
        (fileMarker.occursIn line = true → found.start.line < number)) ∧
    (findHardcoded text catalog tables).Sublist
      (dedupe (candidates (stripComments text ignoreMarkers) catalog tables)) ∧
    ∀ found ∈ dedupe (candidates (stripComments text ignoreMarkers) catalog tables),
      ¬ Silenced (text.splitOn '\n') found.start.line →
        found ∈ findHardcoded text catalog tables := by
  refine ⟨?_, ?_, findHardcoded_sublist text catalog tables, ?_⟩
  · intro found member
    exact candidates_startsIn ((dedupe_sublist _).subset member)
  · intro number line listed found member
    have heard := (mem_findHardcoded.mp member).2
    refine ⟨?_, ?_, ?_⟩
    · intro marker same
      exact heard ⟨number, line, listed, Or.inl ⟨marker, same⟩⟩
    · intro marker
      constructor
      · intro same
        exact heard ⟨number, line, listed, Or.inr (Or.inl ⟨marker, Or.inl same⟩)⟩
      · intro after
        exact heard ⟨number, line, listed, Or.inr (Or.inl ⟨marker, Or.inr after⟩)⟩
    · intro marker
      by_contra reached
      exact heard ⟨number, line, listed, Or.inr (Or.inr ⟨marker, by omega⟩)⟩
  · intro found member heard
    exact mem_findHardcoded.mpr ⟨member, heard⟩

theorem matches_on_unsilenced_lines_below_marker :
    let text : Text :=
      "// translate-me-ignore-next-line\nText('Save it');\nText('Hello');".toList
    let catalog : List WidgetPattern := [⟨"Text".toList, []⟩]
    let gone : Match := ⟨"'Save it'".toList, ⟨1, 5⟩, ⟨1, 14⟩, "Text".toList, []⟩
    let left : Match := ⟨"'Hello'".toList, ⟨2, 5⟩, ⟨2, 12⟩, "Text".toList, []⟩
    nextLineMarker.occursIn "// translate-me-ignore-next-line".toList = true ∧
      ¬ Silenced (text.splitOn '\n') left.start.line ∧
      (∀ found ∈ findHardcoded text catalog defaultTables,
        found.start.line ≠ 0 ∧ found.start.line ≠ 1) ∧
      left ∈ findHardcoded text catalog defaultTables ∧
      dedupe (candidates (stripComments text ignoreMarkers) catalog defaultTables) =
        [gone, left] := by
  intro text catalog gone left
  have all : dedupe (candidates (stripComments text ignoreMarkers) catalog defaultTables) =
      [gone, left] := by decide +kernel
  have lines : text.splitOn '\n' = ["// translate-me-ignore-next-line".toList,
      "Text('Save it');".toList, "Text('Hello');".toList] := by decide +kernel
  have heard : ¬ Silenced (text.splitOn '\n') left.start.line := by
    rw [← isIgnored_iff_silenced (by rw [lines]; decide)]
    decide +kernel
  obtain ⟨-, silent, -, returned⟩ := matches_on_unsilenced_lines text catalog defaultTables
  have marker : nextLineMarker.occursIn "// translate-me-ignore-next-line".toList = true := by
    decide +kernel
  have listed : left ∈ dedupe (candidates (stripComments text ignoreMarkers) catalog
      defaultTables) := by
    rw [all]
    exact List.mem_cons_of_mem gone List.mem_cons_self
  refine ⟨marker, heard, ?_, returned left listed heard, all⟩
  intro found member
  exact (silent 0 _ (by rw [lines]; rfl) found member).2.1 marker

end HardcodedText
