import HardcodedText.Proofs.FirstLines
import HardcodedText.Proofs.QuickFix.Insertion
import HardcodedText.Proofs.Silencing
import HardcodedText.Text.Basic
import Mathlib.Data.List.Infix

/-!
What the quick fix for a whole file silences. Its marker stands below the header and reaches from
its own line to the end of the file. Header lines are told by how they begin, so a call may stand
behind a comment in one of them, and what it holds is reported still. If no parenthesis of the
header opens a call, nothing is reported.
-/

namespace HardcodedText

/-! The place of the marker. -/

def TextEdit.above (edit : TextEdit) (text : Text) : Text :=
  text.take (lineStart text (edit.place text))

theorem RowAt.back_eq_nil {text front row back : Text} {number : Nat}
    (line : RowAt text number front row back) (last : (text.splitOn '\n').length ≤ number + 1) :
    back = [] := by
  rcases line.ends with none | ⟨body, rfl⟩
  · exact none
  · have cut := line.later [] List.not_mem_nil
    rw [List.splitOn_append_cons_self_of_not_mem List.not_mem_nil,
      List.drop_of_length_le last] at cut
    have some := List.length_pos_iff.mpr (List.splitOn_ne_nil '\n' body)
    rw [(List.cons.inj cut).2] at some
    exact absurd some (Nat.lt_irrefl 0)

/-- A line inserted at the beginning of a line stands there; behind the last line it goes on with
that one. -/
structure TextEdit.PutsLine (edit : TextEdit) (text marker front : Text) : Prop where
  above_eq : edit.above text = front
  ends : EndsLine front
  early : front.count '\n' ≤ edit.line.toNat
  applied : ∃ more, edit.applyTo text = front ++ more
  marked : ∃ before, ((edit.applyTo text).splitOn '\n')[front.count '\n']? = some (before ++ marker)

theorem RowAt.putsLine {text front row back marker : Text} {number : Nat}
    (line : RowAt text number front row back) (unbroken : '\n' ∉ marker) :
    (⟨number, 0, marker ++ ['\n']⟩ : TextEdit).PutsLine text marker front := by
  have place := line.place_eq (Nat.zero_le _) (marker ++ ['\n'])
  have applied := line.applyTo_eq (Nat.zero_le _) (marker ++ ['\n'])
  refine ⟨?_, line.begins, Nat.le_of_eq line.count_eq, ⟨_, applied⟩, [], ?_⟩
  · rw [TextEdit.above, place, line.lineStart_eq (Nat.zero_le _), line.text_eq, List.take_left]
  · have marked := line.getElem?_take_append (marker :: List.splitOn '\n' (row ++ back)) 0
    rw [applied, line.count_eq, line.earlier, List.take_zero, List.nil_append, List.append_assoc,
      List.singleton_append, List.splitOn_append_cons_self_of_not_mem unbroken]
    exact marked

theorem RowAt.putsLine_behind {text front row back marker : Text} {number last : Nat}
    (line : RowAt text last front row back) (unbroken : '\n' ∉ marker)
    (isLast : (text.splitOn '\n').length = last + 1) (behind : last < number) :
    (⟨number, 0, marker ++ ['\n']⟩ : TextEdit).PutsLine text marker front := by
  obtain rfl := line.back_eq_nil (Nat.le_of_eq isLast)
  have whole : text = front ++ row := by rw [line.text_eq, List.append_nil]
  have place : (⟨number, 0, marker ++ ['\n']⟩ : TextEdit).place text =
      front.length + row.length := by
    have none : (LineIndex.ofText text).starts[number]? = none := by
      have count := LineIndex.lineCount_ofText text
      rw [LineIndex.lineCount] at count
      exact List.getElem?_eq_none (by omega)
    rw [TextEdit.place, LineIndex.offset, Int.toNat_natCast, none]
    rw [← List.length_append, ← whole]
    rfl
  have applied : (⟨number, 0, marker ++ ['\n']⟩ : TextEdit).applyTo text =
      front ++ (row ++ marker ++ '\n' :: []) := by
    rw [TextEdit.applyTo, place, ← List.length_append, ← whole, List.take_length, List.drop_length,
      whole]
    simp only [List.append_assoc, List.append_nil]
  -- The last line has no line feed, so the inserted one goes on with it.
  have unbroken' : '\n' ∉ row ++ marker := by
    rw [List.mem_append, not_or]
    exact ⟨line.unbroken, unbroken⟩
  refine ⟨?_, line.begins, ?_, ⟨_, applied⟩, row, ?_⟩
  · rw [TextEdit.above, place, line.lineStart_eq (Nat.le_refl _), whole, List.take_left]
  · rw [line.count_eq]
    exact Nat.le_of_lt behind
  · rw [applied, line.count_eq, line.earlier, List.splitOn_append_cons_self_of_not_mem unbroken']
    exact line.getElem?_take_append _ 0

theorem exists_putsLine (text : Text) {marker : Text} (unbroken : '\n' ∉ marker) (number : Nat) :
    ∃ front, (⟨number, 0, marker ++ ['\n']⟩ : TextEdit).PutsLine text marker front := by
  have some := List.length_pos_iff.mpr (List.splitOn_ne_nil '\n' text)
  by_cases within : number < (text.splitOn '\n').length
  · obtain ⟨front, back, line⟩ := exists_rowAt (List.getElem?_eq_getElem within)
    exact ⟨front, line.putsLine unbroken⟩
  · have last : (text.splitOn '\n').length - 1 < (text.splitOn '\n').length := by omega
    obtain ⟨front, back, line⟩ := exists_rowAt (List.getElem?_eq_getElem last)
    exact ⟨front, line.putsLine_behind unbroken (by omega) (by omega)⟩

/-! Parentheses that open a call. -/

def EndsInName (catalog : List WidgetPattern) (text : Text) : Prop :=
  (∃ pattern ∈ catalog, pattern.widget <:+ text) ∨
    (text.reverse.takeWhile isNamePathChar).any Char.isUpper = true

def BeforeCall (catalog : List WidgetPattern) (text : Text) : Prop :=
  ∃ front ∈ text.inits, (text.drop front.length).all isBlank = true ∧ EndsInName catalog front

/-- No parenthesis of the header opens a call in whatever text has the header. One in an ordinary
comment becomes blank with the comment, if the comment ends in the header. Elsewhere outside of code
no call begins, if the names have no quotes and no slashes. In code a name has to stand before
it. -/
def OpensNoCall (catalog : List WidgetPattern) (header : Text) : Prop :=
  ∀ offset < header.length, header[offset]? = some '(' →
    (∃ span ∈ commentSpans header, span.contains offset = true ∧ span.stop < header.length ∧
        isMarked ignoreMarkers header span = false) ∨
      ((∀ pattern ∈ catalog, Ordinary pattern.widget) ∧
        (inertSpans header).any (·.contains offset) = true) ∨
      ((inertSpans header).any (·.contains offset) = false ∧
        ¬ BeforeCall catalog ((stripComments header ignoreMarkers).take offset))

instance (catalog : List WidgetPattern) (text : Text) : Decidable (EndsInName catalog text) :=
  inferInstanceAs (Decidable (_ ∨ _))

instance (catalog : List WidgetPattern) (text : Text) : Decidable (BeforeCall catalog text) :=
  List.decidableBEx (fun front : Text => (text.drop front.length).all isBlank = true ∧
    EndsInName catalog front) text.inits

instance (catalog : List WidgetPattern) (header : Text) : Decidable (OpensNoCall catalog header) :=
  inferInstanceAs (Decidable (∀ offset < header.length, _))

theorem ReadsCatalog.endsInName {catalog : List WidgetPattern} {reader : NameReader}
    (used : ReadsCatalog catalog reader) {name : Text} (named : reader.Names name) (front : Text) :
    EndsInName catalog (front ++ name) := by
  obtain ⟨previous, text, read⟩ := named
  rcases used with rfl | ⟨pattern, listed, rfl⟩
  · obtain ⟨-, begins, chars⟩ := readCustomName_eq_some read
    obtain ⟨c, rest, rfl⟩ : ∃ c rest, name = c :: rest := by
      cases name with
      | nil => simp at begins
      | cons c rest => exact ⟨c, rest, rfl⟩
    refine Or.inr (List.any_eq_true.mpr ⟨c, ?_, by simpa using begins⟩)
    have backwards : ∀ x ∈ (c :: rest).reverse, isNamePathChar x = true :=
      fun x member => chars x (List.mem_reverse.mp member)
    rw [List.reverse_append, List.takeWhile_append_of_pos backwards]
    exact List.mem_append_left _ (List.mem_reverse.mpr List.mem_cons_self)
  · obtain ⟨rfl, -⟩ := readKnownName_eq_some read
    exact Or.inl ⟨pattern, listed, List.suffix_append _ _⟩

theorem CallSite.opens_before_call {source : Text} {catalog : List WidgetPattern}
    {tables : FilterTables} {inert : SpanSet} {site : CallSite}
    (member : site ∈ callSites source catalog tables inert) :
    ∃ offset, site.argStart = offset + 1 ∧ source[offset]? = some '(' ∧
      BeforeCall catalog (source.take offset) := by
  obtain ⟨reader, offset, head, used, headed, -, taken⟩ := mem_callSites member
  obtain ⟨start, -⟩ := argumentsOf_eq_some taken
  obtain ⟨named, front, back, keyword, blanks, rest, split, length, written⟩ :=
    mem_heads used.reads headed
  have width := written.width_eq
  have whole : source = (front ++ keyword ++ head.name ++ blanks) ++ '(' :: rest := by
    rw [split, written.text_eq]
    simp only [List.append_assoc]
  refine ⟨(front ++ keyword ++ head.name ++ blanks).length, ?_, ?_, ?_⟩
  · simp only [List.length_append]
    omega
  · rw [whole, List.getElem?_append_right (Nat.le_refl _), Nat.sub_self]
    rfl
  · rw [whole, List.take_left]
    refine ⟨front ++ keyword ++ head.name, ?_, ?_, used.endsInName named _⟩
    · rw [List.mem_inits]
      exact List.prefix_append _ _
    · rw [List.drop_left]
      exact List.all_eq_true.mpr written.blank

theorem line_of_behind {front more : Text} {place : Nat} (within : place ≤ (front ++ more).length)
    (behind : front.length ≤ place) :
    front.count '\n' ≤ ((LineIndex.ofText (front ++ more)).position place).line := by
  rw [LineIndex.position_eq within, List.take_append, List.take_of_length_le behind,
    List.count_append]
  exact Nat.le_add_right _ _

theorem OpensNoCall.opens_behind {catalog : List WidgetPattern} {header more : Text}
    (silent : OpensNoCall catalog header) (ends : EndsLine header) {tables : FilterTables}
    {site : CallSite}
    (member : site ∈ callSites (stripComments (header ++ more) ignoreMarkers) catalog tables
      (SpanSet.ofSpans (inertSpans (stripComments (header ++ more) ignoreMarkers)))) :
    header.length < site.argStart := by
  obtain ⟨offset, start, opened, named⟩ := CallSite.opens_before_call member
  by_contra early
  have within : offset < header.length := by omega
  have read : (header ++ more)[offset]? = some '(' := getElem?_of_stripComments opened (by decide)
  have blanked (span : Span) (comment : span ∈ commentSpans (header ++ more))
      (covers : span.contains offset = true)
      (unmarked : isMarked ignoreMarkers (header ++ more) span = false) : False := by
    rw [getElem?_stripComments_of_blanked comment unmarked covers read] at opened
    exact absurd opened (by decide)
  have here : header[offset]? = some '(' := by
    rwa [List.getElem?_append_left within] at read
  -- A comment that is open behind the header may hold the marker, and then it is kept.
  rcases silent offset within here with ⟨span, comment, covers, closed, unmarked⟩ |
      ⟨ordinary, inert⟩ | ⟨inCode, unnamed⟩
  · apply blanked span ((mem_commentSpans_append ends more closed).mpr comment) covers
    rwa [isMarked_append (Nat.le_of_lt closed)]
  · have notCode : ¬ ReadAsCode (header ++ more) offset := by
      rw [readAsCode_append ends more within, readAsCode_iff, inert]
      simp
    have covered : (inertSpans (header ++ more)).any (·.contains offset) = true := by
      by_contra uncovered
      apply notCode
      rw [readAsCode_iff, List.length_append]
      exact ⟨by omega, by simpa using uncovered⟩
    obtain ⟨span, listed, covers⟩ := List.any_eq_true.mp covered
    obtain ⟨place, start', -, outside, -⟩ := CallSite.argumentsAt ordinary member
    obtain rfl : place = offset := by omega
    rcases mem_commentSpans_or_stripComments ignoreMarkers listed with ⟨comment, unmarked⟩ | still
    · exact blanked span comment covers unmarked
    · rw [outside span still] at covers
      exact absurd covers (by decide)
  · have plain : ReadAsCode header offset := (readAsCode_iff _ _).mpr ⟨within, inCode⟩
    rw [take_stripComments_append ends more ignoreMarkers plain] at named
    exact unnamed named

/-- With the marker for the whole file below the header, what is reported begins in the header.
Nothing is reported if no parenthesis above the line of the marker opens a call. -/
theorem file_fix_silences_below_header (text : Text) (catalog : List WidgetPattern)
    (tables : FilterTables) :
    (∀ found ∈ findHardcoded ((ignoreFileEdit text.documentLines).applyTo text) catalog tables,
      found.start.line < headerEnd text.documentLines) ∧
    (OpensNoCall catalog ((ignoreFileEdit text.documentLines).above text) →
      findHardcoded ((ignoreFileEdit text.documentLines).applyTo text) catalog tables = []) := by
  obtain ⟨front, puts⟩ := exists_putsLine text (by decide : '\n' ∉ fileMarker)
    (headerEnd text.documentLines)
  change (ignoreFileEdit text.documentLines).PutsLine text fileMarker front at puts
  obtain ⟨more, applied⟩ := puts.applied
  obtain ⟨before, marked⟩ := puts.marked
  have early : ∀ found ∈ findHardcoded ((ignoreFileEdit text.documentLines).applyTo text) catalog
      tables, found.start.line < front.count '\n' := by
    intro found member
    by_contra late
    apply (mem_findHardcoded.mp member).2
    have stated : fileMarker.occursIn (before ++ fileMarker) = true :=
      Text.occursIn_iff.mpr ⟨before, [], by simp⟩
    exact ⟨_, _, marked, Or.inr (Or.inr ⟨stated, Nat.le_of_not_lt late⟩)⟩
  constructor
  · intro found member
    exact Nat.lt_of_lt_of_le (early found member) puts.early
  · intro silent
    rw [puts.above_eq] at silent
    rw [List.eq_nil_iff_forall_not_mem]
    intro found member
    have line := early found member
    rw [applied] at member
    obtain ⟨site, called, literal, inside, -, rfl⟩ :=
      mem_candidates.mp ((dedupe_sublist _).subset (mem_findHardcoded.mp member).1)
    have behind := silent.opens_behind puts.ends called
    obtain ⟨-, order, room⟩ := CallSite.slice called inside
    rw [length_stripComments] at room
    have late := line_of_behind (Nat.le_of_lt (Nat.lt_of_lt_of_le order room))
      (by omega : front.length ≤ site.argStart + literal.start)
    rw [matchOf, lineIndex_stripComments] at line
    simp only at line
    omega

theorem file_fix_silences_below_header_with_imports :
    let text : Text := ("// Copyright (c)\nimport 'a.dart' if (dart.library.io) 'b.dart';\n\n" ++
      "Text('Save it');\n").toList
    let catalog : List WidgetPattern := [⟨"Text".toList, []⟩]
    let edit := ignoreFileEdit text.documentLines
    OpensNoCall catalog (edit.above text) ∧
      (findHardcoded text catalog defaultTables).map Match.literal =
        ["'Save it'".toList] ∧
      edit.applyTo text = ("// Copyright (c)\nimport 'a.dart' if (dart.library.io) 'b.dart';\n\n" ++
        "// translate-me-ignore-all-file\nText('Save it');\n").toList ∧
      findHardcoded (edit.applyTo text) catalog defaultTables = [] := by
  intro text catalog edit
  have silent : OpensNoCall catalog (edit.above text) := by decide +kernel
  refine ⟨silent, by decide +kernel, by decide +kernel, ?_⟩
  exact (file_fix_silences_below_header text catalog defaultTables).2 silent

/-- A call behind a comment in the first line stays above the marker. -/
theorem call_in_header_stays_reported :
    let text : Text := "/* Title */ Text('Save it');\nText('Go on');\n".toList
    let edit := ignoreFileEdit text.documentLines
    edit.applyTo text = ("/* Title */ Text('Save it');\n// translate-me-ignore-all-file\n" ++
        "Text('Go on');\n").toList ∧
      findHardcoded (edit.applyTo text) defaultCatalog defaultTables =
        [⟨"'Save it'".toList, ⟨0, 17⟩, ⟨0, 26⟩, "Text".toList, []⟩] := by
  refine ⟨?_, ?_⟩ <;> decide +kernel

end HardcodedText
