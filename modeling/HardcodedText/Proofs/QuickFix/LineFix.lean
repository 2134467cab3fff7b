import HardcodedText.Proofs.QuickFix.Insertion
import HardcodedText.Proofs.Scanner.Insertion
import HardcodedText.Proofs.Silencing

/-!
What the quick fixes for one line silence. The markers are looked for in the lines of the text and
not in its comments, so a marker silences its line wherever it lands: in code, in a comment or in a
literal.

The comment is inserted where the text of the line ends or above it, without asking the scanner what
stands there. In code and in comments that leaves every literal as it is; inside of a literal it is
the literal that gets longer.
-/

namespace HardcodedText

theorem lineMarker_occursIn (front back : Text) :
    lineMarker.occursIn (front ++ (' ' :: lineMarker ++ back)) = true :=
  Text.occursIn_iff.mpr ⟨front ++ [' '], back, by simp⟩

theorem nextLineMarker_occursIn (front : Text) :
    nextLineMarker.occursIn (front ++ nextLineMarker) = true :=
  Text.occursIn_iff.mpr ⟨front, [], by simp⟩

/-- With a marker at the end of a line nothing is reported on the line. With a marker above the line
nothing is reported on the inserted line and on the line itself, which comes after it. -/
theorem line_fixes_silence_line (text : Text) (catalog : List WidgetPattern)
    (tables : FilterTables) {number : Nat} {row : Text}
    (listed : (text.splitOn '\n')[number]? = some row) :
    (∀ found ∈ findHardcoded ((ignoreLineEdit (text.splitOn '\n') number).applyTo text) catalog
        tables, found.start.line ≠ number) ∧
    (((ignoreNextLineEdit (text.splitOn '\n') number).applyTo text).splitOn '\n')[number + 1]? =
      some row ∧
    ∀ found ∈ findHardcoded ((ignoreNextLineEdit (text.splitOn '\n') number).applyTo text) catalog
        tables, found.start.line ≠ number ∧ found.start.line ≠ number + 1 := by
  obtain ⟨front, back, line⟩ := exists_rowAt listed
  refine ⟨?_, ?_, ?_⟩
  · intro found member same
    obtain ⟨gap, -, cut⟩ := line.splitOn_ignoreLineEdit
    have marked := cut ▸ line.getElem?_take_append _ 0
    exact (mem_findHardcoded.mp member).2
      ⟨number, _, marked, Or.inl ⟨lineMarker_occursIn _ _, same⟩⟩
  · rw [line.splitOn_ignoreNextLineEdit, line.getElem?_take_append]
    rfl
  · intro found member
    have heard := (mem_findHardcoded.mp member).2
    have marked := line.splitOn_ignoreNextLineEdit ▸ line.getElem?_take_append _ 0
    have marker := nextLineMarker_occursIn (indentation (dropLineEnd row))
    constructor
    · intro same
      exact heard ⟨number, _, marked, Or.inr (Or.inl ⟨marker, Or.inl same⟩)⟩
    · intro after
      exact heard ⟨number, _, marked, Or.inr (Or.inl ⟨marker, Or.inr after⟩)⟩

theorem line_fixes_silence_line_indented :
    let text : Text := "Column(\r\n  Text('Save it'), \r\n  Text('Go on'))".toList
    let catalog : List WidgetPattern := [⟨"Text".toList, []⟩]
    let row : Text := "  Text('Save it'), \r".toList
    let atEnd := (ignoreLineEdit (text.splitOn '\n') 1).applyTo text
    let above := (ignoreNextLineEdit (text.splitOn '\n') 1).applyTo text
    (text.splitOn '\n')[1]? = some row ∧
      (findHardcoded text catalog defaultTables).map (·.start.line) = [1, 2] ∧
      atEnd = "Column(\r\n  Text('Save it'), // translate-me-ignore \r\n  Text('Go on'))".toList ∧
      above = ("Column(\r\n  // translate-me-ignore-next-line\n  Text('Save it'), \r\n" ++
        "  Text('Go on'))").toList ∧
      (∀ found ∈ findHardcoded atEnd catalog defaultTables, found.start.line ≠ 1) ∧
      (above.splitOn '\n')[2]? = some row ∧
      ∀ found ∈ findHardcoded above catalog defaultTables,
        found.start.line ≠ 1 ∧ found.start.line ≠ 2 := by
  intro text catalog row atEnd above
  have listed : (text.splitOn '\n')[1]? = some row := by decide +kernel
  have lines : (findHardcoded text catalog defaultTables).map (·.start.line) = [1, 2] := by
    decide +kernel
  refine ⟨listed, lines, by decide +kernel, by decide +kernel, ?_⟩
  exact line_fixes_silence_line text catalog defaultTables listed

/-! What happens to the literals. -/

/-- The edit puts one piece without meaning in the place of a shorter one, or between two others. -/
structure TextEdit.Interjects (edit : TextEdit) (text front old new more : Text) : Prop where
  text_eq : text = front ++ (old ++ more)
  place_eq : edit.place text = front.length
  applied : edit.applyTo text = front ++ (new ++ more)
  given : Interjected front old more
  put : Interjected front new more
  longer : old.length < new.length

theorem TextEdit.Interjects.raws_iff {edit : TextEdit} {text front old new more : Text}
    (interjects : edit.Interjects text front old new more) :
    (stringLiterals (edit.applyTo text)).map StringLiteral.raw =
        (stringLiterals text).map StringLiteral.raw ↔
      ∀ literal ∈ stringLiterals text,
        literal.stop ≤ edit.place text ∨ edit.place text ≤ literal.start := by
  obtain ⟨distance, longer⟩ := Nat.exists_eq_add_of_lt interjects.longer
  rw [interjects.place_eq, interjects.applied, interjects.text_eq]
  exact raws_exchange_iff interjects.given interjects.put longer (Nat.succ_pos distance)

theorem isBlank_plain {c : Char} (blank : isBlank c = true) : Solitary c ∧ Unremarkable c := by
  have every : ∀ code ∈ blankCodes,
      Solitary (Char.ofNat code) ∧ Unremarkable (Char.ofNat code) := by decide
  have here := every c.toNat (mem_blankCodes blank)
  rwa [Char.ofNat_toNat] at here

theorem interjected_blank {front piece more : Text} (blank : ∀ c ∈ piece, isBlank c = true)
    (ends : more = [] ∨ EndsLine (front ++ piece)) : Interjected front piece more where
  separated := by
    cases piece with
    | nil =>
        rw [List.append_nil] at ends
        exact ends.symm.imp_right Or.inl
    | cons c later =>
        have solitary := (isBlank_plain (blank c List.mem_cons_self)).1
        exact Or.inr (Or.inr ⟨c, later ++ more, rfl, solitary⟩)
  plain c member := (isBlank_plain (blank c member)).2
  ends := ends

namespace RowAt

variable {text front row back : Text} {number : Nat}

theorem exists_lineEnd (line : RowAt text number front row back) :
    ∃ lineEnd more, back = lineEnd ++ more ∧ (∀ c ∈ lineEnd, isBlank c = true) ∧
      ∀ before, more = [] ∨ EndsLine (before ++ lineEnd) := by
  rcases line.ends with rfl | ⟨body, rfl⟩
  · exact ⟨[], [], rfl, by simp, fun before => Or.inl rfl⟩
  · exact ⟨['\n'], body, rfl, List.all_eq_true.mp rfl, fun before => Or.inr (Or.inr ⟨before, rfl⟩)⟩

theorem interjects_ignoreLineEdit (line : RowAt text number front row back) :
    ∃ gap more, (ignoreLineEdit (text.splitOn '\n') number).Interjects text
      (front ++ row.trimEnd) gap (' ' :: lineMarker ++ gap) more := by
  obtain ⟨gap, split, blank, place, applied⟩ := line.applyTo_ignoreLineEdit
  obtain ⟨lineEnd, more, rfl, blankEnd, ends⟩ := line.exists_lineEnd
  -- Without the marker the rest of the line is blank, and with it the marker and blank.
  have blanks : ∀ c ∈ gap ++ lineEnd, isBlank c = true :=
    List.forall_mem_append.mpr ⟨blank, blankEnd⟩
  have given : Interjected (front ++ row.trimEnd) (gap ++ lineEnd) more := by
    apply interjected_blank blanks
    rw [← List.append_assoc]
    exact ends _
  refine ⟨gap ++ lineEnd, more, ?_, place, ?_, given, ⟨?_, ?_, ?_⟩, ?_⟩
  · calc
      text = front ++ (row ++ (lineEnd ++ more)) := line.text_eq
      _ = front ++ (row.trimEnd ++ gap ++ (lineEnd ++ more)) := by rw [← split]
      _ = front ++ row.trimEnd ++ (gap ++ lineEnd ++ more) := by simp only [List.append_assoc]
  · rw [applied]
    simp only [List.append_assoc]
  · exact Or.inr (Or.inr ⟨' ', _, rfl, by decide⟩)
  · have marker : UnremarkableText (' ' :: lineMarker) := by decide
    exact List.forall_mem_append.mpr ⟨marker, given.plain⟩
  · rw [← List.append_assoc, ← List.append_assoc]
    exact ends _
  · have positive : 0 < (' ' :: lineMarker).length := Nat.succ_pos _
    simp only [List.length_append]
    omega

theorem interjects_ignoreNextLineEdit (line : RowAt text number front row back) :
    (ignoreNextLineEdit (text.splitOn '\n') number).Interjects text front []
      (indentation (dropLineEnd row) ++ nextLineMarker ++ ['\n']) (row ++ back) := by
  obtain ⟨place, applied⟩ := line.applyTo_ignoreNextLineEdit
  have marker : UnremarkableText (nextLineMarker ++ ['\n']) := by decide
  have spaces : UnremarkableText (indentation (dropLineEnd row)) :=
    fun c member => (isBlank_plain (mem_of_mem_indentation member).1).2
  refine ⟨line.text_eq, place, applied, ⟨Or.inl line.begins, List.forall_mem_nil _, Or.inr ?_⟩,
    ⟨Or.inl line.begins, ?_, Or.inr (Or.inr ⟨_, (List.append_assoc _ _ _).symm⟩)⟩, ?_⟩
  · rw [List.append_nil]
    exact line.begins
  · rw [List.append_assoc]
    exact List.forall_mem_append.mpr ⟨spaces, marker⟩
  · simp only [List.length_append, List.length_nil, List.length_singleton]
    omega

end RowAt

/-- Wherever a match is reported, the quick fixes for its line leave the literals of the text as
they are, unless they insert inside of one. -/
theorem line_fixes_keep_literals_iff (text : Text) (catalog : List WidgetPattern)
    (tables : FilterTables) {found : Match} (reported : found ∈ findHardcoded text catalog tables) :
    ∀ edit ∈ [ignoreLineEdit (text.splitOn '\n') found.start.line,
        ignoreNextLineEdit (text.splitOn '\n') found.start.line],
      (stringLiterals (edit.applyTo text)).map StringLiteral.raw =
          (stringLiterals text).map StringLiteral.raw ↔
        ∀ literal ∈ stringLiterals text,
          literal.stop ≤ edit.place text ∨ edit.place text ≤ literal.start := by
  have starts := candidates_startsIn ((dedupe_sublist _).subset (mem_findHardcoded.mp reported).1)
  obtain ⟨row, -, listed, -⟩ := starts
  obtain ⟨front, back, line⟩ := exists_rowAt listed
  obtain ⟨gap, more, atEnd⟩ := line.interjects_ignoreLineEdit
  intro edit member
  rw [List.mem_pair] at member
  rcases member with rfl | rfl
  · exact atEnd.raws_iff
  · exact line.interjects_ignoreNextLineEdit.raws_iff

theorem line_fixes_keep_literals_beside_comment :
    let text : Text := "/* it's\n*/ Text('Save it'); \nText('''Go\non''');".toList
    let catalog : List WidgetPattern := [⟨"Text".toList, []⟩]
    let found : Match := ⟨"'Save it'".toList, ⟨1, 8⟩, ⟨1, 17⟩, "Text".toList, []⟩
    let edits := [ignoreLineEdit (text.splitOn '\n') 1, ignoreNextLineEdit (text.splitOn '\n') 1]
    found ∈ findHardcoded text catalog defaultTables ∧
      (∀ edit ∈ edits, ∀ literal ∈ stringLiterals text,
        literal.stop ≤ edit.place text ∨ edit.place text ≤ literal.start) ∧
      ∀ edit ∈ edits, (stringLiterals (edit.applyTo text)).map StringLiteral.raw =
        (stringLiterals text).map StringLiteral.raw := by
  intro text catalog found edits
  have reported : found ∈ findHardcoded text catalog defaultTables := by decide +kernel
  have apart : ∀ edit ∈ edits, ∀ literal ∈ stringLiterals text,
      literal.stop ≤ edit.place text ∨ edit.place text ≤ literal.start := by decide +kernel
  refine ⟨reported, apart, fun edit member => ?_⟩
  exact (line_fixes_keep_literals_iff text catalog defaultTables reported edit member).mpr
    (apart edit member)

/-- A match whose line begins in one literal and ends in another: each quick fix changes one. -/
theorem line_fixes_inside_literals :
    let text : Text :=
      "Column(children: [\n  Text('''Hello big\nworld'''), Text('''Save it\nnow''')])".toList
    let found : Match := ⟨"'''Save it\nnow'''".toList, ⟨2, 16⟩, ⟨3, 6⟩, "Text".toList, []⟩
    found ∈ findHardcoded text defaultCatalog defaultTables ∧
      (stringLiterals text).map StringLiteral.raw =
        ["'''Hello big\nworld'''".toList, "'''Save it\nnow'''".toList] ∧
      (stringLiterals ((ignoreLineEdit (text.splitOn '\n') 2).applyTo text)).map StringLiteral.raw =
        ["'''Hello big\nworld'''".toList,
          "'''Save it // translate-me-ignore\nnow'''".toList] ∧
      (stringLiterals ((ignoreNextLineEdit (text.splitOn '\n') 2).applyTo text)).map
          StringLiteral.raw =
        ["'''Hello big\n// translate-me-ignore-next-line\nworld'''".toList,
          "'''Save it\nnow'''".toList] := by
  refine ⟨?_, ?_, ?_, ?_⟩ <;> decide +kernel

end HardcodedText
