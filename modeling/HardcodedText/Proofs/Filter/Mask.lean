import HardcodedText.Filter.Prose
import HardcodedText.Proofs.Filter.Interpolation
import HardcodedText.Proofs.Filter.Prose

/-!
Masks are no prose. The characters of symbol, date and number masks are apart from those of prose
words, but for the date letters, and these form date words only. So the prose filter, which comes
first, never keeps a literal that the mask filter is to drop.

A quotation mark between the words of a date mask takes the text apart into two sides, whose words
are the words of the whole. The letter T is admitted like it, but is read as a word of its own, or
as part of one, and no such word is a date word. So a text with a T is no date mask, whatever stands
beside the T.
-/

namespace HardcodedText

theorem unlettered_of_isDigit {c : Char} (digit : c.isDigit = true) :
    isProseChar c = false ∧ isLetter c = false := by
  have none : ∀ code ∈ List.range' 48 10, isProseChar (Char.ofNat code) = false ∧
      isLetter (Char.ofNat code) = false := by decide
  have bounds := Char.isDigit_iff_toNat.mp digit
  have first : '0'.toNat = 48 := rfl
  have last : '9'.toNat = 57 := rfl
  have here := none c.toNat (List.mem_range'_1.mpr (by omega))
  rwa [Char.ofNat_toNat] at here

/-- The letters of a date mask are ASCII letters, and its other characters are in no word. -/
theorem letters_of_isDateMaskChar {c : Char} (mask : isDateMaskChar c = true) :
    isProseChar c = c.isAlpha ∧ isLetter c = c.isAlpha := by
  by_cases blank : isBlank c = true
  · obtain ⟨noProse, noLetter⟩ := unlettered_of_symbol (isAlphanumeric_of_isBlank blank)
    have noAlpha : c.isAlpha = false := by
      by_contra alpha
      rw [isLetter_of_isAlpha (by simpa using alpha)] at noLetter
      exact absurd noLetter (by decide)
    rw [noProse, noLetter, noAlpha]
    exact ⟨rfl, rfl⟩
  · have chars : ("dMyHhmsSEazZLQkKG/.-:,'T".toList.all fun d =>
        isProseChar d == d.isAlpha && isLetter d == d.isAlpha) = true := by decide
    have listed : c ∈ "dMyHhmsSEazZLQkKG/.-:,'T".toList := by
      simp only [isDateMaskChar, isDateLetter, isDateSeparator, blank, Bool.or_eq_true,
        Bool.false_eq_true, false_or, List.contains_iff_mem, beq_iff_eq] at mask
      rcases mask with ((letter | separator) | rfl) | rfl
      · exact List.mem_append_left "/.-:,'T".toList letter
      · exact List.mem_append_right "dMyHhmsSEazZLQkKG".toList
          (List.mem_append_left ['\'', 'T'] separator)
      · decide
      · decide
    have here := List.all_eq_true.mp chars c listed
    rw [Bool.and_eq_true, beq_iff_eq, beq_iff_eq] at here
    exact here

theorem isProse_eq_false_of_isDateMask {text : Text} (mask : isDateMask text = true) :
    isProse text = false := by
  simp only [isDateMask, Bool.and_eq_true, Bool.not_eq_true', List.isEmpty_eq_false_iff,
    List.all_eq_true] at mask
  obtain ⟨⟨⟨⟨nonempty, chars⟩, -⟩, words⟩, -⟩ := mask
  have wordless : hasProseWord text = false := by
    have same : runs isProseChar text = runs Char.isAlpha text :=
      runs_congr fun c member => (letters_of_isDateMaskChar (chars c member)).1
    rw [hasProseWord, same, List.any_eq_false]
    intro word listed
    simp [words word listed]
  have noNoun : isProperNoun text = false := by
    by_contra noun
    have letters : ∀ c ∈ text, c.isAlpha = true := by
      intro c member
      rw [← (letters_of_isDateMaskChar (chars c member)).2]
      exact letters_of_isProperNoun (by simpa using noun) c member
    have word : isDateWord text = true := by
      apply words text
      rw [runs_eq_singleton letters nonempty]
      exact List.mem_singleton_self text
    exact noun (isProperNoun_of_isDateWord word)
  rw [isProse, wordless, noNoun, Bool.false_and, Bool.or_false]

theorem isProse_eq_false_of_isNumericMask {text : Text} (mask : isNumericMask text = true) :
    isProse text = false := by
  apply isProse_eq_false_of_unlettered
  intro c member
  have chars := List.all_eq_true.mp (Bool.and_eq_true_iff.mp mask).1 c member
  simp only [isNumericMaskChar, Bool.or_eq_true, List.contains_iff_mem] at chars
  rcases chars with (blank | digit) | mark
  · exact unlettered_of_symbol (isAlphanumeric_of_isBlank blank)
  · exact unlettered_of_isDigit digit
  · have marks : "#.,:;+-/()*%".toList.all (!isAlphanumeric ·) = true := by decide
    have symbol := List.all_eq_true.mp marks c mark
    exact unlettered_of_symbol (by simpa using symbol)

/-- Without a dollar sign there is nothing to strip but the blanks around a content. -/
theorem stripped_eq_trim {context : LiteralContext} (absent : '$' ∉ context.content.trim) :
    context.stripped = context.content.trim := by
  have none : '$' ∉ context.content := fun member => absent (Text.mem_trim member (by decide))
  rw [LiteralContext.stripped, stripInterpolation_eq_self none]

theorem isProse_stripped_of_symbols {context : LiteralContext}
    (symbols : isSymbolsOnly context.content.trim = true) : isProse context.stripped = false := by
  apply isProse_eq_false_of_unlettered
  intro c member
  apply unlettered_of_symbol
  by_cases blank : isBlank c = true
  · exact isAlphanumeric_of_isBlank blank
  · have inside : c ∈ context.content.trim :=
      Text.mem_trim (mem_of_mem_stripInterpolation (Text.mem_of_mem_trim member))
        (by simpa using blank)
    simp only [isSymbolsOnly, Bool.not_eq_true', List.any_eq_false, Bool.not_eq_true] at symbols
    exact symbols c inside

/-- A literal of symbols only, of a date format or of a number format is dropped, wherever it
stands. -/
theorem masks_dropped {context : LiteralContext} {tables : FilterTables}
    (mask : isSymbolsOnly context.content.trim = true ∨ isDateMask context.content.trim = true ∨
      isNumericMask context.content.trim = true) :
    (classify context tables).verdict = .drop := by
  have noDollar {test : Char → Bool} (chars : context.content.trim.all test = true)
      (dollar : test '$' = false) : '$' ∉ context.content.trim := by
    intro member
    rw [List.all_eq_true.mp chars '$' member] at dollar
    exact absurd dollar (by decide)
  have noProse : isProse context.stripped = false := by
    rcases mask with symbols | date | number
    · exact isProse_stripped_of_symbols symbols
    · have chars : context.content.trim.all isDateMaskChar = true := by
        simp only [isDateMask, Bool.and_eq_true] at date
        exact date.1.1.1.2
      rw [stripped_eq_trim (noDollar chars (by decide))]
      exact isProse_eq_false_of_isDateMask date
    · have chars := (Bool.and_eq_true_iff.mp number).1
      rw [stripped_eq_trim (noDollar chars (by decide))]
      exact isProse_eq_false_of_isNumericMask number
  have fires : Filter.mask.fires context tables = true := by
    rcases mask with symbols | date | number
    · simp [Filter.fires, isMask, symbols]
    · simp [Filter.fires, isMask, date]
    · simp [Filter.fires, isMask, isNumberMask, number]
  exact verdict_eq_drop_of_fires noProse (by decide) fires

theorem masks_dropped_with_sentence_mark :
    let context : LiteralContext := {
      content := " MMMM d, yyyy ".toList
      argText := "label: ' MMMM d, yyyy '".toList
      offset := 7 }
    isDateMask context.content.trim = true ∧
      (classify context defaultTables).verdict = .drop := by
  intro context
  have mask : isDateMask context.content.trim = true := by decide
  exact ⟨mask, masks_dropped (Or.inr (Or.inl mask))⟩

/-! What stands between the words of a date mask. -/

def dateWords (text : Text) : List Text :=
  runs Char.isAlpha text

theorem isDateMask_iff {text : Text} :
    isDateMask text = true ↔ (∀ c ∈ text, isDateMaskChar c = true) ∧
      (∀ word ∈ dateWords text, isDateWord word = true) ∧
      ((∃ word ∈ dateWords text, 2 ≤ word.length) ∨
        2 ≤ (dateWords text).length ∧ ∃ c ∈ text, isDateSeparator c = true) := by
  simp only [isDateMask, dateWords, Bool.and_eq_true, Bool.or_eq_true, Bool.not_eq_true',
    List.isEmpty_eq_false_iff, List.all_eq_true, List.any_eq_true, decide_eq_true_eq]
  constructor
  · rintro ⟨⟨⟨⟨-, chars⟩, -⟩, words⟩, format⟩
    exact ⟨chars, words, format⟩
  · rintro ⟨chars, words, format⟩
    have worded : runs Char.isAlpha text ≠ [] := by
      rintro none
      simp [none] at format
    have nonempty : text ≠ [] := by
      rintro rfl
      exact worded rfl
    exact ⟨⟨⟨⟨nonempty, chars⟩, worded⟩, words⟩, format⟩

theorem isDateMask_eq_false_of_T {text : Text} (member : 'T' ∈ text) :
    isDateMask text = false := by
  by_contra mask
  obtain ⟨-, words, -⟩ := isDateMask_iff.mp (by simpa using mask)
  obtain ⟨word, listed, inWord⟩ := exists_run_of_mem member (by decide : 'T'.isAlpha = true)
  have letter := isDateLetter_of_isDateWord (words word listed) 'T' inWord
  exact absurd letter (by decide)

/-- What stands on both sides of a mark makes up a date mask: mask characters only, words that are
date words, and a word of two letters or two words and a separator. -/
structure DateSides (front back : Text) : Prop where
  chars : ∀ c ∈ front ++ back, isDateMaskChar c = true
  words : ∀ word ∈ dateWords front ++ dateWords back, isDateWord word = true
  format : (∃ word ∈ dateWords front ++ dateWords back, 2 ≤ word.length) ∨
    2 ≤ (dateWords front ++ dateWords back).length ∧
      ∃ c ∈ front ++ back, isDateSeparator c = true

theorem isDateMask_quote_iff {front back : Text} :
    isDateMask (front ++ '\'' :: back) = true ↔ DateSides front back := by
  have words : dateWords (front ++ '\'' :: back) = dateWords front ++ dateWords back :=
    runs_append_cons (by decide) back
  have everywhere {holds : Char → Prop} (quote : holds '\'') :
      (∀ c ∈ front ++ '\'' :: back, holds c) ↔ ∀ c ∈ front ++ back, holds c := by
    simp only [List.forall_mem_append, List.forall_mem_cons, quote, true_and]
  have separated : (∃ c ∈ front ++ '\'' :: back, isDateSeparator c = true) ↔
      ∃ c ∈ front ++ back, isDateSeparator c = true := by
    have quote : isDateSeparator '\'' = false := by decide
    simp [or_and_right, exists_or, quote]
  rw [isDateMask_iff, words, everywhere (by decide), separated]
  constructor
  · rintro ⟨chars, dates, format⟩
    exact ⟨chars, dates, format⟩
  · rintro ⟨chars, dates, format⟩
    exact ⟨chars, dates, format⟩

/-- A T between two sides makes the text no date mask, although it is admitted among the mask
characters, while a quotation mark there makes it one exactly if the sides make up a date mask. So
the two are read alike exactly if the sides do not. -/
theorem T_reads_as_quote_iff (front back : Text) :
    isDateMaskChar 'T' = isDateMaskChar '\'' ∧
      isDateMask (front ++ 'T' :: back) = false ∧
      (isDateMask (front ++ '\'' :: back) = true ↔ DateSides front back) ∧
      (isDateMask (front ++ 'T' :: back) = isDateMask (front ++ '\'' :: back) ↔
        ¬ DateSides front back) := by
  have noMask : isDateMask (front ++ 'T' :: back) = false :=
    isDateMask_eq_false_of_T (List.mem_append_right front List.mem_cons_self)
  refine ⟨by decide, noMask, isDateMask_quote_iff, ?_⟩
  rw [noMask, ← isDateMask_quote_iff, Bool.not_eq_true, eq_comm]

/-- The T of the standard format for dates with times stands between quotation marks, not beside a
letter, and makes it no date mask. -/
theorem T_between_date_and_time_is_no_quote :
    let front : Text := "yyyy-MM-dd'".toList
    let back : Text := "'HH:mm:ss".toList
    front.getLast? = some '\'' ∧ back.head? = some '\'' ∧ '\''.isAlpha = false ∧
      isDateMask (front ++ 'T' :: back) = false ∧
      isDateMask (front ++ '\'' :: back) = true := by
  decide

end HardcodedText
