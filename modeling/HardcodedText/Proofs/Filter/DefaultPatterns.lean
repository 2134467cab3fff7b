import HardcodedText.CallSite
import HardcodedText.Filter.Pipeline
import HardcodedText.Proofs.Pattern.Search
import HardcodedText.Proofs.Text

/-!
What the default patterns find. A call is denied where its window ends in a dot or in one of a few
words, or in a line that a keyword opens; a literal is localized where an accessor is selected from
it. Both are stated by looking at the texts alone, without any search.
-/

namespace HardcodedText

/-! Words that deny a call. -/

def deniesFrom (previous : Option Char) (rest : Text) : Bool :=
  !previous.any isWordChar &&
    ((denyingKeywords.any fun keyword =>
        keyword.isPrefixOf rest &&
          (rest.drop keyword.length).head?.any isBlank &&
          !(Text.trimStart (rest.drop keyword.length)).contains '\n') ||
      denyingWords.contains rest)

def deniesCall (window : Text) : Bool :=
  window.getLast? == some '.' || window.anyPlace deniesFrom none

def FillsLine (rest : Text) : Prop :=
  rest.head?.any isBlank = true ∧ '\n' ∉ rest.trimStart

theorem deniesFrom_iff {previous : Option Char} {rest : Text} :
    deniesFrom previous rest = true ↔ previous.any isWordChar = false ∧
      ((∃ keyword ∈ denyingKeywords, ∃ later, rest = keyword ++ later ∧ FillsLine later) ∨
        rest ∈ denyingWords) := by
  rw [deniesFrom, Bool.and_eq_true, Bool.not_eq_true', Bool.or_eq_true, List.any_eq_true,
    List.contains_iff_mem]
  apply and_congr_right
  intro _
  apply or_congr_left
  apply exists_congr
  intro keyword
  apply and_congr_right
  intro _
  simp only [Bool.and_eq_true, Bool.not_eq_true', List.isPrefixOf_iff_prefix, FillsLine,
    List.contains_eq_mem, decide_eq_false_iff_not]
  constructor
  · rintro ⟨⟨⟨later, rfl⟩, blank⟩, line⟩
    rw [List.drop_left] at blank line
    exact ⟨later, rfl, blank, line⟩
  · rintro ⟨later, rfl, blank, line⟩
    rw [List.drop_left]
    exact ⟨⟨⟨later, rfl⟩, blank⟩, line⟩

theorem deniesCall_iff {window : Text} :
    deniesCall window = true ↔ window.getLast? = some '.' ∨
      ∃ front back, window = front ++ back ∧ deniesFrom front.getLast? back = true := by
  simp only [deniesCall, Bool.or_eq_true, beq_iff_eq, Text.anyPlace_iff, Option.or_none]

def Place.between (front back : Text) : Place :=
  ⟨front.length, front.reverse, back, []⟩

theorem foundIn_iff {pattern : Pattern} {text : Text} :
    pattern.foundIn text = true ↔ ∃ front back, text = front ++ back ∧
      (pattern.run (text.length + 2) some (.between front back)).isSome = true := by
  rw [Pattern.foundIn, Pattern.foundFrom_iff]
  simp only [Nat.zero_add, List.append_nil, Place.between]

section Places

variable {fuel : Nat} {front back keyword word : Text} (ends : back.getLast? ≠ some '\n')

include ends

theorem tail_eq_nil {early tail : Text} (split : back = early ++ tail)
    (last : tail = [] ∨ tail = ['\n']) : tail = [] := by
  rcases last with empty | feed
  · exact empty
  · rw [split, feed, List.getLast?_append] at ends
    exact absurd rfl ends

theorem keywordContext_holds (starts : keyword.head?.any isWordChar = true) :
    ((keywordContext keyword).pattern.run fuel some (.between front back)).isSome = true ↔
      front.getLast?.any isWordChar = false ∧
        ∃ later, back = keyword ++ later ∧ FillsLine later := by
  have line : CharClass.accepts { negated := true, items := [.single '\n'] } = (· != '\n') :=
    funext (CharClass.accepts_other '\n')
  have blanks : CharClass.accepts { negated := false, items := [.blank true] } = isBlank :=
    funext CharClass.accepts_blank
  simp only [keywordContext, List.cons_append, Pattern.run_all_cons, Pattern.run_all_append,
    Pattern.run_boundary_isSome, Pattern.run_exactly_isSome, Pattern.run_atLeast_one,
    Pattern.oneOf, Pattern.noneOf, Pattern.run_one_isSome, Pattern.run_many_isSome,
    Pattern.run_lastLineEnd_isSome, Place.rest_passed, line, blanks]
  have here : (Place.between front back).rest = back := rfl
  have before : (Place.between front back).before.head? = front.getLast? := List.head?_reverse
  rw [here, before]
  constructor
  · rintro ⟨edge, later, rfl, c, _, rfl, blank, gap, _, rfl, gapBlank, own, tail, rfl, ownLine,
      lineEnd, -⟩
    have whole : keyword ++ c :: (gap ++ (own ++ tail)) = (keyword ++ c :: gap ++ own) ++ tail := by
      simp
    obtain rfl := tail_eq_nil ends whole lineEnd
    rw [List.head?_append, Option.or_of_isSome (Option.isSome_of_any starts), starts] at edge
    refine ⟨by simpa using edge, _, rfl, blank, ?_⟩
    intro feed
    rw [← List.cons_append, Text.trimStart, List.append_nil,
      List.dropWhile_append_of_pos (List.forall_mem_cons.mpr ⟨blank, gapBlank⟩)] at feed
    simpa using ownLine '\n' ((List.dropWhile_suffix isBlank).subset feed)
  · rintro ⟨boundary, later, rfl, blank, line⟩
    rw [List.head?_append, Option.or_of_isSome (Option.isSome_of_any starts), starts, boundary]
    cases later with
    | nil => simp at blank
    | cons c later =>
        have blank : isBlank c = true := by simpa using blank
        refine ⟨by decide, c :: later, rfl, c, later, rfl, blank, later.takeWhile isBlank,
          later.dropWhile isBlank, List.takeWhile_append_dropWhile.symm,
          fun _ member => List.mem_takeWhile_imp member, later.dropWhile isBlank, [],
          (List.append_nil _).symm, ?_, Or.inl rfl, rfl⟩
        intro own member
        rw [Text.trimStart, List.dropWhile_cons, if_pos blank] at line
        rw [bne_iff_ne]
        rintro rfl
        exact line member

theorem wordContext_holds (starts : word.head?.any isWordChar = true) :
    ((wordContext word).pattern.run fuel some (.between front back)).isSome = true ↔
      front.getLast?.any isWordChar = false ∧ back = word := by
  simp only [wordContext, List.cons_append, Pattern.run_all_cons, Pattern.run_all_append,
    Pattern.run_boundary_isSome, Pattern.run_exactly_isSome, Pattern.run_lastLineEnd_isSome,
    Place.rest_passed]
  have here : (Place.between front back).rest = back := rfl
  have before : (Place.between front back).before.head? = front.getLast? := List.head?_reverse
  rw [here, before]
  constructor
  · rintro ⟨edge, tail, rfl, lineEnd, -⟩
    obtain rfl := tail_eq_nil ends rfl lineEnd
    rw [List.append_nil, starts] at edge
    exact ⟨by simpa using edge, List.append_nil word⟩
  · rintro ⟨boundary, rfl⟩
    rw [boundary, starts]
    exact ⟨by decide, [], (List.append_nil back).symm, Or.inl rfl, rfl⟩

theorem dotContext_holds :
    ((Pattern.all [Pattern.char '.', Pattern.lastLineEnd]).run fuel some
      (.between front back)).isSome = true ↔ back = ['.'] := by
  simp only [Pattern.run_all_cons, Pattern.char, Pattern.oneOf, Pattern.run_one_isSome,
    CharClass.accepts_single, beq_iff_eq]
  constructor
  · rintro ⟨c, tail, split, rfl, found⟩
    have lineEnd := (Pattern.run_lastLineEnd_isSome.mp found).1
    have split : back = ['.'] ++ tail := split
    rw [split, tail_eq_nil ends split lineEnd, List.append_nil]
  · rintro rfl
    exact ⟨'.', [], rfl, rfl, Pattern.run_lastLineEnd_isSome.mpr ⟨Or.inl rfl, rfl⟩⟩

end Places

theorem denying_starts :
    ∀ token ∈ denyingKeywords ++ denyingWords, token.head?.any isWordChar = true := by
  decide

/-- What the default patterns find in a text without the blanks at its end. -/
theorem denies_eq_deniesCall {tables : FilterTables}
    (patterns : tables.contextPatterns = defaultContextPatterns) (text : Text) :
    tables.denies text.trimEnd = deniesCall text.trimEnd := by
  have trimmed : text.trimEnd.trimEnd = text.trimEnd := Text.trimEnd_trimEnd text
  generalize text.trimEnd = window at trimmed
  have ends {front back : Text} (split : window = front ++ back) : back.getLast? ≠ some '\n' := by
    intro last
    obtain ⟨init, rfl⟩ := List.getLast?_eq_some_iff.mp last
    rw [← List.append_assoc] at split
    exact Text.trimEnd_ne_append_blank (by decide) (trimmed.trans split)
  rw [Bool.eq_iff_iff, deniesCall_iff, FilterTables.denies, patterns, defaultContextPatterns,
    List.any_append, List.any_cons, List.any_map, List.any_map]
  simp only [Bool.or_eq_true, List.any_eq_true, Function.comp_apply, foundIn_iff]
  constructor
  · rintro (⟨keyword, listed, front, back, split, found⟩ | ⟨front, back, split, found⟩ |
      ⟨word, listed, front, back, split, found⟩)
    · have starts := denying_starts keyword (List.mem_append_left _ listed)
      obtain ⟨boundary, later⟩ := (keywordContext_holds (ends split) starts).mp found
      exact Or.inr ⟨front, back, split, deniesFrom_iff.mpr
        ⟨boundary, Or.inl ⟨keyword, listed, later⟩⟩⟩
    · obtain rfl := (dotContext_holds (ends split)).mp found
      rw [split]
      exact Or.inl List.getLast?_concat
    · have starts := denying_starts word (List.mem_append_right _ listed)
      obtain ⟨boundary, rfl⟩ := (wordContext_holds (ends split) starts).mp found
      exact Or.inr ⟨front, back, split, deniesFrom_iff.mpr ⟨boundary, Or.inr listed⟩⟩
  · rintro (dot | ⟨front, back, split, denies⟩)
    · obtain ⟨front, split⟩ := List.getLast?_eq_some_iff.mp dot
      exact Or.inr (Or.inl ⟨front, ['.'], split, (dotContext_holds (ends split)).mpr rfl⟩)
    · obtain ⟨boundary, ⟨keyword, listed, later⟩ | listed⟩ := deniesFrom_iff.mp denies
      · have starts := denying_starts keyword (List.mem_append_left _ listed)
        exact Or.inl ⟨keyword, listed, front, back, split,
          (keywordContext_holds (ends split) starts).mpr ⟨boundary, later⟩⟩
      · have starts := denying_starts back (List.mem_append_right _ listed)
        exact Or.inr (Or.inr ⟨back, listed, front, back, split,
          (wordContext_holds (ends split) starts).mpr ⟨boundary, rfl⟩⟩)

/-! Accessors that are chained onto a literal. -/

def selection (text : Text) : Option Text :=
  match text.trimStart with
  | '.' :: rest => some (Text.trimStart rest)
  | _ => none

def isLocalizingSelection (selected : Text) : Bool :=
  let name := selected.takeWhile isWordChar
  let called := (Text.trimStart (selected.drop name.length)).head? == some '('
  name == ['t', 'r'] || name == ['i', '1', '8', 'n'] ||
    (match name with
      | 't' :: 'r' :: c :: _ => c.isUpper
      | _ => false) ||
    (called && (name == "plural".toList || name == "translate".toList))

def isLocalizedBy (after : Text) : Bool :=
  (selection after).any isLocalizingSelection

theorem selection_eq_some_iff {after : Text} {c : Char} {selected : Text}
    (visible : isBlank c = false) :
    selection after = some (c :: selected) ↔
      ∃ gap space, after = gap ++ '.' :: (space ++ c :: selected) ∧
        (∀ b ∈ gap, isBlank b = true) ∧ ∀ b ∈ space, isBlank b = true := by
  have dot : isBlank '.' = false := by decide
  constructor
  · intro found
    unfold selection at found
    split at found
    next rest trimmed =>
      refine ⟨after.takeWhile isBlank, rest.takeWhile isBlank, ?_,
        fun _ member => List.mem_takeWhile_imp member,
        fun _ member => List.mem_takeWhile_imp member⟩
      rw [← Option.some.inj found, Text.trimStart, List.takeWhile_append_dropWhile, ← trimmed,
        Text.trimStart, List.takeWhile_append_dropWhile]
    next => simp at found
  · rintro ⟨gap, space, rfl, gapBlank, spaceBlank⟩
    rw [selection, Text.trimStart, Text.dropWhile_isBlank_append gapBlank dot]
    simp only [Text.trimStart, Text.dropWhile_isBlank_append spaceBlank visible]

theorem dropWhile_stops (holds : Char → Bool) (text : Text) :
    (text.dropWhile holds).head?.any holds = false := by
  have stops := List.head?_dropWhile_not holds text
  cases first : (text.dropWhile holds).head? with
  | none => rfl
  | some c => simpa [first] using stops

theorem takeWhile_eq_iff {holds : Char → Bool} {name text : Text}
    (inside : ∀ c ∈ name, holds c = true) :
    text.takeWhile holds = name ↔
      ∃ rest, text = name ++ rest ∧ rest.head?.any holds = false := by
  constructor
  · rintro rfl
    exact ⟨text.dropWhile holds, List.takeWhile_append_dropWhile.symm, dropWhile_stops holds text⟩
  · rintro ⟨rest, rfl, stops⟩
    rw [List.takeWhile_append_of_pos inside]
    cases rest with
    | nil => rw [List.takeWhile_nil, List.append_nil]
    | cons c rest =>
        have stops : holds c = false := stops
        rw [List.takeWhile_cons, stops, if_neg (by decide), List.append_nil]

theorem isWordChar_of_isUpper {c : Char} (upper : c.isUpper = true) : isWordChar c = true := by
  have alpha : c.isAlpha = true := Bool.or_eq_true_iff.mpr (Or.inl upper)
  exact isWordChar_of_isNameStart (Bool.or_eq_true_iff.mpr (Or.inl alpha))

section Accessors

variable {fuel : Nat} {place : Place} {name : Text}

theorem run_name_isSome (inside : ∀ c ∈ name, isWordChar c = true) (nonempty : name ≠ []) :
    ((Pattern.all (name.map Pattern.char ++ [.boundary true])).run fuel some place).isSome = true ↔
      place.rest.takeWhile isWordChar = name := by
  simp only [Pattern.run_all_append, Pattern.run_exactly_isSome, takeWhile_eq_iff inside]
  have last : name.getLast?.any isWordChar = true := by
    rw [List.getLast?_eq_some_getLast nonempty]
    exact inside _ (List.getLast_mem nonempty)
  have before (rest : Text) : (place.passed name rest).before.head?.any isWordChar = true := by
    rw [Place.passed, List.head?_append, List.head?_reverse,
      Option.or_of_isSome (Option.isSome_of_any last), last]
  apply exists_congr
  intro rest
  apply and_congr_right
  intro _
  change ((Pattern.boundary true).run fuel some (place.passed name rest)).isSome = true ↔ _
  rw [Pattern.run_boundary_isSome, before]
  simp

theorem run_call_isSome (inside : ∀ c ∈ name, isWordChar c = true) :
    ((Pattern.all (name.map Pattern.char ++
        [.many (.oneOf [.blank true]), .char '('])).run fuel some place).isSome = true ↔
      place.rest.takeWhile isWordChar = name ∧
        (Text.trimStart (place.rest.drop name.length)).head? = some '(' := by
  have blanks : CharClass.accepts { negated := false, items := [.blank true] } = isBlank :=
    funext CharClass.accepts_blank
  simp only [Pattern.run_all_append, Pattern.run_exactly_isSome, Pattern.run_all_cons,
    Pattern.oneOf, Pattern.char, Pattern.run_many_isSome, Pattern.run_one_isSome,
    CharClass.accepts_single, beq_iff_eq, blanks, Place.rest_passed]
  constructor
  · rintro ⟨rest, split, gap, _, rfl, gapBlank, _, tail, rfl, rfl, -⟩
    have stops : (gap ++ '(' :: tail).head?.any isWordChar = false := by
      cases gap with
      | nil => exact (by decide : isWordChar '(' = false)
      | cons b gap =>
          exact isWordChar_of_isBlank (gapBlank b List.mem_cons_self)
    refine ⟨(takeWhile_eq_iff inside).mpr ⟨_, split, stops⟩, ?_⟩
    rw [split, List.drop_left, Text.trimStart,
      Text.dropWhile_isBlank_append gapBlank (by decide)]
    rfl
  · rintro ⟨named, called⟩
    obtain ⟨rest, split, -⟩ := (takeWhile_eq_iff inside).mp named
    rw [split, List.drop_left] at called
    obtain ⟨tail, trimmed⟩ := List.head?_eq_some_iff.mp called
    exact ⟨rest, split, rest.takeWhile isBlank, rest.dropWhile isBlank,
      List.takeWhile_append_dropWhile.symm, fun _ member => List.mem_takeWhile_imp member,
      '(', tail, trimmed, rfl, rfl⟩

/-- Behind a word character the rest of the word and its end are always found. -/
theorem run_wordEnd_isSome (inWord : place.before.head?.any isWordChar = true) :
    ((Pattern.all [.many (.oneOf [.word true]), .boundary true]).run fuel some place).isSome =
      true := by
  have words : CharClass.accepts { negated := false, items := [.word true] } = isWordChar :=
    funext CharClass.accepts_word
  rw [Pattern.run_all_cons, Pattern.oneOf, Pattern.run_many_isSome, words]
  refine ⟨place.rest.takeWhile isWordChar, place.rest.dropWhile isWordChar,
    List.takeWhile_append_dropWhile.symm, fun _ member => List.mem_takeWhile_imp member, ?_⟩
  have before : (place.passed (place.rest.takeWhile isWordChar)
      (place.rest.dropWhile isWordChar)).before.head?.any isWordChar = true := by
    rw [Place.passed, List.head?_append, List.head?_reverse]
    cases last : (place.rest.takeWhile isWordChar).getLast? with
    | none => exact inWord
    | some c =>
        have word : isWordChar c = true := List.mem_takeWhile_imp (List.mem_of_getLast? last)
        exact word
  rw [Pattern.run_all_cons, Pattern.run_boundary_isSome, before, Place.rest_passed,
    dropWhile_stops]
  exact ⟨by decide, rfl⟩

theorem run_capitalized_isSome :
    ((Pattern.all [.char 't', .char 'r', .oneOf [.range 0x41 0x5a], .many (.oneOf [.word true]),
        .boundary true]).run fuel some place).isSome = true ↔
      ∃ c rest, place.rest = 't' :: 'r' :: c :: rest ∧ c.isUpper = true := by
  simp only [Pattern.run_all_cons, Pattern.char, Pattern.oneOf, Pattern.run_one_isSome,
    CharClass.accepts_single, CharClass.accepts_capital, beq_iff_eq, Place.rest_passed]
  constructor
  · rintro ⟨_, _, split, rfl, _, _, rfl, rfl, c, rest, rfl, upper, -⟩
    exact ⟨c, rest, split, upper⟩
  · rintro ⟨c, rest, split, upper⟩
    exact ⟨'t', _, split, rfl, 'r', _, rfl, rfl, c, rest, rfl, upper,
      run_wordEnd_isSome (isWordChar_of_isUpper upper)⟩

end Accessors

/-- A pattern behind the dot and its blanks, if it asks only for what comes next and never for a
blank at first. -/
theorem selecting_matches {written : String} {accessor : List Pattern} {holds : Text → Prop}
    (means : ∀ fuel (place : Place),
      ((Pattern.all accessor).run fuel some place).isSome = true ↔ holds place.rest)
    (visible : ∀ selected, holds selected → selected.head?.any (!isBlank ·) = true) {after : Text} :
    (selecting written accessor).pattern.matchesFront after = true ↔
      ∃ selected, selection after = some selected ∧ holds selected := by
  have blanks : CharClass.accepts { negated := false, items := [.blank true] } = isBlank :=
    funext CharClass.accepts_blank
  have items : (selecting written accessor).pattern = Pattern.all ([Pattern.textStart,
      .many (.oneOf [.blank true]), .char '.', .many (.oneOf [.blank true])] ++ accessor) := rfl
  rw [Pattern.matchesFront, items]
  simp only [Pattern.run_all_append, Pattern.run_all_cons, Pattern.run_textStart_isSome,
    Pattern.oneOf, Pattern.char,
    Pattern.run_many_isSome, Pattern.run_one_isSome, CharClass.accepts_single, beq_iff_eq, blanks,
    Place.rest_passed]
  constructor
  · rintro ⟨-, gap, _, rfl, gapBlank, _, _, rfl, rfl, space, selected, rfl, spaceBlank, found⟩
    have found := (means _ _).mp found
    have starts := visible selected found
    cases selected with
    | nil => simp at starts
    | cons c selected =>
        have shown : isBlank c = false := by simpa using starts
        exact ⟨_, (selection_eq_some_iff shown).mpr ⟨gap, space, rfl, gapBlank, spaceBlank⟩, found⟩
  · rintro ⟨selected, chained, found⟩
    have starts := visible selected found
    cases selected with
    | nil => simp at starts
    | cons c selected =>
        have shown : isBlank c = false := by simpa using starts
        obtain ⟨gap, space, rfl, gapBlank, spaceBlank⟩ := (selection_eq_some_iff shown).mp chained
        refine ⟨trivial, gap, '.' :: (space ++ c :: selected), rfl, gapBlank, '.',
          space ++ c :: selected, rfl, rfl, space, c :: selected, rfl, spaceBlank, ?_⟩
        exact (means _ _).mpr found

def SelectsCapitalized (selected : Text) : Prop :=
  ∃ c rest, selected = 't' :: 'r' :: c :: rest ∧ c.isUpper = true

def SelectsCall (name selected : Text) : Prop :=
  selected.takeWhile isWordChar = name ∧
    (Text.trimStart (selected.drop name.length)).head? = some '('

theorem isLocalizingSelection_iff {selected : Text} :
    isLocalizingSelection selected = true ↔
      selected.takeWhile isWordChar = "tr".toList ∨ SelectsCapitalized selected ∨
      selected.takeWhile isWordChar = "i18n".toList ∨
      SelectsCall "plural".toList selected ∨ SelectsCall "translate".toList selected := by
  have capitalized : (match selected.takeWhile isWordChar with
      | 't' :: 'r' :: c :: _ => c.isUpper
      | _ => false) = true ↔ SelectsCapitalized selected := by
    constructor
    · intro found
      split at found
      next c more name =>
        obtain ⟨rest, split, -⟩ :=
          (takeWhile_eq_iff fun _ member => List.mem_takeWhile_imp (name ▸ member)).mp name
        exact ⟨c, more ++ rest, split, found⟩
      next => simp at found
    · rintro ⟨c, rest, rfl, upper⟩
      have tr : isWordChar 't' = true ∧ isWordChar 'r' = true := by decide
      simp only [List.takeWhile_cons, tr, isWordChar_of_isUpper upper, if_true, upper]
  have call (name : Text) (listed : name = "plural".toList ∨ name = "translate".toList) :
      SelectsCall name selected ↔ selected.takeWhile isWordChar = name ∧
        (Text.trimStart (selected.drop (selected.takeWhile isWordChar).length)).head? =
          some '(' := by
    rw [SelectsCall]
    apply and_congr_right
    rintro rfl
    rfl
  rw [call _ (Or.inl rfl), call _ (Or.inr rfl), ← capitalized]
  simp only [isLocalizingSelection, Bool.or_eq_true, Bool.and_eq_true, beq_iff_eq]
  constructor
  · rintro (((tr | i18n) | ending) | ⟨called, plural | translate⟩)
    · exact Or.inl tr
    · exact Or.inr (Or.inr (Or.inl i18n))
    · exact Or.inr (Or.inl ending)
    · exact Or.inr (Or.inr (Or.inr (Or.inl ⟨plural, called⟩)))
    · exact Or.inr (Or.inr (Or.inr (Or.inr ⟨translate, called⟩)))
  · rintro (tr | ending | i18n | ⟨plural, called⟩ | ⟨translate, called⟩)
    · exact Or.inl (Or.inl (Or.inl tr))
    · exact Or.inl (Or.inr ending)
    · exact Or.inl (Or.inl (Or.inr i18n))
    · exact Or.inr ⟨called, Or.inl plural⟩
    · exact Or.inr ⟨called, Or.inr translate⟩

section Suffixes

variable {name : Text} {selected : Text}

theorem head?_visible_of_name (nonempty : name ≠ [])
    (found : selected.takeWhile isWordChar = name) :
    selected.head?.any (!isBlank ·) = true := by
  cases selected with
  | nil => exact absurd found.symm nonempty
  | cons c selected =>
      rw [List.takeWhile_cons] at found
      split at found
      next word => simpa using isBlank_of_isWordChar word
      next => exact absurd found.symm nonempty

theorem selectedName_matches (name : String) (inside : name.toList.all isWordChar = true)
    (nonempty : name.toList ≠ []) {after : Text} :
    (selectedName name).pattern.matchesFront after = true ↔
      ∃ selected, selection after = some selected ∧
        selected.takeWhile isWordChar = name.toList :=
  selecting_matches (fun _ _ => run_name_isSome (List.all_eq_true.mp inside) nonempty)
    fun _ found => head?_visible_of_name nonempty found

theorem selectedCall_matches (name : String) (inside : name.toList.all isWordChar = true)
    (nonempty : name.toList ≠ []) {after : Text} :
    (selectedCall name).pattern.matchesFront after = true ↔
      ∃ selected, selection after = some selected ∧ SelectsCall name.toList selected :=
  selecting_matches (fun _ _ => run_call_isSome (List.all_eq_true.mp inside))
    fun _ found => head?_visible_of_name nonempty found.1

theorem capitalized_matches (written : String) {after : Text} :
    (selecting written [.char 't', .char 'r', .oneOf [.range 0x41 0x5a],
        .many (.oneOf [.word true]), .boundary true]).pattern.matchesFront after = true ↔
      ∃ selected, selection after = some selected ∧ SelectsCapitalized selected := by
  refine selecting_matches (fun _ _ => run_capitalized_isSome) ?_
  rintro _ ⟨c, rest, rfl, -⟩
  exact (by decide : (!isBlank 't') = true)

end Suffixes

/-- What the default suffixes find right behind a literal. -/
theorem suffixes_eq_isLocalizedBy {tables : FilterTables}
    (suffixes : tables.localizedSuffixes = defaultLocalizedSuffixes) (after : Text) :
    (tables.localizedSuffixes.any fun chained => chained.pattern.matchesFront after) =
      isLocalizedBy after := by
  rw [Bool.eq_iff_iff, suffixes, defaultLocalizedSuffixes]
  simp only [List.any_cons, List.any_nil, Bool.or_false, Bool.or_eq_true, capitalized_matches,
    selectedName_matches "tr" (by decide) (by decide),
    selectedName_matches "i18n" (by decide) (by decide),
    selectedCall_matches "plural" (by decide) (by decide),
    selectedCall_matches "translate" (by decide) (by decide),
    isLocalizedBy, Option.any_eq_true, isLocalizingSelection_iff, and_or_left, exists_or]

end HardcodedText
