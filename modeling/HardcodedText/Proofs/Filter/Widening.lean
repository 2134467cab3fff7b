import HardcodedText.Proofs.Filter.DefaultPatterns

/-!
Contexts that see more. An argument list around another one shows a literal with the same text on
both sides, and with more of it beyond the parentheses of the inner list. What the filters find in
the narrow context they find in the wide one, so that a literal dropped there is dropped here. For
the accessors that mark a literal as localized this is so of the default ones.
-/

namespace HardcodedText

theorem trimStart_append {text rest : Text} {c : Char} (trimmed : text.trimStart = c :: rest)
    (more : Text) : Text.trimStart (text ++ more) = c :: (rest ++ more) := by
  have found : text.dropWhile isBlank = c :: rest := trimmed
  rw [Text.trimStart, List.dropWhile_append, found]
  rfl

theorem reverse_trimEnd_append {text reversed : Text} {c : Char}
    (trimmed : text.trimEnd.reverse = c :: reversed) (front : Text) :
    (Text.trimEnd (front ++ text)).reverse = c :: (reversed ++ front.reverse) := by
  rw [Text.trimEnd, List.reverse_reverse] at trimmed ⊢
  rw [List.reverse_append]
  exact trimStart_append trimmed front.reverse

theorem head?_trimStart_append {text : Text} {c : Char} (first : text.trimStart.head? = some c)
    (more : Text) : (Text.trimStart (text ++ more)).head? = some c := by
  obtain ⟨rest, trimmed⟩ := List.head?_eq_some_iff.mp first
  rw [trimStart_append trimmed]
  rfl

theorem getLast?_trimEnd_append {text : Text} {c : Char} (last : text.trimEnd.getLast? = some c)
    (front : Text) : (Text.trimEnd (front ++ text)).getLast? = some c := by
  rw [← List.head?_reverse] at last ⊢
  obtain ⟨reversed, trimmed⟩ := List.head?_eq_some_iff.mp last
  rw [reverse_trimEnd_append trimmed]
  rfl

/-! What follows the literal. -/

theorem isLocalizingSelection_append {selected : Text}
    (localizing : isLocalizingSelection selected = true) (more : Text) :
    isLocalizingSelection (selected ++ ')' :: more) = true := by
  have name : (selected ++ ')' :: more).takeWhile isWordChar = selected.takeWhile isWordChar :=
    takeWhile_append_stop (by decide) selected more
  have room := (List.takeWhile_prefix isWordChar (l := selected)).length_le
  simp only [isLocalizingSelection, name, List.drop_append_of_le_length room, Bool.or_eq_true,
    Bool.and_eq_true, beq_iff_eq] at localizing ⊢
  rcases localizing with plain | ⟨called, named⟩
  · exact Or.inl plain
  · exact Or.inr ⟨head?_trimStart_append called _, named⟩

theorem isLocalizedBy_append {after : Text} (localized : isLocalizedBy after = true)
    (more : Text) : isLocalizedBy (after ++ ')' :: more) = true := by
  unfold isLocalizedBy selection at localized
  split at localized
  next rest dot =>
    simp only [Option.any_some] at localized
    cases selected : Text.trimStart rest with
    | nil =>
        rw [selected] at localized
        exact absurd localized (by decide)
    | cons c later =>
        have localizing := isLocalizingSelection_append (selected ▸ localized) more
        rw [isLocalizedBy, selection, trimStart_append dot]
        simp only [trimStart_append selected, Option.any_some]
        exact localizing
  next => simp at localized

/-! What stands before the literal. -/

theorem endsInCallName_append {name reversed : Text}
    (ends : endsInCallName name reversed = true) (more : Text) :
    endsInCallName name (reversed ++ '(' :: more) = true := by
  simp only [endsInCallName, Bool.and_eq_true, List.isPrefixOf_iff_prefix] at ends ⊢
  have room := ends.1.length_le
  rw [List.length_reverse] at room
  refine ⟨ends.1.trans (List.prefix_append _ _), ?_⟩
  rw [List.drop_append_of_le_length room]
  cases left : reversed.drop name.length with
  | nil =>
      change (!(some '(').any fun c => isWordChar c || c == '.') = true
      decide
  | cons c later => simpa [left] using ends.2

theorem anyPastBlanks_append {test : Text → Bool} {more : Text}
    (wider : ∀ text, test text = true → test (text ++ more) = true) {text : Text}
    (found : anyPastBlanks test text = true) : anyPastBlanks test (text ++ more) = true := by
  induction text with
  | nil =>
      have here := wider [] found
      cases more with
      | nil => exact found
      | cons c more => rw [List.nil_append, anyPastBlanks, Bool.or_eq_true]; exact Or.inl here
  | cons c rest ih =>
      rw [anyPastBlanks, Bool.or_eq_true, Bool.and_eq_true] at found
      rw [List.cons_append, anyPastBlanks, Bool.or_eq_true, Bool.and_eq_true]
      rcases found with here | ⟨blank, later⟩
      · exact Or.inl (wider (c :: rest) here)
      · exact Or.inr ⟨blank, ih later⟩

theorem endsInCall_append {calls : List Text} {before : Text}
    (ends : endsInCall calls before = true) (front : Text) :
    endsInCall calls (front ++ '(' :: before) = true := by
  unfold endsInCall at ends
  split at ends
  next reversed trimmed =>
    have wide := reverse_trimEnd_append trimmed (front ++ ['('])
    rw [List.append_assoc, List.singleton_append, List.reverse_append] at wide
    rw [Bool.and_eq_true, List.any_eq_true] at ends
    obtain ⟨named, name, listed, found⟩ := ends
    rw [endsInCall, wide]
    simp only [Bool.and_eq_true, List.any_eq_true]
    refine ⟨named, name, listed, anyPastBlanks_append ?_ found⟩
    intro text call
    exact endsInCallName_append call front.reverse
  next => simp at ends

theorem trailingName_append {before name : Text} (ends : trailingName before = some name)
    (front : Text) : trailingName (front ++ '(' :: before) = some name := by
  unfold trailingName at ends
  split at ends
  next reversed trimmed =>
    have wide := reverse_trimEnd_append trimmed (front ++ ['('])
    rw [List.append_assoc, List.singleton_append, List.reverse_append] at wide
    rw [trailingName, wide]
    simp only at ends ⊢
    cases word : Text.trimStart reversed with
    | nil => simp [word] at ends
    | cons c later =>
        have same : (c :: (later ++ '(' :: front.reverse)).takeWhile isWordChar =
            (c :: later).takeWhile isWordChar :=
          takeWhile_append_stop (by decide) (c :: later) front.reverse
        rw [trimStart_append word]
        rw [word] at ends
        simpa [same] using ends
  next => simp at ends

/-! The filters in both contexts. -/

structure Widens (inner outer : LiteralContext) : Prop where
  content_eq : outer.content = inner.content
  before_eq : outer.before = inner.before ∨ ∃ front, outer.before = front ++ '(' :: inner.before
  after_eq : outer.after = inner.after ∨ ∃ more, outer.after = inner.after ++ ')' :: more

namespace Widens

variable {inner outer : LiteralContext} {tables : FilterTables}

theorem head?_after (widens : Widens inner outer) {c : Char}
    (follows : inner.after.trimStart.head? = some c) :
    outer.after.trimStart.head? = some c := by
  rcases widens.after_eq with same | ⟨more, same⟩
  · rwa [same]
  · rw [same]
    exact head?_trimStart_append follows _

theorem endsInCall (widens : Widens inner outer) {calls : List Text}
    (ends : endsInCall calls inner.before = true) :
    HardcodedText.endsInCall calls outer.before = true := by
  rcases widens.before_eq with same | ⟨front, same⟩
  · rwa [same]
  · rw [same]
    exact endsInCall_append ends front

theorem isLocalized (widens : Widens inner outer)
    (suffixes : tables.localizedSuffixes = defaultLocalizedSuffixes)
    (localized : isLocalized inner tables = true) :
    HardcodedText.isLocalized outer tables = true := by
  rw [HardcodedText.isLocalized, suffixes_eq_isLocalizedBy suffixes, Bool.or_eq_true] at localized ⊢
  rw [widens.content_eq]
  rcases localized with content | chained
  · exact Or.inl content
  · refine Or.inr ?_
    rcases widens.after_eq with same | ⟨more, same⟩
    · rwa [same]
    · rw [same]
      exact isLocalizedBy_append chained more

theorem isSymbolReference (widens : Widens inner outer)
    (reference : isSymbolReference inner = true) :
    HardcodedText.isSymbolReference outer = true := by
  simp only [HardcodedText.isSymbolReference, Bool.or_eq_true, beq_iff_eq] at reference ⊢
  rcases reference with selected | called
  · refine Or.inl ?_
    rcases widens.before_eq with same | ⟨front, same⟩
    · rwa [same]
    · rw [same, ← List.singleton_append, ← List.append_assoc]
      exact getLast?_trimEnd_append selected _
  · exact Or.inr (widens.head?_after called)

theorem isTechnicalArgument (widens : Widens inner outer)
    (technical : isTechnicalArgument inner tables = true) :
    HardcodedText.isTechnicalArgument outer tables = true := by
  simp only [HardcodedText.isTechnicalArgument, Bool.or_eq_true, Bool.and_eq_true, beq_iff_eq,
    Option.any_eq_true] at technical ⊢
  rcases technical with ⟨call, closes | continues⟩ | ⟨name, trailing, listed⟩
  · exact Or.inl ⟨widens.endsInCall call, Or.inl (widens.head?_after closes)⟩
  · exact Or.inl ⟨widens.endsInCall call, Or.inr (widens.head?_after continues)⟩
  · refine Or.inr ⟨name, ?_, listed⟩
    rcases widens.before_eq with same | ⟨front, same⟩
    · rwa [same]
    · rw [same]
      exact trailingName_append trailing front

theorem fires (widens : Widens inner outer)
    (suffixes : tables.localizedSuffixes = defaultLocalizedSuffixes) {filter : Filter}
    (found : filter.fires inner tables = true) : filter.fires outer tables = true := by
  have content := widens.content_eq
  cases filter with
  | localized => exact widens.isLocalized suffixes found
  | symbolReference => exact widens.isSymbolReference found
  | technicalArgument => exact widens.isTechnicalArgument found
  | blank => simpa only [Filter.fires, isBlankContent, content] using found
  | technicalShape => simpa only [Filter.fires, content] using found
  | prose => simpa only [Filter.fires, LiteralContext.stripped, content] using found
  | mask => simpa only [Filter.fires, content] using found
  | interpolation => simpa only [Filter.fires, isMainlyInterpolation, content] using found
  | identifier => simpa only [Filter.fires, isIdentifier, content] using found

theorem prose_fires (widens : Widens inner outer) :
    Filter.prose.fires outer tables = Filter.prose.fires inner tables := by
  rw [Filter.fires, Filter.fires, LiteralContext.stripped, LiteralContext.stripped,
    widens.content_eq]

end Widens

theorem Filter.verdict_eq_drop {filter : Filter} (other : filter ≠ .prose) :
    filter.verdict = .drop := by
  cases filter with
  | prose => exact absurd rfl other
  | _ => rfl

theorem classifyBy_keep_iff {filters : List Filter} (absent : Filter.prose ∉ filters)
    (context : LiteralContext) (tables : FilterTables) :
    (classifyBy filters context tables).keep = true ↔
      ∀ filter ∈ filters, filter.fires context tables = false := by
  cases decided : filters.find? (·.fires context tables) with
  | none =>
      have silent := List.find?_eq_none.mp decided
      simpa [classifyBy, decided, Classification.keep, Classification.verdict] using silent
  | some filter =>
      have member := List.mem_of_find?_eq_some decided
      have fired : filter.fires context tables = true := by simpa using List.find?_some decided
      have drops := Filter.verdict_eq_drop (ne_of_mem_of_not_mem member absent)
      constructor
      · intro keeps
        simp [classifyBy, decided, Classification.keep, Classification.verdict, drops] at keeps
      · intro silent
        rw [silent filter member] at fired
        exact absurd fired (by decide)

theorem classifyBy_around_prose {guards fallbacks : List Filter}
    (noGuard : Filter.prose ∉ guards) (noFallback : Filter.prose ∉ fallbacks)
    (context : LiteralContext) (tables : FilterTables) :
    (classifyBy (guards ++ .prose :: fallbacks) context tables).keep = true ↔
      (∀ filter ∈ guards, filter.fires context tables = false) ∧
      (Filter.prose.fires context tables = true ∨
        ∀ filter ∈ fallbacks, filter.fires context tables = false) := by
  rw [← classifyBy_keep_iff noGuard, ← classifyBy_keep_iff noFallback]
  simp only [classifyBy, List.find?_append, List.find?_cons]
  cases decided : guards.find? (·.fires context tables) with
  | none =>
      cases prose : Filter.prose.fires context tables <;>
        simp [Classification.keep, Classification.verdict, Filter.verdict]
  | some filter =>
      have member := List.mem_of_find?_eq_some decided
      have drops := Filter.verdict_eq_drop (ne_of_mem_of_not_mem member noGuard)
      simp [Classification.keep, Classification.verdict, drops]

theorem classify_keep_iff (context : LiteralContext) (tables : FilterTables) :
    (classify context tables).keep = true ↔
      (∀ filter ∈ [Filter.blank, .localized, .symbolReference, .technicalArgument,
        .technicalShape], filter.fires context tables = false) ∧
      (Filter.prose.fires context tables = true ∨
        ∀ filter ∈ [Filter.mask, .interpolation, .identifier],
          filter.fires context tables = false) := by
  rw [← classifyBy_around_prose (by decide) (by decide)]
  rfl

/-- Where every filter fires that fires elsewhere, and the prose filter fires in both places or in
neither, a literal that is kept is kept elsewhere. -/
theorem keep_of_fires {context elsewhere : LiteralContext} {tables others : FilterTables}
    (fires : ∀ filter : Filter, filter.fires elsewhere others = true →
      filter.fires context tables = true)
    (prose : Filter.prose.fires context tables = Filter.prose.fires elsewhere others)
    (kept : (classify context tables).keep = true) :
    (classify elsewhere others).keep = true := by
  have silent {filter : Filter} (quiet : filter.fires context tables = false) :
      filter.fires elsewhere others = false := by
    cases found : filter.fires elsewhere others with
    | false => rfl
    | true => rw [fires filter found] at quiet; exact quiet
  rw [classify_keep_iff] at kept ⊢
  rw [prose] at kept
  refine ⟨fun filter member => silent (kept.1 filter member), ?_⟩
  rcases kept.2 with prose | none
  · exact Or.inl prose
  · exact Or.inr fun filter member => silent (none filter member)

theorem Widens.keep {inner outer : LiteralContext} (widens : Widens inner outer)
    {tables : FilterTables} (suffixes : tables.localizedSuffixes = defaultLocalizedSuffixes)
    (kept : (classify outer tables).keep = true) : (classify inner tables).keep = true :=
  -- The one filter that keeps sees the content alone, which is the same in both contexts.
  keep_of_fires (fun _ found => widens.fires suffixes found) widens.prose_fires kept

end HardcodedText
