import HardcodedText.Proofs.Directive.Denial
import HardcodedText.Proofs.Directive.Extraction
import HardcodedText.Proofs.Directive.Head

/-!
Matches of a text whose ignore directives are kept, and of the text without any comment. Where the
directives are set apart from the code around them, both give the same matches: the same calls are
found, with the same argument lists but for the comments in them, the same literals are kept, and
the same parameters are inferred.
-/

namespace HardcodedText

/-! Calls. -/

theorem flatMap_filter {α β : Type} {keep : α → Bool} {collect collect' : α → List β}
    {values : List α} (kept : ∀ value ∈ values, keep value = true → collect value = collect' value)
    (dropped : ∀ value ∈ values, keep value = false → collect' value = []) :
    (values.filter keep).flatMap collect = values.flatMap collect' := by
  induction values with
  | nil => rfl
  | cons value values ih =>
      have later := ih (fun other member => kept other (List.mem_cons_of_mem _ member))
        (fun other member => dropped other (List.mem_cons_of_mem _ member))
      cases here : keep value with
      | true => rw [List.filter_cons_of_pos here, List.flatMap_cons, List.flatMap_cons, later,
          kept value List.mem_cons_self here]
      | false => rw [List.filter_cons_of_neg (by simp [here]), List.flatMap_cons, later,
          dropped value List.mem_cons_self here, List.nil_append]

section Calls

variable {text : Text} {catalog : List WidgetPattern} {reader : NameReader}

theorem outside_of_nonblank {place : Nat} {c : Char}
    (read : (stripComments text [])[place]? = some c) (nonblank : isBlank c = false) :
    ∀ span ∈ commentSpans text, span.contains place = false := by
  rw [← veiled_commentCells, veiled, List.getElem?_map, Option.map_eq_some_iff] at read
  obtain ⟨cell, found, rfl⟩ := read
  have visible := Cell.isVisible_of_veiled nonblank
  rw [getElem?_commentCells, Option.map_eq_some_iff] at found
  obtain ⟨c, -, rfl⟩ := found
  rw [Cell.isVisible, List.any_eq_false] at visible
  intro span listed
  simpa using visible span listed

theorem name_outside (agrees : reader.Agrees) {offset : Nat} {head : CallHead}
    (headed : (offset, head) ∈ heads reader (stripComments text [])) :
    ∀ span ∈ commentSpans text, span.contains (offset + head.nameOffset) = false := by
  obtain ⟨named, front, back, keyword, blanks, rest, split, reached, written⟩ :=
    mem_heads agrees.reads headed
  obtain ⟨nonempty, plain⟩ := agrees.named _ named
  obtain ⟨c, name, cut⟩ := List.exists_cons_of_ne_nil nonempty
  rw [cut] at plain
  have read : (stripComments text [])[offset + head.nameOffset]? = some c := by
    rw [split, written.text_eq, cut, ← reached, ← written.keyword_length]
    simp
  exact outside_of_nonblank read (plain c List.mem_cons_self).1

theorem argumentsOf_stripComments (apart : ∀ span ∈ commentSpans text, StandsApart text span)
    (used : ReadsCatalog catalog reader) (ordinary : ∀ pattern ∈ catalog, Ordinary pattern.widget)
    {offset : Nat} {head : CallHead} (headed : (offset, head) ∈ heads reader text)
    (outside : (SpanSet.ofSpans (inertSpans text)).contains (offset + head.nameOffset : Nat) =
      false) :
    (argumentsOf text offset head = none ∧ argumentsOf (stripComments text []) offset head = none) ∨
      ∃ opening cells, ArgumentCells opening cells ∧
        argumentsOf text offset head = some (shown cells, offset + head.width) ∧
        argumentsOf (stripComments text []) offset head =
          some (veiled cells, offset + head.width) := by
  obtain ⟨-, parenthesis, uncovered⟩ := parenthesis_outside used ordinary headed outside
  rcases exists_argumentCells apart parenthesis uncovered with
    ⟨open', copied⟩ | ⟨opening, cells, arguments, original, copied⟩
  · exact Or.inl ⟨by rw [argumentsOf, open']; rfl, by rw [argumentsOf, copied]; rfl⟩
  · exact Or.inr ⟨opening, cells, arguments, by rw [argumentsOf, original]; rfl,
      by rw [argumentsOf, copied]; rfl⟩

variable (apart : ∀ span ∈ commentSpans text, StandsApart text span)

include apart

theorem heads_stripComments (agrees : reader.Agrees) :
    heads reader (stripComments text []) =
      (heads reader text).filter fun found => !(commentSpans text).any (·.contains found.1) := by
  have agree (place : Nat) (cell : Cell) (read : (commentCells text)[place]? = some cell) :
      (!(commentSpans text).any (·.contains place)) = !cell.hidden := by
    rw [getElem?_commentCells, Option.map_eq_some_iff] at read
    obtain ⟨c, -, rfl⟩ := read
    rfl
  have filtered := heads_veiled agrees (setApart_commentCells apart) agree
  rwa [shown_commentCells, veiled_commentCells] at filtered

theorem inert_of_covered (agrees : reader.Agrees) {offset : Nat} {head : CallHead}
    (headed : (offset, head) ∈ heads reader text)
    (covered : (commentSpans text).any (·.contains offset) = true) :
    (SpanSet.ofSpans (inertSpans text)).contains (offset + head.nameOffset : Nat) = true := by
  obtain ⟨front, back, split, place, found⟩ := headsFrom_eq headed
  rw [← shown_commentCells text] at split
  obtain ⟨left, right, cells, rfl, rfl⟩ := List.map_eq_append_iff.mp split
  obtain rfl : offset = left.length := by simpa using place
  cases right with
  | nil =>
      obtain ⟨-, keyword, blanks, rest, written⟩ := headAt_eq_some agrees.reads found
      simpa using written.text_eq
  | cons cell right =>
      have within : cell :: right <:+: commentCells text := ⟨left, [], by simp [cells]⟩
      have hidden := (read_of_split cells).2.trans covered
      -- No keyword stands before the name in a comment, so the name begins where the call does.
      obtain ⟨bare, -⟩ :=
        headAt_hidden agrees ((setApart_commentCells apart).of_isInfix within) hidden found
      obtain ⟨span, listed, covers⟩ := List.any_eq_true.mp covered
      rw [bare, Nat.add_zero, SpanSet.contains_ofSpans (inertSpans_ordered text), List.any_eq_true]
      exact ⟨span, (commentSpans_sublist text).subset listed, covers⟩

/-- Two readings of the calls, one for each text, give the same matches if they do so call by
call. A call in a comment gives none. -/
theorem flatMap_heads_stripComments (agrees : reader.Agrees)
    {site copiedSite : Nat × CallHead → Option CallSite} {collect : CallSite → List Match}
    (inert : ∀ found, (SpanSet.ofSpans (inertSpans text)).contains
      (found.1 + found.2.nameOffset : Nat) = true → site found = none)
    (same : ∀ found ∈ heads reader text, found ∈ heads reader (stripComments text []) →
      (copiedSite found).toList.flatMap collect = (site found).toList.flatMap collect) :
    ((heads reader (stripComments text [])).filterMap copiedSite).flatMap collect =
      ((heads reader text).filterMap site).flatMap collect := by
  rw [List.filterMap_eq_flatMap_toList, List.filterMap_eq_flatMap_toList, List.flatMap_assoc,
    List.flatMap_assoc]
  rw [heads_stripComments apart agrees] at same ⊢
  apply flatMap_filter
  · intro found headed kept
    exact same found headed (List.mem_filter.mpr ⟨headed, kept⟩)
  · intro found headed dropped
    rw [inert found (inert_of_covered apart agrees headed (by simpa using dropped))]
    rfl

end Calls

/-! Matches. -/

def FollowsComment (text : Text) (place : Nat) : Prop :=
  ∃ span ∈ commentSpans text, span.stop ≤ place ∧
    ∀ c ∈ ((stripComments text []).take place).drop span.stop, isBlank c = true

instance (text : Text) (place : Nat) : Decidable (FollowsComment text place) :=
  decidable_of_iff (∃ span ∈ commentSpans text, span.stop ≤ place ∧
      (((stripComments text []).take place).drop span.stop).all isBlank = true)
    (by simp [FollowsComment])

/-- Names that are looked up in a table: no call of one is taken for a widget outside of the
catalog. -/
def isListed (catalog : List WidgetPattern) (tables : FilterTables) (name : Text) : Bool :=
  (catalog.map WidgetPattern.widget).contains name ||
    (catalog.map WidgetPattern.widget).contains (baseName name) ||
    tables.nonWidgetClasses.contains (baseName name)

/-- The comments of a text are set apart from its code, and no call outside of the tables follows
one of them. -/
structure CommentsApart (text : Text) (catalog : List WidgetPattern) (tables : FilterTables) :
    Prop where
  comments : ∀ span ∈ commentSpans text, StandsApart text span
  calls : ∀ found ∈ heads readCustomName (stripComments text []), FollowsComment text found.1 →
    isListed catalog tables found.2.name = true

instance (text : Text) (catalog : List WidgetPattern) (tables : FilterTables) :
    Decidable (CommentsApart text catalog tables) :=
  decidable_of_iff ((∀ span ∈ commentSpans text, StandsApart text span) ∧
      ∀ found ∈ heads readCustomName (stripComments text []), FollowsComment text found.1 →
        isListed catalog tables found.2.name = true)
    ⟨fun ⟨comments, calls⟩ => ⟨comments, calls⟩, fun apart => ⟨apart.comments, apart.calls⟩⟩

section Matches

variable {text : Text} {catalog : List WidgetPattern} {tables : FilterTables} {index : LineIndex}

theorem clearBefore_commentCells {place : Nat} (clear : ¬ FollowsComment text place)
    (outside : (commentSpans text).any (·.contains place) = false) :
    ClearBefore (commentCells text) place := by
  intro before cell gap taken blanks
  by_contra unseen
  have hidden : cell.hidden = true := by simpa [Cell.isVisible] using unseen
  have split : commentCells text = before ++ cell :: (gap ++ (commentCells text).drop place) := by
    rw [← List.cons_append, ← List.append_assoc, ← taken, List.take_append_drop]
  obtain ⟨span, listed, start, stop⟩ := exists_span_of_hidden split hidden
  have reach : before.length < place := by
    have length := congrArg List.length taken
    simp only [List.length_take, List.length_append, List.length_cons] at length
    omega
  apply clear
  refine ⟨span, listed, ?_, ?_⟩
  · by_contra beyond
    rw [List.any_eq_false] at outside
    exact outside span listed (Span.contains_iff.mpr ⟨by omega, by omega⟩)
  · intro c member
    obtain ⟨width, place⟩ : ∃ width, span.stop = before.length + (width + 1) :=
      ⟨span.stop - before.length - 1, by omega⟩
    rw [← veiled_commentCells, veiled, ← List.map_take, ← List.map_drop, taken, place,
      List.drop_length_add_append, List.drop_succ_cons] at member
    obtain ⟨other, inGap, rfl⟩ := List.mem_map.mp member
    exact blanks other (List.mem_of_mem_drop inGap)

theorem matches_knownCallSites (apart : ∀ span ∈ commentSpans text, StandsApart text span)
    (ordinary : ∀ pattern ∈ catalog, Ordinary pattern.widget)
    (plainTables : PlainTables tables) {pattern : WidgetPattern}
    (listed : pattern ∈ catalog) (nonempty : pattern.widget ≠ []) (plain : Plain pattern.widget) :
    (knownCallSites (stripComments text []) pattern
        (SpanSet.ofSpans (inertSpans (stripComments text [])))).flatMap
        (matchesOfSite index tables) =
      (knownCallSites text pattern (SpanSet.ofSpans (inertSpans text))).flatMap
        (matchesOfSite index tables) := by
  have agrees := readKnownName_agrees nonempty plain
  apply flatMap_heads_stripComments apart agrees
  · rintro ⟨offset, head⟩ covers
    exact if_pos covers
  · rintro ⟨offset, head⟩ headed copied
    simp only [contains_inertSpans_stripComments (name_outside agrees copied)]
    cases outside : (SpanSet.ofSpans (inertSpans text)).contains
      (offset + head.nameOffset : Nat) with
    | true => rfl
    | false =>
        rcases argumentsOf_stripComments apart (Or.inr ⟨pattern, listed, rfl⟩) ordinary headed
          outside with ⟨original, copy⟩ | ⟨opening, cells, arguments, original, copy⟩
        · simp [original, copy]
        · simp [original, copy, arguments.matchesOfSite_veiled plainTables]

theorem matches_customCallSites (apart : CommentsApart text catalog tables)
    (ordinary : ∀ pattern ∈ catalog, Ordinary pattern.widget)
    (plainTables : PlainTables tables) :
    (customCallSites (stripComments text []) (catalog.map WidgetPattern.widget) tables
        (SpanSet.ofSpans (inertSpans (stripComments text [])))).flatMap
        (matchesOfSite index tables) =
      (customCallSites text (catalog.map WidgetPattern.widget) tables
        (SpanSet.ofSpans (inertSpans text))).flatMap (matchesOfSite index tables) := by
  apply flatMap_heads_stripComments apart.comments readCustomName_agrees
  · rintro ⟨offset, head⟩ covers
    simp only [covers, Bool.or_true, Bool.true_or, if_true]
  · rintro ⟨offset, head⟩ headed copied
    simp only [contains_inertSpans_stripComments (name_outside readCustomName_agrees copied)]
    -- A name of the tables is passed over in both texts. Before any other name stands no comment,
    -- so the text before the call denies it in both or in none.
    cases listed : isListed catalog tables head.name with
    | true =>
        rw [isListed] at listed
        simp only [listed, Bool.true_or, if_true]
    | false =>
        have clear : ¬ FollowsComment text offset := by
          intro follows
          rw [apart.calls _ copied follows] at listed
          exact absurd listed (by decide)
        have outside : (commentSpans text).any (·.contains offset) = false := by
          rw [heads_stripComments apart.comments readCustomName_agrees] at copied
          simpa using (List.mem_filter.mp copied).2
        have denied := inDeniedContext_veiled (setApart_commentCells apart.comments)
          (clearBefore_commentCells clear outside) plainTables.contextPatterns_eq
        rw [shown_commentCells, veiled_commentCells] at denied
        rw [isListed] at listed
        simp only [listed, denied, Bool.false_or]
        cases inert : (SpanSet.ofSpans (inertSpans text)).contains
          (offset + head.nameOffset : Nat) with
        | true => rfl
        | false =>
            rcases argumentsOf_stripComments apart.comments (Or.inl rfl) ordinary headed inert with
              ⟨original, copy⟩ | ⟨opening, cells, arguments, original, copy⟩
            · simp [original, copy]
            · simp only [original, copy, Option.bind_some, arguments.looksLikeWidget_veiled]
              split
              · rfl
              · split
                · simp [arguments.matchesOfSite_veiled plainTables]
                · rfl

theorem candidates_stripComments (apart : CommentsApart text catalog tables)
    (names : ∀ pattern ∈ catalog, pattern.widget ≠ [] ∧ Plain pattern.widget ∧
      Ordinary pattern.widget)
    (plainTables : PlainTables tables) :
    candidates (stripComments text []) catalog tables = candidates text catalog tables := by
  have ordinary : ∀ pattern ∈ catalog, Ordinary pattern.widget :=
    fun pattern listed => (names pattern listed).2.2
  rw [candidates, candidates, callSites, callSites, List.flatMap_append, List.flatMap_append,
    lineIndex_stripComments, matches_customCallSites apart ordinary plainTables, List.flatMap_assoc,
    List.flatMap_assoc]
  congr 1
  apply List.flatMap_congr
  intro pattern listed
  obtain ⟨nonempty, plain, -⟩ := names pattern listed
  exact matches_knownCallSites apart.comments ordinary plainTables listed nonempty plain

end Matches

/-- Ignore directives that are kept change no match as long as they are set apart from the code. -/
theorem matches_beside_kept_directives {text : Text} {catalog : List WidgetPattern}
    {tables : FilterTables}
    (names : ∀ pattern ∈ catalog, pattern.widget ≠ [] ∧ Plain pattern.widget ∧
      Ordinary pattern.widget)
    (plainTables : PlainTables tables)
    (apart : CommentsApart (stripComments text ignoreMarkers) catalog tables) :
    dedupe (candidates (stripComments text ignoreMarkers) catalog tables) =
      dedupe (candidates (stripComments text []) catalog tables) := by
  rw [← candidates_stripComments apart names plainTables, stripComments_nil_stripComments]

theorem matches_beside_kept_directives_in_column :
    let text : Text := ("Column(children: [\n  Text('Save it'), // translate-me-ignore\n" ++
      "  Text('Hello'), // greeting\n]);").toList
    (∀ pattern ∈ defaultCatalog, pattern.widget ≠ [] ∧ Plain pattern.widget ∧
        Ordinary pattern.widget) ∧
      PlainTables defaultTables ∧
      CommentsApart (stripComments text ignoreMarkers) defaultCatalog defaultTables ∧
      stripComments text ignoreMarkers ≠ stripComments text [] ∧
      dedupe (candidates (stripComments text ignoreMarkers) defaultCatalog defaultTables) =
        dedupe (candidates (stripComments text []) defaultCatalog defaultTables) := by
  intro text
  have names : ∀ pattern ∈ defaultCatalog, pattern.widget ≠ [] ∧ Plain pattern.widget ∧
      Ordinary pattern.widget := by decide +kernel
  have plainTables : PlainTables defaultTables := ⟨by decide +kernel, rfl, rfl⟩
  have apart : CommentsApart (stripComments text ignoreMarkers) defaultCatalog defaultTables := by
    decide +kernel
  exact ⟨names, plainTables, apart, by decide +kernel,
    matches_beside_kept_directives names plainTables apart⟩

/-- A directive that ends in a full stop is read as code: the literal on the line below it is taken
for a selected name and dropped. -/
theorem kept_directive_hides_match :
    let text : Text := "Text( // translate-me-ignore: see docs.\n  'Save it',\n)".toList
    dedupe (candidates (stripComments text ignoreMarkers) defaultCatalog defaultTables) = [] ∧
      dedupe (candidates (stripComments text []) defaultCatalog defaultTables) =
        [⟨"'Save it'".toList, ⟨1, 2⟩, ⟨1, 11⟩, "Text".toList, []⟩] := by
  decide +kernel

end HardcodedText
