import HardcodedText.Proofs.Detection
import HardcodedText.Proofs.Filter.Extension
import Mathlib.Data.List.Nodup
import Mathlib.Data.List.Perm.Basic

/-!
What is reported, whatever widget it is reported for. A match names a widget and a parameter, and
these depend on the call through which the literal was found first. Its excerpt does not: the
literal and its span are reported exactly if some call keeps the literal and no directive silences
its line. Two statements follow. Longer tables report no excerpt that shorter ones do not, and the
excerpts depend on the names in a catalog alone.
-/

namespace HardcodedText

def Match.excerpt (found : Match) : Text × Position × Position :=
  (found.literal, found.span)

def excerpts (text : Text) (catalog : List WidgetPattern) (tables : FilterTables) :
    List (Text × Position × Position) :=
  (findHardcoded text catalog tables).map Match.excerpt

/-! A span holds one literal. -/

theorem CallSite.slice {text : Text} {catalog : List WidgetPattern} {tables : FilterTables}
    {inert : SpanSet} {site : CallSite} (called : site ∈ callSites text catalog tables inert)
    {literal : StringLiteral} (member : literal ∈ stringLiterals site.argText) :
    literal.raw =
        Span.of ⟨site.argStart + literal.start, site.argStart + literal.stop⟩ text ∧
      site.argStart + literal.start < site.argStart + literal.stop ∧
      site.argStart + literal.stop ≤ text.length := by
  obtain ⟨front, more, rfl, start⟩ := CallSite.written called
  have bounds := bounds_of_mem_stringLiterals member
  have opened : (front ++ ['(']).length = site.argStart := by simpa using start
  have split : front ++ '(' :: (site.argText ++ ')' :: more) =
      (front ++ ['(']) ++ (site.argText ++ ')' :: more) := by simp
  refine ⟨?_, by omega, ?_⟩
  · rw [split, ← opened, Span.of_append, Span.of_append_left bounds.2]
    exact slice_of_mem_stringLiterals member
  · simp only [List.length_append, List.length_cons]
    omega

theorem candidates_slice {source : Text} {catalog : List WidgetPattern} {tables : FilterTables}
    {found : Match} (member : found ∈ candidates source catalog tables) :
    ∃ start stop, found.literal = Span.of ⟨start, stop⟩ source ∧
      start < stop ∧ stop ≤ source.length ∧
      found.start = (LineIndex.ofText source).position start ∧
      found.stop = (LineIndex.ofText source).position stop := by
  obtain ⟨site, called, literal, inside, -, rfl⟩ := mem_candidates.mp member
  obtain ⟨slice, order, room⟩ := CallSite.slice called inside
  exact ⟨_, _, slice, order, room, rfl, rfl⟩

theorem excerpt_eq_of_span_eq {source : Text} {catalog catalog' : List WidgetPattern}
    {tables tables' : FilterTables} {left right : Match}
    (leftMember : left ∈ candidates source catalog tables)
    (rightMember : right ∈ candidates source catalog' tables') (same : left.span = right.span) :
    left.excerpt = right.excerpt := by
  obtain ⟨start, stop, literal, order, room, first, last⟩ := candidates_slice leftMember
  obtain ⟨start', stop', literal', order', room', first', last'⟩ := candidates_slice rightMember
  obtain ⟨sameStart, sameStop⟩ := Prod.mk.inj same
  obtain rfl : start = start' :=
    LineIndex.position_injective (by omega) (by omega) (first ▸ first' ▸ sameStart)
  obtain rfl : stop = stop' :=
    LineIndex.position_injective room room' (last ▸ last' ▸ sameStop)
  rw [Match.excerpt, Match.excerpt, literal, literal', same]

theorem mem_excerpts {text : Text} {catalog : List WidgetPattern} {tables : FilterTables}
    {excerpt : Text × Position × Position} :
    excerpt ∈ excerpts text catalog tables ↔
      (∃ found ∈ candidates (stripComments text ignoreMarkers) catalog tables,
        found.excerpt = excerpt) ∧
      isIgnored (ignoreRules text) excerpt.2.1.line = false := by
  simp only [excerpts, findHardcoded, filterIgnored, List.mem_map, List.mem_filter,
    Bool.not_eq_true']
  constructor
  · rintro ⟨found, ⟨listed, heeded⟩, rfl⟩
    exact ⟨⟨found, (dedupe_sublist _).subset listed, rfl⟩, heeded⟩
  · rintro ⟨⟨found, listed, rfl⟩, heeded⟩
    -- The match that was kept for the span may be another one, found through another call.
    obtain ⟨kept, remains, same⟩ := exists_mem_dedupe listed
    have equal : kept.excerpt = found.excerpt :=
      excerpt_eq_of_span_eq ((dedupe_sublist _).subset remains) listed same
    have start : kept.start = found.start := (Prod.mk.inj same).1
    have heeded : isIgnored (ignoreRules text) kept.start.line = false := start ▸ heeded
    exact ⟨kept, ⟨remains, heeded⟩, equal⟩

theorem excerpts_nodup (text : Text) (catalog : List WidgetPattern) (tables : FilterTables) :
    (excerpts text catalog tables).Nodup := by
  have distinct := (dedupe_spans (candidates (stripComments text ignoreMarkers) catalog
    tables)).sublist (findHardcoded_sublist text catalog tables)
  rw [excerpts, List.Nodup, List.pairwise_map]
  refine distinct.imp ?_
  intro left right different same
  exact different (Prod.mk.inj same).2

/-! Longer tables -/

theorem customCallSites_subset {longer shorter : FilterTables} (more : longer.Extends shorter)
    (text : Text) (knownNames : List Text) (inert : SpanSet) :
    customCallSites text knownNames longer inert ⊆
      customCallSites text knownNames shorter inert := by
  intro site member
  obtain ⟨⟨offset, head⟩, headed, called⟩ := List.mem_filterMap.mp member
  refine List.mem_filterMap.mpr ⟨(offset, head), headed, ?_⟩
  have window : inDeniedContext text offset longer = inDeniedContext text offset shorter := by
    rw [inDeniedContext, inDeniedContext, FilterTables.denies, FilterTables.denies,
      more.contextWindow_eq, more.contextPatterns_eq]
  simp only at called ⊢
  rw [window] at called
  split at called
  next => simp at called
  next accepted =>
    have still : shorter.nonWidgetClasses.contains (baseName head.name) = true →
        longer.nonWidgetClasses.contains (baseName head.name) = true :=
      contains_of_subset more.nonWidgetClasses
    rw [if_neg]
    · exact called
    · simp only [Bool.or_eq_true, not_or] at accepted ⊢
      obtain ⟨⟨⟨⟨name, base⟩, widget⟩, outside⟩, allowed⟩ := accepted
      exact ⟨⟨⟨⟨name, base⟩, fun listed => widget (still listed)⟩, outside⟩, allowed⟩

theorem candidates_subset {longer shorter : FilterTables} (more : longer.Extends shorter)
    (source : Text) (catalog : List WidgetPattern) :
    candidates source catalog longer ⊆ candidates source catalog shorter := by
  intro found member
  obtain ⟨site, called, literal, inside, kept, same⟩ := mem_candidates.mp member
  refine mem_candidates.mpr ⟨site, ?_, literal, inside, more.keep kept, same⟩
  rcases List.mem_append.mp called with known | custom
  · exact List.mem_append_left _ known
  · exact List.mem_append_right _ (customCallSites_subset more _ _ _ custom)

/-- Overrides only silence: what is reported with the extended tables is reported without them. -/
theorem excerpts_subset_of_withOverrides [CharacterNames] (text : Text)
    (catalog : List WidgetPattern)
    (tables extended : FilterTables) (overrides : TableOverrides)
    (succeeds : tables.withOverrides overrides = .ok extended) :
    excerpts text catalog extended ⊆ excerpts text catalog tables := by
  have more := FilterTables.extends_of_withOverrides succeeds
  intro excerpt member
  obtain ⟨⟨found, listed, same⟩, heeded⟩ := mem_excerpts.mp member
  exact mem_excerpts.mpr ⟨⟨found, candidates_subset more _ _ listed, same⟩, heeded⟩

theorem excerpts_subset_of_withOverrides_parameter :
    let _ : CharacterNames := .latinAndGreek
    let text : Text := "Text('Save it', slug: 'Hello')".toList
    let catalog : List WidgetPattern := [⟨"Text".toList, []⟩]
    let overrides : TableOverrides := { technicalParameters := ["slug".toList] }
    let extended : FilterTables := { defaultTables with
      technicalParameters := defaultTechnicalParameters ++ ["slug".toList] }
    defaultTables.withOverrides overrides = .ok extended ∧
      excerpts text catalog extended ⊆ excerpts text catalog defaultTables ∧
      excerpts text catalog extended = [("'Save it'".toList, ⟨0, 5⟩, ⟨0, 14⟩)] ∧
      excerpts text catalog defaultTables =
        [("'Save it'".toList, ⟨0, 5⟩, ⟨0, 14⟩), ("'Hello'".toList, ⟨0, 22⟩, ⟨0, 29⟩)] := by
  intro _ text catalog overrides extended
  have succeeds : defaultTables.withOverrides overrides = .ok extended := by rfl
  refine ⟨succeeds, ?_, by decide +kernel, by decide +kernel⟩
  exact excerpts_subset_of_withOverrides text catalog defaultTables extended overrides succeeds

/-! Catalogs with the same names -/

theorem mem_widgets_normalizeFrom {seen : List Text} {entries : List WidgetPattern}
    {name : Text} :
    name ∈ (normalizeFrom seen entries).map WidgetPattern.widget ↔
      name ≠ [] ∧ name ∉ seen ∧ ∃ entry ∈ entries, entry.widget.trim = name := by
  induction entries generalizing seen with
  | nil => simp [normalizeFrom]
  | cons entry later ih =>
      simp only [normalizeFrom]
      split
      next skipped =>
        rw [ih]
        simp only [Bool.or_eq_true, List.isEmpty_iff, List.contains_iff_mem] at skipped
        constructor
        · rintro ⟨named, fresh, other, listed, same⟩
          exact ⟨named, fresh, other, List.mem_cons_of_mem _ listed, same⟩
        · rintro ⟨named, fresh, other, listed, rfl⟩
          rcases List.mem_cons.mp listed with rfl | listed
          · rcases skipped with blank | seen
            · exact absurd blank named
            · exact absurd seen fresh
          · exact ⟨named, fresh, other, listed, rfl⟩
      next taken =>
        simp only [Bool.or_eq_true, List.isEmpty_iff, List.contains_iff_mem, not_or] at taken
        rw [List.map_cons, List.mem_cons, ih]
        constructor
        · rintro (rfl | ⟨named, fresh, other, listed, same⟩)
          · exact ⟨taken.1, taken.2, entry, List.mem_cons_self, rfl⟩
          · exact ⟨named, fun seen => fresh (List.mem_cons_of_mem _ seen), other,
              List.mem_cons_of_mem _ listed, same⟩
        · rintro ⟨named, fresh, other, listed, rfl⟩
          by_cases first : other.widget.trim = entry.widget.trim
          · exact Or.inl first
          · refine Or.inr ⟨named, ?_, other, ?_, rfl⟩
            · simpa using ⟨first, fresh⟩
            · rcases List.mem_cons.mp listed with rfl | listed
              · exact absurd rfl first
              · exact listed

theorem CatalogSource.mem_widgets {given : CatalogSource} {name : Text} :
    name ∈ given.catalog.map WidgetPattern.widget ↔
      name ≠ [] ∧ name ∈ given.names.map Text.trim := by
  cases given with
  | absent => simp [catalog, names]
  | table rows =>
      rw [catalog, normalizeCatalog, mem_widgets_normalizeFrom]
      simp [names]
  | list entries =>
      rw [catalog, normalizeCatalog, mem_widgets_normalizeFrom]
      simp [names]

theorem exists_knownCallSite {text : Text} {first second : WidgetPattern} {inert : SpanSet}
    (same : first.widget = second.widget) {site : CallSite}
    (called : site ∈ knownCallSites text first inert) :
    ∃ other ∈ knownCallSites text second inert,
      other.argText = site.argText ∧ other.argStart = site.argStart := by
  obtain ⟨⟨offset, head⟩, headed, taken⟩ := List.mem_filterMap.mp called
  rw [same] at headed
  simp only at taken
  split at taken
  next => simp at taken
  next outside =>
    obtain ⟨⟨argText, start⟩, extracted, rfl⟩ := Option.map_eq_some_iff.mp taken
    refine ⟨⟨second.widget, argText, start, true, second.params⟩, ?_, rfl, rfl⟩
    refine List.mem_filterMap.mpr ⟨(offset, head), headed, ?_⟩
    simp only
    rw [if_neg outside, extracted]
    rfl

theorem customCallSites_congr {first second : List Text}
    (same : ∀ name, name ∈ first ↔ name ∈ second) (text : Text) (tables : FilterTables)
    (inert : SpanSet) :
    customCallSites text first tables inert = customCallSites text second tables inert := by
  have contains (name : Text) : first.contains name = second.contains name := by
    rw [Bool.eq_iff_iff, List.contains_iff_mem, List.contains_iff_mem]
    exact same name
  unfold customCallSites
  simp only [contains]

theorem exists_callSite {text : Text} {first second : List WidgetPattern}
    (same : ∀ name, name ∈ first.map WidgetPattern.widget ↔ name ∈ second.map WidgetPattern.widget)
    {tables : FilterTables} {inert : SpanSet} {site : CallSite}
    (called : site ∈ callSites text first tables inert) :
    ∃ other ∈ callSites text second tables inert,
      other.argText = site.argText ∧ other.argStart = site.argStart := by
  rcases List.mem_append.mp called with known | custom
  · obtain ⟨pattern, listed, found⟩ := List.mem_flatMap.mp known
    obtain ⟨other, otherListed, widget⟩ :=
      List.mem_map.mp ((same pattern.widget).mp (List.mem_map_of_mem listed))
    obtain ⟨otherSite, otherFound, arguments⟩ := exists_knownCallSite widget.symm found
    refine ⟨otherSite, List.mem_append_left _ ?_, arguments⟩
    exact List.mem_flatMap.mpr ⟨other, otherListed, otherFound⟩
  · rw [customCallSites_congr same] at custom
    exact ⟨site, List.mem_append_right _ custom, rfl, rfl⟩

theorem exists_candidate {source : Text} {first second : List WidgetPattern}
    (same : ∀ name, name ∈ first.map WidgetPattern.widget ↔ name ∈ second.map WidgetPattern.widget)
    {tables : FilterTables} {found : Match} (member : found ∈ candidates source first tables) :
    ∃ other ∈ candidates source second tables, other.excerpt = found.excerpt := by
  obtain ⟨site, called, literal, inside, kept, rfl⟩ := mem_candidates.mp member
  obtain ⟨other, otherCalled, argText, argStart⟩ := exists_callSite same called
  rw [← argText] at inside
  have context : contextOf site literal = contextOf other literal := by
    rw [contextOf, contextOf, argText]
  rw [context] at kept
  refine ⟨_, mem_candidates.mpr ⟨other, otherCalled, literal, inside, kept, rfl⟩, ?_⟩
  simp only [Match.excerpt, Match.span, matchOf, argStart]

theorem excerpts_subset_of_names {first second : List WidgetPattern}
    (same : ∀ name, name ∈ first.map WidgetPattern.widget ↔ name ∈ second.map WidgetPattern.widget)
    (text : Text) (tables : FilterTables) :
    excerpts text first tables ⊆ excerpts text second tables := by
  intro excerpt member
  obtain ⟨⟨found, listed, rfl⟩, heeded⟩ := mem_excerpts.mp member
  exact mem_excerpts.mpr ⟨exists_candidate same listed, heeded⟩

/-- Catalogs with the same trimmed names, blank ones aside, report the same excerpts in some order,
whatever the order of the names, their repetitions and their parameters. -/
theorem excerpts_perm_of_same_names (text : Text) (tables : FilterTables)
    (first second : CatalogSource)
    (same : ∀ name, name ≠ [] →
      (name ∈ first.names.map Text.trim ↔ name ∈ second.names.map Text.trim)) :
    (excerpts text first.catalog tables).Perm (excerpts text second.catalog tables) := by
  have widgets (name : Text) : name ∈ first.catalog.map WidgetPattern.widget ↔
      name ∈ second.catalog.map WidgetPattern.widget := by
    rw [CatalogSource.mem_widgets, CatalogSource.mem_widgets]
    exact and_congr_right (same name)
  rw [List.perm_ext_iff_of_nodup (excerpts_nodup _ _ _) (excerpts_nodup _ _ _)]
  intro excerpt
  constructor
  · intro member
    exact excerpts_subset_of_names widgets text tables member
  · intro member
    exact excerpts_subset_of_names (fun name => (widgets name).symm) text tables member

theorem excerpts_perm_of_same_names_reordered :
    let text : Text := "Tab(text: 'Hello', child: Text('Save it'))".toList
    let listed : CatalogSource := .list [⟨" Text".toList, []⟩, ⟨"Tab".toList, []⟩,
      ⟨"Text".toList, ["data".toList]⟩, ⟨"  ".toList, []⟩]
    let table : CatalogSource := .table [("Tab".toList, ["text".toList]), ("Text".toList, [])]
    (∀ name, name ≠ [] →
      (name ∈ listed.names.map Text.trim ↔ name ∈ table.names.map Text.trim)) ∧
    (excerpts text listed.catalog defaultTables).Perm
      (excerpts text table.catalog defaultTables) ∧
    excerpts text listed.catalog defaultTables ≠ excerpts text table.catalog defaultTables := by
  intro text listed table
  have same : ∀ name, name ≠ [] →
      (name ∈ listed.names.map Text.trim ↔ name ∈ table.names.map Text.trim) := by
    intro name named
    have left : listed.names.map Text.trim =
        ["Text".toList, "Tab".toList, "Text".toList, []] := by decide
    have right : table.names.map Text.trim = ["Tab".toList, "Text".toList] := by decide
    rw [left, right]
    simp only [List.mem_cons, List.not_mem_nil, or_false]
    tauto
  refine ⟨same, ?_, by decide +kernel⟩
  exact excerpts_perm_of_same_names text defaultTables listed table same

end HardcodedText
