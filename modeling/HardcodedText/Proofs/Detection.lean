import HardcodedText.Detection
import HardcodedText.Proofs.CallSite
import HardcodedText.Proofs.Match
import HardcodedText.Proofs.Scanner.Blanking

/-!
What a match stands for. A match is computed from the argument list of one call in a text without
its ordinary comments. The main statement takes it back to the text as it is: each match denotes one
closed literal of it, and two matches denote different literals.
-/

namespace HardcodedText

structure Denotes (text : Text) (literal : StringLiteral) (found : Match) : Prop where
  literal_eq : found.literal = literal.raw
  slice : literal.raw = literal.span.of text
  start_eq : found.start = (LineIndex.ofText text).position literal.start
  stop_eq : found.stop = (LineIndex.ofText text).position literal.stop

instance (text : Text) (literal : StringLiteral) (found : Match) :
    Decidable (Denotes text literal found) :=
  decidable_of_iff
    (found.literal = literal.raw ∧ literal.raw = literal.span.of text ∧
      found.start = (LineIndex.ofText text).position literal.start ∧
      found.stop = (LineIndex.ofText text).position literal.stop)
    ⟨fun ⟨same, slice, start, stop⟩ => ⟨same, slice, start, stop⟩,
      fun denotes => ⟨denotes.literal_eq, denotes.slice, denotes.start_eq, denotes.stop_eq⟩⟩

theorem Denotes.unique {text : Text} {first second : StringLiteral} {found : Match}
    (firstMember : first ∈ stringLiterals text) (secondMember : second ∈ stringLiterals text)
    (denotes : Denotes text first found) (denotes' : Denotes text second found) :
    first = second := by
  have firstBounds := bounds_of_mem_stringLiterals firstMember
  have secondBounds := bounds_of_mem_stringLiterals secondMember
  have start : first.start = second.start :=
    LineIndex.position_injective (by omega) (by omega)
      (denotes.start_eq.symm.trans denotes'.start_eq)
  rcases eq_or_apart_of_mem_stringLiterals firstMember secondMember with same | before | after
  · exact same
  · omega
  · omega

theorem Denotes.apart {text : Text} {first second : StringLiteral} {left right : Match}
    (firstMember : first ∈ stringLiterals text) (secondMember : second ∈ stringLiterals text)
    (denotes : Denotes text first left) (denotes' : Denotes text second right)
    (different : left.span ≠ right.span) :
    first ≠ second ∧ first.span.Apart second.span ∧ ¬ left.Overlaps right := by
  have distinct : first ≠ second := by
    rintro rfl
    apply different
    rw [Match.span, Match.span, denotes.start_eq, denotes.stop_eq, denotes'.start_eq,
      denotes'.stop_eq]
  have firstBounds := bounds_of_mem_stringLiterals firstMember
  have secondBounds := bounds_of_mem_stringLiterals secondMember
  rw [Match.Overlaps, denotes.start_eq, denotes.stop_eq, denotes'.start_eq, denotes'.stop_eq]
  rcases eq_or_apart_of_mem_stringLiterals firstMember secondMember with same | before | after
  · exact absurd same distinct
  · refine ⟨distinct, Or.inl before, ?_⟩
    rintro ⟨-, crossing⟩
    exact LineIndex.not_position_before before (by omega) crossing
  · refine ⟨distinct, Or.inr after, ?_⟩
    rintro ⟨crossing, -⟩
    exact LineIndex.not_position_before after (by omega) crossing

theorem mem_candidates {source : Text} {catalog : List WidgetPattern} {tables : FilterTables}
    {found : Match} :
    found ∈ candidates source catalog tables ↔
      ∃ site ∈ callSites source catalog tables (SpanSet.ofSpans (inertSpans source)),
        ∃ literal ∈ stringLiterals site.argText,
          (classify (contextOf site literal) tables).keep = true ∧
          matchOf site (LineIndex.ofText source) (namedTokens site.argText) literal = found := by
  simp only [candidates, List.mem_flatMap, matchesOfSite, List.mem_map, keptLiterals,
    List.mem_filter, and_assoc]

theorem ArgumentsSplit.shift_mem {text front inside more : Text} {offset : Nat}
    (arguments : ArgumentsSplit text offset front inside more) {literal : StringLiteral}
    (member : literal ∈ stringLiterals inside) :
    literal.shift (offset + 1) ∈ stringLiterals text := by
  have moved := List.mem_map_of_mem (f := StringLiteral.shift (offset + 1)) member
  rw [arguments.literals_eq] at moved
  exact (List.mem_filter.mp moved).1

theorem matchOf_denotes {source front more : Text} {offset : Nat} {site : CallSite}
    (start : site.argStart = offset + 1)
    (arguments : ArgumentsSplit source offset front site.argText more) {literal : StringLiteral}
    (member : literal ∈ stringLiterals site.argText) (tokens : List NamedToken) :
    Denotes source (literal.shift (offset + 1))
      (matchOf site (LineIndex.ofText source) tokens literal) := by
  refine ⟨rfl, slice_of_mem_stringLiterals (arguments.shift_mem member), ?_, ?_⟩
  · rw [matchOf, start, Nat.add_comm]
    rfl
  · have stop : site.argStart + literal.stop = (literal.shift (offset + 1)).stop := by
      simp only [StringLiteral.stop, StringLiteral.shift]
      omega
    rw [matchOf, stop]

theorem candidates_denote {source : Text} {catalog : List WidgetPattern} {tables : FilterTables}
    (ordinary : ∀ pattern ∈ catalog, Ordinary pattern.widget) {found : Match}
    (member : found ∈ candidates source catalog tables) :
    ∃ literal ∈ stringLiterals source, Denotes source literal found := by
  obtain ⟨site, called, literal, inside, -, rfl⟩ := mem_candidates.mp member
  obtain ⟨offset, front, more, start, arguments⟩ := CallSite.arguments ordinary called
  exact ⟨_, arguments.shift_mem inside, matchOf_denotes start arguments inside _⟩

theorem Denotes.of_stripComments {text : Text} {markers : List Text} {literal : StringLiteral}
    {found : Match} (member : literal ∈ stringLiterals text)
    (denotes : Denotes (stripComments text markers) literal found) :
    Denotes text literal found := by
  obtain ⟨same, -, start, stop⟩ := denotes
  rw [lineIndex_stripComments] at start stop
  exact ⟨same, slice_of_mem_stringLiterals member, start, stop⟩

theorem findHardcoded_sublist (text : Text) (catalog : List WidgetPattern)
    (tables : FilterTables) :
    (findHardcoded text catalog tables).Sublist
      (dedupe (candidates (stripComments text ignoreMarkers) catalog tables)) :=
  List.filter_sublist

theorem findHardcoded_denote {text : Text} {catalog : List WidgetPattern} {tables : FilterTables}
    (ordinary : ∀ pattern ∈ catalog, Ordinary pattern.widget) {found : Match}
    (member : found ∈ findHardcoded text catalog tables) :
    ∃ literal ∈ stringLiterals text, Denotes text literal found := by
  have candidate := (dedupe_sublist _).subset ((findHardcoded_sublist _ _ _).subset member)
  obtain ⟨literal, listed, denotes⟩ := candidates_denote ordinary candidate
  rw [stringLiterals_stripComments] at listed
  exact ⟨literal, listed, denotes.of_stripComments listed⟩

def CatalogSource.names : CatalogSource → List Text
  | absent => []
  | table rows => rows.map Prod.fst
  | list entries => entries.map WidgetPattern.widget

theorem mem_normalizeFrom {seen : List Text} {entries : List WidgetPattern}
    {pattern : WidgetPattern} (member : pattern ∈ normalizeFrom seen entries) :
    ∃ entry ∈ entries, pattern.widget = entry.widget.trim := by
  induction entries generalizing seen with
  | nil => simp [normalizeFrom] at member
  | cons entry later ih =>
      simp only [normalizeFrom] at member
      split at member
      · obtain ⟨other, listed, same⟩ := ih member
        exact ⟨other, List.mem_cons_of_mem _ listed, same⟩
      · rcases List.mem_cons.mp member with rfl | member
        · exact ⟨entry, List.mem_cons_self, rfl⟩
        · obtain ⟨other, listed, same⟩ := ih member
          exact ⟨other, List.mem_cons_of_mem _ listed, same⟩

theorem CatalogSource.mem_catalog {given : CatalogSource} {pattern : WidgetPattern}
    (member : pattern ∈ given.catalog) : ∃ name ∈ given.names, pattern.widget = name.trim := by
  cases given with
  | absent => simp [catalog] at member
  | table rows =>
      obtain ⟨entry, listed, same⟩ := mem_normalizeFrom member
      obtain ⟨row, present, rfl⟩ := List.mem_map.mp listed
      exact ⟨row.1, List.mem_map_of_mem present, same⟩
  | list entries =>
      obtain ⟨entry, listed, same⟩ := mem_normalizeFrom member
      exact ⟨entry.widget, List.mem_map_of_mem listed, same⟩

theorem CatalogSource.ordinary {given : CatalogSource}
    (ordinary : ∀ name ∈ given.names, Ordinary name) :
    ∀ pattern ∈ given.catalog, Ordinary pattern.widget := by
  intro pattern member c inside
  obtain ⟨name, listed, same⟩ := mem_catalog member
  rw [same] at inside
  exact ordinary name listed c (Text.mem_of_mem_trim inside)

/-- Every match denotes one closed literal of the text as it is, comments included. Two matches
denote different literals, so that their spans do not overlap. -/
theorem matches_denote_literals (text : Text) (given : CatalogSource) (tables : FilterTables)
    (ordinary : ∀ name ∈ given.names, Ordinary name) :
    (∀ found ∈ findHardcoded text given.catalog tables,
      ∃! literal, literal ∈ stringLiterals text ∧ Denotes text literal found) ∧
    (findHardcoded text given.catalog tables).Pairwise fun left right =>
      (∀ first ∈ stringLiterals text, ∀ second ∈ stringLiterals text,
        Denotes text first left → Denotes text second right →
          first ≠ second ∧ first.span.Apart second.span) ∧
      ¬ left.Overlaps right := by
  have denoted {found : Match} (member : found ∈ findHardcoded text given.catalog tables) :=
    findHardcoded_denote (CatalogSource.ordinary ordinary) member
  constructor
  · intro found member
    obtain ⟨literal, listed, denotes⟩ := denoted member
    refine ⟨literal, ⟨listed, denotes⟩, ?_⟩
    rintro other ⟨otherListed, otherDenotes⟩
    exact Denotes.unique otherListed listed otherDenotes denotes
  · have distinct := (dedupe_spans (candidates (stripComments text ignoreMarkers) given.catalog
      tables)).sublist (findHardcoded_sublist text given.catalog tables)
    refine distinct.imp_of_mem ?_
    intro left right leftMember rightMember different
    constructor
    · intro first firstListed second secondListed denotes denotes'
      have apart := denotes.apart firstListed secondListed denotes' different
      exact ⟨apart.1, apart.2.1⟩
    · obtain ⟨first, firstListed, denotes⟩ := denoted leftMember
      obtain ⟨second, secondListed, denotes'⟩ := denoted rightMember
      exact (denotes.apart firstListed secondListed denotes' different).2.2

theorem matches_denote_literals_beside_comment :
    (∀ name ∈ (CatalogSource.list [⟨"Text".toList, []⟩]).names, Ordinary name) ∧
      (⟨"'Save it now'".toList, ⟨1, 5⟩, ⟨1, 18⟩, "Text".toList, []⟩ : Match) ∈
        findHardcoded "/* ' */\nText('Save it now')".toList
          (CatalogSource.list [⟨"Text".toList, []⟩]).catalog defaultTables ∧
      ∃! literal, literal ∈ stringLiterals "/* ' */\nText('Save it now')".toList ∧
        Denotes "/* ' */\nText('Save it now')".toList literal
          ⟨"'Save it now'".toList, ⟨1, 5⟩, ⟨1, 18⟩, "Text".toList, []⟩ := by
  have ordinary : ∀ name ∈ (CatalogSource.list [⟨"Text".toList, []⟩]).names, Ordinary name := by
    decide
  have found : (⟨"'Save it now'".toList, ⟨1, 5⟩, ⟨1, 18⟩, "Text".toList, []⟩ : Match) ∈
      findHardcoded "/* ' */\nText('Save it now')".toList
        (CatalogSource.list [⟨"Text".toList, []⟩]).catalog defaultTables := by
    decide +kernel
  exact ⟨ordinary, found, (matches_denote_literals _ _ defaultTables ordinary).1 _ found⟩

end HardcodedText
