import HardcodedText.Proofs.Detection
import HardcodedText.Proofs.Filter.Widening
import Mathlib.Order.WellFounded

/-!
Calls inside of calls. A literal stands in the argument lists of all calls around it, and the
filters see it in each of them. The main statement says that a literal which some call drops is
dropped by every call around that one, so that the innermost call alone decides whether it is found.
-/

namespace HardcodedText

structure Surrounds (outer inner left right : Text) : Prop where
  text_eq : outer = left ++ (inner ++ right)
  opened : left = [] ∨ ∃ front, left = front ++ ['(']
  closed : right = [] ∨ ∃ more, right = ')' :: more

theorem surrounds_of_within {source front inner more front' outer more' : Text}
    (innerWritten : source = front ++ '(' :: (inner ++ ')' :: more))
    (outerWritten : source = front' ++ '(' :: (outer ++ ')' :: more'))
    (within : (argumentSpan front.length inner).Within (argumentSpan front'.length outer)) :
    ∃ left right, Surrounds outer inner left right ∧
      front'.length + left.length = front.length := by
  obtain ⟨start, stop⟩ := within
  simp only [argumentSpan] at start stop
  have same : front ++ '(' :: (inner ++ ')' :: more) = front' ++ '(' :: (outer ++ ')' :: more') :=
    innerWritten.symm.trans outerWritten
  have outerFront : front' ++ ['('] <+: source := ⟨outer ++ ')' :: more', by simp [outerWritten]⟩
  have innerFront : front ++ ['('] <+: source := ⟨inner ++ ')' :: more, by simp [innerWritten]⟩
  obtain ⟨left, reached⟩ := List.prefix_of_prefix_length_le outerFront innerFront
    (by simp only [List.length_append, List.length_singleton]; omega)
  have lengths := congrArg List.length reached
  simp only [List.length_append, List.length_singleton] at lengths
  have rest : left ++ (inner ++ ')' :: more) = outer ++ ')' :: more' := by
    have whole : (front' ++ ['(']) ++ (left ++ (inner ++ ')' :: more)) =
        (front' ++ ['(']) ++ (outer ++ ')' :: more') := by
      rw [← List.append_assoc, reached]
      simpa using same
    exact List.append_cancel_left whole
  have leftInner : left ++ inner <+: outer ++ ')' :: more' := ⟨')' :: more, by simp [← rest]⟩
  obtain ⟨right, rfl⟩ := List.prefix_of_prefix_length_le leftInner (List.prefix_append outer _)
    (by simp only [List.length_append]; omega)
  refine ⟨left, right, ⟨List.append_assoc _ _ _, ?_, ?_⟩, by omega⟩
  · cases nonempty : left.getLast? with
    | none => exact Or.inl (List.getLast?_eq_none_iff.mp nonempty)
    | some c =>
        obtain ⟨before, rfl⟩ := List.getLast?_eq_some_iff.mp nonempty
        have last := congrArg List.getLast? reached
        rw [← List.append_assoc, List.getLast?_concat, List.getLast?_concat] at last
        obtain rfl := Option.some_inj.mp last
        exact Or.inr ⟨before, rfl⟩
  · have tail : right ++ ')' :: more' = ')' :: more := by
      have whole : left ++ inner ++ (right ++ ')' :: more') = left ++ inner ++ ')' :: more := by
        simpa using rest.symm
      exact List.append_cancel_left whole
    cases right with
    | nil => exact Or.inl rfl
    | cons c right =>
        obtain rfl := (List.cons_eq_cons.mp tail).1
        exact Or.inr ⟨right, rfl⟩

theorem Surrounds.literal_eq {outer inner left right : Text}
    (surrounds : Surrounds outer inner left right) {literal literal' : StringLiteral}
    (member : literal ∈ stringLiterals inner) (member' : literal' ∈ stringLiterals outer)
    (place : literal'.start = left.length + literal.start) :
    literal' = literal.shift left.length := by
  obtain ⟨first, later, found, same⟩ := stringLiterals_of_mem member
  obtain ⟨first', later', found', same'⟩ := stringLiterals_of_mem member'
  have bounds := bounds_of_mem_stringLiterals member
  have room : literal.start ≤ inner.length := by omega
  have cut : outer.drop literal'.start = inner.drop literal.start ++ right := by
    rw [surrounds.text_eq, place, List.drop_length_add_append,
      List.drop_append_of_le_length room]
  -- Cut off before the literal, the two texts differ only behind a parenthesis.
  have front : first' = first := by
    rcases surrounds.closed with rfl | ⟨more, rfl⟩
    · rw [cut, List.append_nil, found] at found'
      exact (List.cons_eq_cons.mp found').1.symm
    · obtain ⟨beyond, listed, -⟩ := literalsFrom_append_solitary solitary_closeParenthesis 0
        (inner.drop literal.start) more
      rw [← stringLiterals_eq, ← stringLiterals_eq, ← cut, found, found', List.cons_append]
        at listed
      exact (List.cons_eq_cons.mp listed).1
  rw [← same', ← same, front, place]
  simp only [StringLiteral.shift]
  congr 1
  omega

theorem before_eq {argText : Text} {offset : Nat} (room : offset ≤ argText.length)
    (content : Text) (width : Int) :
    LiteralContext.before ⟨content, argText, offset, width⟩ =
      (argText.take offset).drop (offset - contextSpan) := by
  have first : Text.place argText.length (max 0 ((offset : Int) - contextSpan)) =
      offset - contextSpan := by
    rw [Text.place, if_neg (by omega)]
    omega
  have last : Text.place argText.length (offset : Int) = offset := by
    rw [Text.place, if_neg (by omega)]
    omega
  rw [LiteralContext.before, Text.slice, first, last, List.drop_take]

theorem after_eq {argText content : Text} {offset width : Nat}
    (room : offset + content.length + 2 * width ≤ argText.length) :
    LiteralContext.after ⟨content, argText, offset, width⟩ =
      (argText.drop (offset + content.length + 2 * width)).take contextSpan := by
  have stop : LiteralContext.stop ⟨content, argText, offset, width⟩ =
      (offset + content.length + 2 * width : Nat) := by
    simp only [LiteralContext.stop]
    omega
  have first : Text.place argText.length (offset + content.length + 2 * width : Nat) =
      offset + content.length + 2 * width := by
    rw [Text.place, if_neg (by omega)]
    omega
  have last : Text.place argText.length
      ((offset + content.length + 2 * width : Nat) + (contextSpan : Int)) =
        min (offset + content.length + 2 * width + contextSpan) argText.length := by
    rw [Text.place, if_neg (by omega)]
    omega
  rw [LiteralContext.after, Text.slice, stop, first, last, List.take_eq_take_iff, List.length_drop]
  simp only
  omega

theorem window_before {left : Text} (opened : left = [] ∨ ∃ front, left = front ++ ['('])
    (text : Text) (size span : Nat) :
    (left ++ text).drop (size + left.length - span) = text.drop (size - span) ∨
      ∃ front, (left ++ text).drop (size + left.length - span) =
        front ++ '(' :: text.drop (size - span) := by
  by_cases full : span ≤ size
  · have place : size + left.length - span = left.length + (size - span) := by omega
    rw [place, List.drop_length_add_append]
    exact Or.inl rfl
  · have whole : size - span = 0 := by omega
    rcases opened with rfl | ⟨front, rfl⟩
    · exact Or.inl rfl
    · refine Or.inr ⟨front.drop (size + (front ++ ['(']).length - span), ?_⟩
      rw [whole, List.drop_zero, List.append_assoc, List.singleton_append,
        List.drop_append_of_le_length]
      simp only [List.length_append, List.length_singleton]
      omega

theorem window_after {right : Text} (closed : right = [] ∨ ∃ more, right = ')' :: more)
    (text : Text) (span : Nat) :
    (text ++ right).take span = text.take span ∨
      ∃ more, (text ++ right).take span = text.take span ++ ')' :: more := by
  by_cases full : span ≤ text.length
  · exact Or.inl (List.take_append_of_le_length full)
  · rcases closed with rfl | ⟨more, rfl⟩
    · exact Or.inl (by rw [List.append_nil])
    · refine Or.inr ⟨more.take (span - text.length - 1), ?_⟩
      have room : span - text.length = span - text.length - 1 + 1 := by omega
      rw [List.take_append, room, List.take_succ_cons]
      rfl

theorem Surrounds.widens {outer inner left right : Text}
    (surrounds : Surrounds outer inner left right) {literal : StringLiteral}
    (member : literal ∈ stringLiterals inner) :
    Widens ⟨literal.content, inner, literal.start, literal.delimiter.width⟩
      ⟨literal.content, outer, (literal.start + left.length : Nat), literal.delimiter.width⟩ := by
  have written := stringLiterals_writtenIn member
  have last := written.last
  have length := written.length_eq
  simp only [StringLiteral.stop] at last
  simp only [StringLiteral.raw, List.length_append, Delimiter.length_text] at length
  have room : literal.start + literal.content.length + 2 * literal.delimiter.width ≤
      inner.length := by omega
  have outerLength : outer.length = left.length + (inner.length + right.length) := by
    rw [surrounds.text_eq, List.length_append, List.length_append]
  refine ⟨rfl, ?_, ?_⟩
  · have front : outer.take (literal.start + left.length) = left ++ inner.take literal.start := by
      rw [surrounds.text_eq, Nat.add_comm, List.take_length_add_append,
        List.take_append_of_le_length (by omega)]
    rw [before_eq (by omega), before_eq (by omega), front]
    exact window_before surrounds.opened _ literal.start contextSpan
  · have back : outer.drop (literal.start + left.length + literal.content.length +
        2 * literal.delimiter.width) =
          inner.drop (literal.start + literal.content.length + 2 * literal.delimiter.width) ++
            right := by
      have place : literal.start + left.length + literal.content.length +
          2 * literal.delimiter.width = left.length +
            (literal.start + literal.content.length + 2 * literal.delimiter.width) := by omega
      rw [surrounds.text_eq, place, List.drop_length_add_append,
        List.drop_append_of_le_length room]
    rw [after_eq room, after_eq (by omega), back]
    exact window_after surrounds.closed _ contextSpan

namespace CallSite

def range (site : CallSite) : Span :=
  ⟨site.argStart, site.argStart + site.argText.length⟩

def Keeps (site : CallSite) (tables : FilterTables) (literal : StringLiteral) : Prop :=
  ∃ own ∈ stringLiterals site.argText, own.shift site.argStart = literal ∧
    (classify (contextOf site own) tables).keep = true

variable {source : Text} {catalog : List WidgetPattern} {tables : FilterTables}

theorem keep_of_within (suffixes : tables.localizedSuffixes = defaultLocalizedSuffixes)
    {inert : SpanSet} {inner outer : CallSite}
    (innerCall : inner ∈ callSites source catalog tables inert)
    (outerCall : outer ∈ callSites source catalog tables inert)
    (within : inner.range.Within outer.range) {literal literal' : StringLiteral}
    (member : literal ∈ stringLiterals inner.argText)
    (member' : literal' ∈ stringLiterals outer.argText)
    (place : inner.argStart + literal.start = outer.argStart + literal'.start)
    (kept : (classify (contextOf outer literal') tables).keep = true) :
    (classify (contextOf inner literal) tables).keep = true := by
  obtain ⟨front, more, innerWritten, innerStart⟩ := CallSite.written innerCall
  obtain ⟨front', more', outerWritten, outerStart⟩ := CallSite.written outerCall
  rw [range, range, ← innerStart, ← outerStart] at within
  obtain ⟨left, right, surrounds, distance⟩ :=
    surrounds_of_within innerWritten outerWritten within
  have same := surrounds.literal_eq member member' (by omega)
  subst same
  exact (surrounds.widens member).keep suffixes kept

theorem nested_or_apart (ordinary : ∀ pattern ∈ catalog, Ordinary pattern.widget)
    {first second : CallSite}
    (firstCall : first ∈ callSites source catalog tables (SpanSet.ofSpans (inertSpans source)))
    (secondCall : second ∈ callSites source catalog tables (SpanSet.ofSpans (inertSpans source))) :
    first.range.Within second.range ∨ second.range.Within first.range ∨
      first.range.Apart second.range := by
  obtain ⟨offset, front, more, start, arguments⟩ := CallSite.arguments ordinary firstCall
  obtain ⟨offset', front', more', start', arguments'⟩ := CallSite.arguments ordinary secondCall
  rw [range, range, start, start']
  exact arguments.nested_or_apart arguments'

theorem own_literal (ordinary : ∀ pattern ∈ catalog, Ordinary pattern.widget) {site : CallSite}
    (called : site ∈ callSites source catalog tables (SpanSet.ofSpans (inertSpans source)))
    {literal : StringLiteral} (member : literal ∈ stringLiterals source)
    (holds : literal.span.Within site.range) :
    ∃ own ∈ stringLiterals site.argText, own.shift site.argStart = literal := by
  obtain ⟨offset, front, more, start, arguments⟩ := CallSite.arguments ordinary called
  have inside : literal ∈ (stringLiterals site.argText).map
      (StringLiteral.shift (offset + 1)) := by
    rw [arguments.literals_eq, List.mem_filter]
    rw [range, start] at holds
    exact ⟨member, decide_eq_true holds⟩
  rw [start]
  exact List.mem_map.mp inside

theorem within_range {site : CallSite} {own : StringLiteral}
    (member : own ∈ stringLiterals site.argText) :
    (own.shift site.argStart).span.Within site.range := by
  have written := stringLiterals_writtenIn member
  have last := written.last
  simp only [StringLiteral.stop] at last
  simp only [Span.Within, StringLiteral.span, StringLiteral.stop, StringLiteral.shift, range]
  omega

end CallSite

/-- One of the calls whose ranges hold the literal, inside of all the others. -/
structure Innermost (sites : List CallSite) (literal : StringLiteral) (site : CallSite) :
    Prop where
  called : site ∈ sites
  holds : literal.span.Within site.range
  least : ∀ other ∈ sites, literal.span.Within other.range → site.range.Within other.range

def Found (source : Text) (catalog : List WidgetPattern) (tables : FilterTables)
    (literal : StringLiteral) : Prop :=
  ∃ found ∈ candidates source catalog tables, Denotes source literal found

section Innermost

variable {source : Text} {catalog : List WidgetPattern} {tables : FilterTables}
  {literal : StringLiteral}

theorem exists_innermost (ordinary : ∀ pattern ∈ catalog, Ordinary pattern.widget)
    (member : literal ∈ stringLiterals source)
    (held : ∃ site ∈ callSites source catalog tables (SpanSet.ofSpans (inertSpans source)),
      literal.span.Within site.range) :
    ∃ site, Innermost (callSites source catalog tables (SpanSet.ofSpans (inertSpans source)))
      literal site := by
  -- The shortest range that holds the literal; any other one holds it too, so they are nested.
  obtain ⟨site, ⟨called, holds⟩, shortest⟩ :=
    WellFounded.has_min (measure fun site : CallSite => site.argText.length).wf
      {site | site ∈ callSites source catalog tables (SpanSet.ofSpans (inertSpans source)) ∧
        literal.span.Within site.range} held
  refine ⟨site, called, holds, ?_⟩
  intro other otherCalled otherHolds
  have bounds := bounds_of_mem_stringLiterals member
  have longer : ¬ other.argText.length < site.argText.length :=
    shortest other ⟨otherCalled, otherHolds⟩
  rcases CallSite.nested_or_apart ordinary called otherCalled with within | within | apart
  · exact within
  · simp only [Span.Within, CallSite.range] at within ⊢
    omega
  · simp only [Span.Within, CallSite.range, StringLiteral.span] at holds otherHolds
    simp only [Span.Apart, CallSite.range] at apart
    omega

theorem found_iff_keeps (ordinary : ∀ pattern ∈ catalog, Ordinary pattern.widget)
    (member : literal ∈ stringLiterals source) :
    Found source catalog tables literal ↔
      ∃ site ∈ callSites source catalog tables (SpanSet.ofSpans (inertSpans source)),
        site.Keeps tables literal := by
  constructor
  · rintro ⟨found, candidate, denotes⟩
    obtain ⟨site, called, own, inside, kept, rfl⟩ := mem_candidates.mp candidate
    obtain ⟨offset, front, more, start, arguments⟩ := CallSite.arguments ordinary called
    have same := Denotes.unique (arguments.shift_mem inside) member
      (matchOf_denotes start arguments inside _) denotes
    exact ⟨site, called, own, inside, by rw [start, same], kept⟩
  · rintro ⟨site, called, own, inside, rfl, kept⟩
    obtain ⟨offset, front, more, start, arguments⟩ := CallSite.arguments ordinary called
    rw [start]
    exact ⟨_, mem_candidates.mpr ⟨site, called, own, inside, kept, rfl⟩,
      matchOf_denotes start arguments inside _⟩

theorem Innermost.keeps (suffixes : tables.localizedSuffixes = defaultLocalizedSuffixes)
    {inert : SpanSet} {site other : CallSite}
    (innermost : Innermost (callSites source catalog tables inert) literal site)
    (holds : ∃ own ∈ stringLiterals site.argText, own.shift site.argStart = literal)
    (called : other ∈ callSites source catalog tables inert)
    (kept : other.Keeps tables literal) : site.Keeps tables literal := by
  obtain ⟨own, inside, same⟩ := holds
  obtain ⟨own', inside', rfl, keep⟩ := kept
  have within := innermost.least other called (CallSite.within_range inside')
  have place : site.argStart + own.start = other.argStart + own'.start := by
    have starts := congrArg StringLiteral.start same
    simp only [StringLiteral.shift] at starts
    omega
  exact ⟨own, inside, same,
    CallSite.keep_of_within suffixes innermost.called called within inside inside' place keep⟩

end Innermost

/-- Drops are inherited outward: a literal that is dropped in one call is dropped in every call
around it. So the literals that are found are those that the innermost call around them keeps. -/
theorem innermost_call_decides (source : Text) (catalog : List WidgetPattern)
    (tables : FilterTables) (suffixes : tables.localizedSuffixes = defaultLocalizedSuffixes)
    (ordinary : ∀ pattern ∈ catalog, Ordinary pattern.widget) :
    (∀ inert, ∀ inner ∈ callSites source catalog tables inert,
      ∀ outer ∈ callSites source catalog tables inert, inner.range.Within outer.range →
      ∀ literal ∈ stringLiterals inner.argText, ∀ literal' ∈ stringLiterals outer.argText,
        inner.argStart + literal.start = outer.argStart + literal'.start →
        (classify (contextOf inner literal) tables).keep = false →
        (classify (contextOf outer literal') tables).keep = false) ∧
    ∀ literal ∈ stringLiterals source,
      ((∃ site ∈ callSites source catalog tables (SpanSet.ofSpans (inertSpans source)),
          literal.span.Within site.range) →
        ∃ site, Innermost (callSites source catalog tables (SpanSet.ofSpans (inertSpans source)))
          literal site) ∧
      (Found source catalog tables literal ↔
        ∃ site, Innermost (callSites source catalog tables (SpanSet.ofSpans (inertSpans source)))
          literal site ∧ site.Keeps tables literal) ∧
      ∀ site, Innermost (callSites source catalog tables (SpanSet.ofSpans (inertSpans source)))
          literal site → (Found source catalog tables literal ↔ site.Keeps tables literal) := by
  constructor
  · intro inert inner innerCall outer outerCall within literal member literal' member' place dropped
    rw [← Bool.not_eq_true] at dropped ⊢
    intro kept
    exact dropped
      (CallSite.keep_of_within suffixes innerCall outerCall within member member' place kept)
  · intro literal member
    have decides (site : CallSite)
        (innermost : Innermost
          (callSites source catalog tables (SpanSet.ofSpans (inertSpans source))) literal site) :
        Found source catalog tables literal ↔ site.Keeps tables literal := by
      rw [found_iff_keeps ordinary member]
      constructor
      · rintro ⟨other, called, kept⟩
        exact innermost.keeps suffixes
          (CallSite.own_literal ordinary innermost.called member innermost.holds) called kept
      · intro kept
        exact ⟨site, innermost.called, kept⟩
    refine ⟨exists_innermost ordinary member, ?_, decides⟩
    constructor
    · intro found
      obtain ⟨other, called, own, inside, rfl, -⟩ := (found_iff_keeps ordinary member).mp found
      obtain ⟨site, innermost⟩ :=
        exists_innermost ordinary member ⟨other, called, CallSite.within_range inside⟩
      exact ⟨site, innermost, (decides site innermost).mp found⟩
    · rintro ⟨site, innermost, kept⟩
      exact (decides site innermost).mpr kept

theorem innermost_call_decides_technical_parameter :
    let source : Text := "Card(Text(key: 'Sign in'))".toList
    let catalog : List WidgetPattern := [⟨"Text".toList, []⟩, ⟨"Card".toList, []⟩]
    let inert := SpanSet.ofSpans (inertSpans source)
    let inner : CallSite := ⟨"Text".toList, "key: 'Sign in'".toList, 10, true, []⟩
    let outer : CallSite := ⟨"Card".toList, "Text(key: 'Sign in')".toList, 5, true, []⟩
    let literal : StringLiteral := ⟨⟨'\'', false⟩, "Sign in".toList, 5, 9⟩
    defaultTables.localizedSuffixes = defaultLocalizedSuffixes ∧
      (∀ pattern ∈ catalog, Ordinary pattern.widget) ∧
      inner ∈ callSites source catalog defaultTables inert ∧
      outer ∈ callSites source catalog defaultTables inert ∧
      literal ∈ stringLiterals inner.argText ∧
      (classify (contextOf inner literal) defaultTables).keep = false ∧
      (classify (contextOf outer (literal.shift 5)) defaultTables).keep = false ∧
      literal.shift 10 ∈ stringLiterals source ∧
      (Found source catalog defaultTables (literal.shift 10) ↔
        ∃ site, Innermost (callSites source catalog defaultTables inert) (literal.shift 10) site ∧
          site.Keeps defaultTables (literal.shift 10)) := by
  intro source catalog inert inner outer literal
  have ordinary : ∀ pattern ∈ catalog, Ordinary pattern.widget := by decide
  have innerCall : inner ∈ callSites source catalog defaultTables inert := by decide +kernel
  have outerCall : outer ∈ callSites source catalog defaultTables inert := by decide +kernel
  have member : literal ∈ stringLiterals inner.argText := by decide
  have dropped : (classify (contextOf inner literal) defaultTables).keep = false := by
    decide +kernel
  have whole : literal.shift 10 ∈ stringLiterals source := by decide
  have decided := innermost_call_decides source catalog defaultTables rfl ordinary
  refine ⟨rfl, ordinary, innerCall, outerCall, member, dropped, ?_, whole, (decided.2 _ whole).2.1⟩
  exact decided.1 inert inner innerCall outer outerCall (by decide) literal member
    (literal.shift 5) (by decide) (by decide) dropped

end HardcodedText
