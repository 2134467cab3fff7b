import HardcodedText.CallSite
import HardcodedText.Proofs.ArgumentList
import Mathlib.Data.List.TakeWhile

/-!
Calls in a text. Every call has an argument list that is written in the text at the offset it gives,
and a call whose name stands in code and is written with ordinary characters opens its argument list
in code.
-/

namespace HardcodedText

theorem ordinary_of_excluded {holds : Char → Bool} {text : Text}
    (all : ∀ c ∈ text, holds c = true)
    (excluded : ['\'', '"', '\x60', '/'].any holds = false) : Ordinary text := by
  intro c member
  rw [List.any_eq_false] at excluded
  have different : c ∉ ['\'', '"', '\x60', '/'] := by
    intro listed
    exact excluded c listed (all c member)
  simpa [isQuote, and_assoc] using different

def NameReader.Reads (reader : NameReader) : Prop :=
  ∀ previous text name, reader previous text = some name → name <+: text

def NameReader.Names (reader : NameReader) (name : Text) : Prop :=
  ∃ previous text, reader previous text = some name

theorem readKnownName_eq_some {name found text : Text} {previous : Option Char}
    (read : readKnownName name previous text = some found) : found = name ∧ name <+: text := by
  unfold readKnownName at read
  split at read
  next starts =>
    rw [Bool.and_eq_true, List.isPrefixOf_iff_prefix] at starts
    exact ⟨(Option.some_inj.mp read).symm, starts.1⟩
  next => simp at read

theorem readKnownName_reads (name : Text) : (readKnownName name).Reads := by
  intro previous text found read
  obtain ⟨rfl, starts⟩ := readKnownName_eq_some read
  exact starts

theorem isAsciiNameChar_of_isUpper {c : Char} (upper : c.isUpper = true) :
    isAsciiNameChar c = true := by
  have letter : c.isAlpha = true := Bool.or_eq_true_iff.mpr (Or.inl upper)
  rw [isAsciiNameChar, Char.isAlphanum, letter]
  rfl

def isNamePathChar (c : Char) : Bool :=
  isAsciiNameChar c || c == '.'

theorem readCustomName_eq_some {found text : Text} {previous : Option Char}
    (read : readCustomName previous text = some found) :
    found <+: text ∧ found.head?.any Char.isUpper = true ∧
      ∀ c ∈ found, isNamePathChar c = true := by
  have front := List.takeWhile_prefix isAsciiNameChar (l := text)
  have chars (rest : Text) : ∀ c ∈ rest.takeWhile isAsciiNameChar, isNamePathChar c = true := by
    intro c member
    have inName : isAsciiNameChar c = true := List.mem_takeWhile_imp member
    rw [isNamePathChar, inName, Bool.true_or]
  unfold readCustomName at read
  split at read
  next starts =>
    rw [Bool.and_eq_true] at starts
    have begins : (text.takeWhile isAsciiNameChar).head?.any Char.isUpper = true := by
      cases text with
      | nil => simp at starts
      | cons c text =>
          have upper : c.isUpper = true := by simpa using starts.1
          rw [List.takeWhile_cons, if_pos (isAsciiNameChar_of_isUpper upper)]
          exact starts.1
    simp only at read
    split at read
    next rest selected =>
      split at read
      · obtain rfl := Option.some_inj.mp read
        refine ⟨?_, ?_, ?_⟩
        · rw [List.prefix_iff_eq_append, selected] at front
          have member := List.takeWhile_prefix isAsciiNameChar (l := rest)
          nth_rewrite 2 [← front]
          rwa [List.prefix_append_right_inj, List.cons_prefix_cons, and_iff_right rfl]
        · rw [List.head?_append]
          cases first : (text.takeWhile isAsciiNameChar).head? with
          | none => simp [first] at begins
          | some c => rwa [first] at begins
        · intro c member
          rw [List.mem_append, List.mem_cons] at member
          rcases member with inBase | rfl | inMember
          · exact chars text c inBase
          · decide
          · exact chars rest c inMember
      · obtain rfl := Option.some_inj.mp read
        exact ⟨front, begins, chars text⟩
    next =>
      obtain rfl := Option.some_inj.mp read
      exact ⟨front, begins, chars text⟩
  next => simp at read

theorem readCustomName_reads : readCustomName.Reads := by
  intro previous text found read
  exact (readCustomName_eq_some read).1

structure HeadWritten (text : Text) (head : CallHead) (keyword blanks rest : Text) : Prop where
  text_eq : text = keyword ++ (head.name ++ (blanks ++ '(' :: rest))
  keyword_length : keyword.length = head.nameOffset
  width_eq : head.width = keyword.length + head.name.length + blanks.length + 1
  blank : ∀ c ∈ blanks, isBlank c = true

theorem takeWhile_drop_parenthesis {text : Text}
    (opened : (text.drop (text.takeWhile isBlank).length).head? = some '(') :
    ∃ rest, text = text.takeWhile isBlank ++ '(' :: rest := by
  obtain ⟨rest, split⟩ := List.head?_eq_some_iff.mp opened
  have front := List.prefix_iff_eq_append.mp (List.takeWhile_prefix isBlank (l := text))
  rw [split] at front
  exact ⟨rest, front.symm⟩

theorem readHead_eq_some {reader : NameReader} (reads : reader.Reads) {previous : Option Char}
    {text : Text} {head : CallHead} (found : readHead reader previous text = some head) :
    reader.Names head.name ∧ ∃ blanks rest, HeadWritten text head [] blanks rest := by
  obtain ⟨name, read, opened⟩ := Option.bind_eq_some_iff.mp found
  simp only at opened
  split at opened
  next parenthesis =>
    rw [beq_iff_eq] at parenthesis
    obtain rfl := Option.some_inj.mp opened
    obtain ⟨rest, split⟩ := takeWhile_drop_parenthesis parenthesis
    have front := List.prefix_iff_eq_append.mp (reads previous text name read)
    refine ⟨⟨previous, text, read⟩, (text.drop name.length).takeWhile isBlank, rest, ?_, rfl, ?_,
      fun c member => List.mem_takeWhile_imp member⟩
    · rw [← split]
      exact front.symm
    · simp
  next => simp at opened

theorem readConstHead_eq_some {reader : NameReader} (reads : reader.Reads)
    {previous : Option Char} {text : Text} {head : CallHead}
    (found : readConstHead reader previous text = some head) :
    reader.Names head.name ∧
      ∃ keyword blanks rest, HeadWritten text head keyword blanks rest := by
  unfold readConstHead at found
  split at found
  next starts =>
    rw [Bool.and_eq_true, List.isPrefixOf_iff_prefix] at starts
    have constant := List.prefix_iff_eq_append.mp starts.1
    have spaced := List.prefix_iff_eq_append.mp
      (List.takeWhile_prefix isBlank (l := text.drop 5))
    simp only at found
    split at found
    next => simp at found
    next last _ =>
      obtain ⟨bare, read, rfl⟩ := Option.map_eq_some_iff.mp found
      obtain ⟨named, blanks, rest, written⟩ := readHead_eq_some reads read
      refine ⟨named, "const".toList ++ (text.drop 5).takeWhile isBlank, blanks, rest, ?_, ?_, ?_,
        written.blank⟩
      · have split := written.text_eq
        rw [List.nil_append] at split
        rw [List.append_assoc, ← split, spaced]
        exact constant.symm
      · rw [List.length_append]
        rfl
      · have width := written.width_eq
        simp only [List.length_nil] at width
        simp only [List.length_append, width]
        have five : "const".toList.length = 5 := rfl
        omega
  next => simp at found

theorem headAt_eq_some {reader : NameReader} (reads : reader.Reads) {previous : Option Char}
    {text : Text} {head : CallHead} (found : headAt reader previous text = some head) :
    reader.Names head.name ∧
      ∃ keyword blanks rest, HeadWritten text head keyword blanks rest := by
  rcases Option.or_eq_some_iff.mp found with constant | ⟨-, bare⟩
  · exact readConstHead_eq_some reads constant
  · obtain ⟨named, blanks, rest, written⟩ := readHead_eq_some reads bare
    exact ⟨named, [], blanks, rest, written⟩

theorem getLast?_cons_or (c : Char) (front : Text) (previous : Option Char) :
    (c :: front).getLast?.or previous = front.getLast?.or (some c) := by
  rw [List.getLast?_cons]
  cases front.getLast? <;> rfl

theorem headsFrom_eq {reader : NameReader} {text : Text} {place offset skip : Nat}
    {previous : Option Char} {head : CallHead}
    (member : (place, head) ∈ headsFrom reader offset skip previous text) :
    ∃ front back, text = front ++ back ∧ place = offset + front.length ∧
      headAt reader (front.getLast?.or previous) back = some head := by
  induction text generalizing offset skip previous with
  | nil => simp [headsFrom] at member
  | cons c rest ih =>
      have later {skip : Nat}
          (member : (place, head) ∈ headsFrom reader (offset + 1) skip (some c) rest) :
          ∃ front back, c :: rest = front ++ back ∧ place = offset + front.length ∧
            headAt reader (front.getLast?.or previous) back = some head := by
        obtain ⟨front, back, rfl, rfl, found⟩ := ih member
        refine ⟨c :: front, back, rfl, ?_, ?_⟩
        · rw [List.length_cons]
          omega
        · rwa [getLast?_cons_or]
      cases skip with
      | succ skip => exact later member
      | zero =>
          simp only [headsFrom] at member
          split at member
          next here found =>
            rcases List.mem_cons.mp member with same | member
            · obtain ⟨rfl, rfl⟩ := Prod.mk.inj same
              exact ⟨[], c :: rest, rfl, rfl, found⟩
            · exact later member
          next => exact later member

theorem mem_heads {reader : NameReader} (reads : reader.Reads) {text : Text} {offset : Nat}
    {head : CallHead} (member : (offset, head) ∈ heads reader text) :
    reader.Names head.name ∧ ∃ front back keyword blanks rest, text = front ++ back ∧
      front.length = offset ∧ HeadWritten back head keyword blanks rest := by
  obtain ⟨front, back, split, place, found⟩ := headsFrom_eq member
  obtain ⟨named, keyword, blanks, rest, written⟩ := headAt_eq_some reads found
  exact ⟨named, front, back, keyword, blanks, rest, split, by omega, written⟩

def ReadsCatalog (catalog : List WidgetPattern) (reader : NameReader) : Prop :=
  reader = readCustomName ∨ ∃ pattern ∈ catalog, reader = readKnownName pattern.widget

theorem ReadsCatalog.reads {catalog : List WidgetPattern} {reader : NameReader}
    (used : ReadsCatalog catalog reader) : reader.Reads := by
  rcases used with rfl | ⟨pattern, -, rfl⟩
  · exact readCustomName_reads
  · exact readKnownName_reads pattern.widget

theorem ReadsCatalog.ordinary {catalog : List WidgetPattern} {reader : NameReader}
    (used : ReadsCatalog catalog reader)
    (ordinary : ∀ pattern ∈ catalog, Ordinary pattern.widget) {name : Text}
    (named : reader.Names name) : Ordinary name := by
  obtain ⟨previous, text, read⟩ := named
  rcases used with rfl | ⟨pattern, member, rfl⟩
  · exact ordinary_of_excluded (readCustomName_eq_some read).2.2 (by decide)
  · obtain ⟨rfl, -⟩ := readKnownName_eq_some read
    exact ordinary pattern member

theorem mem_callSites {text : Text} {catalog : List WidgetPattern} {tables : FilterTables}
    {inert : SpanSet} {site : CallSite} (member : site ∈ callSites text catalog tables inert) :
    ∃ reader offset head, ReadsCatalog catalog reader ∧ (offset, head) ∈ heads reader text ∧
      inert.contains (offset + head.nameOffset : Nat) = false ∧
      argumentsOf text offset head = some (site.argText, site.argStart) := by
  rcases List.mem_append.mp member with known | custom
  · obtain ⟨pattern, listed, found⟩ := List.mem_flatMap.mp known
    obtain ⟨⟨offset, head⟩, headed, called⟩ := List.mem_filterMap.mp found
    simp only at called
    split at called
    next => simp at called
    next outside =>
      obtain ⟨⟨argText, start⟩, taken, rfl⟩ := Option.map_eq_some_iff.mp called
      exact ⟨_, offset, head, Or.inr ⟨pattern, listed, rfl⟩, headed, by simpa using outside, taken⟩
  · obtain ⟨⟨offset, head⟩, headed, called⟩ := List.mem_filterMap.mp custom
    simp only at called
    split at called
    next => simp at called
    next accepted =>
      obtain ⟨⟨argText, start⟩, taken, looks⟩ := Option.bind_eq_some_iff.mp called
      simp only [Bool.or_eq_true, not_or, Bool.not_eq_true] at accepted
      simp only at looks
      split at looks
      · obtain rfl := Option.some_inj.mp looks
        exact ⟨_, offset, head, Or.inl rfl, headed, accepted.1.2, taken⟩
      · simp at looks

theorem argumentsOf_eq_some {text argText : Text} {offset start : Nat} {head : CallHead}
    (taken : argumentsOf text offset head = some (argText, start)) :
    start = offset + head.width ∧
      extractBalanced text (offset + head.width - 1 : Nat) = some argText := by
  obtain ⟨extracted, found, same⟩ := Option.map_eq_some_iff.mp taken
  obtain ⟨rfl, rfl⟩ := Prod.mk.inj same
  exact ⟨rfl, found⟩

theorem CallSite.written {text : Text} {catalog : List WidgetPattern} {tables : FilterTables}
    {inert : SpanSet} {site : CallSite} (member : site ∈ callSites text catalog tables inert) :
    ∃ front more, text = front ++ '(' :: (site.argText ++ ')' :: more) ∧
      front.length + 1 = site.argStart := by
  obtain ⟨reader, offset, head, used, headed, -, taken⟩ := mem_callSites member
  obtain ⟨start, found⟩ := argumentsOf_eq_some taken
  obtain ⟨-, _, _, keyword, blanks, _, -, -, written⟩ := mem_heads used.reads headed
  obtain ⟨front, rest, split, length, balanced⟩ := extractBalanced_eq_some_iff.mp found
  obtain ⟨more, rfl⟩ := Cursor.balanced_eq_some balanced
  have width := written.width_eq
  exact ⟨front, more, split, by omega⟩

/-- A call whose name stands in code has its parenthesis outside of all literals and comments. -/
theorem parenthesis_outside {text : Text} {catalog : List WidgetPattern} {reader : NameReader}
    (used : ReadsCatalog catalog reader) (ordinary : ∀ pattern ∈ catalog, Ordinary pattern.widget)
    {offset : Nat} {head : CallHead} (headed : (offset, head) ∈ heads reader text)
    (outside : (SpanSet.ofSpans (inertSpans text)).contains (offset + head.nameOffset : Nat) =
      false) :
    0 < head.width ∧ text[offset + head.width - 1]? = some '(' ∧
      ∀ span ∈ inertSpans text, span.contains (offset + head.width - 1) = false := by
  obtain ⟨named, front, back, keyword, blanks, rest, split, reached, written⟩ :=
    mem_heads used.reads headed
  have width := written.width_eq
  have length := written.keyword_length
  have plain : Ordinary (head.name ++ (blanks ++ ['('])) := by
    intro c inside
    rw [List.mem_append, List.mem_append, List.mem_singleton] at inside
    rcases inside with inName | inBlanks | rfl
    · exact used.ordinary ordinary named c inName
    · exact ordinary_of_excluded written.blank (by decide) c inBlanks
    · decide
  have whole : text = (front ++ keyword) ++ (head.name ++ (blanks ++ ['(']) ++ rest) := by
    rw [split, written.text_eq]
    simp
  have inHead {place : Nat} (lower : offset + head.nameOffset ≤ place)
      (upper : place < offset + head.width) :
      text[place]? = (head.name ++ (blanks ++ ['(']))[place - (offset + head.nameOffset)]? := by
    rw [whole, List.getElem?_append_right (by simp only [List.length_append]; omega),
      List.getElem?_append_left (by simp only [List.length_append, List.length_singleton]; omega),
      List.length_append, reached, length]
  refine ⟨by omega, ?_, ?_⟩
  · have last : offset + head.width - 1 - (offset + head.nameOffset) =
        (head.name ++ blanks).length := by
      rw [List.length_append]
      omega
    rw [inHead (by omega) (by omega), last, ← List.append_assoc]
    exact List.getElem?_concat_length
  · rw [SpanSet.contains_ofSpans (inertSpans_ordered text), List.any_eq_false] at outside
    intro span listed
    by_contra covered
    have before := outside span listed
    rw [Span.contains_iff] at before
    rw [Bool.not_eq_false, Span.contains_iff] at covered
    -- A span that begins behind the name does so at a quote or a slash, and there is none.
    rw [inertSpans_eq] at listed
    obtain ⟨c, first, opens⟩ := inertFrom_head 0 text span listed
    rw [Nat.sub_zero, inHead (by omega) (by omega)] at first
    have harmless := plain c (List.mem_of_getElem? first)
    rcases opens with quote | slash
    · rw [harmless.1] at quote
      exact absurd quote (by decide)
    · exact harmless.2 slash

/-- A call whose name stands in code opens its argument list outside of all literals and
comments. -/
theorem CallSite.argumentsAt {text : Text} {catalog : List WidgetPattern} {tables : FilterTables}
    (ordinary : ∀ pattern ∈ catalog, Ordinary pattern.widget) {site : CallSite}
    (member : site ∈ callSites text catalog tables (SpanSet.ofSpans (inertSpans text))) :
    ∃ offset, site.argStart = offset + 1 ∧ ArgumentsAt text offset site.argText := by
  obtain ⟨reader, offset, head, used, headed, outside, taken⟩ := mem_callSites member
  obtain ⟨start, found⟩ := argumentsOf_eq_some taken
  obtain ⟨wide, opened, uncovered⟩ := parenthesis_outside used ordinary headed outside
  exact ⟨offset + head.width - 1, by omega, opened, uncovered, found⟩

theorem CallSite.arguments {text : Text} {catalog : List WidgetPattern} {tables : FilterTables}
    (ordinary : ∀ pattern ∈ catalog, Ordinary pattern.widget) {site : CallSite}
    (member : site ∈ callSites text catalog tables (SpanSet.ofSpans (inertSpans text))) :
    ∃ offset front more, site.argStart = offset + 1 ∧
      ArgumentsSplit text offset front site.argText more := by
  obtain ⟨offset, start, arguments⟩ := CallSite.argumentsAt ordinary member
  obtain ⟨front, more, split⟩ := arguments.split
  exact ⟨offset, front, more, start, split⟩

end HardcodedText
