import HardcodedText.Proofs.CallSite
import HardcodedText.Proofs.Text

/-!
Calls of a widget of the catalog. Heads of calls are searched one behind the other, and a head can
begin with a keyword, so a head that is found might take in the beginning of another one. It does
not: a head ends in the only parenthesis it has, and before that parenthesis the name stands at one
place only. The main statement says that every call of the name is found, in order and once.
-/

namespace HardcodedText

def isAsciiName (name : Text) : Bool :=
  name.head?.any isNameStart && name.all isAsciiNameChar

def isAsciiNamePath (name : Text) : Bool :=
  (name.splitOn '.').all isAsciiName

/-- What a scan for calls needs of a name: it begins with a word character and holds neither blanks
nor a parenthesis. -/
structure Callable (name : Text) : Prop where
  begins : name.head?.any isWordChar = true
  shown : ∀ c ∈ name, isBlank c = false
  closed : '(' ∉ name

theorem callable_of_isAsciiNamePath {name : Text} (path : isAsciiNamePath name = true) :
    Callable name := by
  rw [isAsciiNamePath, List.all_eq_true] at path
  have chars : ∀ c ∈ name, isNamePathChar c = true := by
    intro c member
    by_cases dot : c = '.'
    · rw [dot]
      decide
    · obtain ⟨piece, listed, inside⟩ := Text.exists_mem_splitOn member dot
      have piece := path piece listed
      rw [isAsciiName, Bool.and_eq_true, List.all_eq_true] at piece
      rw [isNamePathChar, piece.2 c inside, Bool.true_or]
  constructor
  · cases name with
    | nil => simp [isAsciiName] at path
    | cons c rest =>
        have first : isNameStart c = true := by
          by_cases dot : c = '.'
          · simp [List.splitOn_cons_eq_if_modifyHead, dot, isAsciiName] at path
          · have absent : '.' ∉ [c] := by simpa using Ne.symm dot
            obtain ⟨piece, pieces, -, cut⟩ := Text.splitOn_append_of_not_mem absent rest
            rw [List.singleton_append] at cut
            have piece := path ([c] ++ piece) (by rw [cut]; exact List.mem_cons_self)
            rw [isAsciiName, Bool.and_eq_true] at piece
            exact piece.1
        exact isWordChar_of_isNameStart first
  · intro c member
    by_contra blank
    have code := mem_blankCodes (c := c) (by simpa using blank)
    have none : ∀ code ∈ blankCodes, isNamePathChar (Char.ofNat code) = false := by decide
    have here := none c.toNat code
    rw [Char.ofNat_toNat, chars c member] at here
    exact absurd here (by decide)
  · intro member
    exact absurd (chars _ member) (by decide)

/-- The name stands behind `front` where no word goes on into it, and after the blanks of the gap a
parenthesis opens. -/
structure CallWritten (text name front gap rest : Text) : Prop where
  text_eq : text = front ++ (name ++ (gap ++ '(' :: rest))
  begins : front.getLast?.any isWordChar = false
  blank : ∀ c ∈ gap, isBlank c = true

def CalledAt (text name : Text) (place opens : Nat) : Prop :=
  ∃ front gap rest, CallWritten text name front gap rest ∧
    front.length = place ∧ place + name.length + gap.length = opens

section Known

variable {name : Text} (callable : Callable name)

include callable

theorem Callable.ne_nil : name ≠ [] := by
  rintro rfl
  exact absurd callable.begins (by decide)

theorem Callable.readHead_eq_some {previous : Option Char} {text : Text} {head : CallHead} :
    readHead (readKnownName name) previous text = some head ↔
      previous.any isWordChar = false ∧ ∃ gap rest, text = name ++ (gap ++ '(' :: rest) ∧
        (∀ c ∈ gap, isBlank c = true) ∧ head = ⟨0, name, name.length + gap.length + 1⟩ := by
  have first (behind : Text) : (name ++ behind).head?.any isWordChar = true := by
    cases front : name with
    | nil => exact absurd front callable.ne_nil
    | cons c rest =>
        have begins := callable.begins
        rwa [front] at begins
  constructor
  · intro found
    obtain ⟨own, read, opened⟩ := Option.bind_eq_some_iff.mp found
    obtain ⟨rfl, behind, rfl⟩ := readKnownName_eq_some read
    simp only [List.drop_left] at opened
    split at opened
    next parenthesis =>
      obtain ⟨rest, split⟩ := takeWhile_drop_parenthesis (beq_iff_eq.mp parenthesis)
      refine ⟨?_, behind.takeWhile isBlank, rest, by rw [← split],
        fun c member => List.mem_takeWhile_imp member, (Option.some_inj.mp opened).symm⟩
      rw [readKnownName] at read
      split at read
      next starts =>
        rw [Bool.and_eq_true, isBoundary, first] at starts
        simpa using starts.2
      next => simp at read
    next => simp at opened
  · rintro ⟨boundary, gap, rest, rfl, blank, rfl⟩
    have read : readKnownName name previous (name ++ (gap ++ '(' :: rest)) = some name := by
      rw [readKnownName, isBoundary, first, boundary, if_pos]
      simp
    have taken : (gap ++ '(' :: rest).takeWhile isBlank = gap := by
      rw [List.takeWhile_append_of_pos blank, List.takeWhile_cons_of_neg (by decide),
        List.append_nil]
    simp only [readHead, read, Option.bind_some, List.drop_left, taken]
    rfl

/-- A head of a call of the name is the call with or without a keyword before it. -/
theorem Callable.headAt_eq_some {previous : Option Char} {text : Text} {head : CallHead}
    (found : headAt (readKnownName name) previous text = some head) :
    ∃ keyword gap rest, text = keyword ++ (name ++ (gap ++ '(' :: rest)) ∧
      (keyword.getLast?.or previous).any isWordChar = false ∧ '(' ∉ keyword ∧
      (∀ c ∈ gap, isBlank c = true) ∧
      head = ⟨keyword.length, name, keyword.length + name.length + gap.length + 1⟩ := by
  rcases Option.or_eq_some_iff.mp found with constant | ⟨-, bare⟩
  · unfold readConstHead at constant
    split at constant
    next starts =>
      rw [Bool.and_eq_true, List.isPrefixOf_iff_prefix] at starts
      obtain ⟨⟨behind, rfl⟩, -⟩ := starts
      have cut : ("const".toList ++ behind).drop 5 = behind := rfl
      simp only [cut] at constant
      split at constant
      next => simp at constant
      next last ends =>
        obtain ⟨bare, read, rfl⟩ := Option.map_eq_some_iff.mp constant
        obtain ⟨-, gap, rest, split, blank, rfl⟩ := callable.readHead_eq_some.mp read
        have spaced : ∀ c ∈ behind.takeWhile isBlank, isBlank c = true :=
          fun c member => List.mem_takeWhile_imp member
        refine ⟨"const".toList ++ behind.takeWhile isBlank, gap, rest, ?_, ?_, ?_, blank, ?_⟩
        · have front := List.prefix_iff_eq_append.mp
            (List.takeWhile_prefix isBlank (l := behind))
          rw [List.append_assoc, ← split, front]
        · rw [List.getLast?_append, ends]
          exact isWordChar_of_isBlank (spaced last (List.mem_of_getLast? ends))
        · intro member
          rcases List.mem_append.mp member with inWord | inBlanks
          · exact absurd inWord (by decide)
          · exact absurd (spaced _ inBlanks) (by decide)
        · have five : "const".toList.length = 5 := rfl
          simp only [List.length_append, five, Nat.add_assoc]
    next => simp at constant
  · obtain ⟨boundary, gap, rest, split, blank, rfl⟩ := callable.readHead_eq_some.mp bare
    refine ⟨[], gap, rest, split, boundary, List.not_mem_nil, blank, ?_⟩
    simp only [List.length_nil, Nat.zero_add]

/-- Before the same parenthesis the name stands at one place only. -/
theorem Callable.place_unique {front keyword gap blanks rest more : Text}
    (same : front ++ (name ++ (gap ++ '(' :: rest)) =
      keyword ++ (name ++ (blanks ++ '(' :: more)))
    (frontClosed : '(' ∉ front) (keywordClosed : '(' ∉ keyword)
    (gapBlank : ∀ c ∈ gap, isBlank c = true) (blank : ∀ c ∈ blanks, isBlank c = true) :
    front = keyword ∧ gap = blanks := by
  have unopened {space : Text} (blank : ∀ c ∈ space, isBlank c = true) : '(' ∉ space := by
    intro member
    exact absurd (blank _ member) (by decide)
  have before {words space : Text} (wordsClosed : '(' ∉ words) (spaceClosed : '(' ∉ space)
      (behind : Text) :
      (words ++ (name ++ (space ++ '(' :: behind))).takeWhile (· != '(') =
        words ++ (name ++ space) := by
    have all : ∀ c ∈ words ++ (name ++ space), (c != '(') = true := by
      intro c member
      rw [bne_iff_ne]
      rintro rfl
      simp only [List.mem_append] at member
      rcases member with inWords | inName | inSpace
      · exact wordsClosed inWords
      · exact callable.closed inName
      · exact spaceClosed inSpace
    have regrouped : words ++ (name ++ (space ++ '(' :: behind)) =
        (words ++ (name ++ space)) ++ '(' :: behind := by simp
    rw [regrouped, List.takeWhile_append_of_pos all, List.takeWhile_cons_of_neg (by decide),
      List.append_nil]
  have equal : front ++ (name ++ gap) = keyword ++ (name ++ blanks) := by
    rw [← before frontClosed (unopened gapBlank) rest, same,
      before keywordClosed (unopened blank) more]
  have nameEnds : name.trimEnd = name := by
    have backwards : ∀ c ∈ name.reverse, isBlank c = false := by
      intro c member
      exact callable.shown c (List.mem_reverse.mp member)
    rw [Text.trimEnd, dropWhile_isBlank_eq_self backwards, List.reverse_reverse]
  have trimmed {words space : Text} (blank : ∀ c ∈ space, isBlank c = true) :
      (words ++ (name ++ space)).trimEnd = words ++ name := by
    rw [← List.append_assoc, Text.trimEnd_append_blank blank,
      Text.trimEnd_append (by rw [nameEnds]; exact callable.ne_nil), nameEnds]
  have named : front ++ name = keyword ++ name := by
    rw [← trimmed gapBlank, equal, trimmed blank]
  obtain rfl := List.append_cancel_right named
  rw [List.append_cancel_left_eq, List.append_cancel_left_eq] at equal
  exact ⟨rfl, equal⟩

/-- A call that begins before the parenthesis of another one is that one. -/
theorem Callable.same_call {front keyword gap blanks rest more : Text}
    (same : front ++ (name ++ (gap ++ '(' :: rest)) =
      keyword ++ (name ++ (blanks ++ '(' :: more)))
    (keywordClosed : '(' ∉ keyword) (gapBlank : ∀ c ∈ gap, isBlank c = true)
    (blank : ∀ c ∈ blanks, isBlank c = true)
    (inside : front.length ≤ keyword.length + name.length + blanks.length) :
    front = keyword ∧ gap = blanks := by
  have unopened : '(' ∉ keyword ++ (name ++ blanks) := by
    simp only [List.mem_append, not_or]
    refine ⟨keywordClosed, callable.closed, ?_⟩
    intro member
    exact absurd (blank _ member) (by decide)
  have begins : front <+: keyword ++ (name ++ (blanks ++ '(' :: more)) := ⟨_, same⟩
  have head : keyword ++ (name ++ blanks) <+: keyword ++ (name ++ (blanks ++ '(' :: more)) :=
    ⟨'(' :: more, by simp⟩
  have inFront : front <+: keyword ++ (name ++ blanks) := by
    apply List.prefix_of_prefix_length_le begins head
    simp only [List.length_append]
    omega
  exact callable.place_unique same (fun member => unopened (inFront.subset member)) keywordClosed
    gapBlank blank

/-- Where a call begins, a head is found. -/
theorem Callable.front_ne_nil {front gap rest : Text} {previous : Option Char}
    (boundary : (front.getLast?.or previous).any isWordChar = false)
    (blank : ∀ c ∈ gap, isBlank c = true)
    (none : headAt (readKnownName name) previous (front ++ (name ++ (gap ++ '(' :: rest))) =
      none) : front ≠ [] := by
  rintro rfl
  have outside : previous.any isWordChar = false := boundary
  have read := callable.readHead_eq_some.mpr ⟨outside, gap, rest, rfl, blank, rfl⟩
  rw [← List.nil_append (name ++ (gap ++ '(' :: rest)), (Option.or_eq_none_iff.mp none).2] at read
  simp at read

/-- No head that is found takes in the beginning of another call and hides it. -/
theorem Callable.exists_headsFrom {front gap rest text : Text} (offset : Nat) {skip : Nat}
    {previous : Option Char} (split : text = front ++ (name ++ (gap ++ '(' :: rest)))
    (boundary : (front.getLast?.or previous).any isWordChar = false)
    (blank : ∀ c ∈ gap, isBlank c = true) (reached : skip ≤ front.length) :
    ∃ place head, (place, head) ∈ headsFrom (readKnownName name) offset skip previous text ∧
      place + head.nameOffset = offset + front.length ∧
      place + head.width = offset + front.length + name.length + gap.length + 1 := by
  induction text generalizing front offset skip previous with
  | nil => simp at split
  | cons c text ih =>
      have later (ahead : Nat) (ahead_le : ahead + 1 ≤ front.length) :
          ∃ place head,
            (place, head) ∈ headsFrom (readKnownName name) (offset + 1) ahead (some c) text ∧
            place + head.nameOffset = offset + front.length ∧
            place + head.width = offset + front.length + name.length + gap.length + 1 := by
        cases front with
        | nil => simp at ahead_le
        | cons first front =>
            obtain ⟨rfl, inside⟩ := List.cons_eq_cons.mp split
            rw [getLast?_cons_or] at boundary
            rw [List.length_cons] at ahead_le ⊢
            obtain ⟨place, head, found, begins, ends⟩ :=
              ih (offset + 1) inside boundary (Nat.le_of_succ_le_succ ahead_le)
            exact ⟨place, head, found, by omega, by omega⟩
      cases skip with
      | succ skip =>
          rw [headsFrom]
          exact later skip reached
      | zero =>
          rw [headsFrom]
          cases here : headAt (readKnownName name) previous (c :: text) with
          | none =>
              have somewhere := callable.front_ne_nil boundary blank (split ▸ here)
              exact later 0 (List.length_pos_iff.mpr somewhere)
          | some head =>
              obtain ⟨keyword, blanks, more, cut, -, closed, spaced, rfl⟩ :=
                callable.headAt_eq_some here
              by_cases inside : front.length ≤ keyword.length + name.length + blanks.length
              · obtain ⟨rfl, rfl⟩ :=
                  callable.same_call (split.symm.trans cut) closed blank spaced inside
                refine ⟨offset, _, List.mem_cons_self, rfl, ?_⟩
                simp only
                omega
              · obtain ⟨place, found, member, begins, ends⟩ :=
                  later (keyword.length + name.length + blanks.length) (by omega)
                exact ⟨place, found, List.mem_cons_of_mem _ member, begins, ends⟩

theorem Callable.calledAt_of_mem_heads {text : Text} {offset : Nat} {head : CallHead}
    (member : (offset, head) ∈ heads (readKnownName name) text) :
    CalledAt text name (offset + head.nameOffset) (offset + head.width - 1) ∧
      head.nameOffset < head.width := by
  obtain ⟨front, back, rfl, place, found⟩ := headsFrom_eq member
  obtain ⟨keyword, gap, rest, rfl, boundary, -, blank, rfl⟩ := callable.headAt_eq_some found
  rw [Nat.zero_add] at place
  have written : CallWritten (front ++ (keyword ++ (name ++ (gap ++ '(' :: rest)))) name
      (front ++ keyword) gap rest := by
    refine ⟨(List.append_assoc _ _ _).symm, ?_, blank⟩
    rwa [List.getLast?_append, ← Option.or_none (o := front.getLast?)]
  refine ⟨⟨front ++ keyword, gap, rest, written, ?_, ?_⟩, ?_⟩
  · rw [List.length_append, place]
  · simp only
    omega
  · simp only
    omega

theorem Callable.exists_head {text : Text} {place opens : Nat}
    (called : CalledAt text name place opens) :
    ∃ offset head, (offset, head) ∈ heads (readKnownName name) text ∧
      offset + head.nameOffset = place ∧ offset + head.width = opens + 1 := by
  obtain ⟨front, gap, rest, written, rfl, rfl⟩ := called
  obtain ⟨split, boundary, blank⟩ := written
  rw [← Option.or_none (o := front.getLast?)] at boundary
  obtain ⟨offset, head, member, begins, ends⟩ :=
    callable.exists_headsFrom 0 split boundary blank (Nat.zero_le _)
  exact ⟨offset, head, member, by omega, by omega⟩

end Known

theorem le_of_mem_headsFrom {reader : NameReader} {text : Text} {place offset skip : Nat}
    {previous : Option Char} {head : CallHead}
    (member : (place, head) ∈ headsFrom reader offset skip previous text) :
    offset + skip ≤ place := by
  induction text generalizing offset skip previous with
  | nil => simp [headsFrom] at member
  | cons c rest ih =>
      cases skip with
      | succ skip =>
          have bound := ih member
          omega
      | zero =>
          rw [headsFrom] at member
          split at member
          · rcases List.mem_cons.mp member with same | member
            · obtain ⟨rfl, -⟩ := Prod.mk.inj same
              omega
            · have bound := ih member
              omega
          · have bound := ih member
            omega

/-- Heads do not overlap: each ends before the next begins. -/
theorem headsFrom_ordered (reader : NameReader) (offset skip : Nat) (previous : Option Char)
    (text : Text) :
    (headsFrom reader offset skip previous text).Pairwise
      fun left right => left.1 + left.2.width ≤ right.1 := by
  induction text generalizing offset skip previous with
  | nil => exact List.Pairwise.nil
  | cons c rest ih =>
      cases skip with
      | succ skip => exact ih (offset + 1) skip (some c)
      | zero =>
          rw [headsFrom]
          split
          next head found =>
            refine List.pairwise_cons.mpr ⟨?_, ih _ _ _⟩
            rintro ⟨place, later⟩ member
            have bound := le_of_mem_headsFrom member
            simp only
            omega
          next => exact ih _ _ _

structure NamedCall where
  place : Nat
  opens : Nat
  argText : Text

def callOfHead (text : Text) (inert : SpanSet) (found : Nat × CallHead) : Option NamedCall :=
  if inert.contains (found.1 + found.2.nameOffset : Nat) then none
  else (extractBalanced text (found.1 + found.2.width - 1 : Nat)).map fun argText =>
    ⟨found.1 + found.2.nameOffset, found.1 + found.2.width - 1, argText⟩

theorem callOfHead_eq_some {text : Text} {inert : SpanSet} {offset : Nat} {head : CallHead}
    {call : NamedCall} :
    callOfHead text inert (offset, head) = some call ↔
      call.place = offset + head.nameOffset ∧ call.opens = offset + head.width - 1 ∧
        inert.contains call.place = false ∧
        extractBalanced text call.opens = some call.argText := by
  obtain ⟨place, opens, argText⟩ := call
  rw [callOfHead]
  split
  next covered =>
    constructor
    · intro found
      simp at found
    · rintro ⟨rfl, rfl, outside, -⟩
      rw [covered] at outside
      exact absurd outside (by decide)
  next outside =>
    simp only [Option.map_eq_some_iff, NamedCall.mk.injEq]
    constructor
    · rintro ⟨own, extracted, rfl, rfl, rfl⟩
      exact ⟨rfl, rfl, by simpa using outside, extracted⟩
    · rintro ⟨rfl, rfl, -, extracted⟩
      exact ⟨argText, extracted, rfl, rfl, rfl⟩

/-- The calls of a catalog widget are those whose name stands in the text as the beginning of a
word, in code and before an argument list that is closed; none is left out, whatever keyword or call
stands around it. -/
theorem knownCallSites_find_every_call (text : Text) (pattern : WidgetPattern) (inert : SpanSet)
    (path : isAsciiNamePath pattern.widget = true) :
    ∃ calls : List NamedCall,
      (calls.Pairwise fun left right => left.place < right.place) ∧
      (∀ call, call ∈ calls ↔
        CalledAt text pattern.widget call.place call.opens ∧
          inert.contains call.place = false ∧
          extractBalanced text call.opens = some call.argText) ∧
      knownCallSites text pattern inert = calls.map fun call =>
        { widget := pattern.widget, argText := call.argText, argStart := call.opens + 1,
          known := true, params := pattern.params } := by
  have callable := callable_of_isAsciiNamePath path
  refine ⟨(heads (readKnownName pattern.widget) text).filterMap (callOfHead text inert),
    ?_, ?_, ?_⟩
  · rw [List.pairwise_filterMap]
    refine (headsFrom_ordered _ 0 0 none text).imp_of_mem ?_
    rintro ⟨offset, head⟩ ⟨next, other⟩ member _ apart left found right found'
    have inside := (callable.calledAt_of_mem_heads member).2
    have place := (callOfHead_eq_some.mp found).1
    have place' := (callOfHead_eq_some.mp found').1
    simp only at apart
    omega
  · intro call
    rw [List.mem_filterMap]
    constructor
    · rintro ⟨⟨offset, head⟩, member, found⟩
      obtain ⟨place, opens, outside, extracted⟩ := callOfHead_eq_some.mp found
      refine ⟨?_, outside, extracted⟩
      rw [place, opens]
      exact (callable.calledAt_of_mem_heads member).1
    · rintro ⟨called, outside, extracted⟩
      obtain ⟨offset, head, member, place, ends⟩ := callable.exists_head called
      exact ⟨(offset, head), member,
        callOfHead_eq_some.mpr ⟨place.symm, by omega, outside, extracted⟩⟩
  · rw [knownCallSites, List.map_filterMap]
    apply List.filterMap_congr
    rintro ⟨offset, head⟩ member
    have inside := (callable.calledAt_of_mem_heads member).2
    have start : offset + head.width - 1 + 1 = offset + head.width := by omega
    simp only [callOfHead, argumentsOf]
    split
    · rfl
    · simp only [Option.map_map, Function.comp_def, start]

theorem knownCallSites_find_every_call_nested :
    let text : Text := "const Tab ( Tab(x) ) MyTab(y) 'Tab(z)' Tab(".toList
    let pattern : WidgetPattern := ⟨"Tab".toList, ["text".toList]⟩
    let inert : SpanSet := .ofSpans (inertSpans text)
    isAsciiNamePath pattern.widget = true ∧
      (∃ calls : List NamedCall,
        (calls.Pairwise fun left right => left.place < right.place) ∧
        (∀ call, call ∈ calls ↔
          CalledAt text pattern.widget call.place call.opens ∧
            inert.contains call.place = false ∧
            extractBalanced text call.opens = some call.argText) ∧
        knownCallSites text pattern inert = calls.map fun call =>
          { widget := pattern.widget, argText := call.argText, argStart := call.opens + 1,
            known := true, params := pattern.params }) ∧
      knownCallSites text pattern inert =
        [⟨"Tab".toList, " Tab(x) ".toList, 11, true, ["text".toList]⟩,
          ⟨"Tab".toList, "x".toList, 16, true, ["text".toList]⟩] := by
  intro text pattern inert
  have path : isAsciiNamePath pattern.widget = true := by decide
  exact ⟨path, knownCallSites_find_every_call text pattern inert path, by decide +kernel⟩

end HardcodedText
