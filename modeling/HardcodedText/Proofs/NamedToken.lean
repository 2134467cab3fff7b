import HardcodedText.NamedToken
import HardcodedText.Proofs.Comment
import HardcodedText.Proofs.Text

/-!
The named tokens of an argument list. They are read in a copy of the list in which the literals are
blank. A name that a colon follows in the list itself is found, and so is one with a literal between
it and the colon, such as `case 'a':`.
-/

namespace HardcodedText

def InLiteral (text : Text) (offset : Nat) : Prop :=
  ∃ literal ∈ stringLiterals text, literal.start ≤ offset ∧ offset < literal.stop

/-- A whole word at an offset that begins like a name, and the place of a colon behind it. -/
structure NamedAt (text : Text) (offset : Nat) (name : Text) (colon : Nat) : Prop where
  read : ∀ place < name.length, text[offset + place]? = name[place]?
  begins : name.head?.any isNameStart = true
  word : ∀ c ∈ name, isWordChar c = true
  before : ∀ c, 0 < offset → text[offset - 1]? = some c → isWordChar c = false
  after : ∀ c, text[offset + name.length]? = some c → isWordChar c = false
  behind : offset + name.length ≤ colon
  isColon : text[colon]? = some ':'

/-- The property holds of every place from `start` on and before `stop`, and of the character there. -/
def Between (start stop : Nat) (text : Text) (holds : Nat → Char → Prop) : Prop :=
  ∀ place c, start ≤ place → place < stop → text[place]? = some c → holds place c

/-! Names as parts of a text. -/

theorem namedTokenAt_eq_some {previous : Option Char} {text name rest : Text} :
    namedTokenAt previous text = some (name, rest) ↔
      previous.any isWordChar = false ∧ name.head?.any isNameStart = true ∧
        (∀ c ∈ name, isWordChar c = true) ∧
        ∃ gap, (∀ c ∈ gap, isBlank c = true) ∧ text = name ++ (gap ++ ':' :: rest) := by
  constructor
  · intro found
    unfold namedTokenAt at found
    split at found
    next starts =>
      rw [Bool.and_eq_true, Bool.not_eq_true'] at starts
      split at found
      next behind colon =>
        obtain ⟨rfl, rfl⟩ := Prod.mk.inj (Option.some_inj.mp found)
        have gap := List.takeWhile_append_dropWhile (p := isBlank)
          (l := text.dropWhile isWordChar)
        rw [Text.trimStart] at colon
        rw [colon] at gap
        refine ⟨starts.2, ?_, fun c member => List.mem_takeWhile_imp member,
          (text.dropWhile isWordChar).takeWhile isBlank,
          fun c member => List.mem_takeWhile_imp member, ?_⟩
        · cases text with
          | nil => exact starts.1
          | cons c text =>
              have word := isWordChar_of_isNameStart (c := c) (by simpa using starts.1)
              rw [List.takeWhile_cons_of_pos word]
              exact starts.1
        · rw [gap, List.takeWhile_append_dropWhile]
      next => simp at found
    next => simp at found
  · rintro ⟨boundary, starts, word, gap, blanks, rfl⟩
    have stops : (gap ++ ':' :: rest).head?.any isWordChar = false := by
      cases gap with
      | nil => exact (by decide : isWordChar ':' = false)
      | cons c gap => exact isWordChar_of_isBlank (blanks c List.mem_cons_self)
    have taken : (gap ++ ':' :: rest).takeWhile isWordChar = [] ∧
        (gap ++ ':' :: rest).dropWhile isWordChar = gap ++ ':' :: rest := by
      cases shape : gap ++ ':' :: rest with
      | nil => simp
      | cons c more =>
          rw [shape, List.head?_cons, Option.any_some] at stops
          simp [stops]
    have first : (name ++ (gap ++ ':' :: rest)).head?.any isNameStart = true := by
      cases name with
      | nil => simp at starts
      | cons c name => exact starts
    rw [namedTokenAt, first, boundary, List.takeWhile_append_of_pos word,
      List.dropWhile_append_of_pos word, taken.1, taken.2, List.append_nil, Text.trimStart,
      Text.dropWhile_isBlank_append blanks (by decide)]
    rfl

theorem mem_namedTokensFrom {index offset : Nat} {previous : Option Char} {text name : Text} :
    ⟨offset, name⟩ ∈ namedTokensFrom index previous text ↔
      ∃ front back rest, text = front ++ back ∧ offset = index + front.length ∧
        namedTokenAt (front.getLast?.or previous) back = some (name, rest) := by
  induction text generalizing index previous with
  | nil =>
      constructor
      · intro member
        simp [namedTokensFrom] at member
      · rintro ⟨front, back, rest, split, -, found⟩
        obtain ⟨rfl, rfl⟩ := List.append_eq_nil_iff.mp split.symm
        simp [namedTokenAt] at found
  | cons c text ih =>
      have here : ⟨offset, name⟩ ∈ namedTokensFrom index previous (c :: text) ↔
          (offset = index ∧ ∃ rest, namedTokenAt previous (c :: text) = some (name, rest)) ∨
            ⟨offset, name⟩ ∈ namedTokensFrom (index + 1) (some c) text := by
        rw [namedTokensFrom]
        cases namedTokenAt previous (c :: text) with
        | none => simp
        | some found =>
            obtain ⟨other, rest⟩ := found
            simp [eq_comm]
      rw [here, ih]
      constructor
      · rintro (⟨rfl, rest, found⟩ | ⟨front, back, rest, rfl, rfl, found⟩)
        · exact ⟨[], c :: text, rest, rfl, rfl, found⟩
        · refine ⟨c :: front, back, rest, rfl, by rw [List.length_cons]; omega, ?_⟩
          rw [List.getLast?_cons]
          cases last : front.getLast? with
          | none => simpa [last] using found
          | some other => simpa [last] using found
      · rintro ⟨front, back, rest, split, place, found⟩
        cases front with
        | nil =>
            obtain rfl := split
            exact Or.inl ⟨place, rest, found⟩
        | cons first front =>
            obtain ⟨rfl, rfl⟩ := List.cons_eq_cons.mp split
            refine Or.inr ⟨front, back, rest, rfl, by rw [place, List.length_cons]; omega, ?_⟩
            rw [List.getLast?_cons] at found
            cases last : front.getLast? with
            | none => simpa [last] using found
            | some other => simpa [last] using found

theorem namedTokensFrom_ordered (index : Nat) (previous : Option Char) (text : Text) :
    (namedTokensFrom index previous text).Pairwise
      fun left right => left.offset < right.offset := by
  induction text generalizing index previous with
  | nil => exact List.Pairwise.nil
  | cons c text ih =>
      rw [namedTokensFrom]
      split
      next name rest found =>
        refine List.pairwise_cons.mpr ⟨?_, ih (index + 1) (some c)⟩
        intro token member
        obtain ⟨front, -, -, -, place, -⟩ := mem_namedTokensFrom.mp member
        simp only
        omega
      next => exact ih (index + 1) (some c)

namespace NamedAt

variable {text name : Text} {offset colon : Nat}

theorem exists_split (named : NamedAt text offset name colon) :
    ∃ front gap rest, text = front ++ (name ++ (gap ++ ':' :: rest)) ∧ front.length = offset ∧
      offset + name.length + gap.length = colon := by
  obtain ⟨within, isColon⟩ := List.getElem?_eq_some_iff.mp named.isColon
  have behind := named.behind
  have whole : (text.drop offset).take name.length = name := by
    apply List.ext_getElem?
    intro place
    by_cases inside : place < name.length
    · rw [List.getElem?_take, if_pos inside, List.getElem?_drop, named.read place inside]
    · rw [List.getElem?_eq_none (by rw [List.length_take]; omega),
        List.getElem?_eq_none (by omega)]
  have last : text.drop colon = ':' :: text.drop (colon + 1) := by
    rw [← isColon]
    exact List.drop_eq_getElem_cons within
  have named' : text.drop offset = name ++ text.drop (offset + name.length) := by
    have parts := List.take_append_drop name.length (text.drop offset)
    rw [whole, List.drop_drop] at parts
    exact parts.symm
  have apart : text.drop (offset + name.length) =
      (text.drop (offset + name.length)).take (colon - (offset + name.length)) ++
        text.drop colon := by
    have parts := List.take_append_drop (colon - (offset + name.length))
      (text.drop (offset + name.length))
    rw [List.drop_drop, Nat.add_sub_cancel' behind] at parts
    exact parts.symm
  refine ⟨text.take offset, (text.drop (offset + name.length)).take (colon - (offset + name.length)),
    text.drop (colon + 1), ?_, ?_, ?_⟩
  · rw [← last, ← apart, ← named', List.take_append_drop]
  · rw [List.length_take]
    omega
  · rw [List.length_take, List.length_drop]
    omega

theorem of_split {front gap rest : Text} (boundary : front.getLast?.any isWordChar = false)
    (begins : name.head?.any isNameStart = true) (word : ∀ c ∈ name, isWordChar c = true)
    (blanks : ∀ c ∈ gap, isBlank c = true) :
    NamedAt (front ++ (name ++ (gap ++ ':' :: rest))) front.length name
      (front.length + name.length + gap.length) where
  begins := begins
  word := word
  behind := Nat.le_add_right _ _
  read := by
    intro place inside
    rw [List.getElem?_append_right (Nat.le_add_right _ _), Nat.add_sub_cancel_left,
      List.getElem?_append_left inside]
  before := by
    intro c positive found
    rw [List.getElem?_append_left (by omega), ← List.getLast?_eq_getElem?] at found
    simpa [found] using boundary
  after := by
    intro c found
    rw [List.getElem?_append_right (Nat.le_add_right _ _), Nat.add_sub_cancel_left,
      List.getElem?_append_right (Nat.le_refl _), Nat.sub_self] at found
    cases gap with
    | nil =>
        obtain rfl : ':' = c := by simpa using found
        decide
    | cons first gap =>
        obtain rfl : first = c := by simpa using found
        exact isWordChar_of_isBlank (blanks first List.mem_cons_self)
  isColon := by
    rw [Nat.add_assoc, List.getElem?_append_right (Nat.le_add_right _ _), Nat.add_sub_cancel_left,
      List.getElem?_append_right (Nat.le_add_right _ _), Nat.add_sub_cancel_left,
      List.getElem?_append_right (Nat.le_refl _), Nat.sub_self]
    rfl

end NamedAt

theorem between_split {front gap rest : Text} {holds : Nat → Char → Prop} {start : Nat}
    (reached : front.length = start) :
    Between start (start + gap.length) (front ++ (gap ++ rest)) holds ↔
      ∀ place c, gap[place]? = some c → holds (start + place) c := by
  subst reached
  constructor
  · intro between place c found
    have inside := (List.getElem?_eq_some_iff.mp found).1
    apply between _ _ (Nat.le_add_right _ _) (by omega)
    rw [List.getElem?_append_right (Nat.le_add_right _ _), Nat.add_sub_cancel_left,
      List.getElem?_append_left inside, found]
  · intro each place c lower upper found
    rw [List.getElem?_append_right lower, List.getElem?_append_left (by omega)] at found
    have here := each _ c found
    rwa [Nat.add_sub_cancel' lower] at here

theorem mem_namedTokensFrom_iff_namedAt {text name : Text} {offset : Nat} :
    ⟨offset, name⟩ ∈ namedTokensFrom 0 none text ↔
      ∃ colon, NamedAt text offset name colon ∧
        Between (offset + name.length) colon text fun _ c => isBlank c = true := by
  rw [mem_namedTokensFrom]
  constructor
  · rintro ⟨front, back, rest, rfl, rfl, found⟩
    rw [Option.or_none] at found
    obtain ⟨boundary, begins, word, gap, blanks, rfl⟩ := namedTokenAt_eq_some.mp found
    rw [Nat.zero_add]
    refine ⟨_, NamedAt.of_split boundary begins word blanks, ?_⟩
    rw [← List.append_assoc, between_split (List.length_append ..)]
    intro place c inside
    exact blanks c (List.mem_of_getElem? inside)
  · rintro ⟨colon, named, blanks⟩
    obtain ⟨front, gap, rest, rfl, rfl, rfl⟩ := named.exists_split
    rw [← List.append_assoc, between_split (List.length_append ..)] at blanks
    refine ⟨front, _, rest, rfl, (Nat.zero_add _).symm, ?_⟩
    rw [Option.or_none, namedTokenAt_eq_some]
    refine ⟨?_, named.begins, named.word, gap, ?_, rfl⟩
    · cases last : front.getLast? with
      | none => rfl
      | some c =>
          have positive : 0 < front.length := by
            rw [List.length_pos_iff]
            rintro rfl
            simp at last
          apply named.before c positive
          rwa [List.getElem?_append_left (by omega), ← List.getLast?_eq_getElem?]
    · intro c member
      obtain ⟨place, inside⟩ := List.mem_iff_getElem?.mp member
      exact blanks place c inside

/-! Literals and the copy in which they are blank. -/

theorem isWordChar_of_isQuote {c : Char} (quote : isQuote c = true) : isWordChar c = false := by
  have none : ['\'', '"', '\x60'].any isWordChar = false := by decide +kernel
  have listed : c ∈ ['\'', '"', '\x60'] := by
    simpa [isQuote, or_assoc] using quote
  simpa using List.any_eq_false.mp none c listed

theorem isQuote_of_isWordChar {c : Char} (word : isWordChar c = true) : isQuote c = false := by
  by_contra quote
  rw [isWordChar_of_isQuote (by simpa using quote)] at word
  exact absurd word (by decide)

theorem inLiteral_iff {text : Text} {offset : Nat} :
    ((stringLiterals text).map StringLiteral.span).any (·.contains offset) = true ↔
      InLiteral text offset := by
  rw [List.any_map, List.any_eq_true]
  simp only [Function.comp_apply, Span.contains_iff]
  rfl

/-- A literal that holds an offset and not the next one ends in a quote there. -/
theorem InLiteral.isQuote_of_leaving {text : Text} {offset : Nat} {c : Char}
    (inside : InLiteral text offset) (outside : ¬ InLiteral text (offset + 1))
    (read : text[offset]? = some c) : isQuote c = true := by
  obtain ⟨literal, member, lower, upper⟩ := inside
  have last : literal.stop - 1 = offset := by
    have ends : ¬ offset + 1 < literal.stop := fun more =>
      outside ⟨literal, member, by omega, more⟩
    omega
  have quote := (quotes_of_mem_stringLiterals member).2
  rw [last, read, Option.some_inj] at quote
  rw [quote]
  exact (stringLiterals_writtenIn member).quoted

theorem not_inLiteral_of_quoteless {text : Text} {start stop place : Nat}
    (outside : ¬ InLiteral text start)
    (quoteless : Between (start + 1) (stop + 1) text fun _ c => isQuote c = false)
    (lower : start ≤ place) (upper : place ≤ stop) : ¬ InLiteral text place := by
  rintro ⟨literal, member, begun, ends⟩
  have later : start < literal.start := by
    by_contra early
    exact outside ⟨literal, member, by omega, by omega⟩
  have plain : isQuote literal.delimiter.quote = false :=
    quoteless literal.start _ later (by omega) (quotes_of_mem_stringLiterals member).1
  rw [(stringLiterals_writtenIn member).quoted] at plain
  exact absurd plain (by decide)

theorem getElem?_maskLiterals (text : Text) (offset : Nat) :
    ∃ covered : Bool, (covered = true ↔ InLiteral text offset) ∧
      (maskLiterals text)[offset]? =
        text[offset]?.map fun c => if c != '\n' && covered then ' ' else c :=
  ⟨_, inLiteral_iff, getElem?_blankOut _ _ _ _⟩

theorem getElem?_maskLiterals_visible {text : Text} {offset : Nat} {c : Char}
    (visible : isBlank c = false) :
    (maskLiterals text)[offset]? = some c ↔ text[offset]? = some c ∧ ¬ InLiteral text offset := by
  obtain ⟨covered, inside, copy⟩ := getElem?_maskLiterals text offset
  have space : c ≠ ' ' := by
    rintro rfl
    exact absurd visible (by decide)
  have lineFeed : c ≠ '\n' := by
    rintro rfl
    exact absurd visible (by decide)
  rw [copy, ← inside]
  cases covered with
  | false => simp
  | true =>
      cases text[offset]? with
      | none => simp
      | some first => by_cases broken : first = '\n' <;> simp [broken, space.symm, lineFeed.symm]

theorem isBlank_maskLiterals {text : Text} {offset : Nat} {c : Char}
    (read : text[offset]? = some c) :
    (∀ copied, (maskLiterals text)[offset]? = some copied → isBlank copied = true) ↔
      isBlank c = true ∨ InLiteral text offset := by
  obtain ⟨covered, inside, copy⟩ := getElem?_maskLiterals text offset
  rw [copy, ← inside, read]
  cases covered with
  | false => simp
  | true => by_cases broken : c = '\n' <;> simp [broken, isBlank]

theorem isWordChar_maskLiterals {text : Text} {offset : Nat}
    (boundary : ∀ c, text[offset]? = some c → isWordChar c = false) {c : Char}
    (copied : (maskLiterals text)[offset]? = some c) : isWordChar c = false := by
  cases visible : isBlank c with
  | true => exact isWordChar_of_isBlank visible
  | false => exact boundary c ((getElem?_maskLiterals_visible visible).mp copied).1

theorem isWordChar_of_maskLiterals {text : Text} {offset : Nat}
    (boundary : ∀ c, (maskLiterals text)[offset]? = some c → isWordChar c = false)
    (outside : ¬ InLiteral text offset) {c : Char} (read : text[offset]? = some c) :
    isWordChar c = false := by
  cases visible : isBlank c with
  | true => exact isWordChar_of_isBlank visible
  | false => exact boundary c ((getElem?_maskLiterals_visible visible).mpr ⟨read, outside⟩)

/-- A name outside of the literals whose colon stands outside of them too, with nothing between but
blanks and literals. -/
structure NamedAcross (text : Text) (offset : Nat) (name : Text) (colon : Nat) : Prop where
  outside : ¬ InLiteral text offset
  named : NamedAt text offset name colon
  free : ¬ InLiteral text colon
  gap : Between (offset + name.length) colon text fun place c =>
    isBlank c = true ∨ InLiteral text place

section Mask

variable {text name : Text} {offset colon : Nat}

theorem NamedAt.letters_of_maskLiterals (named : NamedAt (maskLiterals text) offset name colon)
    {place : Nat} (within : place < name.length) :
    text[offset + place]? = name[place]? ∧ ¬ InLiteral text (offset + place) := by
  have visible := isBlank_of_isWordChar (named.word _ (List.getElem_mem within))
  have copied := named.read place within
  rw [List.getElem?_eq_getElem within] at copied ⊢
  exact (getElem?_maskLiterals_visible visible).mp copied

theorem NamedAt.isQuote_letter (named : NamedAt text offset name colon) {place : Nat} {c : Char}
    (lower : offset ≤ place) (upper : place < offset + name.length)
    (found : text[place]? = some c) : isQuote c = false := by
  have listed := named.read (place - offset) (by omega)
  rw [Nat.add_sub_cancel' lower, found] at listed
  exact isQuote_of_isWordChar (named.word c (List.mem_of_getElem? listed.symm))

theorem NamedAt.letters_outside (named : NamedAt text offset name colon)
    (outside : ¬ InLiteral text offset) {place : Nat} (within : place < name.length) :
    ¬ InLiteral text (offset + place) := by
  have quoteless : Between (offset + 1) (offset + place + 1) text fun _ c => isQuote c = false :=
    fun _ _ lower upper => named.isQuote_letter (by omega) (by omega)
  exact not_inLiteral_of_quoteless outside quoteless (Nat.le_add_right _ _) (Nat.le_refl _)

theorem NamedAt.length_pos (named : NamedAt text offset name colon) : 0 < name.length := by
  rw [List.length_pos_iff]
  rintro rfl
  simpa using named.begins

theorem NamedAt.of_maskLiterals (named : NamedAt (maskLiterals text) offset name colon)
    (blanks : Between (offset + name.length) colon (maskLiterals text)
      fun _ c => isBlank c = true) : NamedAcross text offset name colon := by
  have positive := named.length_pos
  have outside : ¬ InLiteral text offset := (named.letters_of_maskLiterals positive).2
  obtain ⟨isColon, free⟩ := (getElem?_maskLiterals_visible (by decide)).mp named.isColon
  refine ⟨outside, ⟨?_, named.begins, named.word, ?_, ?_, named.behind, isColon⟩, free, ?_⟩
  · intro place within
    exact (named.letters_of_maskLiterals within).1
  · intro c later read
    by_cases inside : InLiteral text (offset - 1)
    · refine isWordChar_of_isQuote (inside.isQuote_of_leaving ?_ read)
      rwa [Nat.sub_add_cancel later]
    · exact isWordChar_of_maskLiterals (fun other => named.before other later) inside read
  · intro c read
    by_contra word
    -- A literal that begins right behind the name begins with a quote.
    have quoteless : Between (offset + (name.length - 1) + 1) (offset + name.length + 1) text
        fun _ c => isQuote c = false := by
      intro place other lower upper found
      obtain rfl : place = offset + name.length := by omega
      rw [read, Option.some_inj] at found
      rw [← found]
      exact isQuote_of_isWordChar (by simpa using word)
    have last := (named.letters_of_maskLiterals (Nat.sub_lt positive Nat.one_pos)).2
    have beyond := not_inLiteral_of_quoteless last quoteless (by omega) (Nat.le_refl _)
    exact word (isWordChar_of_maskLiterals named.after beyond read)
  · intro place c lower upper read
    rw [← isBlank_maskLiterals read]
    intro copied shown
    exact blanks place copied lower upper shown

theorem NamedAcross.maskLiterals (across : NamedAcross text offset name colon) :
    NamedAt (maskLiterals text) offset name colon ∧
      Between (offset + name.length) colon (maskLiterals text) fun _ c => isBlank c = true := by
  have named := across.named
  refine ⟨⟨?_, named.begins, named.word, ?_, ?_, named.behind, ?_⟩, ?_⟩
  · intro place within
    have visible := isBlank_of_isWordChar (named.word _ (List.getElem_mem within))
    have read := named.read place within
    rw [List.getElem?_eq_getElem within] at read ⊢
    exact (getElem?_maskLiterals_visible visible).mpr
      ⟨read, named.letters_outside across.outside within⟩
  · intro c later
    exact isWordChar_maskLiterals fun other => named.before other later
  · intro c
    exact isWordChar_maskLiterals named.after
  · exact (getElem?_maskLiterals_visible (by decide)).mpr ⟨named.isColon, across.free⟩
  · intro place c lower upper copied
    have within : place < text.length := by
      have bound := (List.getElem?_eq_some_iff.mp copied).1
      rwa [HardcodedText.maskLiterals, length_blankOut] at bound
    have read := List.getElem?_eq_getElem within
    exact (isBlank_maskLiterals read).mpr (across.gap place _ lower upper read) c copied

theorem namedTokens_ordered (text : Text) :
    (namedTokens text).Pairwise fun left right => left.offset < right.offset :=
  namedTokensFrom_ordered 0 none _

theorem mem_namedTokens_iff :
    ⟨offset, name⟩ ∈ namedTokens text ↔ ∃ colon, NamedAcross text offset name colon := by
  rw [namedTokens, mem_namedTokensFrom_iff_namedAt]
  constructor
  · rintro ⟨colon, named, blanks⟩
    exact ⟨colon, named.of_maskLiterals blanks⟩
  · rintro ⟨colon, across⟩
    exact ⟨colon, across.maskLiterals⟩

end Mask

/-! Names as the argument list itself reads. -/

def ReadsName (text : Text) (offset : Nat) (name : Text) : Prop :=
  ¬ InLiteral text offset ∧ ∃ colon, NamedAt text offset name colon ∧
    Between (offset + name.length) colon text fun _ c => isBlank c = true

section Reading

variable {text name : Text} {offset colon : Nat}

theorem NamedAt.outside_upto (named : NamedAt text offset name colon)
    (outside : ¬ InLiteral text offset)
    (blanks : Between (offset + name.length) colon text fun _ c => isBlank c = true)
    {place : Nat} (lower : offset ≤ place) (upper : place ≤ colon) : ¬ InLiteral text place := by
  refine not_inLiteral_of_quoteless outside ?_ lower upper
  intro place c lower upper found
  by_cases early : place < offset + name.length
  · exact named.isQuote_letter (by omega) early found
  · by_cases last : place = colon
    · rw [last, named.isColon, Option.some_inj] at found
      rw [← found]
      decide
    · exact isQuote_of_isBlank (blanks place c (by omega) (by omega) found)

theorem NamedAt.across (named : NamedAt text offset name colon)
    (outside : ¬ InLiteral text offset)
    (blanks : Between (offset + name.length) colon text fun _ c => isBlank c = true) :
    NamedAcross text offset name colon := by
  have behind := named.behind
  refine ⟨outside, named, named.outside_upto outside blanks (by omega) (Nat.le_refl _), ?_⟩
  intro place c lower upper found
  exact Or.inl (blanks place c lower upper found)

/-- The gap behind a name ends at the first colon outside of the literals. -/
theorem NamedAcross.le_colon {other : Nat} (across : NamedAcross text offset name colon)
    (free : ¬ InLiteral text other) (isColon : text[other]? = some ':')
    (behind : offset + name.length ≤ other) : colon ≤ other := by
  by_contra earlier
  rcases across.gap other ':' behind (by omega) isColon with blank | inside
  · exact absurd blank (by decide)
  · exact free inside

theorem readsName_iff :
    ReadsName text offset name ↔ ⟨offset, name⟩ ∈ namedTokens text ∧
      ∀ colon, NamedAcross text offset name colon →
        Between (offset + name.length) colon text fun place _ => ¬ InLiteral text place := by
  rw [mem_namedTokens_iff]
  constructor
  · rintro ⟨outside, colon, named, blanks⟩
    have across := named.across outside blanks
    refine ⟨⟨colon, across⟩, ?_⟩
    intro other further place c lower upper found
    have nearest := further.le_colon across.free named.isColon named.behind
    exact named.outside_upto outside blanks (by omega) (by omega)
  · rintro ⟨⟨colon, across⟩, clear⟩
    refine ⟨across.outside, colon, across.named, ?_⟩
    intro place c lower upper found
    exact (across.gap place c lower upper found).resolve_right
      (clear colon across place c lower upper found)

end Reading

/-- The tokens are listed from left to right. They are the names outside of the literals with a
colon behind them, where blanks and literals may stand between the two. A token reads in the list
itself as a name that only blanks part from its colon exactly if no literal stands between. -/
theorem namedTokens_before_colons (argText : Text) :
    (namedTokens argText).Pairwise (fun left right => left.offset < right.offset) ∧
    ∀ offset name,
      (⟨offset, name⟩ ∈ namedTokens argText ↔ ∃ colon, NamedAcross argText offset name colon) ∧
      (ReadsName argText offset name ↔ ⟨offset, name⟩ ∈ namedTokens argText ∧
        ∀ colon, NamedAcross argText offset name colon →
          Between (offset + name.length) colon argText
            fun place _ => ¬ InLiteral argText place) := by
  refine ⟨namedTokens_ordered argText, ?_⟩
  intro offset name
  exact ⟨mem_namedTokens_iff, readsName_iff⟩

theorem namedTokens_before_colons_past_literal :
    let argText : Text := "title: 'a: b', style: bold".toList
    namedTokens argText = [⟨0, "title".toList⟩, ⟨15, "style".toList⟩] ∧
      ∃ colon, NamedAcross argText 15 "style".toList colon := by
  intro argText
  have listed : namedTokens argText = [⟨0, "title".toList⟩, ⟨15, "style".toList⟩] := by
    decide +kernel
  refine ⟨listed, ((namedTokens_before_colons argText).2 15 "style".toList).1.mp ?_⟩
  rw [listed]
  exact List.mem_cons_of_mem _ List.mem_cons_self

/-- The label of a case is no name before a colon, but its literal is passed over. -/
theorem case_label_listed_as_name :
    let argText : Text := "switch (kind) \x7b case 'a': return 'Save it'; \x7d".toList
    namedTokens argText = [⟨16, "case".toList⟩] ∧ ¬ ReadsName argText 16 "case".toList := by
  intro argText
  refine ⟨by decide +kernel, ?_⟩
  rintro ⟨-, colon, named, blanks⟩
  have quote : argText[21]? = some '\'' := by decide +kernel
  have isColon := named.isColon
  have behind : 20 ≤ colon := named.behind
  have near : colon ≤ 21 := by
    by_contra far
    have blank : isBlank '\'' = true := blanks 21 _ (by decide) (by omega) quote
    exact absurd blank (by decide)
  rcases (by omega : colon = 20 ∨ colon = 21) with rfl | rfl <;>
    exact absurd isColon (by decide +kernel)

end HardcodedText
