import HardcodedText.Detection
import HardcodedText.Proofs.Directive.Context
import HardcodedText.Proofs.Directive.Mask

/-!
Argument lists beside hidden comments. When both texts have the same literals in an argument list
and the comments in it are set apart, it looks like that of a widget in both or in none, the filters
keep the same literals, and the same parameters are inferred for them.
-/

namespace HardcodedText

namespace Text

theorem trim_append {gap after : Text} (before : ∀ c ∈ gap, isBlank c = true)
    (behind : ∀ c ∈ after, isBlank c = true) {first last : Char} (start : isBlank first = false)
    (stop : isBlank last = false) (inner : Text) :
    trim (gap ++ first :: (inner ++ last :: after)) = first :: (inner ++ [last]) := by
  have reversed : (first :: (inner ++ last :: after)).reverse =
      after.reverse ++ last :: (inner.reverse ++ [first]) := by simp
  rw [trim, trimStart, dropWhile_isBlank_append before start, trimEnd, reversed,
    dropWhile_isBlank_append (fun c member => behind c (List.mem_reverse.mp member)) stop]
  simp

end Text

/-- One quoted text between blanks, with no such quote inside. -/
structure QuotedIn (quote : Char) (text : Text) (gap inner after : Text) : Prop where
  text_eq : text = gap ++ quote :: (inner ++ quote :: after)
  before : ∀ c ∈ gap, isBlank c = true
  behind : ∀ c ∈ after, isBlank c = true
  absent : quote ∉ inner

theorem isSimplyQuoted_trim_iff {quote : Char} (quoted : isQuote quote = true) (text : Text) :
    isSimplyQuoted quote text.trim = true ↔
      ∃ gap inner after, QuotedIn quote text gap inner after := by
  have nonblank := isBlank_of_isQuote quoted
  constructor
  · intro simply
    obtain ⟨gap, after, split, before, behind⟩ := Text.exists_trim_split text
    simp only [isSimplyQuoted, Bool.and_eq_true, beq_iff_eq, decide_eq_true_eq] at simply
    obtain ⟨⟨⟨long, first⟩, last⟩, twice⟩ := simply
    obtain ⟨rest, body⟩ := List.head?_eq_some_iff.mp first
    obtain ⟨init, ends⟩ := List.getLast?_eq_some_iff.mp last
    cases init with
    | nil =>
        rw [ends] at long
        simp at long
    | cons opening inner =>
        obtain ⟨rfl, -⟩ := List.cons_eq_cons.mp (body.symm.trans ends)
        rw [ends] at split twice
        refine ⟨gap, inner, after, by rw [split]; simp, before, behind, ?_⟩
        rw [← List.count_eq_zero]
        simpa using twice
  · rintro ⟨gap, inner, after, rfl, before, behind, absent⟩
    have last : (quote :: (inner ++ [quote])).getLast? = some quote := by
      rw [← List.cons_append, List.getLast?_concat]
    rw [Text.trim_append before behind nonblank nonblank]
    simp [isSimplyQuoted, List.count_eq_zero.mpr absent, last]

/-! Quoted argument lists. -/

theorem Bordered.visible_behind {allowed : Char → Prop} {cell : Cell} {cells : List Cell}
    (bordered : Bordered allowed (cell :: cells)) (visible : cell.isVisible)
    (slashless : ∀ other ∈ cells, other.char ≠ '/') : ∀ other ∈ cells, other.isVisible := by
  induction cells generalizing cell with
  | nil => simp
  | cons next cells ih =>
      have seen : next.isVisible := by
        by_contra hidden
        have slash := bordered.opens cell next ⟨[], cells, rfl⟩ visible
          (by simpa [Cell.isVisible] using hidden)
        exact slashless next List.mem_cons_self slash
      intro other member
      rcases List.mem_cons.mp member with rfl | later
      · exact seen
      · exact ih (bordered.of_isInfix (List.suffix_cons cell _).isInfix) seen
          (fun other inside => slashless other (List.mem_cons_of_mem _ inside)) other later

theorem slashless_of_blank {gap : List Cell} (blanks : ∀ c ∈ shown gap, isBlank c = true) :
    ∀ cell ∈ gap, cell.char ≠ '/' := by
  intro cell member slash
  have blank := blanks _ (List.mem_map_of_mem member)
  rw [slash] at blank
  exact absurd blank (by decide)

/-- A quoted text of visible blanks and quotes. Hidden comments inside hold no quote. -/
structure QuotedCells (quote : Char) (cells before inside behind : List Cell) (first last : Cell) :
    Prop where
  cells_eq : cells = before ++ first :: (inside ++ last :: behind)
  opens : first.isVisible ∧ first.char = quote
  closes : last.isVisible ∧ last.char = quote
  before : IsGap before
  behind : IsGap behind
  absent : ∀ cell ∈ inside, cell.char ≠ quote

theorem exists_cells_of_quotedIn {view : Cell → Char} {quote : Char} {cells : List Cell}
    {gap inner after : Text} (written : QuotedIn quote (cells.map view) gap inner after) :
    ∃ before first inside last behind, cells = before ++ first :: (inside ++ last :: behind) ∧
      view first = quote ∧ view last = quote ∧ (∀ cell ∈ before, isBlank (view cell) = true) ∧
      (∀ cell ∈ behind, isBlank (view cell) = true) ∧ ∀ cell ∈ inside, view cell ≠ quote := by
  obtain ⟨before, rest, rfl, rfl, opened⟩ := List.map_eq_append_iff.mp written.text_eq
  obtain ⟨first, rest, rfl, isFirst, closed⟩ := List.map_eq_cons_iff.mp opened
  obtain ⟨inside, rest, rfl, rfl, ended⟩ := List.map_eq_append_iff.mp closed
  obtain ⟨last, behind, rfl, isLast, rfl⟩ := List.map_eq_cons_iff.mp ended
  refine ⟨before, first, inside, last, behind, rfl, isFirst, isLast, ?_, ?_, ?_⟩
  · intro cell member
    exact written.before _ (List.mem_map_of_mem member)
  · intro cell member
    exact written.behind _ (List.mem_map_of_mem member)
  · intro cell member same
    apply written.absent
    rw [← same]
    exact List.mem_map_of_mem member

theorem QuotedCells.quotedIn {quote : Char} (quoted : isQuote quote = true)
    {cells before inside behind : List Cell} {first last : Cell}
    (written : QuotedCells quote cells before inside behind first last) {view : Cell → Char}
    (same : ∀ cell, cell.isVisible → view cell = cell.char)
    (hides : ∀ cell, view cell = cell.char ∨ isQuote (view cell) = false) :
    QuotedIn quote (cells.map view) (shown before) (inside.map view) (shown behind) where
  text_eq := by
    have front : before.map view = shown before :=
      List.map_congr_left fun cell member => same cell (written.before cell member).1
    have back : behind.map view = shown behind :=
      List.map_congr_left fun cell member => same cell (written.behind cell member).1
    rw [written.cells_eq, List.map_append, List.map_cons, List.map_append, List.map_cons, front,
      back, same first written.opens.1, same last written.closes.1, written.opens.2,
      written.closes.2]
  before c member := by
    obtain ⟨cell, inGap, rfl⟩ := List.mem_map.mp member
    exact (written.before cell inGap).2
  behind c member := by
    obtain ⟨cell, inGap, rfl⟩ := List.mem_map.mp member
    exact (written.behind cell inGap).2
  absent member := by
    obtain ⟨cell, inInside, isQuoted⟩ := List.mem_map.mp member
    rcases hides cell with original | unquoted
    · exact written.absent cell inInside (by rw [← original, isQuoted])
    · rw [isQuoted, quoted] at unquoted
      exact absurd unquoted (by decide)

theorem IsGap.of_veiled {gap : List Cell} (blanks : ∀ cell ∈ gap, isBlank cell.veiled = true)
    (clear : ∀ left cell right, gap = left ++ cell :: right → cell.hidden = true → False) :
    IsGap gap := by
  intro cell member
  obtain ⟨left, right, split⟩ := List.append_of_mem member
  have visible : cell.isVisible := eq_false_of_ne_true (clear left cell right split)
  have blank := blanks cell member
  rw [Cell.veiled_of_isVisible visible] at blank
  exact ⟨visible, blank⟩

section Quoted

variable {opening : Cell} {cells : List Cell} (apart : SetApart (opening :: cells))
  (opened : opening.isVisible) {quote : Char} (quoted : isQuote quote = true)

include apart quoted

theorem SetApart.isVisible_of_quote {cell : Cell} (member : cell ∈ cells)
    (same : cell.char = quote) :
    cell.isVisible := by
  by_contra hidden
  have quiet := (apart.quiet cell (List.mem_cons_of_mem _ member)
    (by simpa [Cell.isVisible] using hidden)).1
  rw [same, quoted] at quiet
  exact absurd quiet (by decide)

theorem exists_quotedCells_of_veiled {gap inner after : Text}
    (written : QuotedIn quote (veiled cells) gap inner after) :
    ∃ before inside behind first last,
      QuotedCells quote cells before inside behind first last := by
  obtain ⟨before, first, inside, last, behind, rfl, isFirst, isLast, front, back, absent⟩ :=
    exists_cells_of_quotedIn written
  have nonblank := isBlank_of_isQuote quoted
  have firstSeen : first.isVisible := Cell.isVisible_of_veiled (by rw [isFirst]; exact nonblank)
  have lastSeen : last.isVisible := Cell.isVisible_of_veiled (by rw [isLast]; exact nonblank)
  rw [Cell.veiled_of_isVisible firstSeen] at isFirst
  rw [Cell.veiled_of_isVisible lastSeen] at isLast
  refine ⟨before, inside, behind, first, last, rfl, ⟨firstSeen, isFirst⟩, ⟨lastSeen, isLast⟩, ?_,
    ?_, ?_⟩
  · apply IsGap.of_veiled front
    intro left cell right split hidden
    have reach : cell :: (right ++ [first]) <:+:
        opening :: (before ++ first :: (inside ++ last :: behind)) :=
      ⟨opening :: left, inside ++ last :: behind, by simp [split]⟩
    have follows := apart.after cell right first reach hidden
      (fun other member => front other (by simp [split, member])) firstSeen
      (by rw [isFirst]; exact nonblank)
    rw [isFirst, MayFollow, quoted] at follows
    exact absurd follows.1 (by decide)
  · apply IsGap.of_veiled back
    intro left cell right split hidden
    have reach : last :: (left ++ [cell]) <:+:
        opening :: (before ++ first :: (inside ++ last :: behind)) :=
      ⟨opening :: (before ++ first :: inside), right, by simp [split]⟩
    have precedes := apart.before last left cell reach lastSeen (by rw [isLast]; exact nonblank)
      (fun other member => back other (by simp [split, member])) hidden
    rw [isLast, quoted] at precedes
    exact absurd precedes.2.1 (by decide)
  · intro cell member isQuoted
    have seen := apart.isVisible_of_quote quoted (by simp [member]) isQuoted
    exact absent cell member (by rw [Cell.veiled_of_isVisible seen, isQuoted])

include opened

theorem exists_quotedCells_of_shown {gap inner after : Text}
    (written : QuotedIn quote (shown cells) gap inner after) :
    ∃ before inside behind first last,
      QuotedCells quote cells before inside behind first last := by
  obtain ⟨before, first, inside, last, behind, rfl, isFirst, isLast, front, back, absent⟩ :=
    exists_cells_of_quotedIn written
  have firstSeen := apart.isVisible_of_quote quoted (by simp) isFirst
  have lastSeen := apart.isVisible_of_quote quoted (by simp) isLast
  refine ⟨before, inside, behind, first, last, rfl, ⟨firstSeen, isFirst⟩, ⟨lastSeen, isLast⟩, ?_,
    ?_, absent⟩
  · have within : opening :: before <:+:
        opening :: (before ++ first :: (inside ++ last :: behind)) :=
      ⟨[], first :: (inside ++ last :: behind), by simp⟩
    have seen := (apart.of_isInfix within).visible_behind opened
      (slashless_of_blank (by simpa [shown] using front))
    exact fun cell member => ⟨seen cell member, front cell member⟩
  · have within : last :: behind <:+:
        opening :: (before ++ first :: (inside ++ last :: behind)) :=
      ⟨opening :: (before ++ first :: inside), [], by simp⟩
    have seen := (apart.of_isInfix within).visible_behind lastSeen
      (slashless_of_blank (by simpa [shown] using back))
    exact fun cell member => ⟨seen cell member, back cell member⟩

theorem isSimplyQuoted_veiled :
    isSimplyQuoted quote (Text.trim (veiled cells)) =
      isSimplyQuoted quote (Text.trim (shown cells)) := by
  rw [Bool.eq_iff_iff, isSimplyQuoted_trim_iff quoted, isSimplyQuoted_trim_iff quoted]
  constructor
  · rintro ⟨gap, inner, after, written⟩
    obtain ⟨before, inside, behind, first, last, found⟩ :=
      exists_quotedCells_of_veiled apart quoted written
    exact ⟨_, _, _, found.quotedIn quoted (fun _ _ => rfl) fun _ => Or.inl rfl⟩
  · rintro ⟨gap, inner, after, written⟩
    obtain ⟨before, inside, behind, first, last, found⟩ :=
      exists_quotedCells_of_shown apart opened quoted written
    refine ⟨_, _, _, found.quotedIn quoted (fun _ visible => Cell.veiled_of_isVisible visible) ?_⟩
    intro cell
    cases hidden : cell.hidden with
    | false => exact Or.inl (Cell.veiled_of_isVisible hidden)
    | true => exact Or.inr (isQuote_of_isBlank (Cell.isBlank_veiled hidden))

end Quoted

/-! Argument lists with a name in them. -/

theorem colon_mem_of_hasNamedParameter {argText : Text} (named : hasNamedParameter argText = true) :
    ':' ∈ argText := by
  rw [hasNamedParameter_eq] at named
  obtain ⟨before, rest, split, found⟩ := Text.anyPlace_iff.mp named
  rw [namesArgument, tokenAt, namedTokenAt] at found
  split at found
  next =>
    split at found
    next more colon =>
      have listed : ':' ∈ maskLiterals argText := by
        rw [split]
        apply List.mem_append_right
        apply (List.dropWhile_suffix isWordChar).subset
        apply (List.dropWhile_suffix isBlank).subset
        rw [Text.trimStart] at colon
        rw [colon]
        exact List.mem_cons_self
      obtain ⟨⟨c, offset⟩, member, masked⟩ := List.mem_map.mp listed
      simp only at masked
      split at masked
      next => exact absurd masked (by decide)
      next =>
        rw [← masked]
        exact List.fst_mem_of_mem_zipIdx member
    next => simp at found
  next => simp at found

theorem isNamePath_of_colon {text : Text} (colon : ':' ∈ text) : isNamePath text = false := by
  rw [← Bool.not_eq_true, isNamePath, List.all_eq_true]
  intro names
  obtain ⟨piece, listed, inside⟩ := Text.exists_mem_splitOn colon (by decide : ':' ≠ '.')
  have named := names piece listed
  cases piece with
  | nil => simp at inside
  | cons first rest =>
      rw [isName, Bool.and_eq_true, List.all_eq_true] at named
      rcases List.mem_cons.mp inside with rfl | later
      · exact absurd named.1 (by decide)
      · exact absurd (named.2 ':' later) (by decide)

theorem looksLikeWidget_eq {argText : Text} :
    looksLikeWidget argText = (hasNamedParameter argText &&
      !(isSimplyQuoted '\'' argText.trim || isSimplyQuoted '"' argText.trim)) := by
  cases named : hasNamedParameter argText with
  | false => rw [looksLikeWidget, named, Bool.and_false, Bool.false_and]
  | true =>
      have colon := Text.mem_trim (colon_mem_of_hasNamedParameter named) (by decide)
      rw [looksLikeWidget, named, isTrivialBody, isNamePath_of_colon colon, Bool.or_false,
        Bool.and_true, Bool.true_and]

theorem lineStart_veiled (cells : List Cell) (offset : Int) :
    lineStart (veiled cells) offset = lineStart (shown cells) offset := by
  have same (cell : Cell) : (cell.veiled != '\n') = (cell.char != '\n') := by
    rw [bne, bne, Bool.not_inj_iff, Bool.eq_iff_iff, beq_iff_eq, beq_iff_eq]
    exact cell.veiled_eq_lineFeed_iff
  have lines : (fun c : Char => c != '\n') ∘ Cell.veiled = (fun c => c != '\n') ∘ Cell.char :=
    funext same
  simp only [lineStart, length_veiled, length_shown]
  rw [veiled, shown, ← List.map_take, ← List.map_take, ← List.map_reverse, ← List.map_reverse,
    List.takeWhile_map, List.takeWhile_map, lines]
  simp

theorem parameterOf_veiled (cells : List Cell) (widget : Text) (start : Nat) (known : Bool)
    (params : List Text)
    (tokens : List NamedToken) (offset : Nat) :
    parameterOf ⟨widget, veiled cells, start, known, params⟩ tokens offset =
      parameterOf ⟨widget, shown cells, start, known, params⟩ tokens offset := by
  simp only [parameterOf, inferGenericParameter, lineStart_veiled]

/-! Literals. -/

theorem quoteAt_of_veiled {cells : List Cell} {place : Nat} {c : Char}
    (read : (veiled cells)[place]? = some c) (quoted : isQuote c = true) : QuoteAt cells place := by
  rw [veiled, List.getElem?_map, Option.map_eq_some_iff] at read
  obtain ⟨cell, found, rfl⟩ := read
  have visible := Cell.isVisible_of_veiled (isBlank_of_isQuote quoted)
  rw [Cell.veiled_of_isVisible visible] at quoted
  exact ⟨cell, found, visible, quoted⟩

structure ArgumentCells (opening : Cell) (cells : List Cell) : Prop where
  apart : SetApart (opening :: cells)
  opens : opening.isVisible
  literals : stringLiterals (veiled cells) = stringLiterals (shown cells)
  outside : OutsideHidden ((stringLiterals (shown cells)).map StringLiteral.span) cells

namespace ArgumentCells

variable {opening : Cell} {cells : List Cell} (arguments : ArgumentCells opening cells)

include arguments

theorem colonless :
    Colonless (maskFrom ((stringLiterals (shown cells)).map StringLiteral.span) 0 cells) :=
  arguments.outside.colonless
    (arguments.apart.of_isInfix (List.suffix_cons opening cells).isInfix)

theorem maskLiterals_veiled : maskLiterals (veiled cells) =
    veiled (maskFrom ((stringLiterals (shown cells)).map StringLiteral.span) 0 cells) := by
  rw [veiled_maskFrom, maskLiterals, arguments.literals, blankOut_eq]

theorem namedTokens_eq : namedTokens (veiled cells) = namedTokens (shown cells) := by
  rw [namedTokens, namedTokens, arguments.maskLiterals_veiled, maskLiterals, blankOut_eq,
    ← shown_maskFrom]
  exact @namedTokensFrom_veiled none _ arguments.colonless 0

theorem hasNamedParameter_veiled :
    hasNamedParameter (veiled cells) = hasNamedParameter (shown cells) := by
  rw [hasNamedParameter_eq, hasNamedParameter_eq, arguments.maskLiterals_veiled, maskLiterals,
    blankOut_eq, ← shown_maskFrom]
  exact @anyPlace_namesArgument_veiled none _ arguments.colonless

theorem looksLikeWidget_veiled :
    looksLikeWidget (veiled cells) = looksLikeWidget (shown cells) := by
  rw [looksLikeWidget_eq, looksLikeWidget_eq, arguments.hasNamedParameter_veiled,
    isSimplyQuoted_veiled arguments.apart arguments.opens (by decide),
    isSimplyQuoted_veiled arguments.apart arguments.opens (by decide)]

theorem classify_eq {tables : FilterTables} (plain : PlainTables tables)
    {literal : StringLiteral} (member : literal ∈ stringLiterals (shown cells)) :
    classify ⟨literal.content, veiled cells, literal.start, literal.delimiter.width⟩ tables =
      classify ⟨literal.content, shown cells, literal.start, literal.delimiter.width⟩ tables := by
  have copied : literal ∈ stringLiterals (veiled cells) := by
    rw [arguments.literals]
    exact member
  obtain ⟨first, final⟩ := quotes_of_mem_stringLiterals copied
  have written := stringLiterals_writtenIn member
  have opens := quoteAt_of_veiled first written.quoted
  have closes := quoteAt_of_veiled final written.quoted
  have last := written.last
  have stop := written.stop_eq
  rw [Nat.zero_add, length_shown, stop] at last
  rw [stop] at closes
  have positive : 0 < literal.delimiter.width := by
    rw [← Delimiter.length_text]
    exact List.length_pos_iff.mpr literal.delimiter.text_ne_nil
  have inside := arguments.apart.of_isInfix (List.suffix_cons opening cells).isInfix
  exact classify_veiled inside positive last opens closes plain

theorem keptLiterals_veiled {tables : FilterTables} (plain : PlainTables tables) (widget : Text)
    (start : Nat)
    (known : Bool) (params : List Text) :
    keptLiterals ⟨widget, veiled cells, start, known, params⟩ tables =
      keptLiterals ⟨widget, shown cells, start, known, params⟩ tables := by
  rw [keptLiterals, keptLiterals, arguments.literals]
  apply List.filter_congr
  intro literal member
  rw [contextOf, contextOf, arguments.classify_eq plain member]

/-- A call with these arguments gives the same matches in both texts. -/
theorem matchesOfSite_veiled {tables : FilterTables} (plain : PlainTables tables)
    (index : LineIndex) (widget : Text)
    (start : Nat) (known : Bool) (params : List Text) :
    matchesOfSite index tables ⟨widget, veiled cells, start, known, params⟩ =
      matchesOfSite index tables ⟨widget, shown cells, start, known, params⟩ := by
  rw [matchesOfSite, matchesOfSite, arguments.keptLiterals_veiled plain, arguments.namedTokens_eq]
  apply List.map_congr_left
  intro literal _
  rw [matchOf, matchOf, parameterOf_veiled]

end ArgumentCells

end HardcodedText
