import HardcodedText.Proofs.Scanner.Boundary
import HardcodedText.Proofs.Scanner.Relocation

/-!
Text that means nothing to the scanner, exchanged for other such text. Up to the end of its line a
piece without quotes, escapes, braces and stars may begin a line comment and nothing else. So on the
next line the scanner is where it was before, and from there on the literals are the same, at other
offsets. A literal that the piece stands in keeps its beginning and its end, but not its text.
-/

namespace HardcodedText

def Unremarkable (c : Char) : Prop :=
  isQuote c = false ∧ c ≠ '\\' ∧ c ≠ '$' ∧ c ≠ '\x7b' ∧ c ≠ '\x7d' ∧ c ≠ '*'

instance (c : Char) : Decidable (Unremarkable c) :=
  inferInstanceAs (Decidable (_ ∧ _))

def UnremarkableText (text : Text) : Prop :=
  ∀ c ∈ text, Unremarkable c

instance (text : Text) : Decidable (UnremarkableText text) :=
  List.decidableBAll Unremarkable text

def Mode.atNextLine : Mode → Mode
  | .string delimiter start _ => .string delimiter start false
  | .lineComment _ => .code
  | mode => mode

theorem Mode.atNextLine_settle (mode : Mode) (c : Char) :
    (mode.settle c).atNextLine = mode.atNextLine := by
  rcases mode.settle_eq_self_or c with same | ⟨start, rfl, rfl⟩
  · rw [same]
  · rfl

def Moment.literalSpan? (moment : Moment) : Option Span :=
  match moment.event with
  | .literalClose _ start => some ⟨start, moment.next⟩
  | _ => none

theorem Moment.literalSpan?_relocate (move : Nat → Nat) (moment : Moment) :
    (moment.relocate move).literalSpan? =
      moment.literalSpan?.map fun span => ⟨move span.start, move span.stop⟩ := by
  obtain ⟨index, before, event, next, after⟩ := moment
  cases event <;> rfl

theorem map_span_stringLiterals (text : Text) :
    (stringLiterals text).map StringLiteral.span = (run text).filterMap Moment.literalSpan? := by
  rw [stringLiterals, List.map_filterMap]
  apply List.filterMap_congr
  intro moment member
  cases closes : moment.event with
  | literalClose delimiter start =>
      have listed : (moment.literal? text).isSome = true := by simp [Moment.literal?, closes]
      obtain ⟨literal, found⟩ := Option.isSome_iff_exists.mp listed
      have bounds := bounds_of_mem_stringLiterals (List.mem_filterMap.mpr ⟨moment, member, found⟩)
      simp only [Moment.literal?, closes, Option.some_inj] at found
      subst found
      simp only [StringLiteral.stop] at bounds
      simp only [Moment.literal?, Moment.literalSpan?, closes, Option.map_some, StringLiteral.span,
        StringLiteral.stop]
      congr 2
      omega
  | _ => simp [Moment.literal?, Moment.literalSpan?, closes]

/-! One piece of unremarkable text. -/

theorem Mode.step_unremarkable {mode : Mode} (sound : mode.Sound) {c : Char} {rest : Text}
    (plain : UnremarkableText (c :: rest)) (index : Nat) :
    (mode.step index c rest).mode.atNextLine = mode.atNextLine ∧
      ∀ delimiter start, (mode.step index c rest).event ≠ .literalClose delimiter start := by
  obtain ⟨noQuote, noEscape, noDollar, noOpening, noClosing, noStar⟩ := plain c List.mem_cons_self
  have noBlock : rest.head? ≠ some '*' := by
    intro follows
    obtain ⟨-, -, -, -, -, notStar⟩ :=
      plain '*' (List.mem_cons_of_mem c (List.mem_of_mem_head? follows))
    exact notStar rfl
  cases mode with
  | code =>
      rw [step, stepCode, if_neg (by simp [noQuote])]
      split
      · simp [atNextLine]
      · simp [atNextLine, noBlock]
  | string delimiter start escaped =>
      have quoted : isQuote delimiter.quote = true := sound _ rfl
      simp only [step, stepString, beq_eq_false_iff_ne.mpr noEscape,
        beq_eq_false_iff_ne.mpr noDollar, Bool.false_and, Delimiter.isPrefixOf_cons quoted noQuote]
      cases escaped <;> simp [atNextLine]
  | interpolation delimiter start depth =>
      simp [step, stepInterpolation, noOpening, noClosing]
  | lineComment start =>
      simp only [step, stepLineComment]
      split <;> simp [atNextLine]
  | blockComment start depth =>
      simp [step, stepBlockComment, noStar, noBlock]

namespace Cursor

variable {cursor : Cursor}

theorem next_unremarkable (sound : cursor.mode.Sound) {c : Char} {rest : Text}
    (plain : UnremarkableText (c :: rest)) (index : Nat) :
    (cursor.next index c rest).mode.atNextLine = cursor.mode.atNextLine := by
  obtain ⟨mode, skip⟩ := cursor
  cases skip with
  | succ skip => rfl
  | zero =>
      have kept := (Mode.step_unremarkable (Mode.Sound.settle sound c) plain index).1
      rwa [Mode.atNextLine_settle] at kept

theorem moments_unremarkable (sound : cursor.mode.Sound) {c : Char} {rest : Text}
    (plain : UnremarkableText (c :: rest)) (index : Nat) :
    (cursor.moments index c rest).filterMap Moment.literalSpan? = [] := by
  obtain ⟨mode, skip⟩ := cursor
  cases skip with
  | succ skip => rfl
  | zero =>
      have quiet := (Mode.step_unremarkable (Mode.Sound.settle sound c) plain index).2
      have settled : (mode.settling index c).filterMap Moment.literalSpan? = [] := by
        cases mode with
        | lineComment start =>
            rw [Mode.settling]
            split <;> rfl
        | _ => rfl
      have read : (Moment.ofStep index (mode.settle c) (mode.consume index c rest)).literalSpan? =
          none := by
        rw [Moment.literalSpan?]
        split
        next delimiter start closes => exact absurd closes (quiet delimiter start)
        next => rfl
      rw [moments, List.filterMap_append, settled, List.nil_append, List.filterMap_cons, read]
      rfl

/-- Over unremarkable text no literal closes, and the mode on the next line stays what it is. -/
theorem run_unremarkable (sound : cursor.mode.Sound) {body : Text}
    (plain : UnremarkableText body) (index : Nat) :
    (cursor.run index body).filterMap Moment.literalSpan? = [] ∧
      (cursor.advance index body []).mode.atNextLine = cursor.mode.atNextLine := by
  induction body generalizing cursor index with
  | nil => simp [advance]
  | cons c rest ih =>
      have later := ih (sound_next sound index c rest)
        (fun x member => plain x (List.mem_cons_of_mem c member)) (index + 1)
      rw [run_cons, List.filterMap_append, moments_unremarkable sound plain, List.nil_append,
        advance, List.append_nil, later.2]
      exact ⟨later.1, next_unremarkable sound plain index⟩

theorem consume_lineFeed {mode : Mode} (sound : mode.Sound) (index : Nat) :
    (mode.consume index '\n' []).mode.atNextLine = (mode.consume index '\n' []).mode := by
  cases mode with
  | code => rfl
  | string delimiter start escaped =>
      have quoted : isQuote delimiter.quote = true := sound _ rfl
      simp only [Mode.consume, Mode.settle, Mode.step, stepString,
        Delimiter.isPrefixOf_cons quoted (by decide : isQuote '\n' = false)]
      cases escaped <;> rfl
  | interpolation delimiter start depth => rfl
  | lineComment start => rfl
  | blockComment start depth => rfl

theorem sound_front (front : Text) : (code.advance 0 front []).mode.Sound :=
  sound_advance sound_code 0 front []

theorem advance_endsLine {text : Text} (ends : EndsLine text) :
    (code.advance 0 text []).mode.atNextLine = (code.advance 0 text []).mode := by
  rcases ends with rfl | ⟨body, rfl⟩
  · rfl
  · have fresh : (code.advance 0 body []).skip = 0 := skip_advance (Nat.zero_le _)
    have sound := sound_front body
    rw [advance_append, List.singleton_append, advance_solitary sound_code solitary_lineFeed]
    generalize code.advance 0 body [] = reached at fresh sound
    obtain ⟨mode, skip⟩ := reached
    simp only at fresh
    subst fresh
    exact consume_lineFeed sound _

end Cursor

/-- The piece means nothing to the scanner, and no token and no line goes on over its ends. -/
structure Interjected (front piece more : Text) : Prop where
  separated : Separated front (piece ++ more)
  plain : UnremarkableText piece
  ends : more = [] ∨ EndsLine (front ++ piece)

def Cursor.onNextLine (front : Text) : Cursor :=
  ⟨(Cursor.code.advance 0 front []).mode.atNextLine, 0⟩

namespace Interjected

variable {front piece more : Text}

theorem separated_right (given : Interjected front piece more) :
    Separated (front ++ piece) more := by
  rcases given.ends with none | line
  · exact Or.inr (Or.inl none)
  · exact Or.inl line

theorem advance_eq (given : Interjected front piece more) (follows : more ≠ []) :
    Cursor.code.advance 0 (front ++ piece) [] = Cursor.onNextLine front := by
  have line := given.ends.resolve_left follows
  have kept : (Cursor.code.advance 0 (front ++ piece) []).mode.atNextLine =
      (Cursor.code.advance 0 front []).mode.atNextLine := by
    rw [Cursor.advance_append, List.append_nil,
      Cursor.advance_separated Cursor.sound_code given.separated.left]
    exact (Cursor.run_unremarkable (Cursor.sound_front front) given.plain _).2
  have fresh : (Cursor.code.advance 0 (front ++ piece) []).skip = 0 :=
    Cursor.skip_advance (Nat.zero_le _)
  rw [Cursor.advance_endsLine line] at kept
  exact congrArg₂ Cursor.mk kept fresh

/-- The literals around the piece are those before it and those that close on the lines after it. -/
theorem map_span_eq (given : Interjected front piece more) :
    (stringLiterals (front ++ (piece ++ more))).map StringLiteral.span =
      (stringLiterals front).map StringLiteral.span ++
        ((Cursor.onNextLine front).run (front ++ piece).length more).filterMap
          Moment.literalSpan? := by
  have before : (Cursor.code.run 0 (front ++ piece)).filterMap Moment.literalSpan? =
      (Cursor.code.run 0 front).filterMap Moment.literalSpan? := by
    rw [Cursor.run_separated Cursor.sound_code given.separated.left, List.filterMap_append,
      (Cursor.run_unremarkable (Cursor.sound_front front) given.plain _).1, List.append_nil]
  have after : (Cursor.code.advance 0 (front ++ piece) []).run (front ++ piece).length more =
      (Cursor.onNextLine front).run (front ++ piece).length more := by
    by_cases none : more = []
    · rw [none, Cursor.run_nil, Cursor.run_nil]
    · rw [given.advance_eq none]
  rw [map_span_stringLiterals, map_span_stringLiterals, ← List.append_assoc]
  change (Cursor.code.run 0 (front ++ piece ++ more)).filterMap Moment.literalSpan? = _
  rw [Cursor.run_separated Cursor.sound_code given.separated_right, List.filterMap_append, before,
    Nat.zero_add, after]
  rfl

end Interjected

/-! Another piece in the place of the first one. -/

def moveBehind (place distance offset : Nat) : Nat :=
  if offset < place then offset else offset + distance

theorem steady_moveBehind {place index : Nat} (behind : place ≤ index) (distance : Nat) :
    Steady (moveBehind place distance) index := by
  intro offset later
  rw [moveBehind, moveBehind, if_neg (by omega), if_neg (by omega), Nat.add_right_comm]

def Span.stretch (place distance : Nat) (span : Span) : Span where
  start := moveBehind place distance span.start
  stop := if span.stop ≤ place then span.stop else span.stop + distance

theorem Span.stretch_before {place distance : Nat} {span : Span} (order : span.start < span.stop)
    (before : span.stop ≤ place) : span.stretch place distance = span := by
  rw [stretch, moveBehind, if_pos before, if_pos (Nat.lt_of_lt_of_le order before)]

theorem Span.stretch_behind {place distance : Nat} {span : Span} (order : span.start < span.stop)
    (behind : place ≤ span.start) :
    span.stretch place distance = ⟨span.start + distance, span.stop + distance⟩ := by
  rw [stretch, moveBehind, if_neg (by omega), if_neg (by omega)]

theorem Span.stretch_inside {place distance : Nat} {span : Span} (starts : span.start < place)
    (stops : place < span.stop) :
    span.stretch place distance = ⟨span.start, span.stop + distance⟩ := by
  rw [stretch, moveBehind, if_pos starts, if_neg (by omega)]

theorem Moment.literalSpan?_stretch {cursor : Cursor} {index place : Nat} {text : Text}
    {moment : Moment} (ran : moment ∈ cursor.run index text) (behind : place ≤ index)
    (distance : Nat) :
    (moment.relocate (moveBehind place distance)).literalSpan? =
      moment.literalSpan?.map (Span.stretch place distance) := by
  rw [literalSpan?_relocate]
  cases closes : moment.event with
  | literalClose delimiter start =>
      obtain ⟨lower, -, moving | ⟨other, comment⟩⟩ := Cursor.run_bounds ran
      · have moved : moveBehind place distance moment.next = moment.next + distance :=
          if_neg (by omega)
        simp only [literalSpan?, closes, Option.map_some, Span.stretch, moved,
          if_neg (by omega : ¬ moment.next ≤ place)]
      · simp [closes] at comment
  | _ => simp [literalSpan?, closes]

theorem Mode.relocate_moveBehind {mode : Mode} {place : Nat}
    (begun : ∀ enclosure, mode.enclosure = some enclosure → enclosure.start < place)
    (distance : Nat) : mode.relocate (moveBehind place distance) = mode := by
  cases mode with
  | code => rfl
  | string delimiter start escaped =>
      have before : start < place := begun (.literal delimiter start) rfl
      rw [relocate, moveBehind, if_pos before]
  | interpolation delimiter start depth =>
      have before : start < place := begun (.literal delimiter start) rfl
      rw [relocate, moveBehind, if_pos before]
  | lineComment start =>
      have before : start < place := begun (.lineComment start) rfl
      rw [relocate, moveBehind, if_pos before]
  | blockComment start depth =>
      have before : start < place := begun (.blockComment start) rfl
      rw [relocate, moveBehind, if_pos before]

theorem Mode.atNextLine_relocate (move : Nat → Nat) (mode : Mode) :
    (mode.relocate move).atNextLine = mode.atNextLine.relocate move := by
  cases mode <;> rfl

theorem Cursor.relocate_onNextLine (front : Text) (distance : Nat) :
    (Cursor.onNextLine front).relocate (moveBehind front.length distance) =
      Cursor.onNextLine front := by
  -- What is open at the end of a text began in the text, so it does not move.
  have begins : Cursor.code.BegunBefore 0 := by
    intro enclosure inside
    simp [Cursor.code, Mode.enclosure] at inside
  have begun := begins.advance front []
  rw [Nat.zero_add] at begun
  rw [Cursor.onNextLine, Cursor.relocate, ← Mode.atNextLine_relocate,
    Mode.relocate_moveBehind begun]

section Exchange

variable {front old new more : Text} {distance : Nat}

theorem map_span_exchange (given : Interjected front old more) (put : Interjected front new more)
    (longer : new.length = old.length + distance) :
    (stringLiterals (front ++ (new ++ more))).map StringLiteral.span =
      (stringLiterals (front ++ (old ++ more))).map
        (Span.stretch front.length distance ∘ StringLiteral.span) := by
  have behind : front.length ≤ (front ++ old).length := by
    rw [List.length_append]
    omega
  have moved : moveBehind front.length distance (front ++ old).length = (front ++ new).length := by
    rw [moveBehind, if_neg (Nat.not_lt.mpr behind), List.length_append, List.length_append, longer,
      Nat.add_assoc]
  -- Behind both pieces the run goes on with the same cursor, so many characters further.
  have after := Cursor.run_relocate (steady_moveBehind behind distance) (Cursor.onNextLine front)
    more
  rw [Cursor.relocate_onNextLine, moved] at after
  have before : (stringLiterals front).map StringLiteral.span =
      ((stringLiterals front).map StringLiteral.span).map (Span.stretch front.length distance) := by
    rw [List.map_map]
    apply List.map_congr_left
    intro literal member
    have bounds := bounds_of_mem_stringLiterals member
    exact (Span.stretch_before bounds.1 bounds.2).symm
  rw [← List.map_map, put.map_span_eq, given.map_span_eq, List.map_append, ← before, after,
    List.filterMap_map, List.map_filterMap]
  congr 1
  apply List.filterMap_congr
  intro moment member
  exact Moment.literalSpan?_stretch member behind distance

theorem le_start_of_mem_stringLiterals (given : Interjected front old more)
    {literal : StringLiteral} (member : literal ∈ stringLiterals (front ++ (old ++ more)))
    (behind : front.length ≤ literal.start) : (front ++ old).length ≤ literal.start := by
  by_contra inside
  rw [List.length_append, Nat.not_le] at inside
  have written := stringLiterals_writtenIn member
  have opens : (front ++ (old ++ more))[literal.start]? = some literal.delimiter.quote := by
    rw [← Span.head?_of written.start_lt_stop, ← literal.head?_raw,
      slice_of_mem_stringLiterals member, StringLiteral.span]
  rw [List.getElem?_append_right behind, List.getElem?_append_left (by omega)] at opens
  have plain := (given.plain _ (List.mem_of_getElem? opens)).1
  rw [written.quoted] at plain
  contradiction

/-- A literal keeps its text, unless the piece stands inside of it. -/
theorem of_stretch_iff (given : Interjected front old more)
    (longer : new.length = old.length + distance) (some : 0 < distance) {literal : StringLiteral}
    (member : literal ∈ stringLiterals (front ++ (old ++ more))) :
    (literal.span.stretch front.length distance).of (front ++ (new ++ more)) = literal.raw ↔
      literal.stop ≤ front.length ∨ front.length ≤ literal.start := by
  obtain ⟨order, room⟩ := bounds_of_mem_stringLiterals member
  have slice := slice_of_mem_stringLiterals member
  constructor
  · intro same
    by_contra inside
    rw [not_or, Nat.not_le, Nat.not_le] at inside
    rw [Span.stretch_inside inside.2 inside.1, slice] at same
    have length := congrArg List.length same
    simp only [Span.of, StringLiteral.span, List.length_take, List.length_drop,
      List.length_append] at length room
    omega
  · rintro (before | behind)
    · rw [Span.stretch_before order before, slice, StringLiteral.span,
        Span.of_append_left before, Span.of_append_left before]
    · have later := le_start_of_mem_stringLiterals given member behind
      obtain ⟨first, start⟩ := Nat.exists_eq_add_of_le later
      obtain ⟨last, stop⟩ := Nat.exists_eq_add_of_le (Nat.le_trans later (Nat.le_of_lt order))
      have further (offset : Nat) :
          (front ++ old).length + offset + distance = (front ++ new).length + offset := by
        rw [List.length_append, List.length_append]
        omega
      rw [slice, Span.stretch_behind order behind, StringLiteral.span]
      simp only
      rw [start, stop, further, further, ← List.append_assoc, ← List.append_assoc, Span.of_append,
        Span.of_append]

theorem raws_exchange_iff (given : Interjected front old more) (put : Interjected front new more)
    (longer : new.length = old.length + distance) (some : 0 < distance) :
    (stringLiterals (front ++ (new ++ more))).map StringLiteral.raw =
        (stringLiterals (front ++ (old ++ more))).map StringLiteral.raw ↔
      ∀ literal ∈ stringLiterals (front ++ (old ++ more)),
        literal.stop ≤ front.length ∨ front.length ≤ literal.start := by
  have slices (text : Text) : (stringLiterals text).map StringLiteral.raw =
      ((stringLiterals text).map StringLiteral.span).map (Span.of · text) := by
    rw [List.map_map]
    exact List.map_congr_left fun literal member => slice_of_mem_stringLiterals member
  rw [slices (front ++ (new ++ more)), map_span_exchange given put longer, List.map_map,
    List.map_inj_left]
  exact forall₂_congr fun literal member => of_stretch_iff given longer some member

end Exchange

end HardcodedText
