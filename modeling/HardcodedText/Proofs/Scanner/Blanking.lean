import HardcodedText.Detection
import HardcodedText.Proofs.Scanner.Cut

/-!
Blanking out literals and comments. When some of them become blank, the scanner reads the others as
before, and nothing new comes about. In particular a text without its ordinary comments has the
literals it had with them.
-/

namespace HardcodedText

def blankFrom (kept : Char → Bool) (spans : List Span) (index : Nat) (text : Text) : Text :=
  (text.zipIdx index).map fun (c, offset) =>
    if !kept c && spans.any (·.contains offset) then ' ' else c

theorem blankOut_eq (kept : Char → Bool) (spans : List Span) (text : Text) :
    blankOut kept spans text = blankFrom kept spans 0 text :=
  rfl

section BlankFrom

variable {kept : Char → Bool} {spans : List Span}

theorem blankFrom_cons (index : Nat) (c : Char) (rest : Text) :
    blankFrom kept spans index (c :: rest) =
      (if !kept c && spans.any (·.contains index) then ' ' else c) ::
        blankFrom kept spans (index + 1) rest := by
  simp [blankFrom, List.zipIdx_cons]

theorem blankFrom_append (index : Nat) (front back : Text) :
    blankFrom kept spans index (front ++ back) =
      blankFrom kept spans index front ++
        blankFrom kept spans (index + front.length) back := by
  simp [blankFrom, List.zipIdx_append]

@[simp] theorem length_blankFrom (index : Nat) (text : Text) :
    (blankFrom kept spans index text).length = text.length := by
  simp [blankFrom]

theorem erases_blankFrom (lineFeed : kept '\n' = true) (index : Nat) (text : Text) :
    Erases text (blankFrom kept spans index text) := by
  induction text generalizing index with
  | nil => exact List.Forall₂.nil
  | cons c rest ih =>
      rw [blankFrom_cons]
      refine List.Forall₂.cons ?_ (ih (index + 1))
      split
      next blanked =>
        refine Or.inr ⟨rfl, ?_⟩
        rintro rfl
        simp [lineFeed] at blanked
      next => exact Or.inl rfl

theorem blankFrom_uncovered {index : Nat} {text : Text}
    (uncovered : ∀ offset, index ≤ offset → offset < index + text.length →
      spans.any (·.contains offset) = false) : blankFrom kept spans index text = text := by
  induction text generalizing index with
  | nil => rfl
  | cons c rest ih =>
      rw [List.length_cons] at uncovered
      rw [blankFrom_cons, uncovered index (by omega) (by omega), Bool.and_false, if_neg (by simp),
        ih fun offset lower upper => uncovered offset (by omega) (by omega)]

theorem mem_blankFrom_covered {index : Nat} {text : Text}
    (covered : ∀ offset, index ≤ offset → offset < index + text.length →
      spans.any (·.contains offset) = true) {c : Char}
    (member : c ∈ blankFrom kept spans index text) : c = ' ' ∨ kept c = true := by
  induction text generalizing index with
  | nil => simp [blankFrom] at member
  | cons first rest ih =>
      rw [List.length_cons] at covered
      rw [blankFrom_cons, covered index (by omega) (by omega), Bool.and_true] at member
      rcases List.mem_cons.mp member with rfl | later
      · cases stays : kept first with
        | false => exact Or.inl rfl
        | true => exact Or.inr stays
      · exact ih (fun offset lower upper => covered offset (by omega) (by omega)) later

end BlankFrom

theorem Encloses.erased {index : Nat} {enclosure : Enclosure} {inner rest other : Text}
    (encloses : Encloses index enclosure inner rest) (erases : Erases rest other) :
    Encloses index enclosure inner other := by
  obtain ⟨before, room, listed, arrives⟩ := encloses.closes
  exact ⟨encloses.start_eq, encloses.sound, before, room,
    fun further again => listed further (erases.trans again),
    fun further again => arrives further (erases.trans again)⟩

theorem step_code_ordinary {c : Char} (ordinary : isQuote c = false ∧ c ≠ '/') (index : Nat)
    (rest : Text) : Mode.code.step index c rest = ⟨.none, 1, .code⟩ := by
  simp [Mode.step, stepCode, ordinary]

theorem closings_ordinary {plain : Text} (ordinary : Ordinary plain)
    (index : Nat) (rest : Text) :
    Cursor.code.closings index (plain ++ rest) =
      Cursor.code.closings (index + plain.length) rest := by
  induction plain generalizing index with
  | nil => rfl
  | cons c plain ih =>
      have first := step_code_ordinary (ordinary c List.mem_cons_self) index (plain ++ rest)
      rw [List.cons_append, closings_plain first,
        ih (fun other member => ordinary other (List.mem_cons_of_mem _ member)) (index + 1),
        List.length_cons, Nat.add_assoc, Nat.add_comm 1]

theorem literalsFrom_ordinary {plain : Text} (ordinary : Ordinary plain)
    (index : Nat) (rest : Text) :
    literalsFrom index (plain ++ rest) = literalsFrom (index + plain.length) rest := by
  rw [literalsFrom, closings_ordinary ordinary, filterMap_literalIn?_append]

/-- Which literals and comments become blank: closed ones by the moment that closes them, and one
that is open at the end by the mode there. -/
structure Selection where
  closed : Moment → Bool
  unclosed : Mode → Bool

namespace Selection

variable (selection : Selection)

def keeps (moment : Moment) : Bool :=
  !selection.closed moment

def spansFrom (index : Nat) (text : Text) : List Span :=
  ((Cursor.code.closings index text).filter selection.closed).filterMap Moment.inert? ++
    if selection.unclosed (Cursor.code.advance index text []).mode then
      openInert (index + text.length) (Cursor.code.advance index text []).mode
    else []

variable {selection}

theorem spansFrom_subset (index : Nat) (text : Text) :
    selection.spansFrom index text ⊆ inertFrom index text := by
  intro span member
  rw [spansFrom, List.mem_append] at member
  rw [inertFrom, List.mem_append]
  rcases member with closed | unclosed
  · obtain ⟨moment, selected, ends⟩ := List.mem_filterMap.mp closed
    exact Or.inl (List.mem_filterMap.mpr ⟨moment, (List.mem_filter.mp selected).1, ends⟩)
  · split at unclosed
    · exact Or.inr unclosed
    · simp at unclosed

theorem spansFrom_not_contains {index offset : Nat} (before : offset < index) (text : Text) :
    (selection.spansFrom index text).any (·.contains offset) = false := by
  have none := (inertFrom_ordered index text).not_contains_of_lt before
  rw [List.any_eq_false] at none ⊢
  intro span member
  exact none span (spansFrom_subset index text member)

theorem spansFrom_plain {index : Nat} {c : Char} {rest : Text}
    (step : Mode.code.step index c rest = ⟨.none, 1, .code⟩) :
    selection.spansFrom index (c :: rest) = selection.spansFrom (index + 1) rest := by
  rw [spansFrom, spansFrom, closings_plain step, Cursor.advance, List.append_nil,
    Cursor.next_code_plain step, List.length_cons, Nat.add_assoc, Nat.add_comm 1]

theorem spansFrom_closed {index : Nat} {enclosure : Enclosure} {inner rest : Text} {before : Mode}
    (encloses : Encloses index enclosure inner rest)
    (listed : Cursor.code.closings index (enclosure.written inner ++ rest) =
      enclosure.closingAt index inner before ::
        Cursor.code.closings (index + (enclosure.written inner).length) rest) :
    selection.spansFrom index (enclosure.written inner ++ rest) =
      (if selection.closed (enclosure.closingAt index inner before) then
          [⟨index, index + (enclosure.written inner).length⟩]
        else []) ++
        selection.spansFrom (index + (enclosure.written inner).length) rest := by
  have total : index + (enclosure.written inner ++ rest).length =
      index + (enclosure.written inner).length + rest.length := by
    rw [List.length_append, Nat.add_assoc]
  rw [spansFrom, spansFrom, listed, encloses.advance_eq, List.filter_cons, total,
    ← List.append_assoc]
  congr 1
  split
  · rw [List.filterMap_cons, Enclosure.inert?_closingAt, encloses.start_eq]
    rfl
  · rfl

theorem spansFrom_unclosed {index : Nat} {enclosure : Enclosure} {text : Text}
    (left : LeftOpen index enclosure text) :
    selection.spansFrom index text =
      if selection.unclosed (Cursor.code.advance index text []).mode then
        [⟨index, index + text.length⟩]
      else [] := by
  rw [spansFrom, left.silent, openInert_of_enclosure left.inside, left.start_eq]
  rfl

end Selection

theorem advance_ordinary {plain : Text} (ordinary : Ordinary plain)
    (index : Nat) (rest : Text) :
    Cursor.code.advance index (plain ++ rest) [] =
      Cursor.code.advance (index + plain.length) rest [] := by
  induction plain generalizing index with
  | nil => rfl
  | cons c plain ih =>
      have first := step_code_ordinary (ordinary c List.mem_cons_self) index (plain ++ rest)
      rw [List.cons_append, Cursor.advance, List.append_nil, Cursor.next_code_plain first,
        ih (fun other member => ordinary other (List.mem_cons_of_mem _ member)) (index + 1),
        List.length_cons, Nat.add_assoc, Nat.add_comm 1]

theorem inertFrom_ordinary {plain : Text} (ordinary : Ordinary plain) (index : Nat)
    (rest : Text) : inertFrom index (plain ++ rest) = inertFrom (index + plain.length) rest := by
  rw [inertFrom, inertFrom, closings_ordinary ordinary, advance_ordinary ordinary,
    List.length_append, Nat.add_assoc]

structure Blanks (selection : Selection) (index : Nat) (text blank : Text) : Prop where
  closings_eq : Cursor.code.closings index blank =
    (Cursor.code.closings index text).filter selection.keeps
  literals_eq : literalsFrom index blank =
    ((Cursor.code.closings index text).filter selection.keeps).filterMap
      (Moment.literalIn? index text)
  mode_eq : (Cursor.code.advance index blank []).mode =
    if selection.unclosed (Cursor.code.advance index text []).mode then .code
    else (Cursor.code.advance index text []).mode

namespace Blanks

variable {selection : Selection} {index : Nat}

theorem filterMap_keeps_append (front text : Text) :
    ((Cursor.code.closings (index + front.length) text).filter selection.keeps).filterMap
        (Moment.literalIn? index (front ++ text)) =
      ((Cursor.code.closings (index + front.length) text).filter selection.keeps).filterMap
        (Moment.literalIn? (index + front.length) text) := by
  apply List.filterMap_congr
  intro moment member
  exact Moment.literalIn?_append (List.mem_filter.mp member).1

theorem plain {c : Char} {rest blank : Text}
    (step : Mode.code.step index c rest = ⟨.none, 1, .code⟩) (erases : Erases rest blank)
    (later : Blanks selection (index + 1) rest blank) :
    Blanks selection index (c :: rest) (c :: blank) := by
  have same : Mode.code.step index c blank = ⟨.none, 1, .code⟩ := by
    rw [← step]
    apply Mode.step_erased Mode.sound_code erases
    simp [step]
  constructor
  · rw [closings_plain same, closings_plain step, later.closings_eq]
  · rw [literalsFrom_plain same, closings_plain step, later.literals_eq]
    exact (filterMap_keeps_append [c] rest).symm
  · rw [Cursor.advance, Cursor.advance, List.append_nil, List.append_nil,
      Cursor.next_code_plain same, Cursor.next_code_plain step, later.mode_eq]

section Closed

variable {enclosure : Enclosure} {inner rest blank : Text} {before : Mode}

theorem kept (encloses : Encloses index enclosure inner rest)
    (listed : ∀ other, Erases rest other →
      Cursor.code.closings index (enclosure.written inner ++ other) =
        enclosure.closingAt index inner before ::
          Cursor.code.closings (index + (enclosure.written inner).length) other)
    (stays : selection.closed (enclosure.closingAt index inner before) = false)
    (erases : Erases rest blank)
    (later : Blanks selection (index + (enclosure.written inner).length) rest blank) :
    Blanks selection index (enclosure.written inner ++ rest)
      (enclosure.written inner ++ blank) := by
  have again := encloses.erased erases
  have keeps : selection.keeps (enclosure.closingAt index inner before) = true := by
    rw [Selection.keeps, stays, Bool.not_false]
  constructor
  · rw [listed blank erases, listed rest (Erases.refl rest), List.filter_cons, if_pos keeps,
      later.closings_eq]
  · rw [literalsFrom_closed again, listed rest (Erases.refl rest), List.filter_cons, if_pos keeps,
      List.filterMap_cons, Enclosure.literalIn?_closingAt encloses.start_eq, later.literals_eq,
      filterMap_keeps_append]
    cases enclosure.literal? inner <;> rfl
  · rw [again.advance_eq, encloses.advance_eq, later.mode_eq]

theorem picked {plain : Text} (encloses : Encloses index enclosure inner rest)
    (listed : ∀ other, Erases rest other →
      Cursor.code.closings index (enclosure.written inner ++ other) =
        enclosure.closingAt index inner before ::
          Cursor.code.closings (index + (enclosure.written inner).length) other)
    (goes : selection.closed (enclosure.closingAt index inner before) = true)
    (ordinary : Ordinary plain)
    (width : plain.length = (enclosure.written inner).length)
    (later : Blanks selection (index + (enclosure.written inner).length) rest blank) :
    Blanks selection index (enclosure.written inner ++ rest) (plain ++ blank) := by
  have drops : ¬ selection.keeps (enclosure.closingAt index inner before) = true := by
    rw [Selection.keeps, goes]
    decide
  constructor
  · rw [closings_ordinary ordinary, width, listed rest (Erases.refl rest), List.filter_cons,
      if_neg drops, later.closings_eq]
  · rw [literalsFrom_ordinary ordinary, width, listed rest (Erases.refl rest), List.filter_cons,
      if_neg drops, filterMap_keeps_append, later.literals_eq]
  · rw [advance_ordinary ordinary, width, encloses.advance_eq, later.mode_eq]

end Closed

theorem unclosed {enclosure : Enclosure} {text : Text} (left : LeftOpen index enclosure text)
    (stays : selection.unclosed (Cursor.code.advance index text []).mode = false) :
    Blanks selection index text text := by
  constructor
  · rw [left.silent, List.filter_nil]
  · rw [literalsFrom_unclosed left, left.silent, List.filter_nil, List.filterMap_nil]
  · rw [stays, if_neg (by decide)]

theorem unclosed_picked {enclosure : Enclosure} {text plain : Text}
    (left : LeftOpen index enclosure text)
    (goes : selection.unclosed (Cursor.code.advance index text []).mode = true)
    (ordinary : Ordinary plain) :
    Blanks selection index text plain := by
  have closings := closings_ordinary ordinary index []
  have literals := literalsFrom_ordinary ordinary index []
  have advance := advance_ordinary ordinary index []
  rw [List.append_nil] at closings literals advance
  constructor
  · rw [closings, left.silent, Cursor.closings_nil, List.filter_nil]
  · rw [literals, left.silent, literalsFrom_nil, List.filter_nil, List.filterMap_nil]
  · rw [advance, goes, if_pos rfl]
    rfl

end Blanks

/-- A text and its copy, read piece by piece in code: the pieces that the selection picks are blank
in the copy, but for the characters that are kept, and the others stay. -/
inductive Blanked (kept : Char → Bool) (selection : Selection) : Nat → Text → Text → Prop
  | nil (index : Nat) : Blanked kept selection index [] []
  | plain {index : Nat} {c : Char} {rest copy : Text}
      (step : Mode.code.step index c rest = ⟨.none, 1, .code⟩) (erases : Erases rest copy)
      (later : Blanked kept selection (index + 1) rest copy) :
      Blanked kept selection index (c :: rest) (c :: copy)
  | stays {index : Nat} {enclosure : Enclosure} {inner rest copy : Text} {before : Mode}
      (encloses : Encloses index enclosure inner rest)
      (listed : ∀ other, Erases rest other →
        Cursor.code.closings index (enclosure.written inner ++ other) =
          enclosure.closingAt index inner before ::
            Cursor.code.closings (index + (enclosure.written inner).length) other)
      (unpicked : selection.closed (enclosure.closingAt index inner before) = false)
      (erases : Erases rest copy)
      (later : Blanked kept selection (index + (enclosure.written inner).length) rest copy) :
      Blanked kept selection index (enclosure.written inner ++ rest)
        (enclosure.written inner ++ copy)
  | goes {index : Nat} {enclosure : Enclosure} {inner rest body copy : Text} {before : Mode}
      (encloses : Encloses index enclosure inner rest)
      (listed : ∀ other, Erases rest other →
        Cursor.code.closings index (enclosure.written inner ++ other) =
          enclosure.closingAt index inner before ::
            Cursor.code.closings (index + (enclosure.written inner).length) other)
      (picked : selection.closed (enclosure.closingAt index inner before) = true)
      (width : body.length = (enclosure.written inner).length)
      (blank : ∀ c ∈ body, c = ' ' ∨ kept c = true)
      (later : Blanked kept selection (index + (enclosure.written inner).length) rest copy) :
      Blanked kept selection index (enclosure.written inner ++ rest) (body ++ copy)
  | openStays {index : Nat} {enclosure : Enclosure} {text : Text}
      (left : LeftOpen index enclosure text)
      (unpicked : selection.unclosed (Cursor.code.advance index text []).mode = false) :
      Blanked kept selection index text text
  | openGoes {index : Nat} {enclosure : Enclosure} {text body : Text}
      (left : LeftOpen index enclosure text)
      (picked : selection.unclosed (Cursor.code.advance index text []).mode = true)
      (width : body.length = text.length) (blank : ∀ c ∈ body, c = ' ' ∨ kept c = true) :
      Blanked kept selection index text body

/-- The spans cover what is selected, from the index on. Those before it do no harm. -/
def Selection.Agrees (selection : Selection) (index : Nat) (text : Text) (spans : List Span) :
    Prop :=
  ∀ offset, index ≤ offset →
    spans.any (·.contains offset) = (selection.spansFrom index text).any (·.contains offset)

namespace Selection.Agrees

variable {selection : Selection} {index : Nat} {spans : List Span}

theorem plain {c : Char} {rest : Text} (agrees : selection.Agrees index (c :: rest) spans)
    (step : Mode.code.step index c rest = ⟨.none, 1, .code⟩) :
    spans.any (·.contains index) = false ∧ selection.Agrees (index + 1) rest spans := by
  rw [Agrees, Selection.spansFrom_plain step] at agrees
  constructor
  · rw [agrees index (Nat.le_refl _)]
    exact Selection.spansFrom_not_contains (Nat.lt_succ_self _) rest
  · exact fun offset after => agrees offset (by omega)

section Closed

variable {enclosure : Enclosure} {inner rest : Text} {before : Mode}
  (encloses : Encloses index enclosure inner rest)
  (listed : Cursor.code.closings index (enclosure.written inner ++ rest) =
    enclosure.closingAt index inner before ::
      Cursor.code.closings (index + (enclosure.written inner).length) rest)
  (agrees : selection.Agrees index (enclosure.written inner ++ rest) spans)

include encloses listed agrees

theorem stays (unpicked : selection.closed (enclosure.closingAt index inner before) = false) :
    (∀ offset, index ≤ offset → offset < index + (enclosure.written inner).length →
      spans.any (·.contains offset) = false) ∧
    selection.Agrees (index + (enclosure.written inner).length) rest spans := by
  rw [Agrees, Selection.spansFrom_closed encloses listed, unpicked, if_neg (by decide),
    List.nil_append] at agrees
  constructor
  · intro offset lower upper
    rw [agrees offset lower]
    exact Selection.spansFrom_not_contains upper rest
  · exact fun offset after => agrees offset (by omega)

theorem goes (picked : selection.closed (enclosure.closingAt index inner before) = true) :
    (∀ offset, index ≤ offset → offset < index + (enclosure.written inner).length →
      spans.any (·.contains offset) = true) ∧
    selection.Agrees (index + (enclosure.written inner).length) rest spans := by
  rw [Agrees, Selection.spansFrom_closed encloses listed, picked, if_pos rfl,
    List.singleton_append] at agrees
  constructor
  · intro offset lower upper
    rw [agrees offset lower, List.any_cons]
    simp [Span.contains, lower, upper]
  · intro offset after
    have passed : ¬ offset < index + (enclosure.written inner).length := by omega
    rw [agrees offset (by omega), List.any_cons]
    simp [Span.contains, passed]

end Closed

theorem unclosed {enclosure : Enclosure} {text : Text}
    (agrees : selection.Agrees index text spans) (left : LeftOpen index enclosure text)
    {offset : Nat} (lower : index ≤ offset) (upper : offset < index + text.length) :
    spans.any (·.contains offset) =
      selection.unclosed (Cursor.code.advance index text []).mode := by
  rw [agrees offset lower, Selection.spansFrom_unclosed left]
  cases selection.unclosed (Cursor.code.advance index text []).mode with
  | false => rfl
  | true => simp [Span.contains, lower, upper]

end Selection.Agrees

theorem blanked_blankFrom {kept : Char → Bool} (lineFeed : kept '\n' = true)
    (selection : Selection) (index : Nat) (text : Text) : ∀ spans : List Span,
    selection.Agrees index text spans →
    Blanked kept selection index text (blankFrom kept spans index text) := by
  induction index, text using code_induction with
  | nil index =>
      intro spans _
      exact Blanked.nil index
  | plain index c rest _ step ih =>
      intro spans agrees
      obtain ⟨uncovered, later⟩ := agrees.plain step
      rw [blankFrom_cons, uncovered, Bool.and_false, if_neg (by decide)]
      exact Blanked.plain step (erases_blankFrom lineFeed _ rest) (ih spans later)
  | closed index enclosure inner rest encloses ih =>
      intro spans agrees
      obtain ⟨before, listed⟩ := encloses.closings_eq
      have here := listed rest (Erases.refl rest)
      rw [blankFrom_append]
      cases goes : selection.closed (enclosure.closingAt index inner before) with
      | false =>
          obtain ⟨uncovered, later⟩ := agrees.stays encloses here goes
          rw [blankFrom_uncovered uncovered]
          exact Blanked.stays encloses listed goes (erases_blankFrom lineFeed _ rest)
            (ih spans later)
      | true =>
          obtain ⟨covered, later⟩ := agrees.goes encloses here goes
          exact Blanked.goes encloses listed goes (length_blankFrom _ _)
            (fun c => mem_blankFrom_covered covered) (ih spans later)
  | unclosed index enclosure text _ left =>
      intro spans agrees
      cases goes : selection.unclosed (Cursor.code.advance index text []).mode with
      | false =>
          rw [blankFrom_uncovered fun offset lower upper =>
            (agrees.unclosed left lower upper).trans goes]
          exact Blanked.openStays left goes
      | true =>
          exact Blanked.openGoes left goes (length_blankFrom _ _) fun c =>
            mem_blankFrom_covered fun offset lower upper =>
              (agrees.unclosed left lower upper).trans goes

theorem ordinary_of_blank {kept : Char → Bool} {body : Text}
    (harmless : ∀ c, kept c = true → isQuote c = false ∧ c ≠ '/')
    (blank : ∀ c ∈ body, c = ' ' ∨ kept c = true) : Ordinary body := by
  intro c member
  rcases blank c member with rfl | stays
  · decide
  · exact harmless c stays

theorem Blanked.blanks {kept : Char → Bool}
    (harmless : ∀ c, kept c = true → isQuote c = false ∧ c ≠ '/') {selection : Selection}
    {index : Nat} {text copy : Text} (blanked : Blanked kept selection index text copy) :
    Blanks selection index text copy := by
  induction blanked with
  | nil index =>
      refine ⟨by simp, by simp, ?_⟩
      exact (ite_self Mode.code).symm
  | plain step erases _ ih => exact Blanks.plain step erases ih
  | stays encloses listed unpicked erases _ ih =>
      exact Blanks.kept encloses listed unpicked erases ih
  | goes encloses listed picked width blank _ ih =>
      exact Blanks.picked encloses listed picked (ordinary_of_blank harmless blank) width ih
  | openStays left unpicked => exact Blanks.unclosed left unpicked
  | openGoes left picked _ blank =>
      exact Blanks.unclosed_picked left picked (ordinary_of_blank harmless blank)

theorem blanks_blankFrom {kept : Char → Bool} (lineFeed : kept '\n' = true)
    (harmless : ∀ c, kept c = true → isQuote c = false ∧ c ≠ '/') (selection : Selection)
    (index : Nat) (text : Text) (spans : List Span)
    (agrees : selection.Agrees index text spans) :
    Blanks selection index text (blankFrom kept spans index text) :=
  (blanked_blankFrom lineFeed selection index text spans agrees).blanks harmless

def commentSelection (length : Nat) (chosen : Span → Bool) : Selection where
  closed moment := moment.comment?.any chosen
  unclosed mode := (openComment length mode).any chosen

theorem Moment.inert?_of_comment? {moment : Moment} {span : Span}
    (ends : moment.comment? = some span) : moment.inert? = some span := by
  unfold Moment.comment? at ends
  split at ends
  next closes => simpa [Moment.inert?, closes] using ends
  next => simp at ends

theorem Moment.isClosing_of_comment? {moment : Moment} {span : Span}
    (ends : moment.comment? = some span) : moment.event.isClosing = true :=
  Moment.isClosing_of_inert? (Moment.inert?_of_comment? ends)

theorem filter_filterMap_comment? (chosen : Span → Bool) (moments : List Moment) :
    (moments.filterMap Moment.comment?).filter chosen =
      (moments.filter fun moment => moment.comment?.any chosen).filterMap Moment.inert? := by
  rw [List.filter_filterMap, List.filterMap_filter]
  apply List.filterMap_congr
  intro moment _
  cases ends : moment.comment? with
  | none => rfl
  | some span =>
      rw [Moment.inert?_of_comment? ends]
      cases chosen span <;> rfl

theorem filter_openComment (chosen : Span → Bool) (length : Nat) (mode : Mode) :
    (openComment length mode).filter chosen =
      if (openComment length mode).any chosen then openInert length mode else [] := by
  cases mode with
  | lineComment start => cases here : chosen ⟨start, length⟩ <;> simp [openComment, openInert, here]
  | blockComment start depth =>
      cases here : chosen ⟨start, length⟩ <;> simp [openComment, openInert, here]
  | _ => rfl

theorem filter_commentSpans (chosen : Span → Bool) (text : Text) :
    (commentSpans text).filter chosen =
      (commentSelection text.length chosen).spansFrom 0 text := by
  have closed : (run text).filterMap Moment.comment? =
      (Cursor.code.closings 0 text).filterMap Moment.comment? :=
    (filterMap_closings (fun _ _ => Moment.isClosing_of_comment?) Cursor.code 0 text).symm
  simp only [commentSpans]
  rw [closed, List.filter_append, filter_filterMap_comment?, filter_openComment,
    Cursor.modeAfter_eq, Selection.spansFrom, Nat.zero_add]
  rfl

theorem blanks_stripComments (text : Text) (markers : List Text) :
    Blanks (commentSelection text.length fun span =>
        !markers.any fun marker => marker.occursIn (span.of text))
      0 text (stripComments text markers) := by
  have harmless (c : Char) (stays : (c == '\r' || c == '\n') = true) :
      isQuote c = false ∧ c ≠ '/' := by
    simp only [Bool.or_eq_true, beq_iff_eq] at stays
    rcases stays with rfl | rfl <;> decide
  refine blanks_blankFrom (by decide) harmless _ 0 text _ ?_
  intro offset _
  rw [filter_commentSpans]

theorem filterMap_keeps_commentSelection {index length : Nat} {chosen : Span → Bool} (text : Text)
    (moments : List Moment) :
    (moments.filter (commentSelection length chosen).keeps).filterMap
        (Moment.literalIn? index text) =
      moments.filterMap (Moment.literalIn? index text) := by
  rw [List.filterMap_filter]
  apply List.filterMap_congr
  intro moment _
  cases closes : moment.event with
  | literalClose delimiter start =>
      simp [Selection.keeps, commentSelection, Moment.comment?, closes]
  | _ => simp [Moment.literalIn?, closes]

theorem stringLiterals_stripComments (text : Text) (markers : List Text) :
    stringLiterals (stripComments text markers) = stringLiterals text := by
  rw [stringLiterals_eq, stringLiterals_eq, (blanks_stripComments text markers).literals_eq,
    filterMap_keeps_commentSelection, literalsFrom]

theorem startsFrom_blankFrom {kept : Char → Bool} (lineFeed : kept '\n' = true)
    (spans : List Span) (index offset : Nat) (text : Text) :
    LineIndex.startsFrom offset (blankFrom kept spans index text) =
      LineIndex.startsFrom offset text := by
  induction text generalizing index offset with
  | nil => rfl
  | cons c rest ih =>
      rw [blankFrom_cons, LineIndex.startsFrom, LineIndex.startsFrom, ih]
      by_cases lineEnd : c = '\n'
      · subst lineEnd
        simp [lineFeed]
      · split
        · simp [lineEnd]
        · rfl

theorem lineIndex_stripComments (text : Text) (markers : List Text) :
    LineIndex.ofText (stripComments text markers) = LineIndex.ofText text := by
  have starts : LineIndex.startsFrom 0 (stripComments text markers) =
      LineIndex.startsFrom 0 text := by
    rw [stripComments, blankOut_eq, startsFrom_blankFrom (by decide)]
  have length : (stripComments text markers).length = text.length := by
    rw [stripComments, length_blankOut]
  rw [LineIndex.ofText, LineIndex.ofText, length, starts]

end HardcodedText
