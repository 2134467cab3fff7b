import HardcodedText.Proofs.Scanner.Layout
import HardcodedText.Proofs.Text
import HardcodedText.Scanner.Literal

/-!
The spans of literals and comments. They are listed in order, do not overlap, and are not empty, and
a character that lies in none of them is read in code. For such spans the lookup of the last one
that has begun finds the one that holds an offset.
-/

namespace HardcodedText

theorem Span.contains_iff {span : Span} {offset : Nat} :
    span.contains offset = true ↔ span.start ≤ offset ∧ offset < span.stop := by
  simp [Span.contains]

theorem Span.head?_of {start stop : Nat} {text : Text} (order : start < stop) :
    (Span.of ⟨start, stop⟩ text).head? = text[start]? := by
  rw [Span.of, List.head?_take, if_neg (by simp only; omega), List.head?_drop]

theorem Span.getElem?_of {span : Span} {text : Text} {place : Nat}
    (inside : place < span.stop - span.start) :
    (span.of text)[place]? = text[span.start + place]? := by
  rw [Span.of, List.getElem?_take, if_pos inside, List.getElem?_drop]

theorem Span.of_append (front text : Text) (start stop : Nat) :
    Span.of ⟨front.length + start, front.length + stop⟩ (front ++ text) =
      Span.of ⟨start, stop⟩ text := by
  rw [Span.of, Span.of]
  simp only
  rw [List.drop_append, List.drop_of_length_le (by omega), List.nil_append,
    Nat.add_sub_cancel_left, Nat.add_sub_add_left]

theorem Span.of_append_left {start stop : Nat} {text : Text} (room : stop ≤ text.length)
    (more : Text) : Span.of ⟨start, stop⟩ (text ++ more) = Span.of ⟨start, stop⟩ text := by
  rw [Span.of, Span.of]
  simp only
  by_cases order : start ≤ stop
  · rw [List.drop_append_of_le_length (by omega), List.take_append_of_le_length]
    rw [List.length_drop]
    omega
  · have none : stop - start = 0 := by omega
    rw [none, List.take_zero, List.take_zero]

def inertFrom (index : Nat) (text : Text) : List Span :=
  (Cursor.code.closings index text).filterMap Moment.inert? ++
    openInert (index + text.length) (Cursor.code.advance index text []).mode

theorem Moment.isClosing_of_inert? {moment : Moment} {span : Span}
    (ends : moment.inert? = some span) : moment.event.isClosing = true := by
  unfold Moment.inert? at ends
  split at ends
  · rename_i closes
    simp [closes, Event.isClosing]
  · rename_i closes
    simp [closes, Event.isClosing]
  · simp at ends

theorem filterMap_closings {α : Type} {read : Moment → Option α}
    (closing : ∀ moment value, read moment = some value → moment.event.isClosing = true)
    (cursor : Cursor) (index : Nat) (text : Text) :
    (cursor.closings index text).filterMap read = (cursor.run index text).filterMap read := by
  rw [Cursor.closings, List.filterMap_filter]
  apply List.filterMap_congr
  intro moment _
  cases found : read moment with
  | none => simp
  | some value => simp [closing moment value found]

theorem inertSpans_eq (text : Text) : inertSpans text = inertFrom 0 text := by
  rw [inertSpans, inertFrom, Cursor.modeAfter_eq,
    filterMap_closings (fun _ _ => Moment.isClosing_of_inert?), Nat.zero_add]
  rfl

theorem Cursor.AtCode.advance_eq {cursor : Cursor} {text : Text} (atCode : cursor.AtCode text)
    (index : Nat) : cursor.advance index text [] = Cursor.code.advance index text [] := by
  obtain ⟨mode, skip⟩ := cursor
  cases text with
  | nil =>
      obtain ⟨here, inCode⟩ := atCode
      simp only at here inCode
      subst here inCode
      rfl
  | cons c rest => simp only [Cursor.advance, List.append_nil, atCode.next_eq]

theorem Encloses.arrives {index : Nat} {enclosure : Enclosure} {inner rest : Text}
    (encloses : Encloses index enclosure inner rest) :
    (Cursor.code.advance index (enclosure.written inner) rest).AtCode rest := by
  obtain ⟨before, closes⟩ := encloses.closes
  exact closes.arrives rest (Erases.refl rest)

theorem Encloses.advance_eq {index : Nat} {enclosure : Enclosure} {inner rest : Text}
    (encloses : Encloses index enclosure inner rest) :
    Cursor.code.advance index (enclosure.written inner ++ rest) [] =
      Cursor.code.advance (index + (enclosure.written inner).length) rest [] := by
  rw [Cursor.advance_append, List.append_nil]
  exact encloses.arrives.advance_eq _

def Enclosure.closingAt (enclosure : Enclosure) (index : Nat) (inner : Text) (before : Mode) :
    Moment :=
  ⟨index + (enclosure.opener ++ inner).length, before, enclosure.closing,
    index + (enclosure.written inner).length, .code⟩

theorem Enclosure.inert?_closingAt (enclosure : Enclosure) (index : Nat) (inner : Text)
    (before : Mode) :
    (enclosure.closingAt index inner before).inert? =
      some ⟨enclosure.start, index + (enclosure.written inner).length⟩ := by
  cases enclosure <;> rfl

theorem openInert_of_enclosure {mode : Mode} {enclosure : Enclosure}
    (inside : mode.enclosure = some enclosure) (length : Nat) :
    openInert length mode = [⟨enclosure.start, length⟩] := by
  cases mode with
  | code => simp [Mode.enclosure] at inside
  | _ =>
      obtain rfl := Option.some_inj.mp inside
      rfl

@[simp] theorem inertFrom_nil (index : Nat) : inertFrom index [] = [] := by
  simp [inertFrom, Cursor.advance, Cursor.code, openInert]

theorem Cursor.next_code_plain {index : Nat} {c : Char} {rest : Text}
    (step : Mode.code.step index c rest = ⟨.none, 1, .code⟩) :
    Cursor.code.next index c rest = Cursor.code := by
  simp [Cursor.next, Cursor.code, Mode.consume, Mode.settle, step]

theorem closings_plain {index : Nat} {c : Char} {rest : Text}
    (step : Mode.code.step index c rest = ⟨.none, 1, .code⟩) :
    Cursor.code.closings index (c :: rest) = Cursor.code.closings (index + 1) rest := by
  rw [Cursor.closings_cons, Cursor.next_code_plain step]
  simp [Cursor.moments, Cursor.code, Mode.consume, Mode.settle, Mode.settling, Moment.ofStep, step,
    Event.isClosing]

theorem inertFrom_plain {index : Nat} {c : Char} {rest : Text}
    (step : Mode.code.step index c rest = ⟨.none, 1, .code⟩) :
    inertFrom index (c :: rest) = inertFrom (index + 1) rest := by
  rw [inertFrom, inertFrom, closings_plain step, Cursor.advance, List.append_nil,
    Cursor.next_code_plain step, List.length_cons, Nat.add_assoc, Nat.add_comm 1]

theorem Encloses.closings_eq {index : Nat} {enclosure : Enclosure} {inner rest : Text}
    (encloses : Encloses index enclosure inner rest) :
    ∃ before, ∀ other, Erases rest other →
      Cursor.code.closings index (enclosure.written inner ++ other) =
        enclosure.closingAt index inner before ::
          Cursor.code.closings (index + (enclosure.written inner).length) other := by
  obtain ⟨before, closes⟩ := encloses.closes
  refine ⟨before, ?_⟩
  intro other erases
  have listed := closes.closings_eq other erases
  rw [Nat.add_assoc, ← List.length_append] at listed
  rw [← List.append_assoc] at listed
  exact listed

theorem inertFrom_closed {index : Nat} {enclosure : Enclosure} {inner rest : Text}
    (encloses : Encloses index enclosure inner rest) :
    inertFrom index (enclosure.written inner ++ rest) =
      ⟨index, index + (enclosure.written inner).length⟩ ::
        inertFrom (index + (enclosure.written inner).length) rest := by
  obtain ⟨before, listed⟩ := encloses.closings_eq
  rw [inertFrom, inertFrom, listed rest (Erases.refl rest), encloses.advance_eq,
    List.filterMap_cons, Enclosure.inert?_closingAt, encloses.start_eq, List.length_append,
    Nat.add_assoc]
  rfl

theorem inertFrom_unclosed {index : Nat} {enclosure : Enclosure} {text : Text}
    (left : LeftOpen index enclosure text) :
    inertFrom index text = [⟨index, index + text.length⟩] := by
  rw [inertFrom, left.silent, openInert_of_enclosure left.inside, left.start_eq]
  rfl

structure SpansOrdered (first last : Nat) (spans : List Span) : Prop where
  apart : spans.Pairwise fun left right => left.stop ≤ right.start
  bounded : ∀ span ∈ spans, first ≤ span.start ∧ span.start < span.stop ∧ span.stop ≤ last

theorem inertFrom_ordered (index : Nat) (text : Text) :
    SpansOrdered index (index + text.length) (inertFrom index text) := by
  induction index, text using code_induction with
  | nil index => exact ⟨by simp, by simp⟩
  | plain index c rest _ step ih =>
      rw [inertFrom_plain step]
      refine ⟨ih.apart, ?_⟩
      intro span member
      have bounds := ih.bounded span member
      rw [List.length_cons]
      omega
  | closed index enclosure inner rest encloses ih =>
      rw [inertFrom_closed encloses]
      have positive := enclosure.length_written_pos inner
      refine ⟨List.pairwise_cons.mpr ⟨?_, ih.apart⟩, ?_⟩
      · intro span member
        exact (ih.bounded span member).1
      · intro span member
        rw [List.length_append]
        rcases List.mem_cons.mp member with rfl | member
        · simp only
          omega
        · have bounds := ih.bounded span member
          omega
  | unclosed index enclosure text nonempty left =>
      rw [inertFrom_unclosed left]
      have positive := List.length_pos_iff.mpr nonempty
      refine ⟨by simp, ?_⟩
      intro span member
      rw [List.mem_singleton] at member
      subst member
      simp only
      omega

theorem Encloses.head {index : Nat} {enclosure : Enclosure} {inner rest : Text}
    (encloses : Encloses index enclosure inner rest) :
    ∃ c, (enclosure.written inner).head? = some c ∧ (isQuote c = true ∨ c = '/') := by
  have sound := encloses.sound
  cases enclosure with
  | literal delimiter start =>
      refine ⟨delimiter.quote, ?_, Or.inl sound⟩
      cases tripled : delimiter.tripled <;>
        simp [Enclosure.written, Enclosure.opener, Delimiter.text, tripled]
  | lineComment start => exact ⟨'/', rfl, Or.inr rfl⟩
  | blockComment start => exact ⟨'/', rfl, Or.inr rfl⟩

theorem LeftOpen.not_plain {index : Nat} {enclosure : Enclosure} {c : Char} {rest : Text}
    (left : LeftOpen index enclosure (c :: rest)) :
    Mode.code.step index c rest ≠ ⟨.none, 1, .code⟩ := by
  intro step
  have spans := inertFrom_unclosed left
  rw [inertFrom_plain step] at spans
  have bounds := (inertFrom_ordered (index + 1) rest).bounded ⟨index, _⟩ (by
    rw [spans]
    exact List.mem_singleton_self _)
  simp only at bounds
  omega

theorem LeftOpen.head {index : Nat} {enclosure : Enclosure} {c : Char} {rest : Text}
    (left : LeftOpen index enclosure (c :: rest)) : isQuote c = true ∨ c = '/' := by
  by_contra plain
  rw [not_or, Bool.not_eq_true] at plain
  apply left.not_plain
  simp [Mode.step, stepCode, plain]

/-- A literal or a comment begins with a quote or a slash. -/
theorem inertFrom_head (index : Nat) (text : Text) : ∀ span ∈ inertFrom index text,
    ∃ c, text[span.start - index]? = some c ∧ (isQuote c = true ∨ c = '/') := by
  induction index, text using code_induction with
  | nil index => simp
  | plain index c rest _ step ih =>
      intro span member
      rw [inertFrom_plain step] at member
      have bounds := (inertFrom_ordered _ _).bounded span member
      have place : span.start - index = span.start - (index + 1) + 1 := by omega
      rw [place, List.getElem?_cons_succ]
      exact ih span member
  | closed index enclosure inner rest encloses ih =>
      intro span member
      rw [inertFrom_closed encloses] at member
      rcases List.mem_cons.mp member with rfl | member
      · obtain ⟨c, first, opens⟩ := encloses.head
        refine ⟨c, ?_, opens⟩
        rw [Nat.sub_self, ← List.head?_eq_getElem?, List.head?_append, first]
        rfl
      · have bounds := (inertFrom_ordered _ _).bounded span member
        obtain ⟨c, first, opens⟩ := ih span member
        refine ⟨c, ?_, opens⟩
        rw [List.getElem?_append_right (by omega), ← first]
        congr 1
        omega
  | unclosed index enclosure text nonempty left =>
      intro span member
      rw [inertFrom_unclosed left, List.mem_singleton] at member
      subst member
      cases text with
      | nil => exact absurd rfl nonempty
      | cons c rest => exact ⟨c, by simp, left.head⟩

theorem inertSpans_ordered (text : Text) : SpansOrdered 0 text.length (inertSpans text) := by
  rw [inertSpans_eq]
  simpa using inertFrom_ordered 0 text

/-- Takes the text before a place that no literal and no comment covers apart. -/
theorem uncovered_induction {motive : Nat → Text → Text → Prop}
    (here : ∀ index back, motive index [] back)
    (plain : ∀ index c front back, Mode.code.step index c (front ++ back) = ⟨.none, 1, .code⟩ →
      motive (index + 1) front back → motive index (c :: front) back)
    (closed : ∀ index enclosure inner front back, Encloses index enclosure inner (front ++ back) →
      motive (index + (enclosure.written inner).length) front back →
      motive index (enclosure.written inner ++ front) back)
    {back : Text} (nonempty : back ≠ []) (index : Nat) (front : Text)
    (uncovered : ∀ span ∈ inertFrom index (front ++ back),
      span.contains (index + front.length) = false) : motive index front back := by
  generalize split : front ++ back = text at uncovered
  induction index, text using code_induction generalizing front with
  | nil index => exact absurd (List.append_eq_nil_iff.mp split).2 nonempty
  | plain index c rest _ step ih =>
      cases front with
      | nil => exact here index back
      | cons first front =>
          rw [List.cons_append, List.cons_eq_cons] at split
          obtain ⟨rfl, rfl⟩ := split
          rw [inertFrom_plain step, List.length_cons, Nat.add_comm front.length,
            ← Nat.add_assoc] at uncovered
          exact plain index first front back step (ih front rfl uncovered)
  | closed index enclosure inner rest encloses ih =>
      rw [inertFrom_closed encloses] at uncovered
      have beyond : (enclosure.written inner).length ≤ front.length := by
        have outside := uncovered _ List.mem_cons_self
        simp only [Span.contains, Bool.and_eq_false_iff, decide_eq_false_iff_not] at outside
        omega
      obtain ⟨more, rfl⟩ := List.prefix_of_prefix_length_le
        (List.prefix_append _ rest) (split ▸ List.prefix_append front back) beyond
      rw [List.append_assoc, List.append_cancel_left_eq] at split
      subst split
      rw [List.length_append, ← Nat.add_assoc] at uncovered
      exact closed index enclosure inner more back encloses
        (ih more rfl fun span member => uncovered span (List.mem_cons_of_mem _ member))
  | unclosed index enclosure text _ left =>
      have outside := uncovered ⟨index, index + text.length⟩ (by simp [inertFrom_unclosed left])
      have room := List.length_pos_iff.mpr nonempty
      simp only [Span.contains, Bool.and_eq_false_iff, decide_eq_false_iff_not, ← split,
        List.length_append] at outside
      omega

theorem atCode_of_uncovered {back : Text} (nonempty : back ≠ []) (index : Nat) (front : Text)
    (uncovered : ∀ span ∈ inertFrom index (front ++ back),
      span.contains (index + front.length) = false) :
    (Cursor.code.advance index front back).AtCode back := by
  apply uncovered_induction (motive := fun index front back =>
    (Cursor.code.advance index front back).AtCode back) ?_ ?_ ?_ nonempty index front uncovered
  · intro index back
    exact Cursor.atCode_code back
  · intro index c front back step ih
    rwa [Cursor.advance, Cursor.next_code_plain step]
  · intro index enclosure inner front back encloses ih
    rw [Cursor.advance_append]
    exact encloses.arrives.advance ih

def InCode (front back : Text) : Prop :=
  (Cursor.code.advance 0 front back).AtCode back

theorem inCode_of_outside {front back : Text} (nonempty : back ≠ [])
    (outside : ∀ span ∈ inertSpans (front ++ back), span.contains front.length = false) :
    InCode front back := by
  apply atCode_of_uncovered nonempty 0 front
  rw [← inertSpans_eq, Nat.zero_add]
  exact outside

/-- Nothing in the text can open a literal or a comment. -/
def Ordinary (text : Text) : Prop :=
  ∀ c ∈ text, isQuote c = false ∧ c ≠ '/'

instance (text : Text) : Decidable (Ordinary text) :=
  List.decidableBAll (fun c => isQuote c = false ∧ c ≠ '/') text

namespace SpansOrdered

variable {first last : Nat} {span : Span} {spans : List Span}

theorem tail (ordered : SpansOrdered first last (span :: spans)) :
    SpansOrdered span.stop last spans := by
  have parts := List.pairwise_cons.mp ordered.apart
  refine ⟨parts.2, ?_⟩
  intro other member
  have bounds := ordered.bounded other (List.mem_cons_of_mem _ member)
  exact ⟨parts.1 other member, bounds.2⟩

theorem sortBy_intervals (ordered : SpansOrdered first last spans) :
    sortBy Interval.le (spans.map Span.interval) = spans.map Span.interval := by
  rw [sortBy_eq_insertionSort]
  refine List.Pairwise.insertionSort_eq (List.pairwise_map.mpr ?_)
  refine ordered.apart.imp_of_mem ?_
  intro left right member _ apart
  have positive := (ordered.bounded left member).2.1
  have earlier : (left.start : Int) < right.start := by omega
  simp [Interval.le, Span.interval, earlier]

theorem not_contains_of_lt (ordered : SpansOrdered first last spans) {offset : Nat}
    (before : offset < first) : spans.any (·.contains offset) = false := by
  rw [List.any_eq_false]
  intro span member
  have bounds := ordered.bounded span member
  simp only [Span.contains, Bool.and_eq_true, decide_eq_true_eq]
  omega

theorem lastStarted_any (ordered : SpansOrdered first last spans) (offset : Nat)
    (latest : Option Interval) (older : ∀ interval ∈ latest, interval.stop ≤ first) :
    (SpanSet.lastStarted offset latest (spans.map Span.interval)).any
        (fun interval => (offset : Int) < interval.stop) =
      (latest.any (fun interval => (offset : Int) < interval.stop) ||
        spans.any (·.contains offset)) := by
  induction spans generalizing first latest with
  | nil => simp [SpanSet.lastStarted]
  | cons span spans ih =>
      have bounds := ordered.bounded span List.mem_cons_self
      rw [List.map_cons, SpanSet.lastStarted, List.any_cons]
      by_cases begun : span.start ≤ offset
      · have passed : latest.any (fun interval => (offset : Int) < interval.stop) = false := by
          cases latest with
          | none => rfl
          | some interval =>
              have stop := older interval rfl
              simp only [Option.any_some, decide_eq_false_iff_not]
              omega
        have here : (Span.interval span).start ≤ (offset : Int) := by
          simp only [Span.interval]
          omega
        rw [if_pos here, ih ordered.tail (some (Span.interval span)) (by simp [Span.interval]),
          passed, Bool.false_or]
        simp [Span.contains, Span.interval, begun]
      · have later : ¬ (Span.interval span).start ≤ (offset : Int) := by
          simp only [Span.interval]
          omega
        have absent : spans.any (·.contains offset) = false :=
          ordered.tail.not_contains_of_lt (by omega)
        rw [if_neg later, absent]
        simp [Span.contains, begun]

end SpansOrdered

theorem SpanSet.contains_ofSpans {first last : Nat} {spans : List Span}
    (ordered : SpansOrdered first last spans) (offset : Nat) :
    (SpanSet.ofSpans spans).contains offset = spans.any (·.contains offset) := by
  rw [SpanSet.ofSpans, SpanSet.ofIntervals, SpanSet.contains, ordered.sortBy_intervals,
    ordered.lastStarted_any offset none (by simp)]
  rfl

end HardcodedText
