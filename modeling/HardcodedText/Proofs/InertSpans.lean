import HardcodedText.Proofs.Comment
import HardcodedText.Proofs.Scanner.CodeSteps

/-!
The spans in which nothing is code. They are the literals and the comments of a text in the order in
which they begin, with a literal that is left open at the end. Looking up an offset among them tells
whether the character there is one that the scanner reads as plain code.
-/

namespace HardcodedText

structure Moment.ReadsPlain (moment : Moment) (offset : Nat) : Prop where
  inCode : moment.before = .code
  quiet : moment.event = .none
  first : moment.index ≤ offset
  last : offset < moment.next

def ReadAsCode (text : Text) (offset : Nat) : Prop :=
  ∃ moment ∈ run text, moment.ReadsPlain offset

def openLiteral (length : Nat) : Mode → Option Span
  | .string _ start _ => some ⟨start, length⟩
  | .interpolation _ start _ => some ⟨start, length⟩
  | _ => none

/-! The characters outside of all spans. -/

theorem readsPlain_plain_iff {index : Nat} {c : Char} {rest : Text}
    (step : Mode.code.step index c rest = ⟨.none, 1, .code⟩) (offset : Nat) :
    (∃ moment ∈ Cursor.code.run index (c :: rest), moment.ReadsPlain offset) ↔
      offset = index ∨ ∃ moment ∈ Cursor.code.run (index + 1) rest, moment.ReadsPlain offset := by
  have moments : Cursor.code.moments index c rest = [⟨index, .code, .none, index + 1, .code⟩] := by
    simp [Cursor.moments, Cursor.code, Mode.settling, Mode.settle, Mode.consume, Moment.ofStep, step]
  rw [Cursor.run_cons, moments, Cursor.next_code_plain step]
  simp only [List.singleton_append, List.exists_mem_cons_iff]
  apply or_congr_left
  constructor
  · rintro ⟨-, -, first, last⟩
    simp only at first last
    omega
  · rintro rfl
    exact ⟨rfl, rfl, Nat.le_refl _, Nat.lt_succ_self _⟩

theorem Encloses.readsPlain_iff {index : Nat} {enclosure : Enclosure} {inner rest : Text}
    (encloses : Encloses index enclosure inner rest) (offset : Nat) :
    (∃ moment ∈ Cursor.code.run index (enclosure.written inner ++ rest),
        moment.ReadsPlain offset) ↔
      ∃ moment ∈ Cursor.code.run (index + (enclosure.written inner).length) rest,
        moment.ReadsPlain offset := by
  constructor
  · rintro ⟨moment, member, reads⟩
    rcases encloses.code_steps member reads.inCode with ⟨-, opens⟩ | later
    · exact absurd reads.quiet opens
    · exact ⟨moment, later, reads⟩
  · rintro ⟨moment, member, reads⟩
    exact ⟨moment, encloses.mem_run_of_code member reads.inCode, reads⟩

/-- A character is read as plain code if and only if no literal and no comment covers it. -/
theorem readsPlain_iff_uncovered (index : Nat) (text : Text) : ∀ offset,
    (∃ moment ∈ Cursor.code.run index text, moment.ReadsPlain offset) ↔
      index ≤ offset ∧ offset < index + text.length ∧
        (inertFrom index text).any (·.contains offset) = false := by
  induction index, text using code_induction with
  | nil index =>
      intro offset
      simp only [Cursor.run_nil, List.not_mem_nil, false_and, exists_false, false_iff,
        List.length_nil, Nat.add_zero]
      omega
  | plain index c rest _ step ih =>
      intro offset
      rw [readsPlain_plain_iff step, ih, inertFrom_plain step, List.length_cons]
      constructor
      · rintro (rfl | ⟨first, last, uncovered⟩)
        · exact ⟨by omega, by omega,
            (inertFrom_ordered (offset + 1) rest).not_contains_of_lt (by omega)⟩
        · exact ⟨by omega, by omega, uncovered⟩
      · rintro ⟨first, last, uncovered⟩
        by_cases here : offset = index
        · exact Or.inl here
        · exact Or.inr ⟨by omega, by omega, uncovered⟩
  | closed index enclosure inner rest encloses ih =>
      intro offset
      rw [encloses.readsPlain_iff, ih, inertFrom_closed encloses, List.any_cons,
        Bool.or_eq_false_iff, List.length_append]
      have outside : (⟨index, index + (enclosure.written inner).length⟩ : Span).contains offset =
          false ↔ ¬ (index ≤ offset ∧ offset < index + (enclosure.written inner).length) := by
        rw [← Bool.not_eq_true, Span.contains_iff]
      rw [outside]
      constructor
      · rintro ⟨first, last, uncovered⟩
        exact ⟨by omega, by omega, by omega, uncovered⟩
      · rintro ⟨first, last, beyond, uncovered⟩
        exact ⟨by omega, by omega, uncovered⟩
  | unclosed index enclosure text _ left =>
      intro offset
      rw [inertFrom_unclosed left]
      constructor
      · rintro ⟨moment, member, reads⟩
        exact absurd reads.quiet (left.code_steps member reads.inCode).2
      · rintro ⟨first, last, uncovered⟩
        simp [Span.contains, first, last] at uncovered

theorem readAsCode_iff (text : Text) (offset : Nat) :
    ReadAsCode text offset ↔
      offset < text.length ∧ (inertSpans text).any (·.contains offset) = false := by
  have whole := readsPlain_iff_uncovered 0 text offset
  rw [Nat.zero_add, ← inertSpans_eq] at whole
  exact whole.trans ⟨fun facts => facts.2, fun facts => ⟨Nat.zero_le _, facts⟩⟩

theorem SpanSet.contains_ofSpans_of_neg {first last : Nat} {spans : List Span}
    (ordered : SpansOrdered first last spans) {offset : Int} (negative : offset < 0) :
    (SpanSet.ofSpans spans).contains offset = false := by
  rw [SpanSet.ofSpans, SpanSet.ofIntervals, SpanSet.contains, ordered.sortBy_intervals]
  cases spans with
  | nil => rfl
  | cons span spans =>
      have later : ¬ (Span.interval span).start ≤ offset := by
        simp only [Span.interval]
        omega
      rw [List.map_cons, SpanSet.lastStarted, if_neg later]
      rfl

/-! The spans as a merge of two lists. -/

def Span.startsBefore (left right : Span) : Bool :=
  left.start ≤ right.start

theorem openInert_eq (length : Nat) (mode : Mode) :
    openInert length mode = openComment length mode ++ (openLiteral length mode).toList := by
  cases mode <;> rfl

theorem inertSpans_eq_append (text : Text) :
    inertSpans text =
      ((run text).filterMap Moment.inert? ++ openComment text.length (modeAfter (run text))) ++
        (openLiteral text.length (modeAfter (run text))).toList := by
  rw [List.append_assoc, ← openInert_eq]
  rfl

/-- Each closing moment ends a literal or a comment. -/
theorem filterMap_inert?_perm {text : Text} {moments : List Moment}
    (forwards : ∀ moment ∈ moments, ∀ span, moment.inert? = some span → span.start ≤ span.stop) :
    (moments.filterMap Moment.inert?).Perm
      ((moments.filterMap (Moment.literal? text)).map StringLiteral.span ++
        moments.filterMap Moment.comment?) := by
  induction moments with
  | nil => exact List.Perm.refl _
  | cons moment later ih =>
      have rest := ih fun other member => forwards other (List.mem_cons_of_mem _ member)
      rw [List.filterMap_cons, List.filterMap_cons, List.filterMap_cons]
      cases closes : moment.event with
      | literalClose delimiter start =>
          have ahead : start ≤ moment.next := forwards moment List.mem_cons_self
            ⟨start, moment.next⟩ (by simp [Moment.inert?, closes])
          simp only [Moment.inert?, Moment.literal?, Moment.comment?, closes, List.map_cons,
            List.cons_append, StringLiteral.span, StringLiteral.stop, Nat.add_sub_cancel' ahead]
          exact rest.cons _
      | commentClose start =>
          simp only [Moment.inert?, Moment.literal?, Moment.comment?, closes]
          exact (rest.cons _).trans List.perm_middle.symm
      | _ =>
          simp only [Moment.inert?, Moment.literal?, Moment.comment?, closes]
          exact rest

theorem closedSpans_perm (text : Text) :
    ((run text).filterMap Moment.inert? ++ openComment text.length (modeAfter (run text))).Perm
      ((stringLiterals text).map StringLiteral.span ++ commentSpans text) := by
  have closed : ((run text).filterMap Moment.inert?).Perm
      ((stringLiterals text).map StringLiteral.span ++ (run text).filterMap Moment.comment?) := by
    apply filterMap_inert?_perm
    intro moment member span ends
    have listed : span ∈ inertSpans text :=
      List.mem_append_left _ (List.mem_filterMap.mpr ⟨moment, member, ends⟩)
    exact Nat.le_of_lt ((inertSpans_ordered text).bounded span listed).2.1
  have appended := closed.append_right (openComment text.length (modeAfter (run text)))
  rwa [List.append_assoc] at appended

theorem SpansOrdered.sorted {first last : Nat} {spans : List Span}
    (ordered : SpansOrdered first last spans) :
    spans.Pairwise fun left right => left.startsBefore right = true := by
  apply ordered.apart.imp_of_mem
  intro left right member _ before
  have bounds := ordered.bounded left member
  simp only [Span.startsBefore, decide_eq_true_eq]
  omega

theorem SpansOrdered.eq_of_start_eq {first last : Nat} {spans : List Span}
    (ordered : SpansOrdered first last spans) {left right : Span} (leftMember : left ∈ spans)
    (rightMember : right ∈ spans) (same : left.start = right.start) : left = right := by
  have leftBounds := ordered.bounded left leftMember
  have rightBounds := ordered.bounded right rightMember
  have inLeft : left.contains left.start = true := by
    rw [Span.contains_iff]
    omega
  have inRight : right.contains left.start = true := by
    rw [Span.contains_iff]
    omega
  exact ordered.eq_of_contains leftMember rightMember inLeft inRight

theorem sorted_merge_spans (text : Text) :
    (((stringLiterals text).map StringLiteral.span).merge (commentSpans text)
      Span.startsBefore).Pairwise fun left right => left.startsBefore right = true := by
  apply List.pairwise_merge
  · intro left middle right
    simp only [Span.startsBefore, decide_eq_true_eq]
    omega
  · intro left right
    simp only [Span.startsBefore, Bool.or_eq_true, decide_eq_true_eq]
    omega
  · rw [List.pairwise_map]
    apply (stringLiterals_apart text).imp_of_mem
    intro left right member _ before
    have positive := (stringLiterals_writtenIn member).start_lt_stop
    exact decide_eq_true (by simp only [StringLiteral.span]; omega)
  · exact (commentSpans_ordered text).sorted

theorem closedSpans_eq_merge (text : Text) :
    (run text).filterMap Moment.inert? ++ openComment text.length (modeAfter (run text)) =
      ((stringLiterals text).map StringLiteral.span).merge (commentSpans text)
        Span.startsBefore := by
  have listed := inertSpans_ordered text
  rw [inertSpans_eq_append] at listed
  have ordered := listed.sublist (List.sublist_append_left _ _)
  have same := (closedSpans_perm text).trans (List.merge_perm_append Span.startsBefore).symm
  apply List.Perm.eq_of_pairwise _ ordered.sorted (sorted_merge_spans text) same
  intro left right leftMember rightMember before after
  simp only [Span.startsBefore, decide_eq_true_eq] at before after
  exact ordered.eq_of_start_eq leftMember (same.mem_iff.mpr rightMember)
    (Nat.le_antisymm before after)

/-- The spans in which nothing is code are in strict order, not empty and apart. They are the
literals and the comments, merged by where they begin, and at most one literal that is left open at
the end. An offset is in one of them if and only if it is one of the text at which the scanner does
not read plain code. -/
theorem inertSpans_cover_all_but_code (text : Text) :
    (inertSpans text).Pairwise (fun left right =>
      left.start < right.start ∧ left.stop ≤ right.start) ∧
    (∀ span ∈ inertSpans text, span.start < span.stop) ∧
    inertSpans text =
      ((stringLiterals text).map StringLiteral.span).merge (commentSpans text)
          Span.startsBefore ++
        (openLiteral text.length (modeAfter (run text))).toList ∧
    ∀ offset : Int, (SpanSet.ofSpans (inertSpans text)).contains offset = true ↔
      0 ≤ offset ∧ offset < text.length ∧ ¬ ReadAsCode text offset.toNat := by
  have ordered := inertSpans_ordered text
  refine ⟨?_, fun span member => (ordered.bounded span member).2.1, ?_, ?_⟩
  · apply ordered.apart.imp_of_mem
    intro left right member _ before
    have positive := (ordered.bounded left member).2.1
    exact ⟨by omega, before⟩
  · rw [inertSpans_eq_append, closedSpans_eq_merge]
  · intro offset
    by_cases negative : offset < 0
    · rw [SpanSet.contains_ofSpans_of_neg ordered negative]
      simp only [Bool.false_eq_true, false_iff]
      omega
    · obtain ⟨place, rfl⟩ := Int.eq_ofNat_of_zero_le (Int.not_lt.mp negative)
      rw [SpanSet.contains_ofSpans ordered, Int.toNat_natCast, readAsCode_iff]
      constructor
      · intro covered
        obtain ⟨span, member, inside⟩ := List.any_eq_true.mp covered
        rw [Span.contains_iff] at inside
        have bounds := ordered.bounded span member
        refine ⟨by omega, by omega, ?_⟩
        rw [covered]
        simp
      · rintro ⟨-, inText, notCode⟩
        by_contra uncovered
        exact notCode ⟨by omega, by simpa using uncovered⟩

theorem inertSpans_cover_all_but_code_unclosed :
    let text : Text := "f(/* a */'b'); // c\n'd".toList
    (⟨9, 12⟩ : Span) ∈ inertSpans text ∧ ((⟨9, 12⟩ : Span).start < (⟨9, 12⟩ : Span).stop) ∧
      inertSpans text = [⟨2, 9⟩, ⟨9, 12⟩, ⟨15, 19⟩] ++ [⟨20, 22⟩] ∧
      ¬ ReadAsCode text 9 := by
  intro text
  have literals : (stringLiterals text).map StringLiteral.span = [⟨9, 12⟩] := by decide
  have comments : commentSpans text = [⟨2, 9⟩, ⟨15, 19⟩] := by decide
  have member : (⟨9, 12⟩ : Span) ∈ inertSpans text := by decide
  obtain ⟨-, nonempty, merged, covered⟩ := inertSpans_cover_all_but_code text
  refine ⟨member, nonempty _ member, ?_, ?_⟩
  · have left : openLiteral text.length (modeAfter (run text)) = some ⟨20, 22⟩ := by decide
    rw [merged, literals, comments, left]
    simp [Span.startsBefore]
  · exact ((covered 9).mp (by decide)).2.2

end HardcodedText
