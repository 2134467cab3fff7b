import HardcodedText.Filter.Pipeline
import HardcodedText.Proofs.Filter.CallSource
import HardcodedText.Proofs.Pattern.Search
import HardcodedText.Proofs.Text

/-!
Texts that end in the head of a technical call. A search pattern states which texts these are, with
the names as alternatives, the longest first. Looking at the end of the text, name by name, finds
the same: the name of a call, blanks, a parenthesis and blanks, where the name continues no longer
one. Neither the order nor the repetition of the names matters.
-/

namespace HardcodedText

def continuesName (c : Char) : Bool :=
  isWordChar c || c == '.'

def EndsInCall (calls : List Text) (text : Text) : Prop :=
  ∃ front name gap space, name ∈ calls ∧ text = front ++ (name ++ (gap ++ '(' :: space)) ∧
    front.getLast?.any continuesName = false ∧
    (∀ c ∈ gap, isBlank c = true) ∧ ∀ c ∈ space, isBlank c = true

theorem EndsInCall.congr {calls others : List Text} (same : ∀ name, name ∈ calls ↔ name ∈ others)
    (text : Text) : EndsInCall calls text ↔ EndsInCall others text := by
  simp only [EndsInCall, same]

/-! The pattern. -/

theorem accepts_continuesName (c : Char) :
    CharClass.accepts { negated := false, items := [.word true, .single '.'] } c =
      continuesName c := by
  simp only [CharClass.accepts, ClassItem.accepts, Reach.isWordChar, Reach.isWithin, variantsOf,
    List.any_cons, List.any_nil, List.contains_cons, List.contains_nil, Bool.or_false,
    Bool.bne_false, beq_true, Bool.and_true, Bool.false_eq_true, if_false, continuesName]
  rw [BEq.comm]

theorem run_callHead_isSome {fuel : Nat} {names : List Text} {place : Place}
    (counted : place.offset = place.before.length) :
    ((callHead names).run fuel some place).isSome = true ↔
      place.before.head?.any continuesName = false ∧
        ∃ name ∈ names, ∃ gap space, place.rest = name ++ (gap ++ '(' :: space) ∧
          (∀ c ∈ gap, isBlank c = true) ∧ ∀ c ∈ space, isBlank c = true := by
  have boundary : CharClass.accepts { negated := false, items := [.word true, .single '.'] } =
      continuesName := funext accepts_continuesName
  rw [callHead, Pattern.run_all_cons, Pattern.oneOf, Pattern.run_notBehind_isSome counted, boundary]
  apply and_congr_right
  intro _
  simp only [Pattern.run_all_cons, Pattern.run_any_isSome, List.mem_map, exists_exists_and_eq_and,
    Pattern.run_exactly_isSome, Pattern.oneOf, Pattern.run_many_isSome, Pattern.char,
    Pattern.run_one_isSome, Pattern.run_lastLineEnd_isSome, CharClass.accepts_single,
    CharClass.accepts_blank, Place.rest_passed, beq_iff_eq]
  constructor
  · rintro ⟨name, listed, _, split, gap, _, rfl, gapBlank, _, _, rfl, rfl, space, ending, rfl,
      spaceBlank, lineEnd, -⟩
    refine ⟨name, listed, gap, space ++ ending, split, gapBlank, ?_⟩
    intro c member
    rcases List.mem_append.mp member with inSpace | inEnding
    · exact spaceBlank c inSpace
    · rcases lineEnd with rfl | rfl
      · simp at inEnding
      · obtain rfl := List.mem_singleton.mp inEnding
        decide
  · rintro ⟨name, listed, gap, space, split, gapBlank, spaceBlank⟩
    exact ⟨name, listed, _, split, gap, _, rfl, gapBlank, '(', space, rfl, rfl, space, [],
      (List.append_nil space).symm, spaceBlank, Or.inl rfl, rfl⟩

theorem foundIn_technicalCallPattern {calls : List Text} {text : Text} :
    (technicalCallPattern calls).foundIn text = true ↔ calls ≠ [[]] ∧ EndsInCall calls text := by
  rw [Pattern.foundIn, Pattern.foundFrom_iff, technicalCallPattern]
  split
  next unnamed =>
    have nowhere : ¬ (calls ≠ [[]] ∧ EndsInCall calls text) := by
      rintro ⟨named, -, name, -, -, listed, -⟩
      rw [Bool.or_eq_true, List.isEmpty_iff, beq_iff_eq] at unnamed
      rcases unnamed with rfl | same
      · simp at listed
      · exact named same
    simp [nowhere, Pattern.any, Pattern.run]
  next named =>
    rw [Bool.or_eq_true, not_or, beq_iff_eq] at named
    rw [and_iff_right named.2]
    constructor
    · rintro ⟨front, back, rfl, found⟩
      rw [run_callHead_isSome (by simp)] at found
      obtain ⟨boundary, name, listed, gap, space, rfl, gapBlank, spaceBlank⟩ := found
      rw [List.append_nil, List.head?_reverse] at boundary
      rw [mem_longestFirst] at listed
      exact ⟨front, name, gap, space, listed, rfl, boundary, gapBlank, spaceBlank⟩
    · rintro ⟨front, name, gap, space, listed, rfl, boundary, gapBlank, spaceBlank⟩
      refine ⟨front, _, rfl, ?_⟩
      rw [run_callHead_isSome (by simp), List.append_nil, List.head?_reverse]
      exact ⟨boundary, name, mem_longestFirst.mpr listed, gap, space, rfl, gapBlank,
        spaceBlank⟩

/-! The look at the end of a text. -/

theorem anyPastBlanks_iff {test : Text → Bool} {text : Text} :
    anyPastBlanks test text = true ↔
      ∃ gap rest, text = gap ++ rest ∧ (∀ c ∈ gap, isBlank c = true) ∧ test rest = true := by
  induction text with
  | nil =>
      rw [anyPastBlanks]
      constructor
      · intro found
        exact ⟨[], [], rfl, by simp, found⟩
      · rintro ⟨gap, rest, split, -, found⟩
        obtain ⟨rfl, rfl⟩ := List.append_eq_nil_iff.mp split.symm
        exact found
  | cons c text ih =>
      rw [anyPastBlanks, Bool.or_eq_true, Bool.and_eq_true, ih]
      constructor
      · rintro (found | ⟨blank, gap, rest, rfl, blanks, found⟩)
        · exact ⟨[], c :: text, rfl, by simp, found⟩
        · exact ⟨c :: gap, rest, rfl, List.forall_mem_cons.mpr ⟨blank, blanks⟩, found⟩
      · rintro ⟨gap, rest, split, blanks, found⟩
        cases gap with
        | nil =>
            obtain rfl := split
            exact Or.inl found
        | cons first gap =>
            obtain ⟨rfl, rfl⟩ := List.cons_eq_cons.mp split
            obtain ⟨blank, blanks⟩ := List.forall_mem_cons.mp blanks
            exact Or.inr ⟨blank, gap, rest, rfl, blanks, found⟩

theorem endsInCallName_iff {name reversed : Text} :
    endsInCallName name reversed = true ↔
      ∃ front : Text, reversed = name.reverse ++ front.reverse ∧
        front.getLast?.any continuesName = false := by
  have length : name.reverse.length = name.length := List.length_reverse
  rw [endsInCallName, Bool.and_eq_true, List.isPrefixOf_iff_prefix, Bool.not_eq_true']
  constructor
  · rintro ⟨⟨behind, rfl⟩, boundary⟩
    rw [← length, List.drop_left] at boundary
    refine ⟨behind.reverse, by rw [List.reverse_reverse], ?_⟩
    rwa [List.getLast?_reverse]
  · rintro ⟨front, rfl, boundary⟩
    refine ⟨List.prefix_append _ _, ?_⟩
    rw [← length, List.drop_left, List.head?_reverse]
    exact boundary

theorem trimEnd_reverse_eq_cons {text reversed : Text} :
    text.trimEnd.reverse = '(' :: reversed ↔
      ∃ space, text = reversed.reverse ++ '(' :: space ∧ ∀ c ∈ space, isBlank c = true := by
  constructor
  · intro trimmed
    obtain ⟨space, split, blank⟩ := Text.exists_trimEnd_append text
    rw [List.reverse_eq_iff, List.reverse_cons] at trimmed
    refine ⟨space, ?_, blank⟩
    rw [split, trimmed, List.append_assoc]
    rfl
  · rintro ⟨space, rfl, blank⟩
    have single : Text.trimEnd ['('] = ['('] := by decide
    have regrouped : reversed.reverse ++ '(' :: space = (reversed.reverse ++ ['(']) ++ space := by
      simp
    rw [regrouped, Text.trimEnd_append_blank blank, Text.trimEnd_append (by simp [single]), single]
    simp

theorem endsInCall_iff {calls : List Text} {text : Text} :
    endsInCall calls text = true ↔ calls ≠ [[]] ∧ EndsInCall calls text := by
  constructor
  · intro ends
    unfold endsInCall at ends
    split at ends
    next reversed trimmed =>
      obtain ⟨space, rfl, spaceBlank⟩ := trimEnd_reverse_eq_cons.mp trimmed
      rw [Bool.and_eq_true, Bool.not_eq_true', Bool.or_eq_false_iff, List.any_eq_true] at ends
      obtain ⟨named, name, listed, found⟩ := ends
      obtain ⟨gap, rest, rfl, gapBlank, found⟩ := anyPastBlanks_iff.mp found
      obtain ⟨front, rfl, boundary⟩ := endsInCallName_iff.mp found
      refine ⟨by simpa using named.2, front, name, gap.reverse, space, listed, ?_, boundary, ?_,
        spaceBlank⟩
      · simp
      · intro c member
        exact gapBlank c (List.mem_reverse.mp member)
    next => simp at ends
  · rintro ⟨named, front, name, gap, space, listed, rfl, boundary, gapBlank, spaceBlank⟩
    have trimmed : (Text.trimEnd (front ++ (name ++ (gap ++ '(' :: space)))).reverse =
        '(' :: (gap.reverse ++ (name.reverse ++ front.reverse)) := by
      rw [trimEnd_reverse_eq_cons]
      exact ⟨space, by simp, spaceBlank⟩
    have somewhere : calls.isEmpty = false := by
      rw [List.isEmpty_eq_false_iff]
      exact List.ne_nil_of_mem listed
    rw [endsInCall, trimmed]
    simp only [Bool.and_eq_true, Bool.not_eq_true', Bool.or_eq_false_iff, List.any_eq_true]
    refine ⟨⟨somewhere, by simpa using named⟩, name, listed, anyPastBlanks_iff.mpr ?_⟩
    refine ⟨gap.reverse, _, rfl, ?_, endsInCallName_iff.mpr ⟨front, rfl, boundary⟩⟩
    intro c member
    exact gapBlank c (List.mem_reverse.mp member)

end HardcodedText
