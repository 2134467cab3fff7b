import HardcodedText.Pattern.Search
import Mathlib.Data.List.Basic

/-!
What a search tries. A match is the choice of a way on at every alternative and repetition, and the
search goes back to each choice until the rest succeeds. So for one kind of pattern after the other
a match succeeds exactly if some way on does, whatever the order in which they are tried.
-/

namespace HardcodedText

def Place.passed (place : Place) (taken rest : Text) : Place :=
  ⟨place.offset + taken.length, taken.reverse ++ place.before, rest, place.captures⟩

@[simp] theorem Place.rest_passed (place : Place) (taken rest : Text) :
    (place.passed taken rest).rest = rest := rfl

theorem Place.passed_nil {place : Place} {rest : Text} (same : place.rest = rest) :
    place.passed [] rest = place := by
  rw [← same]
  rfl

theorem Place.passed_cons (place : Place) (c : Char) (taken rest : Text) :
    place.passed (c :: taken) rest = (place.passed [c] (taken ++ rest)).passed taken rest := by
  simp only [passed, List.length_cons, List.reverse_cons, List.append_assoc, Place.mk.injEq,
    List.length_nil, and_true]
  exact ⟨by omega, rfl⟩

theorem CharClass.accepts_single (own c : Char) :
    CharClass.accepts { negated := false, items := [.single own] } c = (c == own) := by
  simp only [accepts, variantsOf, ClassItem.accepts, Bool.false_eq_true, if_false, List.any_cons,
    List.any_nil, List.contains_cons, List.contains_nil, Bool.or_false, Bool.bne_false]
  exact BEq.comm

theorem CharClass.accepts_blank (c : Char) :
    CharClass.accepts { negated := false, items := [.blank true] } c = isBlank c := by
  simp only [CharClass.accepts, ClassItem.accepts, Reach.isBlank, List.any_cons, List.any_nil,
    Bool.or_false, Bool.bne_false, beq_true]

theorem CharClass.accepts_word (c : Char) :
    CharClass.accepts { negated := false, items := [.word true] } c = isWordChar c := by
  simp only [CharClass.accepts, ClassItem.accepts, Reach.isWordChar, Reach.isWithin, List.any_cons,
    List.any_nil, Bool.or_false, Bool.bne_false, beq_true, Bool.and_true]

theorem CharClass.accepts_other (own c : Char) :
    CharClass.accepts { negated := true, items := [.single own] } c = (c != own) := by
  simp only [accepts, variantsOf, ClassItem.accepts, Bool.false_eq_true, if_false, List.any_cons,
    List.any_nil, List.contains_cons, List.contains_nil, Bool.or_false, Bool.bne_true]
  rw [BEq.comm]
  rfl

theorem CharClass.accepts_capital (c : Char) :
    CharClass.accepts { negated := false, items := [.range 0x41 0x5a] } c = c.isUpper := by
  have capital : c.isUpper = decide ('A'.val ≤ c.val ∧ c.val ≤ 'Z'.val) := rfl
  simp only [accepts, variantsOf, ClassItem.accepts, Bool.false_eq_true, if_false, List.any_cons,
    List.any_nil, Bool.or_false, Bool.bne_false, capital, UInt32.le_iff_toNat_le, Bool.decide_and]
  rfl

namespace Pattern

variable {fuel : Nat} {goOn : Continuation} {place : Place}

theorem run_all_cons (pattern : Pattern) (later : List Pattern) :
    (all (pattern :: later)).run fuel goOn place =
      pattern.run fuel ((all later).run fuel goOn) place := by
  cases later with
  | nil => rfl
  | cons next later => rfl

theorem run_all_append (front back : List Pattern) :
    (all (front ++ back)).run fuel goOn place =
      (all front).run fuel ((all back).run fuel goOn) place := by
  induction front generalizing place with
  | nil => rfl
  | cons pattern front ih =>
      rw [List.cons_append, run_all_cons, run_all_cons]
      exact congrArg (pattern.run fuel · place) (funext fun _ => ih)

theorem run_any_isSome {patterns : List Pattern} :
    ((any patterns).run fuel goOn place).isSome = true ↔
      ∃ pattern ∈ patterns, (pattern.run fuel goOn place).isSome = true := by
  induction patterns with
  | nil => simp [any, run]
  | cons pattern later ih =>
      cases later with
      | nil => simp [any]
      | cons next later =>
          rw [any, run, List.exists_mem_cons_iff, ← ih]
          swap
          · exact List.cons_ne_nil next later
          cases pattern.run fuel goOn place with
          | none => simp
          | some found => simp

theorem run_one_isSome {allowed : CharClass} :
    ((one allowed).run fuel goOn place).isSome = true ↔
      ∃ c rest, place.rest = c :: rest ∧ allowed.accepts c = true ∧
        (goOn (place.passed [c] rest)).isSome = true := by
  rw [run, Place.step?]
  cases place.rest with
  | nil => simp
  | cons c rest =>
      by_cases accepted : allowed.accepts c = true
      · simp [accepted, Place.passed]
      · simp [accepted]

theorem run_exactly_isSome {text : Text} :
    ((all (text.map char)).run fuel goOn place).isSome = true ↔
      ∃ rest, place.rest = text ++ rest ∧ (goOn (place.passed text rest)).isSome = true := by
  induction text generalizing place with
  | nil =>
      constructor
      · intro found
        exact ⟨place.rest, rfl, found⟩
      · rintro ⟨rest, same, found⟩
        rw [List.nil_append] at same
        rwa [Place.passed_nil same] at found
  | cons c text ih =>
      rw [List.map_cons, run_all_cons, char, oneOf, run_one_isSome]
      simp only [ih, CharClass.accepts_single, beq_iff_eq]
      constructor
      · rintro ⟨first, behind, split, rfl, rest, rfl, found⟩
        rw [← Place.passed_cons] at found
        exact ⟨rest, split, found⟩
      · rintro ⟨rest, split, found⟩
        rw [Place.passed_cons] at found
        exact ⟨c, text ++ rest, split, rfl, rest, rfl, found⟩

theorem exists_passed_iff {accepts : Char → Bool} {next : Place}
    (stops : ∀ c ∈ place.rest.head?, accepts c = false) :
    (∃ taken behind, place.rest = taken ++ behind ∧ (∀ c ∈ taken, accepts c = true) ∧
      next = place.passed taken behind) ↔ next = place := by
  constructor
  · rintro ⟨taken, behind, split, accepted, rfl⟩
    cases taken with
    | nil => exact Place.passed_nil split
    | cons first taken =>
        have refused := stops first (by simp [split])
        rw [accepted first List.mem_cons_self] at refused
        exact absurd refused (by decide)
  · rintro rfl
    exact ⟨[], next.rest, rfl, by simp, (Place.passed_nil rfl).symm⟩

theorem mem_reach {accepts : Char → Bool} {nearer : List Place} {next : Place} {rest : Text}
    (here : place.rest = rest) :
    next ∈ place.reach accepts none nearer rest ↔
      (∃ taken behind, rest = taken ++ behind ∧ (∀ c ∈ taken, accepts c = true) ∧
        next = place.passed taken behind) ∨ next ∈ nearer := by
  subst here
  induction rest : place.rest generalizing place nearer with
  | nil =>
      rw [Place.reach, List.mem_cons, ← rest, exists_passed_iff]
      simp [rest]
  | cons c behind ih =>
      have next_rest : (place.passed [c] behind).rest = behind := rfl
      by_cases accepted : accepts c = true
      · have moves : place.reach accepts none nearer (c :: behind) =
            (place.passed [c] behind).reach accepts none (place :: nearer) behind := by
          rw [Place.reach, if_neg (by simp [accepted])]
          rfl
        rw [moves, ih next_rest, List.mem_cons]
        constructor
        · rintro (⟨taken, rest', rfl, all, rfl⟩ | rfl | inNearer)
          · refine Or.inl ⟨c :: taken, rest', rfl, ?_, (Place.passed_cons ..).symm⟩
            exact List.forall_mem_cons.mpr ⟨accepted, all⟩
          · exact Or.inl ⟨[], c :: behind, rfl, by simp, (Place.passed_nil rest).symm⟩
          · exact Or.inr inNearer
        · rintro (⟨taken, rest', split, all, rfl⟩ | inNearer)
          · cases taken with
            | nil =>
                obtain rfl := split
                exact Or.inr (Or.inl (Place.passed_nil rest))
            | cons first taken =>
                obtain ⟨rfl, rfl⟩ := List.cons_eq_cons.mp split
                exact Or.inl ⟨taken, rest', rfl, (List.forall_mem_cons.mp all).2,
                  Place.passed_cons ..⟩
          · exact Or.inr (Or.inr inNearer)
      · rw [Place.reach, if_pos (by simp [accepted]), List.mem_cons, ← rest, exists_passed_iff]
        simp [rest, accepted]

theorem run_many_isSome {allowed : CharClass} :
    ((many (one allowed)).run fuel goOn place).isSome = true ↔
      ∃ taken rest, place.rest = taken ++ rest ∧ (∀ c ∈ taken, allowed.accepts c = true) ∧
        (goOn (place.passed taken rest)).isSome = true := by
  have meaning : (many (one allowed)).run fuel goOn place =
      (place.reach allowed.accepts none [] place.rest).findSome? goOn := rfl
  rw [meaning, List.findSome?_isSome_iff]
  simp only [mem_reach rfl, List.not_mem_nil, or_false]
  constructor
  · rintro ⟨next, ⟨taken, rest, split, accepted, rfl⟩, found⟩
    exact ⟨taken, rest, split, accepted, found⟩
  · rintro ⟨taken, rest, split, accepted, found⟩
    exact ⟨_, ⟨taken, rest, split, accepted, rfl⟩, found⟩

theorem run_atLeast_one {allowed : CharClass} :
    (atLeast 1 (one allowed)).run fuel goOn place =
      (one allowed).run fuel ((many (one allowed)).run fuel goOn) place :=
  rfl

theorem run_textStart_isSome :
    (textStart.run fuel goOn place).isSome = true ↔
      place.before = [] ∧ (goOn place).isSome = true := by
  rw [textStart, run, Landmark.holds]
  cases place.before with
  | nil => simp
  | cons c before => simp

theorem run_boundary_isSome :
    ((boundary true).run fuel goOn place).isSome = true ↔
      place.before.head?.any isWordChar ≠ place.rest.head?.any isWordChar ∧
        (goOn place).isSome = true := by
  have word : Reach.unicode.isWordChar = isWordChar := by
    funext c
    rw [Reach.isWordChar, Reach.isWithin, Bool.and_true]
  rw [boundary, run, Landmark.holds, word]
  cases place.before with
  | nil =>
      cases place.rest with
      | nil => simp
      | cons c rest => cases found : isWordChar c <;> simp [found]
  | cons b before =>
      cases place.rest with
      | nil => cases found : isWordChar b <;> simp [found]
      | cons c rest => cases found : isWordChar b <;> cases next : isWordChar c <;> simp [found, next]

theorem run_lastLineEnd_isSome :
    (lastLineEnd.run fuel goOn place).isSome = true ↔
      (place.rest = [] ∨ place.rest = ['\n']) ∧ (goOn place).isSome = true := by
  rw [lastLineEnd, run, Landmark.holds]
  cases place.rest with
  | nil => simp
  | cons c rest =>
      by_cases last : c = '\n' ∧ rest = []
      · simp [last]
      · have other : (c :: rest == ['\n']) = false := by simpa using last
        simp [other, last]

/-- A look at the character before a place; at the beginning of the text there is none. -/
theorem run_notBehind_isSome {allowed : CharClass} (counted : place.offset = place.before.length) :
    ((behind false 1 (one allowed)).run fuel goOn place).isSome = true ↔
      place.before.head?.any allowed.accepts = false ∧ (goOn place).isSome = true := by
  obtain ⟨offset, before, rest, captures⟩ := place
  simp only at counted
  subst counted
  rw [run, Place.back?]
  cases before with
  | nil => simp
  | cons c before =>
      by_cases accepted : allowed.accepts c = true
      · simp [run, Place.step?, accepted]
      · simp [run, Place.step?, accepted]

theorem foundFrom_iff {pattern : Pattern} {offset : Nat} {before text : Text} :
    pattern.foundFrom fuel offset before text = true ↔
      ∃ front back, text = front ++ back ∧
        (pattern.run fuel some ⟨offset + front.length, front.reverse ++ before, back, []⟩).isSome =
          true := by
  induction text generalizing offset before with
  | nil =>
      rw [foundFrom]
      constructor
      · intro found
        exact ⟨[], [], rfl, found⟩
      · rintro ⟨front, back, split, found⟩
        obtain ⟨rfl, rfl⟩ := List.append_eq_nil_iff.mp split.symm
        exact found
  | cons c rest ih =>
      rw [foundFrom, Bool.or_eq_true, ih]
      constructor
      · rintro (found | ⟨front, back, rfl, found⟩)
        · exact ⟨[], c :: rest, rfl, found⟩
        · refine ⟨c :: front, back, rfl, ?_⟩
          rw [List.length_cons, List.reverse_cons, List.append_assoc]
          rwa [Nat.add_right_comm] at found
      · rintro ⟨front, back, split, found⟩
        cases front with
        | nil =>
            obtain rfl := split
            exact Or.inl found
        | cons first front =>
            obtain ⟨rfl, rfl⟩ := List.cons_eq_cons.mp split
            rw [List.length_cons, List.reverse_cons, List.append_assoc] at found
            refine Or.inr ⟨front, back, rfl, ?_⟩
            rwa [Nat.add_right_comm]

end Pattern

end HardcodedText
