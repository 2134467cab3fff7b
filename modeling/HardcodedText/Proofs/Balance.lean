import HardcodedText.Text.Basic
import Mathlib.Data.List.Basic
import Mathlib.Tactic.Common

/-!
Balanced brackets. A text is balanced if no bracket closes before one opens and all that open are
closed. Counting the open brackets from left to right decides it, and only the brackets matter.
-/

namespace HardcodedText

structure Balanced (opening closing : Char) (text : Text) : Prop where
  bounded : ∀ front, front <+: text → front.count closing ≤ front.count opening
  even : text.count closing = text.count opening

/-- The number of brackets that are open after the text when `level` are open before it, unless one
more is closed than was opened. -/
def levelAfter (opening closing : Char) (level : Nat) : Text → Option Nat
  | [] => some level
  | c :: rest =>
      if c == opening then levelAfter opening closing (level + 1) rest
      else if c == closing then
        if level = 0 then none else levelAfter opening closing (level - 1) rest
      else levelAfter opening closing level rest

section Levels

variable {opening closing : Char}

theorem levelAfter_opening (level : Nat) (rest : Text) :
    levelAfter opening closing level (opening :: rest) =
      levelAfter opening closing (level + 1) rest := by
  rw [levelAfter, if_pos (beq_self_eq_true opening)]

theorem levelAfter_closing (different : opening ≠ closing) (level : Nat) (rest : Text) :
    levelAfter opening closing (level + 1) (closing :: rest) =
      levelAfter opening closing level rest := by
  have other : ¬ (closing == opening) = true := by simpa using different.symm
  rw [levelAfter, if_neg other, if_pos (beq_self_eq_true closing), if_neg (Nat.succ_ne_zero level),
    Nat.add_sub_cancel]

theorem levelAfter_unopened (different : opening ≠ closing) (rest : Text) :
    levelAfter opening closing 0 (closing :: rest) = none := by
  have other : ¬ (closing == opening) = true := by simpa using different.symm
  rw [levelAfter, if_neg other, if_pos (beq_self_eq_true closing), if_pos rfl]

theorem levelAfter_other {c : Char} (noOpening : c ≠ opening) (noClosing : c ≠ closing)
    (level : Nat) (rest : Text) :
    levelAfter opening closing level (c :: rest) = levelAfter opening closing level rest := by
  have first : ¬ (c == opening) = true := by simpa using noOpening
  have second : ¬ (c == closing) = true := by simpa using noClosing
  rw [levelAfter, if_neg first, if_neg second]

theorem levelAfter_cons (level : Nat) (c : Char) (rest : Text) :
    levelAfter opening closing level (c :: rest) =
      (levelAfter opening closing level [c]).bind (levelAfter opening closing · rest) := by
  simp only [levelAfter]
  split
  · rfl
  · split
    · split <;> rfl
    · rfl

theorem levelAfter_singleton_eq_none {level : Nat} {c : Char}
    (unopened : levelAfter opening closing level [c] = none) : level = 0 ∧ c = closing := by
  simp only [levelAfter] at unopened
  split at unopened
  · simp at unopened
  · split at unopened
    next closes =>
      split at unopened
      next lowest => exact ⟨lowest, beq_iff_eq.mp closes⟩
      next => simp at unopened
    next => simp at unopened

/-- The level stays defined as long as no beginning of the text closes more than there is. -/
theorem levelAfter_eq_some_iff (different : opening ≠ closing) (level last : Nat) (text : Text) :
    levelAfter opening closing level text = some last ↔
      (∀ front, front <+: text → front.count closing ≤ level + front.count opening) ∧
        level + text.count opening = last + text.count closing := by
  induction text generalizing level with
  | nil =>
      constructor
      · intro reached
        obtain rfl : level = last := by simpa [levelAfter] using reached
        refine ⟨?_, rfl⟩
        intro front initial
        simp [List.prefix_nil.mp initial]
      · rintro ⟨-, same⟩
        have ends : level = last := by simpa using same
        rw [levelAfter, ends]
  | cons c rest ih =>
      have beginnings (first : Char) :
          (∀ front, front <+: first :: rest →
            front.count closing ≤ level + front.count opening) ↔
          ∀ front, front <+: rest →
            (first :: front).count closing ≤ level + (first :: front).count opening := by
        constructor
        · intro all front initial
          exact all (first :: front) (List.cons_prefix_cons.mpr ⟨rfl, initial⟩)
        · intro all front initial
          rcases List.prefix_cons_iff.mp initial with rfl | ⟨later, rfl, inside⟩
          · simp
          · exact all later inside
      rw [beginnings c]
      by_cases opens : c = opening
      · subst opens
        rw [levelAfter_opening, ih]
        simp only [List.count_cons_self, List.count_cons_of_ne different]
        refine and_congr (forall₂_congr fun front _ => ?_) ?_ <;> omega
      · by_cases closes : c = closing
        · subst closes
          simp only [List.count_cons_self, List.count_cons_of_ne different.symm]
          cases level with
          | zero =>
              rw [levelAfter_unopened different]
              simp only [reduceCtorEq, false_iff]
              rintro ⟨all, -⟩
              simpa using all [] List.nil_prefix
          | succ level =>
              rw [levelAfter_closing different, ih]
              refine and_congr (forall₂_congr fun front _ => ?_) ?_ <;> omega
        · rw [levelAfter_other opens closes, ih]
          simp only [List.count_cons_of_ne opens, List.count_cons_of_ne closes]

theorem levelAfter_add (different : opening ≠ closing) {level last : Nat} {text : Text}
    (levels : levelAfter opening closing level text = some last) (more : Nat) :
    levelAfter opening closing (level + more) text = some (last + more) := by
  rw [levelAfter_eq_some_iff different] at levels ⊢
  refine ⟨fun front initial => ?_, by omega⟩
  have bound := levels.1 front initial
  omega

theorem balanced_iff (different : opening ≠ closing) (text : Text) :
    Balanced opening closing text ↔ levelAfter opening closing 0 text = some 0 := by
  rw [levelAfter_eq_some_iff different]
  simp only [Nat.zero_add]
  exact ⟨fun balanced => ⟨balanced.bounded, balanced.even.symm⟩,
    fun facts => ⟨facts.1, facts.2.symm⟩⟩

instance (text : Text) : Decidable (Balanced opening closing text) :=
  if same : opening = closing then
    isTrue ⟨fun _ _ => Nat.le_of_eq (by rw [same]), by rw [same]⟩
  else decidable_of_iff _ (balanced_iff same text).symm

theorem levelAfter_filter (level : Nat) (text : Text) :
    levelAfter opening closing level (text.filter fun c => c == opening || c == closing) =
      levelAfter opening closing level text := by
  induction text generalizing level with
  | nil => rfl
  | cons c rest ih =>
      rw [List.filter_cons]
      split
      next => rw [levelAfter, levelAfter, ih, ih, ih]
      next other =>
        simp only [Bool.or_eq_true, beq_iff_eq, not_or] at other
        rw [ih, levelAfter_other other.1 other.2]

/-- Only the brackets of a text decide whether it is balanced. -/
theorem balanced_congr (different : opening ≠ closing) {left right : Text}
    (same : left.filter (fun c => c == opening || c == closing) =
      right.filter fun c => c == opening || c == closing) :
    Balanced opening closing left ↔ Balanced opening closing right := by
  rw [balanced_iff different, balanced_iff different, ← levelAfter_filter, same, levelAfter_filter]

end Levels

end HardcodedText
