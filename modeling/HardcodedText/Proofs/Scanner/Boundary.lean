import HardcodedText.Proofs.Scanner.CodeSteps

/-!
Runs over a text of which only the beginning is known. No token holds a line feed, so what the
scanner does up to the beginning of a line does not depend on what follows, nor does what it does up
to a character that is never part of a longer token.
-/

namespace HardcodedText

def EndsLine (text : Text) : Prop :=
  text = [] ∨ ∃ body, text = body ++ ['\n']

/-- No token of the scanner reaches from the first text into the second one. -/
def Separated (front rest : Text) : Prop :=
  EndsLine front ∨ rest = [] ∨ ∃ c more, rest = c :: more ∧ Solitary c

theorem Separated.left {front piece more : Text} (separated : Separated front (piece ++ more)) :
    Separated front piece := by
  cases piece with
  | nil => exact Or.inr (Or.inl rfl)
  | cons c later =>
      rcases separated with starts | none | ⟨x, rest, starts, solitary⟩
      · exact Or.inl starts
      · simp at none
      · obtain ⟨rfl, -⟩ := List.cons.inj starts
        exact Or.inr (Or.inr ⟨c, later, rfl, solitary⟩)

theorem solitary_lineFeed : Solitary '\n' := by decide

theorem Mode.step_width_le {mode : Mode} {c : Char} (settled : mode.settle c = mode) (index : Nat)
    (rest : Text) : (mode.step index c rest).width ≤ rest.length + 1 := by
  cases inside : mode.enclosure with
  | none =>
      obtain rfl := eq_code_of_enclosure inside
      rcases step_code_cases index c rest with ⟨-, plain⟩ | ⟨enclosure, -, -, read, width, -⟩
      · rw [plain]
        exact Nat.le_add_left 1 _
      · rw [width]
        exact read.length_le
  | some enclosure =>
      rcases step_enclosed_cases inside settled index rest with ⟨-, -, bound⟩ | ⟨closed, read⟩
      · exact bound
      · rw [closed]
        exact read.length_le

theorem Delimiter.isPrefixOf_cons {delimiter : Delimiter} (quoted : isQuote delimiter.quote = true)
    {c : Char} (plain : isQuote c = false) (rest : Text) :
    delimiter.text.isPrefixOf (c :: rest) = false := by
  have same := isPrefixOf_append_cons (Delimiter.not_mem_text quoted plain) [] rest
  rw [List.nil_append] at same
  rw [same, ← Bool.not_eq_true, List.isPrefixOf_iff_prefix, List.prefix_nil]
  exact delimiter.text_ne_nil

theorem Mode.step_lineFeed {mode : Mode} (sound : mode.Sound) (index : Nat) (rest : Text) :
    mode.step index '\n' rest = mode.step index '\n' [] := by
  cases mode with
  | code => rw [step_code_lineFeed, step_code_lineFeed]
  | string delimiter start escaped =>
      have quoted : isQuote delimiter.quote = true := sound _ rfl
      simp only [step, stepString,
        Delimiter.isPrefixOf_cons quoted (by decide : isQuote '\n' = false)]
      rfl
  | interpolation delimiter start depth => rfl
  | lineComment start => rfl
  | blockComment start depth => rfl

namespace Cursor

variable {cursor : Cursor}

theorem sound_code : code.mode.Sound :=
  Mode.sound_code

theorem sound_advance (sound : cursor.mode.Sound) (index : Nat) (body rest : Text) :
    (cursor.advance index body rest).mode.Sound := by
  induction body generalizing cursor index with
  | nil => exact sound
  | cons c body ih => exact ih (sound_next sound index c _) (index + 1)

theorem next_lineFeed (sound : cursor.mode.Sound) (index : Nat) (rest : Text) :
    cursor.next index '\n' rest = cursor.next index '\n' [] := by
  simp only [next, Mode.consume, Mode.step_lineFeed (sound.settle '\n') index rest]

theorem moments_lineFeed (sound : cursor.mode.Sound) (index : Nat) (rest : Text) :
    cursor.moments index '\n' rest = cursor.moments index '\n' [] := by
  simp only [moments, Mode.consume, Mode.step_lineFeed (sound.settle '\n') index rest]

/-- What follows a text at a boundary has no influence on how the scanner gets there. -/
theorem advance_separated (sound : cursor.mode.Sound) {front rest : Text}
    (separated : Separated front rest) (index : Nat) :
    cursor.advance index front rest = cursor.advance index front [] := by
  rcases separated with (rfl | ⟨body, rfl⟩) | rfl | ⟨c, more, rfl, solitary⟩
  · rfl
  · have reached := sound_advance sound index body []
    rw [advance_append, advance_append, List.singleton_append, List.singleton_append,
      advance_solitary sound solitary_lineFeed _ _ rest,
      advance_solitary sound solitary_lineFeed _ _ []]
    exact next_lineFeed reached _ rest
  · rfl
  · exact advance_solitary sound solitary index front more

theorem run_separated (sound : cursor.mode.Sound) {front rest : Text}
    (separated : Separated front rest) (index : Nat) :
    cursor.run index (front ++ rest) =
      cursor.run index front ++
        (cursor.advance index front []).run (index + front.length) rest := by
  have arrives := advance_separated sound separated index
  rcases separated with (rfl | ⟨body, rfl⟩) | rfl | ⟨c, more, rfl, solitary⟩
  · simp [advance]
  · have reached := sound_advance sound index body []
    rw [← arrives, List.append_assoc, List.singleton_append,
      run_append_solitary sound solitary_lineFeed, run_append_solitary sound solitary_lineFeed,
      run_cons, run_cons, moments_lineFeed reached _ rest, advance_append, List.singleton_append,
      advance_solitary sound solitary_lineFeed, List.length_append, ← Nat.add_assoc]
    simp [advance]
  · simp
  · exact run_append_solitary sound solitary index front more

theorem skip_next_le {index : Nat} {c : Char} {rest : Text} (room : cursor.skip ≤ rest.length + 1) :
    (cursor.next index c rest).skip ≤ rest.length := by
  obtain ⟨mode, skip⟩ := cursor
  cases skip with
  | succ skip => exact Nat.le_of_succ_le_succ room
  | zero =>
      have width := Mode.step_width_le (mode.settle_settle c) index rest
      simp only [next, Mode.consume]
      omega

theorem skip_advance {index : Nat} {body : Text} (room : cursor.skip ≤ body.length) :
    (cursor.advance index body []).skip = 0 := by
  induction body generalizing cursor index with
  | nil => exact Nat.eq_zero_of_le_zero room
  | cons c body ih =>
      rw [advance, List.append_nil]
      exact ih (skip_next_le room)

def BegunBefore (cursor : Cursor) (index : Nat) : Prop :=
  ∀ enclosure, cursor.mode.enclosure = some enclosure → enclosure.start < index

theorem BegunBefore.next {index : Nat} (begun : cursor.BegunBefore index) (c : Char)
    (rest : Text) : (cursor.next index c rest).BegunBefore (index + 1) := by
  obtain ⟨mode, skip⟩ := cursor
  intro enclosure inside
  cases skip with
  | succ skip => exact Nat.lt_succ_of_lt (begun enclosure inside)
  | zero =>
      rcases Mode.enclosure_of_step inside with before | ⟨start, -, -⟩
      · have same : mode.settle c = mode := by
          rcases mode.settle_eq_self_or c with same | ⟨start, rfl, rfl⟩
          · exact same
          · simp [Mode.settle, Mode.enclosure] at before
        exact Nat.lt_succ_of_lt (begun enclosure (same ▸ before))
      · omega

theorem BegunBefore.advance {index : Nat} (begun : cursor.BegunBefore index) (body rest : Text) :
    (cursor.advance index body rest).BegunBefore (index + body.length) := by
  induction body generalizing cursor index with
  | nil => exact begun
  | cons c body ih =>
      have further := ih (begun.next c (body ++ rest))
      rwa [List.length_cons, Nat.add_comm body.length, ← Nat.add_assoc]

end Cursor

end HardcodedText
