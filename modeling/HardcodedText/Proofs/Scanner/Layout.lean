import HardcodedText.Proofs.Scanner.Lookahead

/-!
The layout of a text: plain characters of code, literals and comments that are closed, and possibly
one at the end that is not. The main statement is an induction principle, `code_induction`, that
takes a text apart in this way; a closed literal or comment keeps its extent also when characters
after it become spaces.
-/

namespace HardcodedText

namespace Cursor

def closings (cursor : Cursor) (index : Nat) (text : Text) : List Moment :=
  (cursor.run index text).filter (·.event.isClosing)

def AtCode (cursor : Cursor) (rest : Text) : Prop :=
  cursor.skip = 0 ∧
    match rest with
    | [] => cursor.mode = .code
    | c :: _ => cursor.mode.settle c = .code

@[simp] theorem closings_nil (cursor : Cursor) (index : Nat) : cursor.closings index [] = [] := by
  simp [closings]

theorem closings_cons (cursor : Cursor) (index : Nat) (c : Char) (rest : Text) :
    cursor.closings index (c :: rest) =
      (cursor.moments index c rest).filter (·.event.isClosing) ++
        (cursor.next index c rest).closings (index + 1) rest := by
  rw [closings, run_cons, List.filter_append]
  rfl

theorem closings_skip (mode : Mode) (index : Nat) (consumed rest : Text) :
    (⟨mode, consumed.length⟩ : Cursor).closings index (consumed ++ rest) =
      (⟨mode, 0⟩ : Cursor).closings (index + consumed.length) rest := by
  induction consumed generalizing index with
  | nil => rfl
  | cons c consumed ih =>
      rw [List.cons_append, List.length_cons, closings_cons]
      simp only [moments, next, List.filter_nil, List.nil_append]
      rw [ih]
      congr 1
      omega

theorem advance_skip (mode : Mode) (index : Nat) (consumed rest : Text) :
    (⟨mode, consumed.length⟩ : Cursor).advance index consumed rest = ⟨mode, 0⟩ := by
  induction consumed generalizing index with
  | nil => rfl
  | cons c consumed ih => exact ih (index + 1)

theorem atCode_code (rest : Text) : Cursor.code.AtCode rest := by
  cases rest <;> exact ⟨rfl, rfl⟩

theorem AtCode.next_eq {cursor : Cursor} {c : Char} {rest : Text}
    (atCode : cursor.AtCode (c :: rest)) (index : Nat) :
    cursor.next index c rest = Cursor.code.next index c rest := by
  obtain ⟨mode, skip⟩ := cursor
  obtain ⟨here, settled⟩ := atCode
  simp only at here settled
  subst here
  simp only [next, code, Mode.consume, settled]
  rfl

theorem AtCode.advance {cursor : Cursor} {index : Nat} {body rest : Text}
    (atCode : cursor.AtCode (body ++ rest)) (arrives : (code.advance index body rest).AtCode rest) :
    (cursor.advance index body rest).AtCode rest := by
  cases body with
  | nil => exact atCode
  | cons c body =>
      have same : cursor.next index c (body ++ rest) = code.next index c (body ++ rest) :=
        atCode.next_eq index
      rwa [Cursor.advance, same]

theorem AtCode.eq_code {cursor : Cursor} {c : Char} {rest : Text}
    (atCode : cursor.AtCode (c :: rest)) (other : c ≠ '\n') : cursor = code := by
  obtain ⟨mode, skip⟩ := cursor
  obtain ⟨here, settled⟩ := atCode
  simp only at here settled
  rcases mode.settle_eq_self_or c with same | ⟨start, -, lineEnd⟩
  · rw [here, ← same, settled]
    rfl
  · exact absurd lineEnd other

/-- What stands before the terminator leaves the enclosure open, and the terminator closes it,
whatever is erased after it. -/
structure Closes (cursor : Cursor) (index : Nat) (enclosure : Enclosure) (inner rest : Text)
    (before : Mode) : Prop where
  room : cursor.skip ≤ inner.length
  closings_eq : ∀ other, Erases rest other →
    cursor.closings index (inner ++ (enclosure.terminator ++ other)) =
      ⟨index + inner.length, before, enclosure.closing,
          index + inner.length + enclosure.terminator.length, .code⟩ ::
        Cursor.code.closings (index + inner.length + enclosure.terminator.length) other
  arrives : ∀ other, Erases rest other →
    (cursor.advance index (inner ++ enclosure.terminator) other).AtCode other

theorem Closes.cons {cursor following : Cursor} {index : Nat} {enclosure : Enclosure}
    {inner rest : Text} {before : Mode} {c : Char}
    (closes : following.Closes (index + 1) enclosure inner rest before)
    (room : cursor.skip ≤ inner.length + 1)
    (same : ∀ other, Erases rest other →
      cursor.next index c (inner ++ (enclosure.terminator ++ other)) = following)
    (quiet : ∀ other, Erases rest other →
      (cursor.moments index c (inner ++ (enclosure.terminator ++ other))).filter
        (·.event.isClosing) = []) :
    cursor.Closes index enclosure (c :: inner) rest before where
  room := by simpa using room
  closings_eq := by
    intro other erases
    rw [List.cons_append, closings_cons, same other erases, quiet other erases,
      closes.closings_eq other erases, List.nil_append, List.length_cons, Nat.add_assoc index 1,
      Nat.add_comm 1]
  arrives := by
    intro other erases
    rw [List.cons_append, advance, List.append_assoc, same other erases]
    exact closes.arrives other erases

theorem closes_of_terminator {mode : Mode} (sound : mode.Sound) {enclosure : Enclosure} {c : Char}
    {more rest : Text} {index : Nat} (settled : mode.settle c = mode)
    (written : enclosure.terminator = c :: more)
    (closed : mode.step index c (more ++ rest) =
      ⟨enclosure.closing, enclosure.terminator.length, .code⟩) :
    (⟨mode, 0⟩ : Cursor).Closes index enclosure [] rest mode := by
  have step (other : Text) (erases : Erases rest other) :
      mode.step index c (more ++ other) =
        ⟨enclosure.closing, enclosure.terminator.length, .code⟩ := by
    rw [← closed]
    apply Mode.step_erased sound (erases.append_left more)
    simp [closed, written]
  have ends : enclosure.closing.isClosing = true := by
    cases enclosure <;> rfl
  constructor
  · simp
  · intro other erases
    rw [written, List.nil_append, List.cons_append, closings_cons]
    simp only [moments, next, Mode.consume, settled, Mode.settling_eq_nil, step other erases,
      Moment.ofStep, List.nil_append, List.filter_cons, ends, if_true, List.filter_nil, written,
      List.length_cons, List.length_nil, Nat.add_zero, Nat.add_sub_cancel, List.singleton_append]
    rw [closings_skip]
    congr 2
    omega
  · intro other erases
    rw [written, List.nil_append, advance]
    simp only [next, Mode.consume, settled, step other erases, written, List.length_cons,
      Nat.add_sub_cancel]
    rw [advance_skip]
    exact atCode_code other

theorem closes_of_lineFeed (start index : Nat) (rest : Text) :
    (⟨.lineComment start, 0⟩ : Cursor).Closes index (.lineComment start) [] ('\n' :: rest)
      (.lineComment start) := by
  have lineFeed (other : Text) (erases : Erases ('\n' :: rest) other) :
      ∃ later, other = '\n' :: later := by
    cases erases with
    | cons same _ =>
        rcases same with same | ⟨-, impossible⟩
        · exact ⟨_, by rw [same]⟩
        · exact absurd rfl impossible
  constructor
  · simp
  · intro other erases
    obtain ⟨later, rfl⟩ := lineFeed other erases
    have atCode : (⟨.lineComment start, 0⟩ : Cursor).AtCode ('\n' :: later) := ⟨rfl, rfl⟩
    rw [Enclosure.terminator, List.nil_append, List.nil_append, closings_cons, closings_cons,
      ← atCode.next_eq]
    simp [moments, Mode.settling, Mode.settle, Mode.consume, Enclosure.closing, Event.isClosing,
      code, List.filter_cons]
  · intro other erases
    obtain ⟨later, rfl⟩ := lineFeed other erases
    exact ⟨rfl, rfl⟩

theorem closes_of_quiet_step {mode : Mode} (sound : mode.Sound) {enclosure : Enclosure} {c : Char}
    {inner rest : Text} {index : Nat} {before : Mode} (settled : mode.settle c = mode)
    (quiet : (mode.step index c (inner ++ (enclosure.terminator ++ rest))).event = .none)
    (closes : (next ⟨mode, 0⟩ index c (inner ++ (enclosure.terminator ++ rest))).Closes (index + 1)
      enclosure inner rest before) :
    (⟨mode, 0⟩ : Cursor).Closes index enclosure (c :: inner) rest before := by
  have same (other : Text) (erases : Erases rest other) :
      mode.step index c (inner ++ (enclosure.terminator ++ other)) =
        mode.step index c (inner ++ (enclosure.terminator ++ rest)) := by
    apply Mode.step_erased sound ((erases.append_left _).append_left _)
    have consumed := closes.room
    simp only [next, Mode.consume, settled] at consumed
    rw [List.take_append_of_le_length consumed, List.take_append_of_le_length consumed]
  apply closes.cons (by simp)
  · intro other erases
    simp only [next, Mode.consume, settled, same other erases]
  · intro other erases
    simp [moments, Mode.consume, settled, Mode.settling_eq_nil, same other erases,
      Moment.ofStep, quiet, Event.isClosing]

theorem closes_or_stays {enclosure : Enclosure} (text : Text) : ∀ (cursor : Cursor) (index : Nat),
    cursor.mode.Sound → cursor.mode.enclosure = some enclosure → cursor.skip ≤ text.length →
      (∃ inner rest before, text = inner ++ (enclosure.terminator ++ rest) ∧
        cursor.Closes index enclosure inner rest before) ∨
      (cursor.closings index text = [] ∧
        (cursor.advance index text []).mode.enclosure = some enclosure) := by
  induction text with
  | nil =>
      intro cursor index _ inside _
      exact Or.inr ⟨closings_nil cursor index, inside⟩
  | cons c text ih =>
      rintro ⟨mode, skip⟩ index sound inside room
      change mode.Sound at sound
      change mode.enclosure = some enclosure at inside
      cases skip with
      | succ skip =>
          rcases ih ⟨mode, skip⟩ (index + 1) sound inside (by simpa using room) with
            ⟨inner, rest, before, rfl, closes⟩ | ⟨silent, still⟩
          · refine Or.inl ⟨c :: inner, rest, before, rfl, closes.cons ?_ ?_ ?_⟩
            · simpa using closes.room
            · intro other _
              rfl
            · intro other _
              rfl
          · refine Or.inr ⟨?_, by simpa [advance, next] using still⟩
            rw [closings_cons]
            exact silent
      | zero =>
          rcases mode.settle_eq_self_or c with settled | ⟨start, inComment, lineEnd⟩
          · rcases Mode.step_enclosed_cases inside settled index text with
              ⟨quiet, still, bounded⟩ | ⟨closed, read⟩
            · have following := ih (next ⟨mode, 0⟩ index c text) (index + 1)
                (sound_next sound index c text) (by simpa [next, Mode.consume, settled] using still)
                (by simp only [next, Mode.consume, settled]; omega)
              rcases following with ⟨inner, rest, before, rfl, closes⟩ | ⟨silent, unclosed⟩
              · exact Or.inl ⟨c :: inner, rest, before, rfl,
                  closes_of_quiet_step sound settled quiet closes⟩
              · refine Or.inr ⟨?_, by simpa [advance] using unclosed⟩
                rw [closings_cons, silent]
                simp [moments, Mode.consume, settled, Mode.settling_eq_nil, Moment.ofStep, quiet,
                  Event.isClosing]
            · have moving := Mode.step_width_pos settled index text
              cases written : enclosure.terminator with
              | nil => simp [closed, written] at moving
              | cons first more =>
                  rw [written, List.cons_prefix_cons] at read
                  obtain ⟨rfl, rest, rfl⟩ := read
                  exact Or.inl ⟨[], rest, mode, rfl,
                    closes_of_terminator sound settled written closed⟩
          -- The line feed ends the comment and is left to be read in code.
          · subst inComment lineEnd
            obtain rfl := Option.some_inj.mp inside
            exact Or.inl ⟨[], '\n' :: text, .lineComment start, rfl,
              closes_of_lineFeed start index text⟩

end Cursor

structure Encloses (index : Nat) (enclosure : Enclosure) (inner rest : Text) : Prop where
  start_eq : enclosure.start = index
  sound : enclosure.Sound
  closes : ∃ before, Cursor.code.Closes index enclosure (enclosure.opener ++ inner) rest before

structure LeftOpen (index : Nat) (enclosure : Enclosure) (text : Text) : Prop where
  start_eq : enclosure.start = index
  silent : Cursor.code.closings index text = []
  inside : (Cursor.code.advance index text []).mode.enclosure = some enclosure

theorem Enclosure.opener_ne_nil (enclosure : Enclosure) : enclosure.opener ≠ [] := by
  cases enclosure with
  | literal delimiter start => exact delimiter.text_ne_nil
  | lineComment start => simp [Enclosure.opener]
  | blockComment start => simp [Enclosure.opener]

theorem Enclosure.length_written_pos (enclosure : Enclosure) (inner : Text) :
    0 < (enclosure.written inner).length := by
  have opened := List.length_pos_iff.mpr enclosure.opener_ne_nil
  simp only [Enclosure.written, List.length_append]
  omega

theorem code_cases (index : Nat) (c : Char) (text : Text) :
    (isQuote c = false ∧ Mode.code.step index c text = ⟨.none, 1, .code⟩) ∨
      (∃ enclosure inner rest, c :: text = enclosure.written inner ++ rest ∧
        Encloses index enclosure inner rest) ∨
      ∃ enclosure, LeftOpen index enclosure (c :: text) := by
  rcases Mode.step_code_cases index c text with
    plain | ⟨enclosure, start, sound, read, width, opened, quiet⟩
  · exact Or.inl plain
  · have room : (Cursor.code.next index c text).skip ≤ text.length := by
      have fits := read.length_le
      simp only [List.length_cons] at fits
      simp only [Cursor.next, Cursor.code, Mode.consume, Mode.settle]
      omega
    rcases Cursor.closes_or_stays text (Cursor.code.next index c text) (index + 1)
        (Cursor.sound_next Mode.sound_code index c text) opened room with
      ⟨body, rest, before, rfl, closes⟩ | ⟨silent, inside⟩
    · refine Or.inr (Or.inl ?_)
      have consumed : enclosure.opener.length - 1 ≤ body.length := by
        rw [← width]
        exact closes.room
      have front : enclosure.opener <+: c :: body := by
        apply List.prefix_of_prefix_length_le read (List.prefix_append (c :: body) _)
        simp only [List.length_cons]
        omega
      obtain ⟨inner, written⟩ := front
      have same (other : Text) (erases : Erases rest other) :
          Mode.code.step index c (body ++ (enclosure.terminator ++ other)) =
            Mode.code.step index c (body ++ (enclosure.terminator ++ rest)) := by
        apply Mode.step_erased Mode.sound_code ((erases.append_left _).append_left _)
        rw [width, List.take_append_of_le_length consumed, List.take_append_of_le_length consumed]
      refine ⟨enclosure, inner, rest, ?_, start, sound, before, ?_⟩
      · rw [Enclosure.written, written, List.append_assoc, List.cons_append]
      · rw [written]
        apply closes.cons (by simp [Cursor.code])
        · intro other erases
          simp only [Cursor.next, Cursor.code, Mode.consume, Mode.settle, same other erases]
        · intro other erases
          simp [Cursor.moments, Cursor.code, Mode.consume, Mode.settle, Mode.settling,
            Moment.ofStep, same other erases, quiet]
    · refine Or.inr (Or.inr ⟨enclosure, start, ?_, ?_⟩)
      · rw [Cursor.closings_cons, silent]
        simp [Cursor.moments, Cursor.code, Mode.consume, Mode.settle, Mode.settling,
          Moment.ofStep, quiet]
      · simpa [Cursor.advance] using inside

/-- Takes a text that begins in code apart: a plain character or a closed enclosure in front of a
text that again begins in code, or an enclosure that reaches to the end. -/
theorem code_induction {motive : Nat → Text → Prop} (nil : ∀ index, motive index [])
    (plain : ∀ index c rest, isQuote c = false →
      Mode.code.step index c rest = ⟨.none, 1, .code⟩ → motive (index + 1) rest →
      motive index (c :: rest))
    (closed : ∀ index enclosure inner rest, Encloses index enclosure inner rest →
      motive (index + (enclosure.written inner).length) rest →
      motive index (enclosure.written inner ++ rest))
    (unclosed : ∀ index enclosure text, text ≠ [] → LeftOpen index enclosure text →
      motive index text) (index : Nat) (text : Text) : motive index text := by
  -- What follows an enclosure is no tail of the list, so the induction is on the length.
  generalize size : text.length = length
  induction length using Nat.strongRecOn generalizing index text with
  | ind length ih =>
      cases text with
      | nil => exact nil index
      | cons c text =>
          rcases code_cases index c text with
            ⟨noQuote, step⟩ | ⟨enclosure, inner, rest, written, encloses⟩ | ⟨enclosure, left⟩
          · rw [List.length_cons] at size
            exact plain index c text noQuote step (ih text.length (by omega) _ text rfl)
          · rw [written] at size ⊢
            rw [List.length_append] at size
            have positive := enclosure.length_written_pos inner
            exact closed index enclosure inner rest encloses
              (ih rest.length (by omega) _ rest rfl)
          · exact unclosed index enclosure _ (by simp) left

end HardcodedText
