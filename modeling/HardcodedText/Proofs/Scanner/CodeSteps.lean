import HardcodedText.Proofs.Scanner.Cut

/-!
The steps that begin in code. A literal or a comment has one of them, the step that opens it, and
every other step in code reads one plain character. So the places that a run reaches in code are
the plain characters of a text and the beginnings of its literals and comments.
-/

namespace HardcodedText

theorem Mode.step_code_of_none {index : Nat} {c : Char} {rest : Text}
    (quiet : (Mode.code.step index c rest).event = .none) :
    Mode.code.step index c rest = ⟨.none, 1, .code⟩ := by
  simp only [step, stepCode] at quiet ⊢
  split at quiet
  · simp at quiet
  · split at quiet
    · simp at quiet
    · split at quiet
      · simp at quiet
      next noQuote noLine noBlock => rw [if_neg noQuote, if_neg noLine, if_neg noBlock]

namespace Cursor

def momentsOver (cursor : Cursor) (index : Nat) (body rest : Text) : List Moment :=
  match body with
  | [] => []
  | c :: later =>
      cursor.moments index c (later ++ rest) ++
        (cursor.next index c (later ++ rest)).momentsOver (index + 1) later rest

theorem run_append (cursor : Cursor) (index : Nat) (body rest : Text) :
    cursor.run index (body ++ rest) =
      cursor.momentsOver index body rest ++
        (cursor.advance index body rest).run (index + body.length) rest := by
  induction body generalizing cursor index with
  | nil => rfl
  | cons c body ih =>
      rw [List.cons_append, run_cons, ih, momentsOver, advance, List.append_assoc,
        List.length_cons, Nat.add_assoc, Nat.add_comm 1]

theorem momentsOver_bounds {cursor : Cursor} {index : Nat} {body rest : Text} {moment : Moment}
    (member : moment ∈ cursor.momentsOver index body rest) :
    moment.index < index + body.length := by
  induction body generalizing cursor index with
  | nil => simp [momentsOver] at member
  | cons c body ih =>
      rw [momentsOver, List.mem_append] at member
      rw [List.length_cons]
      rcases member with here | later
      · have same := (moments_bounds here).1
        omega
      · have bound := ih later
        omega

theorem skip_le_of_mem_run {cursor : Cursor} {index : Nat} {text : Text} {moment : Moment}
    (member : moment ∈ cursor.run index text) : index + cursor.skip ≤ moment.index := by
  induction text generalizing cursor index with
  | nil => simp at member
  | cons c rest ih =>
      obtain ⟨mode, skip⟩ := cursor
      cases skip with
      | zero => exact (run_bounds member).1
      | succ skip =>
          have later : moment ∈ (⟨mode, skip⟩ : Cursor).run (index + 1) rest := by
            rwa [run_cons] at member
          have bound := ih later
          simp only at bound ⊢
          omega

theorem le_next_of_mem_run {cursor : Cursor} {index : Nat} {text : Text} {moment : Moment}
    (member : moment ∈ cursor.run index text) : moment.index ≤ moment.next := by
  induction text generalizing cursor index with
  | nil => simp at member
  | cons c rest ih =>
      rw [run_cons, List.mem_append] at member
      rcases member with here | later
      · obtain ⟨mode, skip⟩ := cursor
        cases skip with
        | succ skip => simp [moments] at here
        | zero =>
            rw [moments, List.mem_append, List.mem_singleton] at here
            rcases here with settling | rfl
            · cases mode with
              | lineComment start =>
                  rw [Mode.settling] at settling
                  split at settling
                  · obtain rfl := List.mem_singleton.mp settling
                    exact Nat.le_refl _
                  · simp at settling
              | _ => simp [Mode.settling] at settling
            · exact Nat.le_add_right _ _
      · exact ih later

theorem mem_run_next {mode : Mode} {index : Nat} {c : Char} {rest : Text} {moment : Moment}
    (settled : mode.settle c = mode) (notCode : mode ≠ .code)
    (member : moment ∈ (⟨mode, 0⟩ : Cursor).run index (c :: rest))
    (inCode : moment.before = .code) :
    moment ∈ (next ⟨mode, 0⟩ index c rest).run (index + 1) rest := by
  rw [run_cons, List.mem_append] at member
  rcases member with here | later
  · simp only [moments, Mode.settling_eq_nil settled, settled, Moment.ofStep, List.nil_append,
      List.mem_singleton] at here
    rw [here] at inCode
    exact absurd inCode notCode
  · exact later

theorem ofStep_mem_closings {mode : Mode} {index : Nat} {c : Char} {rest : Text}
    (settled : mode.settle c = mode) (closes : (mode.step index c rest).event.isClosing = true) :
    Moment.ofStep index mode (mode.step index c rest) ∈
      (⟨mode, 0⟩ : Cursor).closings index (c :: rest) := by
  rw [closings_cons]
  apply List.mem_append_left
  rw [List.mem_filter]
  exact ⟨by simp [moments, Mode.consume, settled], closes⟩

/-- From inside of a literal or a comment a run gets to code only by closing it. -/
theorem closes_before_code {enclosure : Enclosure} {cursor : Cursor} {index : Nat} {text : Text}
    (inside : cursor.mode.enclosure = some enclosure) {moment : Moment}
    (member : moment ∈ cursor.run index text) (inCode : moment.before = .code) :
    ∃ closing ∈ cursor.closings index text, closing.next ≤ moment.index := by
  induction text generalizing cursor index with
  | nil => simp at member
  | cons c rest ih =>
      obtain ⟨mode, skip⟩ := cursor
      cases skip with
      | succ skip =>
          have later : moment ∈ (⟨mode, skip⟩ : Cursor).run (index + 1) rest := by
            rwa [run_cons] at member
          rw [closings_cons]
          exact ih inside later
      | zero =>
          rcases mode.settle_eq_self_or c with settled | ⟨start, rfl, rfl⟩
          · have notCode : mode ≠ .code := by
              rintro rfl
              simp [Mode.enclosure] at inside
            have later := mem_run_next settled notCode member inCode
            rcases Mode.step_enclosed_cases inside settled index rest with
              ⟨-, still, -⟩ | ⟨closed, -⟩
            · have stays : (next ⟨mode, 0⟩ index c rest).mode.enclosure = some enclosure := by
                simpa [next, Mode.consume, settled] using still
              obtain ⟨closing, listed, before⟩ := ih stays later
              rw [closings_cons]
              exact ⟨closing, List.mem_append_right _ listed, before⟩
            · have closes : (mode.step index c rest).event.isClosing = true := by
                rw [closed]
                cases enclosure <;> rfl
              refine ⟨_, ofStep_mem_closings settled closes, ?_⟩
              have bound := skip_le_of_mem_run later
              have moving := Mode.step_width_pos settled index rest
              simp only [next, Mode.consume, settled] at bound
              simp only [Moment.ofStep]
              omega
          -- The line feed closes the comment before it is read in code itself.
          · refine ⟨⟨index, .lineComment start, .commentClose start, index, .code⟩, ?_,
              (run_bounds member).1⟩
            rw [closings_cons]
            apply List.mem_append_left
            simp [moments, Mode.settling, Event.isClosing]

theorem AtCode.mem_run_iff {cursor : Cursor} {text : Text} (atCode : cursor.AtCode text)
    (index : Nat) {moment : Moment} (inCode : moment.before = .code) :
    moment ∈ cursor.run index text ↔ moment ∈ Cursor.code.run index text := by
  cases text with
  | nil => simp
  | cons c rest =>
      rw [run_cons, run_cons, List.mem_append, List.mem_append, atCode.next_eq]
      have first : moment ∈ cursor.moments index c rest ↔
          moment ∈ Cursor.code.moments index c rest := by
        obtain ⟨mode, skip⟩ := cursor
        obtain ⟨here, settled⟩ := atCode
        simp only at here settled
        subst here
        rcases mode.settle_eq_self_or c with same | ⟨start, rfl, rfl⟩
        · rw [← same, settled]
          rfl
        · have other : moment ≠ ⟨index, .lineComment start, .commentClose start, index, .code⟩ := by
            rintro rfl
            simp at inCode
          simp [moments, Mode.settling, Mode.settle, Mode.consume, code, other]
      rw [first]

end Cursor

theorem Encloses.not_plain {index : Nat} {enclosure : Enclosure} {inner rest : Text} {c : Char}
    {body : Text} (encloses : Encloses index enclosure inner rest)
    (written : enclosure.written inner ++ rest = c :: body) :
    Mode.code.step index c body ≠ ⟨.none, 1, .code⟩ := by
  intro step
  have spans := inertFrom_closed encloses
  rw [written, inertFrom_plain step] at spans
  have bounds := (inertFrom_ordered (index + 1) body).bounded ⟨index, _⟩ (by
    rw [spans]
    exact List.mem_cons_self)
  simp only at bounds
  omega

/-- A step in code that is no plain one opens something; the next step in code comes after what
closes it. -/
theorem code_step_cases {index : Nat} {c : Char} {text : Text} {moment : Moment}
    (opens : Mode.code.step index c text ≠ ⟨.none, 1, .code⟩)
    (member : moment ∈ Cursor.code.run index (c :: text)) (inCode : moment.before = .code) :
    (moment.index = index ∧ moment.event ≠ .none) ∨
      ∃ closing ∈ Cursor.code.closings index (c :: text), closing.next ≤ moment.index := by
  rw [Cursor.run_cons, List.mem_append] at member
  rcases member with here | later
  · refine Or.inl ⟨(Cursor.moments_bounds here).1, ?_⟩
    intro quiet
    apply opens
    apply Mode.step_code_of_none
    simp only [Cursor.moments, Cursor.code, Mode.settling, Mode.settle, Mode.consume,
      Moment.ofStep, List.nil_append, List.mem_singleton] at here
    rw [here] at quiet
    exact quiet
  · rcases Mode.step_code_cases index c text with ⟨-, plain⟩ | ⟨enclosure, -, -, -, -, inside, -⟩
    · exact absurd plain opens
    · obtain ⟨closing, listed, before⟩ := Cursor.closes_before_code inside later inCode
      refine Or.inr ⟨closing, ?_, before⟩
      rw [Cursor.closings_cons]
      exact List.mem_append_right _ listed

/-- A closed literal or comment is opened by one step in code, and the other ones come after it. -/
theorem Encloses.code_steps {index : Nat} {enclosure : Enclosure} {inner rest : Text}
    (encloses : Encloses index enclosure inner rest) {moment : Moment}
    (member : moment ∈ Cursor.code.run index (enclosure.written inner ++ rest))
    (inCode : moment.before = .code) :
    (moment.index = index ∧ moment.event ≠ .none) ∨
      moment ∈ Cursor.code.run (index + (enclosure.written inner).length) rest := by
  have positive := enclosure.length_written_pos inner
  obtain ⟨c, body, written⟩ := List.exists_cons_of_length_pos
    (by rw [List.length_append]; omega : 0 < (enclosure.written inner ++ rest).length)
  have cases := code_step_cases (encloses.not_plain written) (written ▸ member) inCode
  rw [← written] at cases
  rcases cases with opening | ⟨closing, listed, before⟩
  · exact Or.inl opening
  · refine Or.inr ?_
    have beyond : index + (enclosure.written inner).length ≤ closing.next := by
      obtain ⟨mode, closings⟩ := encloses.closings_eq
      rw [closings rest (Erases.refl rest), List.mem_cons] at listed
      rcases listed with rfl | later
      · exact Nat.le_refl _
      · have ran := (List.mem_filter.mp later).1
        exact Nat.le_trans (Cursor.run_bounds ran).1 (Cursor.le_next_of_mem_run ran)
    rw [Cursor.run_append, List.mem_append] at member
    rcases member with inside | after
    · have bound := Cursor.momentsOver_bounds inside
      omega
    · exact (encloses.arrives.mem_run_iff _ inCode).mp after

theorem Encloses.mem_run_of_code {index : Nat} {enclosure : Enclosure} {inner rest : Text}
    (encloses : Encloses index enclosure inner rest) {moment : Moment}
    (member : moment ∈ Cursor.code.run (index + (enclosure.written inner).length) rest)
    (inCode : moment.before = .code) :
    moment ∈ Cursor.code.run index (enclosure.written inner ++ rest) := by
  rw [Cursor.run_append, List.mem_append]
  exact Or.inr ((encloses.arrives.mem_run_iff _ inCode).mpr member)

theorem LeftOpen.code_steps {index : Nat} {enclosure : Enclosure} {text : Text}
    (left : LeftOpen index enclosure text) {moment : Moment}
    (member : moment ∈ Cursor.code.run index text) (inCode : moment.before = .code) :
    moment.index = index ∧ moment.event ≠ .none := by
  cases text with
  | nil => simp at member
  | cons c rest =>
      rcases code_step_cases left.not_plain member inCode with opening | ⟨closing, listed, -⟩
      · exact opening
      · rw [left.silent] at listed
        simp at listed

end HardcodedText
