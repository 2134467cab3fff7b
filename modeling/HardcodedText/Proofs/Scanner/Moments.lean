import HardcodedText.Proofs.LiteralGrammar

/-!
The moments over a part of a text. Where the scanner owes no character at the end of the part, its
moments lie in the part and cover all that it does not owe at the beginning. A closed literal has
the moments over its content to itself: all others of the run are over before it or begin behind it.
-/

namespace HardcodedText

namespace Cursor

variable {cursor : Cursor} {index : Nat} {body rest : Text} {moment : Moment}

theorem momentsOver_append (cursor : Cursor) (index : Nat) (body more rest : Text) :
    cursor.momentsOver index (body ++ more) rest =
      cursor.momentsOver index body (more ++ rest) ++
        (cursor.advance index body (more ++ rest)).momentsOver (index + body.length) more rest := by
  induction body generalizing cursor index with
  | nil => rfl
  | cons c body ih =>
      rw [List.cons_append, momentsOver, ih, momentsOver, advance, List.append_assoc,
        List.append_assoc, List.length_cons, Nat.add_assoc, Nat.add_comm 1]

theorem le_index_of_mem_momentsOver (member : moment ∈ cursor.momentsOver index body rest) :
    index ≤ moment.index := by
  have ran : moment ∈ cursor.run index (body ++ rest) := by
    rw [run_append]
    exact List.mem_append_left _ member
  exact (run_bounds ran).1

theorem next_le_of_mem_moments {c : Char} (member : moment ∈ cursor.moments index c rest) :
    moment.next ≤ index + 1 + (cursor.next index c rest).skip := by
  obtain ⟨mode, skip⟩ := cursor
  cases skip with
  | succ skip => simp [moments] at member
  | zero =>
      rw [moments, List.mem_append, List.mem_singleton] at member
      rcases member with settling | rfl
      · cases mode with
        | lineComment start =>
            rw [Mode.settling] at settling
            split at settling
            · obtain rfl := List.mem_singleton.mp settling
              simp only
              omega
            · simp at settling
        | _ => simp [Mode.settling] at settling
      · simp only [Moment.ofStep, next]
        omega

theorem next_le_of_mem_momentsOver (done : (cursor.advance index body rest).skip = 0)
    (member : moment ∈ cursor.momentsOver index body rest) :
    moment.next ≤ index + body.length := by
  induction body generalizing cursor index with
  | nil => simp [momentsOver] at member
  | cons c body ih =>
      rw [momentsOver, List.mem_append] at member
      rw [List.length_cons]
      rcases member with here | later
      · have bound := next_le_of_mem_moments here
        have owed : (cursor.next index c (body ++ rest)).skip ≤ body.length :=
          skip_le_of_advance done
        omega
      · have bound := ih done later
        omega

/-- The moments leave no gap. -/
theorem exists_moment_at {place : Nat} (first : index + cursor.skip ≤ place)
    (last : place < index + body.length) :
    ∃ moment ∈ cursor.momentsOver index body rest, moment.index ≤ place ∧ place < moment.next := by
  induction body generalizing cursor index with
  | nil =>
      rw [List.length_nil] at last
      omega
  | cons c body ih =>
      rw [List.length_cons] at last
      obtain ⟨mode, skip⟩ := cursor
      cases skip with
      | succ skip =>
          simp only at first
          obtain ⟨moment, member, within⟩ := @ih ⟨mode, skip⟩ (index + 1)
            (by simp only; omega) (by omega)
          exact ⟨moment, by rwa [momentsOver], within⟩
      | zero =>
          have moving := mode.consume_width_pos index c (body ++ rest)
          have here : Moment.ofStep index (mode.settle c) (mode.consume index c (body ++ rest)) ∈
              (⟨mode, 0⟩ : Cursor).moments index c (body ++ rest) := by simp [moments]
          by_cases reached : place < index + (mode.consume index c (body ++ rest)).width
          · exact ⟨_, List.mem_append_left _ here, first, reached⟩
          · obtain ⟨moment, member, within⟩ := @ih (next ⟨mode, 0⟩ index c (body ++ rest))
              (index + 1) (by simp only [next]; omega) (by omega)
            exact ⟨moment, List.mem_append_right _ member, within⟩

theorem momentsOver_singleton {mode : Mode} {c : Char} (settled : mode.settle c = mode)
    (index : Nat) (rest : Text) :
    (⟨mode, 0⟩ : Cursor).momentsOver index [c] rest =
      [Moment.ofStep index mode (mode.step index c rest)] := by
  simp [momentsOver, moments, Mode.settling_eq_nil settled, Mode.consume, settled]

end Cursor

/-- A text gets to each of its closed literals in code. -/
theorem exists_code_before_literal {literal : StringLiteral} (index : Nat) (text : Text) :
    literal ∈ literalsFrom index text →
    ∃ front back, text = front ++ back ∧ literal.start = index + front.length ∧
      (Cursor.code.advance index front back).AtCode back ∧
      literal ∈ literalsFrom literal.start back := by
  induction index, text using code_induction with
  | nil index => simp
  | plain index c rest _ step ih =>
      intro member
      rw [literalsFrom_plain step] at member
      obtain ⟨front, back, rfl, start, arrives, listed⟩ := ih member
      refine ⟨c :: front, back, rfl, ?_, ?_, listed⟩
      · rw [start, List.length_cons]
        omega
      · rwa [Cursor.advance, Cursor.next_code_plain step]
  | closed index enclosure inner rest encloses ih =>
      intro member
      have whole := member
      rw [literalsFrom_closed encloses, List.mem_append, Option.mem_toList] at member
      rcases member with found | later
      · have start := (Enclosure.literal?_writtenIn encloses found).2.1
        exact ⟨[], _, rfl, start, Cursor.atCode_code _, by rwa [start]⟩
      · obtain ⟨front, back, rfl, start, arrives, listed⟩ := ih later
        refine ⟨enclosure.written inner ++ front, back, by rw [List.append_assoc], ?_, ?_, listed⟩
        · rw [start, List.length_append, Nat.add_assoc]
        · rw [Cursor.advance_append]
          exact encloses.arrives.advance arrives
  | unclosed index enclosure text _ left => simp [literalsFrom_unclosed left]

def StringLiteral.contentStart (literal : StringLiteral) : Nat :=
  literal.start + literal.delimiter.width

/-- A literal of the text with its items, the text before it and the text behind it. The scanner is
in code before it and in the literal behind its opening quotes. -/
structure StringLiteral.Spelled (literal : StringLiteral) (text front : Text)
    (items : List ContentItem) (rest : Text) : Prop where
  split : text = front ++ (literal.delimiter.text ++
    (contentText items ++ (literal.delimiter.text ++ rest)))
  start_eq : literal.start = front.length
  content_eq : literal.content = contentText items
  fit : ItemsFit literal.delimiter.text (literal.delimiter.text ++ rest) items
  quoted : isQuote literal.delimiter.quote = true
  reached : Cursor.code.advance 0 front (literal.delimiter.text ++
    (contentText items ++ (literal.delimiter.text ++ rest))) = Cursor.code
  opened : Cursor.code.advance literal.start literal.delimiter.text
    (contentText items ++ (literal.delimiter.text ++ rest)) =
      Cursor.inLiteral literal.delimiter literal.start

theorem StringLiteral.exists_spelled {text : Text} {literal : StringLiteral}
    (member : literal ∈ stringLiterals text) :
    ∃ front items rest, literal.Spelled text front items rest := by
  have begins := (quotes_of_mem_stringLiterals member).1
  have quoted := (stringLiterals_writtenIn member).quoted
  rw [stringLiterals_eq] at member
  obtain ⟨front, back, rfl, start, arrives, listed⟩ := exists_code_before_literal 0 text member
  rw [Nat.zero_add] at start
  rw [start, List.getElem?_append_right (Nat.le_refl _), Nat.sub_self] at begins
  obtain ⟨tail, rfl⟩ : ∃ tail, back = literal.delimiter.quote :: tail := by
    cases back with
    | nil => simp at begins
    | cons c tail =>
        obtain rfl := Option.some_inj.mp begins
        exact ⟨tail, rfl⟩
  have reached : Cursor.code.advance 0 front (literal.delimiter.quote :: tail) = Cursor.code := by
    refine arrives.eq_code ?_
    intro lineEnd
    rw [lineEnd] at quoted
    exact absurd quoted (by decide)
  obtain ⟨content, ⟨items, rest, spelled, rfl, fit⟩, same⟩ :=
    (mem_literalsFrom_iff quoted literal.start tail literal).mp ⟨listed, rfl⟩
  rw [← text_opening] at spelled fit
  have opened := (Cursor.passes_opening quoted literal.start spelled).arrives
  have delimiter : Delimiter.opening literal.delimiter.quote tail = literal.delimiter :=
    (congrArg StringLiteral.delimiter same).symm
  rw [delimiter] at spelled fit opened
  exact ⟨front, items, rest, by rw [← spelled], start, congrArg StringLiteral.content same, fit,
    quoted, by rwa [← spelled], opened⟩

namespace StringLiteral.Spelled

variable {literal : StringLiteral} {text front rest : Text} {items : List ContentItem}

theorem contentStart_eq (spelled : literal.Spelled text front items rest) :
    literal.contentStart = front.length + literal.delimiter.text.length := by
  rw [contentStart, spelled.start_eq, Delimiter.length_text]

theorem drop_contentStart (spelled : literal.Spelled text front items rest) :
    text.drop literal.contentStart = contentText items ++ (literal.delimiter.text ++ rest) := by
  rw [spelled.contentStart_eq, spelled.split, ← List.append_assoc, ← List.length_append,
    List.drop_left]

/-- The moments over the content stand between those that are over before it and those that begin
behind it. -/
theorem exists_moments (spelled : literal.Spelled text front items rest) :
    ∃ earlier later, run text = earlier ++
        (Cursor.inLiteral literal.delimiter literal.start).momentsOver literal.contentStart
          (contentText items) (literal.delimiter.text ++ rest) ++ later ∧
      (∀ moment ∈ earlier, moment.index < literal.contentStart ∧
        moment.next ≤ literal.contentStart) ∧
      ∀ moment ∈ later, literal.contentStart + (contentText items).length ≤ moment.index := by
  have whole : run text = Cursor.code.run 0 text := rfl
  have start := spelled.start_eq
  have place := spelled.contentStart_eq
  have positive := List.length_pos_iff.mpr literal.delimiter.text_ne_nil
  rw [whole, spelled.split, Cursor.run_append, spelled.reached, Nat.zero_add, ← start,
    Cursor.run_append, spelled.opened, start, ← place, ← start, Cursor.run_append]
  refine ⟨_, _, (List.append_assoc ..).symm.trans (List.append_assoc ..).symm, ?_, ?_⟩
  · intro moment earlier
    rw [List.mem_append] at earlier
    rcases earlier with before | opening
    · have bound := Cursor.momentsOver_bounds before
      have last := Cursor.next_le_of_mem_momentsOver (by rw [spelled.reached]; rfl) before
      omega
    · have bound := Cursor.momentsOver_bounds opening
      have last := Cursor.next_le_of_mem_momentsOver (by rw [spelled.opened]; rfl) opening
      omega
  · intro moment later
    exact (Cursor.run_bounds later).1

end StringLiteral.Spelled

end HardcodedText
