import HardcodedText.Proofs.Scanner.Literals
import HardcodedText.Proofs.Scanner.Relocation

/-!
A text that stands at another offset is scanned in the same way, with all offsets moved. So the
literals of a text can be told from those of its parts: before a solitary character they are those
of the part before it, followed by some that reach beyond it, and if the character stands in code,
these are the literals of the part after it.
-/

namespace HardcodedText

def Mode.shift (distance : Nat) : Mode → Mode
  | .code => .code
  | .string delimiter start escaped => .string delimiter (start + distance) escaped
  | .interpolation delimiter start depth => .interpolation delimiter (start + distance) depth
  | .lineComment start => .lineComment (start + distance)
  | .blockComment start depth => .blockComment (start + distance) depth

def Event.shift (distance : Nat) : Event → Event
  | .literalClose delimiter start => .literalClose delimiter (start + distance)
  | .commentClose start => .commentClose (start + distance)
  | event => event

def Moment.shift (distance : Nat) (moment : Moment) : Moment where
  index := moment.index + distance
  before := moment.before.shift distance
  event := moment.event.shift distance
  next := moment.next + distance
  after := moment.after.shift distance

def StringLiteral.shift (distance : Nat) (literal : StringLiteral) : StringLiteral :=
  { literal with start := literal.start + distance }

theorem Mode.shift_eq (distance : Nat) (mode : Mode) :
    mode.shift distance = mode.relocate (· + distance) := by
  cases mode <;> rfl

theorem Moment.shift_eq (distance : Nat) (moment : Moment) :
    moment.shift distance = moment.relocate (· + distance) := by
  have event : moment.event.shift distance = moment.event.relocate (· + distance) := by
    cases moment.event <;> rfl
  rw [shift, relocate, Mode.shift_eq, Mode.shift_eq, event]

theorem steady_add (distance index : Nat) : Steady (· + distance) index := by
  intro offset _
  exact Nat.add_right_comm offset 1 distance

namespace Cursor

def shift (distance : Nat) (cursor : Cursor) : Cursor :=
  ⟨cursor.mode.shift distance, cursor.skip⟩

theorem shift_eq (distance : Nat) (cursor : Cursor) :
    cursor.shift distance = cursor.relocate (· + distance) := by
  rw [shift, relocate, Mode.shift_eq]

theorem next_shift (distance : Nat) (cursor : Cursor) (index : Nat) (c : Char) (rest : Text) :
    (cursor.shift distance).next (index + distance) c rest =
      (cursor.next index c rest).shift distance := by
  rw [shift_eq, shift_eq]
  exact next_relocate (· + distance) cursor index c rest

theorem run_shift (distance : Nat) (cursor : Cursor) (index : Nat) (text : Text) :
    (cursor.shift distance).run (index + distance) text =
      (cursor.run index text).map (Moment.shift distance) := by
  rw [shift_eq, funext (Moment.shift_eq distance)]
  exact run_relocate (steady_add distance index) cursor text

end Cursor

theorem Moment.literalIn?_shift (distance : Nat) (text : Text) (moment : Moment) :
    (moment.shift distance).literalIn? distance text =
      (moment.literalIn? 0 text).map (StringLiteral.shift distance) := by
  cases closes : moment.event with
  | literalClose delimiter start =>
      have place : start + distance + delimiter.width - distance = start + delimiter.width := by
        omega
      simp only [literalIn?, shift, closes, Event.shift, place, Nat.add_sub_cancel,
        Nat.add_sub_add_right, Option.map_some, StringLiteral.shift, Nat.sub_zero]
  | _ => simp [literalIn?, shift, closes, Event.shift]

theorem literalsFrom_eq_shift (distance : Nat) (text : Text) :
    literalsFrom distance text = (stringLiterals text).map (StringLiteral.shift distance) := by
  have moved := Cursor.run_shift distance Cursor.code 0 text
  have code : Cursor.code.shift distance = Cursor.code := rfl
  rw [Nat.zero_add, code] at moved
  rw [stringLiterals_eq, literalsFrom, literalsFrom,
    filterMap_closings (fun _ _ => Moment.isClosing_of_literalIn?),
    filterMap_closings (fun _ _ => Moment.isClosing_of_literalIn?), moved, List.filterMap_map,
    List.map_filterMap]
  apply List.filterMap_congr
  intro moment _
  exact moment.literalIn?_shift distance text

/-! Both sides of a cut. -/

theorem Cursor.moments_bounds {cursor : Cursor} {index : Nat} {c : Char} {rest : Text}
    {moment : Moment} (member : moment ∈ cursor.moments index c rest) :
    moment.index = index ∧
      (index < moment.next ∨ ∃ start, moment.event = .commentClose start) := by
  obtain ⟨mode, skip⟩ := cursor
  cases skip with
  | succ skip => simp [Cursor.moments] at member
  | zero =>
      simp only [Cursor.moments, List.mem_append, List.mem_singleton] at member
      rcases member with settling | consumed
      · cases mode with
        | lineComment start =>
            simp only [Mode.settling] at settling
            split at settling
            · rw [List.mem_singleton] at settling
              subst settling
              exact ⟨rfl, Or.inr ⟨start, rfl⟩⟩
            · simp at settling
        | _ => simp [Mode.settling] at settling
      · subst consumed
        have moving := mode.consume_width_pos index c rest
        exact ⟨rfl, Or.inl (by simp only [Moment.ofStep]; omega)⟩

theorem Cursor.run_bounds {cursor : Cursor} {index : Nat} {text : Text} {moment : Moment}
    (member : moment ∈ cursor.run index text) :
    index ≤ moment.index ∧ moment.index < index + text.length ∧
      (moment.index < moment.next ∨ ∃ start, moment.event = .commentClose start) := by
  induction text generalizing cursor index with
  | nil => simp at member
  | cons c rest ih =>
      rw [Cursor.run_cons, List.mem_append] at member
      rw [List.length_cons]
      rcases member with here | later
      · obtain ⟨same, moving⟩ := Cursor.moments_bounds here
        rw [same]
        exact ⟨by omega, by omega, moving⟩
      · obtain ⟨lower, upper, moving⟩ := ih later
        exact ⟨by omega, by omega, moving⟩

theorem Moment.literalIn?_append_right {index : Nat} {text : Text} {moment : Moment}
    (within : moment.index ≤ index + text.length) (more : Text) :
    moment.literalIn? index (text ++ more) = moment.literalIn? index text := by
  cases closes : moment.event with
  | literalClose delimiter start =>
      simp only [literalIn?, closes, Span.of]
      have room : moment.index - index - (start + delimiter.width - index) ≤
          text.length - (start + delimiter.width - index) := by omega
      rw [List.drop_append, List.take_append_of_le_length (by simpa using room)]
  | _ => simp [literalIn?, closes]

def Cursor.literals (cursor : Cursor) (index : Nat) (text : Text) : List StringLiteral :=
  (cursor.run index text).filterMap (Moment.literalIn? index text)

theorem Cursor.literals_code (index : Nat) (text : Text) :
    Cursor.code.literals index text = literalsFrom index text :=
  (filterMap_closings (fun _ _ => Moment.isClosing_of_literalIn?) _ _ _).symm

theorem Cursor.lt_stop_of_mem_literals {cursor : Cursor} {first index : Nat} {text full : Text}
    {literal : StringLiteral}
    (member : literal ∈ (cursor.run index text).filterMap (Moment.literalIn? first full)) :
    index < literal.stop := by
  obtain ⟨moment, ran, found⟩ := List.mem_filterMap.mp member
  obtain ⟨lower, -, moving⟩ := Cursor.run_bounds ran
  cases closes : moment.event with
  | literalClose delimiter start =>
      simp only [Moment.literalIn?, closes, Option.some_inj] at found
      subst found
      rcases moving with moving | ⟨other, comment⟩
      · simp only [StringLiteral.stop]
        omega
      · simp [closes] at comment
  | _ => simp [Moment.literalIn?, closes] at found

theorem filterMap_literalIn?_append_right (cursor : Cursor) (index : Nat) (text more : Text) :
    (cursor.run index text).filterMap (Moment.literalIn? index (text ++ more)) =
      cursor.literals index text := by
  apply List.filterMap_congr
  intro moment member
  obtain ⟨-, upper, -⟩ := Cursor.run_bounds member
  exact Moment.literalIn?_append_right (by omega) more

/-- Before a solitary character stand the literals of the part before it. -/
theorem literalsFrom_append_solitary {x : Char} (solitary : Solitary x) (index : Nat)
    (body more : Text) :
    ∃ later, literalsFrom index (body ++ x :: more) = literalsFrom index body ++ later ∧
      ∀ literal ∈ later, index + body.length < literal.stop := by
  rw [← Cursor.literals_code, ← Cursor.literals_code, Cursor.literals,
    Cursor.run_append_solitary Mode.sound_code solitary, List.filterMap_append,
    filterMap_literalIn?_append_right]
  exact ⟨_, rfl, fun literal member => Cursor.lt_stop_of_mem_literals member⟩

theorem literalsFrom_of_mem (index : Nat) (text : Text) : ∀ literal ∈ literalsFrom index text,
    ∃ later, literalsFrom literal.start (text.drop (literal.start - index)) =
      literal :: later := by
  induction index, text using code_induction with
  | nil index => simp
  | plain index c rest _ step ih =>
      intro literal member
      rw [literalsFrom_plain step] at member
      have first := (literalsFrom_writtenIn _ _ literal member).first
      have place : literal.start - index = literal.start - (index + 1) + 1 := by omega
      rw [place, List.drop_succ_cons]
      exact ih literal member
  | closed index enclosure inner rest encloses ih =>
      intro literal member
      rw [literalsFrom_closed encloses, List.mem_append, Option.mem_toList] at member
      rcases member with found | member
      · have start := (Enclosure.literal?_writtenIn encloses found).2.1
        rw [start, Nat.sub_self, List.drop_zero, literalsFrom_closed encloses, found]
        exact ⟨_, rfl⟩
      · have first := (literalsFrom_writtenIn _ _ literal member).first
        have place : literal.start - index = (enclosure.written inner).length +
            (literal.start - (index + (enclosure.written inner).length)) := by omega
        rw [place, List.drop_length_add_append]
        exact ih literal member
  | unclosed index enclosure text _ left => simp [literalsFrom_unclosed left]

theorem stringLiterals_of_mem {text : Text} {literal : StringLiteral}
    (member : literal ∈ stringLiterals text) :
    ∃ first later, stringLiterals (text.drop literal.start) = first :: later ∧
      first.shift literal.start = literal := by
  rw [stringLiterals_eq] at member
  obtain ⟨later, listed⟩ := literalsFrom_of_mem 0 text literal member
  rw [Nat.sub_zero, literalsFrom_eq_shift] at listed
  obtain ⟨first, rest, found, same, -⟩ := List.map_eq_cons_iff.mp listed
  exact ⟨first, rest, found, same⟩

theorem stringLiterals_of_inCode {front back : Text} (inCode : InCode front ('(' :: back)) :
    stringLiterals (front ++ '(' :: back) =
      stringLiterals front ++ literalsFrom (front.length + 1) back := by
  have here : Cursor.code.advance 0 front [] = Cursor.code := by
    rw [← Cursor.advance_solitary Mode.sound_code solitary_openParenthesis 0 front back]
    exact inCode.eq_code (by decide)
  have step : Mode.code.step front.length '(' back = ⟨.none, 1, .code⟩ := by
    simp [Mode.step, stepCode, isQuote]
  have after : (Cursor.code.run front.length ('(' :: back)).filterMap
      (Moment.literalIn? 0 (front ++ '(' :: back)) = literalsFrom (front.length + 1) back := by
    rw [← filterMap_closings (fun _ _ => Moment.isClosing_of_literalIn?), closings_plain step]
    have split := filterMap_literalIn?_append 0 (front ++ ['(']) back
    rwa [Nat.zero_add, List.length_append, List.length_singleton, List.append_assoc,
      List.singleton_append] at split
  rw [stringLiterals_eq, stringLiterals_eq, ← Cursor.literals_code, ← Cursor.literals_code,
    Cursor.literals, Cursor.run_append_solitary Mode.sound_code solitary_openParenthesis,
    List.filterMap_append, filterMap_literalIn?_append_right, here, Nat.zero_add, after]

end HardcodedText
