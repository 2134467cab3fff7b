import HardcodedText.Proofs.Scanner.Enclosure
import HardcodedText.Scanner.Registers

/-!
What the registers of the scanner hold is one mode of it at a time, and a step of the machine is the
step of that mode: it always has an outcome.
-/

namespace HardcodedText

def Event.signal : Event → Signal
  | .none => .none
  | .literalOpen => .literalOpen
  | .literalClose .. => .literalClose
  | .commentOpen => .commentOpen
  | .commentClose _ => .commentClose

namespace Registers

/-- The registers hold the mode. Those that the mode does not use may hold anything, but for the
braces, which are never fewer than none. -/
def Holds (registers : Registers) (mode : Mode) : Prop :=
  0 ≤ registers.braceDepth ∧
    match mode with
    | .code => registers.phase = .code
    | .string delimiter start escaped => registers.phase = .string ∧
        registers.delimiter = delimiter.text ∧ registers.literalStart = some start ∧
        decide (registers.backslashes % 2 = 1) = escaped
    | .interpolation delimiter start depth => registers.phase = .interpolation ∧
        registers.delimiter = delimiter.text ∧ registers.literalStart = some start ∧
        registers.braceDepth = depth
    | .lineComment start => registers.phase = .lineComment ∧ registers.commentStart = some start
    | .blockComment start depth => registers.phase = .blockComment ∧
        registers.commentStart = some start ∧ registers.commentDepth = depth

section Held

variable {registers : Registers}

@[simp] theorem holds_code :
    registers.Holds .code ↔ 0 ≤ registers.braceDepth ∧ registers.phase = .code :=
  Iff.rfl

@[simp] theorem holds_string {delimiter : Delimiter} {start : Nat} {escaped : Bool} :
    registers.Holds (.string delimiter start escaped) ↔
      0 ≤ registers.braceDepth ∧ registers.phase = .string ∧
        registers.delimiter = delimiter.text ∧ registers.literalStart = some start ∧
        decide (registers.backslashes % 2 = 1) = escaped :=
  Iff.rfl

@[simp] theorem holds_interpolation {delimiter : Delimiter} {start depth : Nat} :
    registers.Holds (.interpolation delimiter start depth) ↔
      0 ≤ registers.braceDepth ∧ registers.phase = .interpolation ∧
        registers.delimiter = delimiter.text ∧ registers.literalStart = some start ∧
        registers.braceDepth = depth :=
  Iff.rfl

@[simp] theorem holds_lineComment {start : Nat} :
    registers.Holds (.lineComment start) ↔ 0 ≤ registers.braceDepth ∧
      registers.phase = .lineComment ∧ registers.commentStart = some start :=
  Iff.rfl

@[simp] theorem holds_blockComment {start depth : Nat} :
    registers.Holds (.blockComment start depth) ↔ 0 ≤ registers.braceDepth ∧
      registers.phase = .blockComment ∧ registers.commentStart = some start ∧
      registers.commentDepth = depth :=
  Iff.rfl

end Held

theorem holds_initial : Holds {} .code :=
  ⟨Int.le_refl 0, rfl⟩

end Registers

/-! The character at an index, with the text behind it. -/

section Reading

variable {text : Text} {index : Nat} {c : Char} {rest : Text}

theorem getElem?_of_drop (split : text.drop index = c :: rest) : text[index]? = some c := by
  have first := congrArg (fun text : Text => text[0]?) split
  simpa using first

theorem drop_succ_of_drop (split : text.drop index = c :: rest) : text.drop (index + 1) = rest := by
  rw [← List.drop_drop, split, List.drop_one, List.tail_cons]

theorem length_of_drop (split : text.drop index = c :: rest) :
    text.length = index + rest.length + 1 := by
  have length := congrArg List.length split
  rw [List.length_drop, List.length_cons] at length
  omega

theorem getElem?_succ_of_drop (split : text.drop index = c :: rest) :
    text[index + 1]? = rest.head? := by
  rw [← drop_succ_of_drop split, List.head?_drop]

theorem readsAt_of_drop (split : text.drop index = c :: rest) (token : Text) :
    text.readsAt token index = token.isPrefixOf (c :: rest) := by
  rw [Text.readsAt, split]

theorem readsAt_succ_of_drop (split : text.drop index = c :: rest) (follower : Char) :
    text.readsAt [follower] (index + 1) = (rest.head? == some follower) := by
  rw [Text.readsAt, drop_succ_of_drop split]
  cases rest with
  | nil => rfl
  | cons next rest => simp [List.isPrefixOf, BEq.comm]

theorem readsAt_pair_of_drop (split : text.drop index = c :: rest) (first second : Char) :
    text.readsAt [first, second] index = (c == first && rest.head? == some second) := by
  rw [readsAt_of_drop split]
  cases rest with
  | nil => simp [List.isPrefixOf]
  | cons next rest => simp [List.isPrefixOf, BEq.comm]

end Reading

def Registers.Follows (registers : Registers) (text : Text) (index : Nat) (step : Step) : Prop :=
  ∃ after, registers.step? text index = some ⟨step.event.signal, index + step.width, after⟩ ∧
    after.Holds step.mode

namespace Registers

variable {registers : Registers} {text rest : Text} {index : Nat} {c : Char}

theorem follows_code (holds : registers.Holds .code) (split : text.drop index = c :: rest) :
    registers.Follows text index (Mode.code.step index c rest) := by
  obtain ⟨braces, phase⟩ := holds_code.mp holds
  have delimiter : (if text.readsAt [c, c, c] index then [c, c, c] else [c]) =
      (Delimiter.opening c rest).text := by
    simp [readsAt_of_drop split, Delimiter.opening, Delimiter.text, List.isPrefixOf]
  simp only [Follows, step?, getElem?_of_drop split, phase, stepCode, delimiter,
    getElem?_succ_of_drop split, Mode.step, HardcodedText.stepCode]
  by_cases quote : isQuote c = true
  · simp [quote, Delimiter.length_text, Event.signal, braces]
  · have length := length_of_drop split
    cases rest with
    | nil =>
        have last : ¬ index + 1 < text.length := by simp [length]
        simp [quote, last, Event.signal, phase, braces]
    | cons follower rest =>
        have more : index + 1 < text.length := by simp [length]
        by_cases slash : c = '/'
        · subst slash
          by_cases line : follower = '/'
          · simp [quote, more, line, Event.signal, braces]
          · by_cases block : follower = '*'
            · simp [quote, more, block, Event.signal, braces]
            · simp [quote, more, line, block, Event.signal, phase, braces]
        · simp [quote, slash, Event.signal, phase, braces]

theorem follows_string {delimiter : Delimiter} {start : Nat} {escaped : Bool}
    (holds : registers.Holds (.string delimiter start escaped))
    (split : text.drop index = c :: rest) :
    registers.Follows text index ((Mode.string delimiter start escaped).step index c rest) := by
  obtain ⟨braces, phase, quotes, began, parity⟩ := holds_string.mp holds
  have first : delimiter.text[0]? = some delimiter.quote := by
    cases delimiter with
    | mk quote tripled => cases tripled <;> rfl
  have closes : (c == delimiter.quote && delimiter.text.isPrefixOf (c :: rest)) =
      delimiter.text.isPrefixOf (c :: rest) := by
    cases delimiter with
    | mk quote tripled => cases tripled <;> simp [Delimiter.text, List.isPrefixOf, BEq.comm]
  simp only [Follows, step?, getElem?_of_drop split, phase, stepString, quotes, first,
    readsAt_of_drop split, readsAt_succ_of_drop split, closes, Delimiter.length_text, Mode.step,
    HardcodedText.stepString]
  by_cases backslash : c = '\\'
  · have flipped : decide ((registers.backslashes + 1) % 2 = 1) = !escaped := by
      rw [← parity, ← decide_not, decide_eq_decide]
      omega
    simp [backslash, Event.signal, braces, began, flipped]
  · cases escaped with
    | true =>
        have odd : registers.backslashes % 2 = 1 := of_decide_eq_true parity
        simp [backslash, odd, Event.signal, braces, began]
    | false =>
        have even : ¬ registers.backslashes % 2 = 1 := of_decide_eq_false parity
        by_cases interpolated : (c == '$' && rest.head? == some '\x7b') = true
        · simp [backslash, even, interpolated, Event.signal, began]
        · by_cases closing : delimiter.text.isPrefixOf (c :: rest) = true
          · simp [backslash, even, interpolated, closing, Event.signal, braces]
          · simp [backslash, even, interpolated, closing, Event.signal, braces, began]

theorem follows_interpolation {delimiter : Delimiter} {start depth : Nat}
    (holds : registers.Holds (.interpolation delimiter start depth))
    (split : text.drop index = c :: rest) :
    registers.Follows text index
      ((Mode.interpolation delimiter start depth).step index c rest) := by
  obtain ⟨-, phase, quotes, began, depth_eq⟩ := holds_interpolation.mp holds
  simp only [Follows, step?, getElem?_of_drop split, phase, stepInterpolation, depth_eq, Mode.step,
    HardcodedText.stepInterpolation]
  by_cases opening : c = '\x7b'
  · simp [opening, Event.signal, quotes, began]
    omega
  · by_cases closing : c = '\x7d'
    · cases depth with
      | zero => simp [closing, Event.signal, quotes, began]
      | succ depth =>
          have inner : ¬ (depth : Int) + 1 = 0 := by omega
          simp [closing, inner, Event.signal, quotes, began]
    · simp [opening, closing, Event.signal, phase, quotes, began, depth_eq]

theorem follows_lineComment {start : Nat} (holds : registers.Holds (.lineComment start))
    (split : text.drop index = c :: rest) :
    registers.Follows text index ((Mode.lineComment start).step index c rest) := by
  obtain ⟨braces, phase, began⟩ := holds_lineComment.mp holds
  simp only [Follows, step?, getElem?_of_drop split, phase, stepLineComment, Mode.step,
    HardcodedText.stepLineComment]
  by_cases lineEnd : c = '\n'
  · simp [lineEnd, Event.signal, braces]
  · simp [lineEnd, Event.signal, braces, phase, began]

theorem follows_blockComment {start depth : Nat} (opened : 1 ≤ depth)
    (holds : registers.Holds (.blockComment start depth)) (split : text.drop index = c :: rest) :
    registers.Follows text index ((Mode.blockComment start depth).step index c rest) := by
  obtain ⟨braces, phase, began, nested⟩ := holds_blockComment.mp holds
  simp only [Follows, step?, getElem?_of_drop split, phase, stepBlockComment, nested,
    readsAt_pair_of_drop split, Mode.step, HardcodedText.stepBlockComment]
  by_cases deeper : (c == '/' && rest.head? == some '*') = true
  · simp [deeper, Event.signal, braces, began]
  · by_cases ends : (c == '*' && rest.head? == some '/') = true
    · by_cases outermost : depth ≤ 1
      · have last : (depth : Int) - 1 = 0 := by omega
        simp [deeper, ends, outermost, last, Event.signal, braces]
      · have inner : ¬ (depth : Int) - 1 = 0 := by omega
        simp [deeper, ends, outermost, inner, Event.signal, braces, began]
        omega
    · simp [deeper, ends, Event.signal, phase, braces, began, nested]

/-- The machine takes the scanner's step. A block comment in which none is open is the one mode
that the registers would leave later than the scanner does. -/
theorem follows {mode : Mode} (opened : ∀ start depth, mode = .blockComment start depth → 1 ≤ depth)
    (holds : registers.Holds mode) (split : text.drop index = c :: rest) :
    registers.Follows text index (mode.step index c rest) := by
  cases mode with
  | code => exact follows_code holds split
  | string delimiter start escaped => exact follows_string holds split
  | interpolation delimiter start depth => exact follows_interpolation holds split
  | lineComment start => exact follows_lineComment holds split
  | blockComment start depth => exact follows_blockComment (opened start depth rfl) holds split

end Registers

end HardcodedText
