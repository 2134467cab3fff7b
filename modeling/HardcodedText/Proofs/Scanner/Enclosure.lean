import HardcodedText.Proofs.Scanner.Cursor

/-!
What the scanner can be inside of: a literal, a line comment or a block comment. Each of them begins
with an opener in code and ends with a terminator, after which the scanner is in code again. The
steps inside of one are described once, by what they do to the enclosure; all that is said about the
literals and comments of a text rests on that description.
-/

namespace HardcodedText

inductive Enclosure
  | literal (delimiter : Delimiter) (start : Nat)
  | lineComment (start : Nat)
  | blockComment (start : Nat)
  deriving DecidableEq, Repr

namespace Enclosure

def start : Enclosure → Nat
  | literal _ start => start
  | lineComment start => start
  | blockComment start => start

def opener : Enclosure → Text
  | literal delimiter _ => delimiter.text
  | lineComment _ => ['/', '/']
  | blockComment _ => ['/', '*']

/-- A line comment ends before its line feed, so that it has no terminator of its own. -/
def terminator : Enclosure → Text
  | literal delimiter _ => delimiter.text
  | lineComment _ => []
  | blockComment _ => ['*', '/']

def closing : Enclosure → Event
  | literal delimiter start => .literalClose delimiter start
  | lineComment start => .commentClose start
  | blockComment start => .commentClose start

def Sound : Enclosure → Prop
  | literal delimiter _ => isQuote delimiter.quote = true
  | _ => True

def written (enclosure : Enclosure) (inner : Text) : Text :=
  enclosure.opener ++ inner ++ enclosure.terminator

end Enclosure

def Mode.enclosure : Mode → Option Enclosure
  | .code => none
  | .string delimiter start _ => some (.literal delimiter start)
  | .interpolation delimiter start _ => some (.literal delimiter start)
  | .lineComment start => some (.lineComment start)
  | .blockComment start _ => some (.blockComment start)

def Event.isClosing : Event → Bool
  | .literalClose .. => true
  | .commentClose _ => true
  | _ => false

theorem Delimiter.text_ne_nil (delimiter : Delimiter) : delimiter.text ≠ [] := by
  cases delimiter with
  | mk quote tripled => cases tripled <;> simp [Delimiter.text]

theorem Delimiter.opening_isPrefix (quote : Char) (rest : Text) :
    (Delimiter.opening quote rest).text <+: quote :: rest := by
  cases tripled : [quote, quote].isPrefixOf rest with
  | false => simp [Delimiter.opening, Delimiter.text, tripled, List.cons_prefix_cons]
  | true =>
      have repeated : [quote, quote] <+: rest := List.isPrefixOf_iff_prefix.mp tripled
      simpa [Delimiter.opening, Delimiter.text, tripled, List.cons_prefix_cons] using repeated

theorem head?_eq_some_iff_prefix {c : Char} {rest : Text} :
    rest.head? = some c ↔ [c] <+: rest := by
  cases rest with
  | nil => simp
  | cons first rest =>
      rw [List.head?_cons, Option.some_inj, List.cons_prefix_cons, eq_comm]
      simp

theorem Mode.step_code_cases (index : Nat) (c : Char) (rest : Text) :
    (isQuote c = false ∧ Mode.code.step index c rest = ⟨.none, 1, .code⟩) ∨
      ∃ enclosure : Enclosure, enclosure.start = index ∧ enclosure.Sound ∧
        enclosure.opener <+: c :: rest ∧
        (Mode.code.step index c rest).width = enclosure.opener.length ∧
        (Mode.code.step index c rest).mode.enclosure = some enclosure ∧
        (Mode.code.step index c rest).event.isClosing = false := by
  by_cases quote : isQuote c = true
  · refine Or.inr ⟨.literal (Delimiter.opening c rest) index, rfl, quote,
      Delimiter.opening_isPrefix c rest, ?_, ?_, ?_⟩
    · simp [step, stepCode, quote, Enclosure.opener, Delimiter.length_text]
    · simp [step, stepCode, quote, enclosure]
    · simp [step, stepCode, quote, Event.isClosing]
  · by_cases slashes : c = '/' ∧ rest.head? = some '/'
    · refine Or.inr ⟨.lineComment index, rfl, trivial, ?_, ?_, ?_, ?_⟩
      · rw [slashes.1, Enclosure.opener, List.cons_prefix_cons]
        exact ⟨rfl, head?_eq_some_iff_prefix.mp slashes.2⟩
      all_goals
        simp [step, stepCode, isQuote, slashes, Enclosure.opener, enclosure, Event.isClosing]
    · by_cases star : c = '/' ∧ rest.head? = some '*'
      · refine Or.inr ⟨.blockComment index, rfl, trivial, ?_, ?_, ?_, ?_⟩
        · rw [star.1, Enclosure.opener, List.cons_prefix_cons]
          exact ⟨rfl, head?_eq_some_iff_prefix.mp star.2⟩
        all_goals
          simp [step, stepCode, isQuote, star, Enclosure.opener, enclosure, Event.isClosing]
      · refine Or.inl ⟨by simpa using quote, ?_⟩
        simp [step, stepCode, quote, slashes, star]

theorem Mode.stepString_cases (delimiter : Delimiter) (start : Nat) (escaped : Bool) (c : Char)
    (rest : Text) :
    ((stepString delimiter start escaped c rest).event = .none ∧
        (stepString delimiter start escaped c rest).mode.enclosure =
          some (.literal delimiter start) ∧
        (stepString delimiter start escaped c rest).width ≤ rest.length + 1) ∨
      (stepString delimiter start escaped c rest =
          ⟨.literalClose delimiter start, delimiter.text.length, .code⟩ ∧
        delimiter.text <+: c :: rest) := by
  unfold stepString
  split
  · exact Or.inl ⟨rfl, rfl, by simp⟩
  · split
    · exact Or.inl ⟨rfl, rfl, by simp⟩
    · split
      next interpolated =>
        refine Or.inl ⟨rfl, rfl, ?_⟩
        simp only [Bool.and_eq_true, beq_iff_eq, head?_eq_some_iff_prefix] at interpolated
        have room := interpolated.2.length_le
        simp only [List.length_cons, List.length_nil] at room
        simp only
        omega
      next =>
        split
        next closes =>
          exact Or.inr ⟨by rw [Delimiter.length_text], List.isPrefixOf_iff_prefix.mp closes⟩
        next => exact Or.inl ⟨rfl, rfl, by simp⟩

theorem Mode.stepInterpolation_cases (delimiter : Delimiter) (start depth : Nat) (c : Char) :
    (stepInterpolation delimiter start depth c).event = .none ∧
      (stepInterpolation delimiter start depth c).mode.enclosure =
        some (.literal delimiter start) ∧
      (stepInterpolation delimiter start depth c).width = 1 := by
  unfold stepInterpolation
  split
  · exact ⟨rfl, rfl, rfl⟩
  · split
    · cases depth <;> exact ⟨rfl, rfl, rfl⟩
    · exact ⟨rfl, rfl, rfl⟩

theorem Mode.stepBlockComment_cases (start depth : Nat) (c : Char) (rest : Text) :
    ((stepBlockComment start depth c rest).event = .none ∧
        (stepBlockComment start depth c rest).mode.enclosure = some (.blockComment start) ∧
        (stepBlockComment start depth c rest).width ≤ rest.length + 1) ∨
      (stepBlockComment start depth c rest = ⟨.commentClose start, 2, .code⟩ ∧
        ['*', '/'] <+: c :: rest) := by
  unfold stepBlockComment
  split
  next deeper =>
    simp only [Bool.and_eq_true, beq_iff_eq, head?_eq_some_iff_prefix] at deeper
    have room := deeper.2.length_le
    simp only [List.length_cons, List.length_nil] at room
    exact Or.inl ⟨rfl, rfl, by simp only; omega⟩
  next =>
    split
    next ends =>
      simp only [Bool.and_eq_true, beq_iff_eq, head?_eq_some_iff_prefix] at ends
      have read : ['*', '/'] <+: c :: rest := by
        rw [ends.1, List.cons_prefix_cons]
        exact ⟨rfl, ends.2⟩
      split
      · exact Or.inr ⟨rfl, read⟩
      · have room := read.length_le
        simp only [List.length_cons, List.length_nil] at room
        exact Or.inl ⟨rfl, rfl, by simp only; omega⟩
    next => exact Or.inl ⟨rfl, rfl, by simp⟩

theorem Mode.step_enclosed_cases {mode : Mode} {enclosure : Enclosure}
    (inside : mode.enclosure = some enclosure) {c : Char} (settled : mode.settle c = mode)
    (index : Nat) (rest : Text) :
    ((mode.step index c rest).event = .none ∧
        (mode.step index c rest).mode.enclosure = some enclosure ∧
        (mode.step index c rest).width ≤ rest.length + 1) ∨
      (mode.step index c rest = ⟨enclosure.closing, enclosure.terminator.length, .code⟩ ∧
        enclosure.terminator <+: c :: rest) := by
  cases mode with
  | code => simp [Mode.enclosure] at inside
  | string delimiter start escaped =>
      obtain rfl := Option.some_inj.mp inside
      exact stepString_cases delimiter start escaped c rest
  | interpolation delimiter start depth =>
      obtain rfl := Option.some_inj.mp inside
      obtain ⟨quiet, still, width⟩ := stepInterpolation_cases delimiter start depth c
      exact Or.inl ⟨quiet, still, by simp only [step]; omega⟩
  | lineComment start =>
      obtain rfl := Option.some_inj.mp inside
      have lineGoesOn : c ≠ '\n' := by
        intro lineEnd
        simp [settle, lineEnd] at settled
      exact Or.inl (by simp [step, stepLineComment, lineGoesOn, Mode.enclosure])
  | blockComment start depth =>
      obtain rfl := Option.some_inj.mp inside
      exact stepBlockComment_cases start depth c rest

theorem Mode.eq_code_of_enclosure {mode : Mode} (outside : mode.enclosure = none) :
    mode = .code := by
  cases mode with
  | code => rfl
  | _ => simp [Mode.enclosure] at outside

/-- What the scanner is inside of after a step, it was inside of before, or has just begun. -/
theorem Mode.enclosure_of_step {mode : Mode} {index : Nat} {c : Char} {rest : Text}
    {enclosure : Enclosure} (inside : (mode.step index c rest).mode.enclosure = some enclosure) :
    mode.enclosure = some enclosure ∨
      enclosure.start = index ∧ enclosure.Sound ∧ enclosure.opener <+: c :: rest := by
  rcases mode.settle_eq_self_or c with settled | ⟨start, rfl, rfl⟩
  · cases before : mode.enclosure with
    | none =>
        obtain rfl := eq_code_of_enclosure before
        rcases step_code_cases index c rest with ⟨-, plain⟩ | ⟨opened, start, sound, read, -, new, -⟩
        · simp [plain, Mode.enclosure] at inside
        · obtain rfl := Option.some_inj.mp (new.symm.trans inside)
          exact Or.inr ⟨start, sound, read⟩
    | some outer =>
        rcases step_enclosed_cases before settled index rest with ⟨-, still, -⟩ | ⟨closed, -⟩
        · exact Or.inl (still.symm.trans inside)
        · simp [closed, Mode.enclosure] at inside
  · simp [step, stepLineComment, Mode.enclosure] at inside

end HardcodedText
