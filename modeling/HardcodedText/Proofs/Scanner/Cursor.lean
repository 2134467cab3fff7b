import HardcodedText.Scanner.Literal
import Mathlib.Data.List.Basic
import Mathlib.Tactic.Common

/-!
A run of the scanner seen between two characters. A cursor holds the mode there and the number of
characters that the last step has consumed beyond that place. Every function that walks a text with
the scanner moves a cursor one character at a time, so what holds of a run is proved by moving a
cursor over a text with the rest of the text still in view.
-/

namespace HardcodedText

namespace Mode

/-- The mode in which a character is read: a line feed ends a line comment before it is read. -/
def settle (mode : Mode) (c : Char) : Mode :=
  match mode with
  | lineComment start => if c == '\n' then code else lineComment start
  | mode => mode

def settling (mode : Mode) (index : Nat) (c : Char) : List Moment :=
  match mode with
  | lineComment start =>
      if c == '\n' then [⟨index, lineComment start, .commentClose start, index, code⟩] else []
  | _ => []

def consume (mode : Mode) (index : Nat) (c : Char) (rest : Text) : Step :=
  (mode.settle c).step index c rest

theorem step_width_pos {mode : Mode} {c : Char} (settled : mode.settle c = mode) (index : Nat)
    (rest : Text) : 0 < (mode.step index c rest).width := by
  by_contra still
  obtain ⟨lineEnd, start, inComment, -⟩ := step_width_eq_zero (Nat.eq_zero_of_not_pos still)
  subst lineEnd inComment
  simp [settle] at settled

theorem settle_settle (mode : Mode) (c : Char) : (mode.settle c).settle c = mode.settle c := by
  cases mode with
  | lineComment start => by_cases lineEnd : c = '\n' <;> simp [settle, lineEnd]
  | _ => rfl

theorem consume_width_pos (mode : Mode) (index : Nat) (c : Char) (rest : Text) :
    0 < (mode.consume index c rest).width :=
  step_width_pos (mode.settle_settle c) index rest

theorem settling_eq_nil {mode : Mode} {c : Char} (settled : mode.settle c = mode) (index : Nat) :
    mode.settling index c = [] := by
  cases mode with
  | lineComment start =>
      have lineGoesOn : c ≠ '\n' := by
        intro lineEnd
        simp [settle, lineEnd] at settled
      simp [settling, lineGoesOn]
  | _ => rfl

theorem settle_eq_self_or (mode : Mode) (c : Char) :
    mode.settle c = mode ∨ ∃ start, mode = lineComment start ∧ c = '\n' := by
  cases mode with
  | lineComment start =>
      by_cases lineEnd : c = '\n'
      · exact Or.inr ⟨start, rfl, lineEnd⟩
      · exact Or.inl (by simp [settle, lineEnd])
  | _ => exact Or.inl rfl

end Mode

structure Cursor where
  mode : Mode
  skip : Nat
  deriving DecidableEq, Repr

namespace Cursor

def code : Cursor := ⟨.code, 0⟩

def next (cursor : Cursor) (index : Nat) (c : Char) (rest : Text) : Cursor :=
  match cursor.skip with
  | skip + 1 => ⟨cursor.mode, skip⟩
  | 0 =>
      let step := cursor.mode.consume index c rest
      ⟨step.mode, step.width - 1⟩

def moments (cursor : Cursor) (index : Nat) (c : Char) (rest : Text) : List Moment :=
  match cursor.skip with
  | _ + 1 => []
  | 0 =>
      cursor.mode.settling index c ++
        [Moment.ofStep index (cursor.mode.settle c) (cursor.mode.consume index c rest)]

def run (cursor : Cursor) (index : Nat) (text : Text) : List Moment :=
  runFrom cursor.mode index cursor.skip text

def advance (cursor : Cursor) (index : Nat) (body rest : Text) : Cursor :=
  match body with
  | [] => cursor
  | c :: later => (cursor.next index c (later ++ rest)).advance (index + 1) later rest

@[simp] theorem run_nil (cursor : Cursor) (index : Nat) : cursor.run index [] = [] := by
  simp [run, runFrom]

theorem run_cons (cursor : Cursor) (index : Nat) (c : Char) (rest : Text) :
    cursor.run index (c :: rest) =
      cursor.moments index c rest ++ (cursor.next index c rest).run (index + 1) rest := by
  obtain ⟨mode, skip⟩ := cursor
  cases skip with
  | succ skip => simp [run, runFrom, moments, next]
  | zero =>
      rcases mode.settle_eq_self_or c with settled | ⟨start, inComment, lineEnd⟩
      · have moving : (mode.step index c rest).width ≠ 0 :=
          Nat.ne_of_gt (Mode.step_width_pos settled index rest)
        simp [run, runFrom, moments, next, Mode.consume, settled, moving,
          Mode.settling_eq_nil settled]
      · subst inComment lineEnd
        have closing : (Mode.lineComment start).step index '\n' rest =
            ⟨.commentClose start, 0, .code⟩ := by
          simp [Mode.step, stepLineComment]
        simp [run, runFrom, moments, next, Mode.consume, Mode.settle, Mode.settling, closing,
          Moment.ofStep]

theorem advance_append (cursor : Cursor) (index : Nat) (body more rest : Text) :
    cursor.advance index (body ++ more) rest =
      (cursor.advance index body (more ++ rest)).advance (index + body.length) more rest := by
  induction body generalizing cursor index with
  | nil => rfl
  | cons c body ih =>
      simp only [List.cons_append, advance, List.length_cons]
      rw [ih, List.append_assoc]
      congr 1
      omega

theorem modeAfter_run (cursor : Cursor) (index : Nat) (text : Text) :
    ((cursor.run index text).getLast?.map Moment.after).getD cursor.mode =
      (cursor.advance index text []).mode := by
  induction text generalizing cursor index with
  | nil => simp [advance]
  | cons c rest ih =>
      have tail := ih (cursor.next index c rest) (index + 1)
      rw [run_cons, advance, List.append_nil, ← tail]
      obtain ⟨mode, skip⟩ := cursor
      cases skip with
      | succ skip => simp [moments, next]
      | zero =>
          rw [List.getLast?_append]
          cases ((next ⟨mode, 0⟩ index c rest).run (index + 1) rest).getLast? with
          | none => simp [moments, next, Moment.ofStep]
          | some moment => simp

theorem modeAfter_eq (text : Text) :
    modeAfter (HardcodedText.run text) = (code.advance 0 text []).mode := by
  have last := modeAfter_run code 0 text
  rw [← last]
  simp only [modeAfter, HardcodedText.run, run, code]
  cases (runFrom .code 0 0 text).getLast? <;> rfl

end Cursor

end HardcodedText
