import HardcodedText.Proofs.Scanner.Cursor

/-!
Runs at other offsets. The scanner only carries offsets along: it never decides anything by them. So
a run over the same text at other offsets is the same run with its offsets moved, and the literal or
comment that is open at its beginning may have begun anywhere.
-/

namespace HardcodedText

def Mode.relocate (move : Nat → Nat) : Mode → Mode
  | .code => .code
  | .string delimiter start escaped => .string delimiter (move start) escaped
  | .interpolation delimiter start depth => .interpolation delimiter (move start) depth
  | .lineComment start => .lineComment (move start)
  | .blockComment start depth => .blockComment (move start) depth

def Event.relocate (move : Nat → Nat) : Event → Event
  | .literalClose delimiter start => .literalClose delimiter (move start)
  | .commentClose start => .commentClose (move start)
  | event => event

def Step.relocate (move : Nat → Nat) (step : Step) : Step :=
  ⟨step.event.relocate move, step.width, step.mode.relocate move⟩

def Moment.relocate (move : Nat → Nat) (moment : Moment) : Moment where
  index := move moment.index
  before := moment.before.relocate move
  event := moment.event.relocate move
  next := move moment.next
  after := moment.after.relocate move

def Steady (move : Nat → Nat) (index : Nat) : Prop :=
  ∀ offset, index ≤ offset → move (offset + 1) = move offset + 1

theorem Steady.add {move : Nat → Nat} {index : Nat} (steady : Steady move index) (width : Nat) :
    move (index + width) = move index + width := by
  induction width with
  | zero => rfl
  | succ width ih => rw [← Nat.add_assoc, steady _ (Nat.le_add_right _ _), ih, Nat.add_assoc]

theorem Steady.succ {move : Nat → Nat} {index : Nat} (steady : Steady move index) :
    Steady move (index + 1) := by
  intro offset later
  exact steady offset (by omega)

section Steps

variable (move : Nat → Nat)

theorem Mode.step_relocate (mode : Mode) (index : Nat) (c : Char) (rest : Text) :
    (mode.relocate move).step (move index) c rest = (mode.step index c rest).relocate move := by
  cases mode with
  | code =>
      simp only [relocate, step, stepCode]
      split
      · rfl
      · split
        · rfl
        · split <;> rfl
  | string delimiter start escaped =>
      simp only [relocate, step, stepString]
      split
      · rfl
      · split
        · rfl
        · split
          · rfl
          · split <;> rfl
  | interpolation delimiter start depth =>
      simp only [relocate, step, stepInterpolation]
      split
      · rfl
      · split
        · cases depth <;> rfl
        · rfl
  | lineComment start =>
      simp only [relocate, step, stepLineComment]
      split <;> rfl
  | blockComment start depth =>
      simp only [relocate, step, stepBlockComment]
      split
      · rfl
      · split
        · split <;> rfl
        · rfl

theorem Mode.settle_relocate (mode : Mode) (c : Char) :
    (mode.relocate move).settle c = (mode.settle c).relocate move := by
  cases mode with
  | lineComment start =>
      simp only [relocate, settle]
      split <;> rfl
  | _ => rfl

theorem Mode.consume_relocate (mode : Mode) (index : Nat) (c : Char) (rest : Text) :
    (mode.relocate move).consume (move index) c rest =
      (mode.consume index c rest).relocate move := by
  rw [consume, settle_relocate, step_relocate]
  rfl

theorem Mode.settling_relocate (mode : Mode) (index : Nat) (c : Char) :
    (mode.relocate move).settling (move index) c =
      (mode.settling index c).map (Moment.relocate move) := by
  cases mode with
  | lineComment start =>
      simp only [relocate, settling]
      split <;> rfl
  | _ => rfl

end Steps

namespace Cursor

def relocate (move : Nat → Nat) (cursor : Cursor) : Cursor :=
  ⟨cursor.mode.relocate move, cursor.skip⟩

theorem next_relocate (move : Nat → Nat) (cursor : Cursor) (index : Nat) (c : Char)
    (rest : Text) :
    (cursor.relocate move).next (move index) c rest =
      (cursor.next index c rest).relocate move := by
  obtain ⟨mode, skip⟩ := cursor
  cases skip with
  | zero =>
      simp only [relocate, next, Mode.consume_relocate]
      rfl
  | succ skip => rfl

theorem moments_relocate {move : Nat → Nat} {index : Nat} (steady : Steady move index)
    (cursor : Cursor) (c : Char) (rest : Text) :
    (cursor.relocate move).moments (move index) c rest =
      (cursor.moments index c rest).map (Moment.relocate move) := by
  obtain ⟨mode, skip⟩ := cursor
  cases skip with
  | zero =>
      simp only [relocate, moments, Mode.consume_relocate, Mode.settling_relocate,
        Mode.settle_relocate, List.map_append, List.map_cons, List.map_nil, Moment.ofStep,
        Moment.relocate, Step.relocate, steady.add]
  | succ skip => rfl

theorem run_relocate {move : Nat → Nat} {index : Nat} (steady : Steady move index)
    (cursor : Cursor) (text : Text) :
    (cursor.relocate move).run (move index) text =
      (cursor.run index text).map (Moment.relocate move) := by
  induction text generalizing cursor index with
  | nil => simp
  | cons c rest ih =>
      rw [run_cons, run_cons, moments_relocate steady, next_relocate, List.map_append,
        ← steady index (Nat.le_refl index), ih steady.succ]

end Cursor

end HardcodedText
