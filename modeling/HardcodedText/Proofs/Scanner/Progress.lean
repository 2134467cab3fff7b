import HardcodedText.Proofs.Scanner.Boundary
import HardcodedText.Proofs.Scanner.Registers
import Mathlib.Data.List.Forall2

/-!
The scanner comes to the end of every text, from wherever it starts. A turn goes forward and stays
within the text, except for the one that ends a line comment: it stays where it is, and the next
one reads the line feed as code. So no character takes more than two turns.
-/

namespace HardcodedText

/-- What the mode is in begins in the text with its opener, and a block comment is open. -/
structure Mode.Anchored (mode : Mode) (text : Text) : Prop where
  sound : mode.Sound
  begun : ∀ enclosure, mode.enclosure = some enclosure →
    enclosure.opener <+: text.drop enclosure.start
  opened : ∀ start depth, mode = .blockComment start depth → 1 ≤ depth

theorem Mode.anchored_code (text : Text) : Mode.code.Anchored text :=
  ⟨Mode.sound_code, by simp [Mode.enclosure], by simp⟩

theorem Mode.opened_step {mode : Mode}
    (opened : ∀ start depth, mode = .blockComment start depth → 1 ≤ depth) (index : Nat) (c : Char)
    (rest : Text) {start depth : Nat}
    (reached : (mode.step index c rest).mode = .blockComment start depth) : 1 ≤ depth := by
  cases mode with
  | blockComment began nested =>
      have positive := opened began nested rfl
      simp only [step, stepBlockComment] at reached
      split at reached
      · obtain ⟨rfl, rfl⟩ := Mode.blockComment.inj reached
        omega
      · split at reached
        · split at reached
          · simp at reached
          · obtain ⟨rfl, rfl⟩ := Mode.blockComment.inj reached
            omega
        · obtain ⟨rfl, rfl⟩ := Mode.blockComment.inj reached
          exact positive
  | code =>
      simp only [step, stepCode] at reached
      split at reached
      · simp at reached
      · split at reached
        · simp at reached
        · split at reached
          · obtain ⟨rfl, rfl⟩ := Mode.blockComment.inj reached
            exact Nat.le_refl 1
          · simp at reached
  | string delimiter began escaped =>
      simp only [step, stepString] at reached
      repeat' split at reached
      all_goals simp at reached
  | interpolation delimiter began braces =>
      simp only [step, stepInterpolation] at reached
      repeat' split at reached
      all_goals simp at reached
  | lineComment began =>
      simp only [step, stepLineComment] at reached
      split at reached
      all_goals simp at reached

theorem Mode.Anchored.step {mode : Mode} {text rest : Text} {index : Nat} {c : Char}
    (anchored : mode.Anchored text) (split : text.drop index = c :: rest) :
    (mode.step index c rest).mode.Anchored text := by
  refine ⟨anchored.sound.step index c rest, ?_,
    fun _ _ reached => opened_step anchored.opened index c rest reached⟩
  intro enclosure inside
  rcases enclosure_of_step inside with before | ⟨start, -, read⟩
  · exact anchored.begun enclosure before
  · rwa [start, split]

theorem Mode.step_width_le_length {mode : Mode} {text rest : Text} {index : Nat} {c : Char}
    (split : text.drop index = c :: rest) :
    index + (mode.step index c rest).width ≤ text.length := by
  have length := length_of_drop split
  rcases mode.settle_eq_self_or c with settled | ⟨began, rfl, rfl⟩
  · have width := step_width_le settled index rest
    omega
  · simp only [step, stepLineComment, beq_self_eq_true, if_true]
    omega

namespace Registers

/-- The delimiter is one quote or three of the same, and the text reads it where the literal
begins. -/
def Quoted (registers : Registers) (text : Text) : Prop :=
  ∃ quote start, isQuote quote = true ∧
    (registers.delimiter = [quote] ∨ registers.delimiter = [quote, quote, quote]) ∧
    registers.literalStart = some start ∧ text.readsAt registers.delimiter start = true

structure Sound (registers : Registers) (text : Text) : Prop where
  braces : 0 ≤ registers.braceDepth
  quoted : registers.phase = .string ∨ registers.phase = .interpolation → registers.Quoted text
  opened : registers.phase = .blockComment → 1 ≤ registers.commentDepth

variable {registers : Registers} {mode : Mode} {text : Text}

theorem quoted_of_literal {delimiter : Delimiter} {start : Nat}
    (quoted : isQuote delimiter.quote = true) (begun : delimiter.text <+: text.drop start)
    (quotes : registers.delimiter = delimiter.text)
    (began : registers.literalStart = some start) : registers.Quoted text := by
  refine ⟨delimiter.quote, start, quoted, ?_, began, ?_⟩
  · rw [quotes]
    cases delimiter with
    | mk quote tripled => cases tripled <;> simp [Delimiter.text]
  · rw [quotes]
    exact List.isPrefixOf_iff_prefix.mpr begun

theorem Sound.of_holds (anchored : mode.Anchored text) (holds : registers.Holds mode) :
    registers.Sound text := by
  refine ⟨holds.1, ?_, ?_⟩
  · intro literal
    cases mode with
    | string delimiter start escaped =>
        obtain ⟨-, -, quotes, began, -⟩ := holds_string.mp holds
        exact quoted_of_literal (anchored.sound _ rfl) (anchored.begun _ rfl) quotes began
    | interpolation delimiter start depth =>
        obtain ⟨-, -, quotes, began, -⟩ := holds_interpolation.mp holds
        exact quoted_of_literal (anchored.sound _ rfl) (anchored.begun _ rfl) quotes began
    | _ => simp_all
  · intro comment
    cases mode with
    | blockComment start depth =>
        obtain ⟨-, -, -, nested⟩ := holds_blockComment.mp holds
        have positive := anchored.opened start depth rfl
        omega
    | _ => simp_all

theorem phase_eq_lineComment_iff (holds : registers.Holds mode) :
    registers.phase = .lineComment ↔ ∃ start, mode = .lineComment start := by
  cases mode <;> simp_all

end Registers

structure Turn where
  index : Nat
  before : Registers
  landing : Landing
  deriving DecidableEq, Repr

/-- The turns from an index on, as long as it is below the length of the text. There are none where
a step has no outcome. -/
inductive Scans (text : Text) : Nat → Registers → List Turn → Prop
  | done {index : Nat} {registers : Registers} :
      text.length ≤ index → Scans text index registers []
  | turn {index : Nat} {registers : Registers} {landing : Landing} {later : List Turn} :
      index < text.length → registers.step? text index = some landing →
      Scans text landing.next landing.registers later →
      Scans text index registers (⟨index, registers, landing⟩ :: later)

theorem Scans.unique {text : Text} {index : Nat} {registers : Registers} {turns others : List Turn}
    (scans : Scans text index registers turns) (also : Scans text index registers others) :
    others = turns := by
  induction scans generalizing others with
  | done past =>
      cases also with
      | done => rfl
      | turn inside => omega
  | turn inside taken later ih =>
      cases also with
      | done past => omega
      | turn _ other rest =>
          obtain rfl := Option.some_inj.mp (taken.symm.trans other)
          rw [ih rest]

namespace Turn

structure Matches (turn : Turn) (moment : Moment) : Prop where
  index : turn.index = moment.index
  before : turn.before.Holds moment.before
  signal : turn.landing.signal = moment.event.signal
  next : turn.landing.next = moment.next
  after : turn.landing.registers.Holds moment.after

def EndsLineComment (turn : Turn) (text : Text) : Prop :=
  turn.before.phase = .lineComment ∧ text[turn.index]? = some '\n'

structure Safe (turn : Turn) (text : Text) : Prop where
  inside : turn.landing.next ≤ text.length
  advances : ¬ turn.EndsLineComment text → turn.index < turn.landing.next
  stays : turn.EndsLineComment text → turn.landing.signal = .commentClose ∧
    turn.landing.next = turn.index ∧ turn.landing.registers.phase = .code
  sound : turn.landing.registers.Sound text

end Turn

/-- One turn, in any mode. -/
theorem exists_turn {mode : Mode} {registers : Registers} {text rest : Text} {index : Nat}
    {c : Char} (anchored : mode.Anchored text) (holds : registers.Holds mode)
    (split : text.drop index = c :: rest) :
    ∃ landing, registers.step? text index = some landing ∧
      Turn.Matches ⟨index, registers, landing⟩
        (Moment.ofStep index mode (mode.step index c rest)) ∧
      Turn.Safe ⟨index, registers, landing⟩ text := by
  obtain ⟨after, taken, held⟩ := Registers.follows anchored.opened holds split
  have ends : Turn.EndsLineComment ⟨index, registers,
      ⟨(mode.step index c rest).event.signal, index + (mode.step index c rest).width, after⟩⟩ text ↔
      (∃ start, mode = .lineComment start) ∧ c = '\n' := by
    rw [Turn.EndsLineComment, Registers.phase_eq_lineComment_iff holds, getElem?_of_drop split,
      Option.some_inj]
  refine ⟨_, taken, ⟨rfl, holds, rfl, rfl, held⟩, Mode.step_width_le_length split, ?_, ?_,
    .of_holds (anchored.step split) held⟩
  · rw [ends]
    intro goesOn
    have moving : (mode.step index c rest).width ≠ 0 := by
      intro still
      obtain ⟨lineEnd, start, inComment, -⟩ := Mode.step_width_eq_zero still
      exact goesOn ⟨⟨start, inComment⟩, lineEnd⟩
    simp only
    omega
  · rw [ends]
    rintro ⟨⟨start, rfl⟩, rfl⟩
    exact ⟨rfl, rfl, held.2⟩

structure ScansAs (text : Text) (index : Nat) (registers : Registers) (moments : List Moment)
    (turns : List Turn) : Prop where
  scans : Scans text index registers turns
  matched : List.Forall₂ Turn.Matches turns moments
  safe : ∀ turn ∈ turns, turn.Safe text

theorem ScansAs.cons {text : Text} {index : Nat} {registers : Registers} {landing : Landing}
    {moment : Moment} {moments : List Moment} {later : List Turn} (inside : index < text.length)
    (taken : registers.step? text index = some landing)
    (same : Turn.Matches ⟨index, registers, landing⟩ moment)
    (safe : Turn.Safe ⟨index, registers, landing⟩ text)
    (scans : ScansAs text landing.next landing.registers moments later) :
    ScansAs text index registers (moment :: moments) (⟨index, registers, landing⟩ :: later) :=
  ⟨.turn inside taken scans.scans, .cons same scans.matched,
    List.forall_mem_cons.mpr ⟨safe, scans.safe⟩⟩

namespace Cursor

theorem length_moments_le (cursor : Cursor) (index : Nat) (c : Char) (rest : Text) :
    (cursor.moments index c rest).length ≤ 2 := by
  obtain ⟨mode, skip⟩ := cursor
  cases skip with
  | succ skip => simp [moments]
  | zero =>
      have settling : (mode.settling index c).length ≤ 1 := by
        cases mode with
        | lineComment start =>
            rw [Mode.settling]
            split <;> simp
        | _ => simp [Mode.settling]
      simp only [moments, List.length_append, List.length_singleton]
      omega

theorem length_run_le (cursor : Cursor) (index : Nat) (text : Text) :
    (cursor.run index text).length ≤ 2 * (text.length - cursor.skip) := by
  induction text generalizing cursor index with
  | nil => simp
  | cons c rest ih =>
      have here := cursor.length_moments_le index c rest
      have later := ih (cursor.next index c rest) (index + 1)
      rw [run_cons, List.length_append, List.length_cons]
      obtain ⟨mode, skip⟩ := cursor
      cases skip with
      | succ skip =>
          simp only [moments, next, List.length_nil] at later ⊢
          omega
      | zero =>
          simp only
          omega

theorem run_of_settled {mode : Mode} {c : Char} (settled : mode.settle c = mode) (index : Nat)
    (rest : Text) :
    (⟨mode, 0⟩ : Cursor).run index (c :: rest) =
      Moment.ofStep index mode (mode.step index c rest) ::
        (⟨(mode.step index c rest).mode, (mode.step index c rest).width - 1⟩ : Cursor).run
          (index + 1) rest := by
  simp [run_cons, moments, next, Mode.settling_eq_nil settled, Mode.consume, settled]

theorem run_lineComment (start index : Nat) (rest : Text) :
    (⟨.lineComment start, 0⟩ : Cursor).run index ('\n' :: rest) =
      Moment.ofStep index (.lineComment start) ((Mode.lineComment start).step index '\n' rest) ::
        code.run index ('\n' :: rest) := by
  rw [run_cons, run_cons]
  rfl

/-- The machine runs from where the cursor owes no character any more. -/
theorem exists_scan {cursor : Cursor} {text rest : Text} {index : Nat} {registers : Registers}
    (anchored : cursor.mode.Anchored text) (holds : registers.Holds cursor.mode)
    (room : cursor.skip ≤ rest.length) (split : text.drop index = rest) :
    ∃ turns, ScansAs text (index + cursor.skip) registers (cursor.run index rest) turns := by
  induction rest generalizing cursor index registers with
  | nil =>
      have past : text.length ≤ index + cursor.skip :=
        Nat.le_add_right_of_le (List.drop_eq_nil_iff.mp split)
      exact ⟨[], .done past, by rw [run_nil]; exact .nil, by simp⟩
  | cons c rest ih =>
      have inside : index < text.length := by
        rw [length_of_drop split]
        omega
      obtain ⟨mode, skip⟩ := cursor
      cases skip with
      | succ skip =>
          have later := @ih ⟨mode, skip⟩ (index + 1) registers anchored holds
            (Nat.le_of_succ_le_succ room) (drop_succ_of_drop split)
          rw [Nat.add_assoc, Nat.add_comm 1] at later
          exact later
      | zero =>
          -- A mode that reads the character takes one turn for it. A line comment that ends before
          -- the character takes a turn for that first.
          have reading {mode : Mode} {registers : Registers} (settled : mode.settle c = mode)
              (anchored : mode.Anchored text) (holds : registers.Holds mode) :
              ∃ turns, ScansAs text index registers
                ((⟨mode, 0⟩ : Cursor).run index (c :: rest)) turns := by
            obtain ⟨landing, taken, same, safe⟩ := exists_turn anchored holds split
            have width := Mode.step_width_le settled index rest
            have moving := Mode.step_width_pos settled index rest
            have next : index + 1 + ((mode.step index c rest).width - 1) = landing.next := by
              rw [same.next]
              simp only [Moment.ofStep]
              omega
            obtain ⟨later, scans⟩ := @ih ⟨_, (mode.step index c rest).width - 1⟩ (index + 1)
              landing.registers (anchored.step split) same.after (by simp only; omega)
              (drop_succ_of_drop split)
            simp only [next] at scans
            rw [run_of_settled settled]
            exact ⟨_, .cons inside taken same safe scans⟩
          rcases mode.settle_eq_self_or c with settled | ⟨start, rfl, rfl⟩
          · exact reading settled anchored holds
          · obtain ⟨landing, taken, same, safe⟩ := exists_turn anchored holds split
            obtain ⟨later, scans⟩ := reading rfl (Mode.anchored_code text) same.after
            have next : landing.next = index := same.next
            rw [run_lineComment]
            exact ⟨_, .cons inside taken same safe (by rwa [next])⟩

end Cursor

/-- From every index on, the machine comes to the end of the text, in one way. Its turns are the
moments of the scanner's run; each of them stays within the text, goes forward unless it ends a line
comment, and leaves registers that fit the text. -/
theorem exists_unique_safe_scan (text : Text) (start : Nat) :
    ∃ turns, (∀ others, Scans text start {} others ↔ others = turns) ∧
      List.Forall₂ Turn.Matches turns (runFrom .code start 0 (text.drop start)) ∧
      turns.length ≤ 2 * (text.length - start) ∧ ∀ turn ∈ turns, turn.Safe text := by
  obtain ⟨turns, scans⟩ := @Cursor.exists_scan Cursor.code text _ start {}
    (Mode.anchored_code text) Registers.holds_initial (Nat.zero_le _) rfl
  refine ⟨turns, ?_, scans.matched, ?_, scans.safe⟩
  · intro others
    constructor
    · exact scans.scans.unique
    · rintro rfl
      exact scans.scans
  · rw [scans.matched.length_eq, ← List.length_drop]
    exact Cursor.code.length_run_le start (text.drop start)

theorem exists_unique_safe_scan_lineComment :
    ∃ turn : Turn, turn.Safe ['/', '/', '\n'] ∧ turn.EndsLineComment ['/', '/', '\n'] ∧
      turn.before.commentStart = some 0 ∧ turn.index = 2 ∧ turn.landing.next = 2 := by
  obtain ⟨turns, unique, -, -, safe⟩ := exists_unique_safe_scan ['/', '/', '\n'] 0
  have scans : Scans ['/', '/', '\n'] 0 {} _ :=
    .turn (by decide) rfl (.turn (by decide) rfl (.turn (by decide) rfl (.done (by decide))))
  have closing := safe _ (by rw [← (unique _).mp scans]; exact .tail _ (.head _))
  exact ⟨_, closing, ⟨rfl, rfl⟩, rfl, rfl, rfl⟩

end HardcodedText
