import HardcodedText.Proofs.ArgumentList
import HardcodedText.Proofs.Comment

/-!
The parentheses of a text that count. Where an argument list ends depends on them alone, and none of
them stands in a comment. So an argument list ends in the same place when comments become blank.
-/

namespace HardcodedText

def isParenthesis (c : Char) : Bool :=
  c == '(' || c == ')'

namespace Cursor

def counted (cursor : Cursor) (index : Nat) : Text → Text
  | [] => []
  | c :: rest =>
      (if cursor.counts && isParenthesis c then c else ' ') ::
        (cursor.next index c rest).counted (index + 1) rest

end Cursor

def closingPlace (depth : Nat) : Text → Option Nat
  | [] => none
  | c :: rest =>
      if c == ')' && decide (depth ≤ 1) then some 0
      else
        (closingPlace (if c == ')' then depth - 1 else if c == '(' then depth + 1 else depth)
          rest).map (· + 1)

theorem beq_counted {c parenthesis : Char} (listed : isParenthesis parenthesis = true)
    (counts : Bool) :
    ((if counts && isParenthesis c then c else ' ') == parenthesis) =
      (counts && c == parenthesis) := by
  have space : (' ' == parenthesis) = false := by
    rw [beq_eq_false_iff_ne]
    rintro rfl
    exact absurd listed (by decide)
  cases counts with
  | false => exact space
  | true =>
      rw [Bool.true_and, Bool.true_and]
      split
      next => rfl
      next other =>
        rw [space]
        symm
        rw [beq_eq_false_iff_ne]
        rintro rfl
        exact other listed

namespace Cursor

/-- The parentheses that count decide where an argument list ends. -/
theorem length_balanced (cursor : Cursor) (index depth : Nat) (text : Text) :
    (cursor.balanced index depth text).map List.length =
      closingPlace depth (cursor.counted index text) := by
  induction text generalizing cursor index depth with
  | nil =>
      rw [balanced_nil]
      rfl
  | cons c rest ih =>
      rw [balanced_cons, counted, closingPlace, beq_counted (by decide), beq_counted (by decide),
        ← depthAfter, ← ih]
      split
      · rfl
      · rw [Option.map_map, Option.map_map]
        rfl

theorem AtCode.counted_eq {cursor : Cursor} {text : Text} (atCode : cursor.AtCode text)
    (index : Nat) : cursor.counted index text = Cursor.code.counted index text := by
  cases text with
  | nil => rfl
  | cons c rest =>
      have first :
          (cursor.counts && isParenthesis c) = (Cursor.code.counts && isParenthesis c) := by
        obtain ⟨mode, skip⟩ := cursor
        obtain ⟨here, settled⟩ := atCode
        simp only at here settled
        subst here
        rcases mode.settle_eq_self_or c with same | ⟨start, rfl, rfl⟩
        · rw [← same, settled]
          rfl
        · rfl
      rw [counted, counted, atCode.next_eq, first]

theorem counted_ordinary {plain : Text} (ordinary : Ordinary plain)
    (parenless : ∀ c ∈ plain, isParenthesis c = false) (index : Nat) (rest : Text) :
    Cursor.code.counted index (plain ++ rest) =
      List.replicate plain.length ' ' ++ Cursor.code.counted (index + plain.length) rest := by
  induction plain generalizing index with
  | nil => rfl
  | cons c plain ih =>
      have first := step_code_ordinary (ordinary c List.mem_cons_self) index (plain ++ rest)
      rw [List.cons_append, counted, next_code_plain first,
        ih (fun other member => ordinary other (List.mem_cons_of_mem _ member))
          (fun other member => parenless other (List.mem_cons_of_mem _ member)),
        parenless c List.mem_cons_self, Bool.and_false, if_neg (by decide), List.length_cons,
        List.replicate_succ, List.cons_append, Nat.add_assoc, Nat.add_comm 1]

def Silent (cursor : Cursor) (index : Nat) (body rest : Text) : Prop :=
  ∀ front c back, body = front ++ c :: back →
    (cursor.advance index front (c :: (back ++ rest))).counts = false ∨ isParenthesis c = false

theorem Silent.counted_eq {cursor : Cursor} {index : Nat} {body rest : Text}
    (silent : cursor.Silent index body rest) :
    cursor.counted index (body ++ rest) =
      List.replicate body.length ' ' ++
        (cursor.advance index body rest).counted (index + body.length) rest := by
  induction body generalizing cursor index with
  | nil => rfl
  | cons c body ih =>
      have first : (cursor.counts && isParenthesis c) = false := by
        rcases silent [] c body rfl with uncounted | other
        · rw [advance] at uncounted
          rw [uncounted, Bool.false_and]
        · rw [other, Bool.and_false]
      have later : (cursor.next index c (body ++ rest)).Silent (index + 1) body rest := by
        intro front d back split
        have there := silent (c :: front) d back (by rw [split]; rfl)
        rw [advance] at there
        rwa [split, List.append_assoc]
      rw [List.cons_append, counted, ih later, first, if_neg (by decide), advance, List.length_cons,
        List.replicate_succ, List.cons_append, Nat.add_assoc, Nat.add_comm 1]

/-! Inside of a comment. -/

theorem isClosing_closing (enclosure : Enclosure) : enclosure.closing.isClosing = true := by
  cases enclosure <;> rfl

/-- As long as nothing closes, the scanner stays inside. -/
theorem enclosed_of_quiet {enclosure : Enclosure} {cursor : Cursor} {index : Nat} {body rest : Text}
    (inside : cursor.mode.enclosure = some enclosure)
    (quiet : ∀ moment ∈ cursor.closings index (body ++ rest), index + body.length ≤ moment.index) :
    (cursor.advance index body rest).mode.enclosure = some enclosure := by
  induction body generalizing cursor index with
  | nil => exact inside
  | cons c body ih =>
      rw [List.cons_append, closings_cons] at quiet
      have silent : ∀ moment ∈ cursor.moments index c (body ++ rest),
          moment.event.isClosing = false := by
        intro moment member
        by_contra closes
        have bound := quiet moment (List.mem_append_left _
          (List.mem_filter.mpr ⟨member, by simpa using closes⟩))
        rw [(moments_bounds member).1, List.length_cons] at bound
        omega
      have still : (cursor.next index c (body ++ rest)).mode.enclosure = some enclosure := by
        obtain ⟨mode, skip⟩ := cursor
        cases skip with
        | succ skip => exact inside
        | zero =>
            -- A line comment is the one mode that a line feed settles, and that closes it.
            rcases mode.settle_eq_self_or c with settled | ⟨start, rfl, rfl⟩
            · rcases Mode.step_enclosed_cases inside settled index (body ++ rest) with
                ⟨-, stays, -⟩ | ⟨closed, -⟩
              · simpa [next, Mode.consume, settled] using stays
              · have event := silent (Moment.ofStep index mode (mode.step index c (body ++ rest)))
                  (by simp [moments, Mode.consume, settled])
                rw [closed, Moment.ofStep, isClosing_closing] at event
                exact absurd event (by decide)
            · have event := silent ⟨index, .lineComment start, .commentClose start, index, .code⟩
                (by simp [moments, Mode.settling])
              simp [Event.isClosing] at event
      rw [advance]
      apply ih still
      intro moment member
      have bound := quiet moment (List.mem_append_right _ member)
      rw [List.length_cons] at bound
      omega

end Cursor

/-! Comments. -/

def Enclosure.isComment : Enclosure → Bool
  | .literal .. => false
  | _ => true

theorem Cursor.counts_of_comment {cursor : Cursor} {enclosure : Enclosure}
    (comment : enclosure.isComment = true) (inside : cursor.mode.enclosure = some enclosure) :
    cursor.counts = false := by
  obtain ⟨mode, skip⟩ := cursor
  cases mode with
  | code => simp [Mode.enclosure] at inside
  | lineComment start => simp [Cursor.counts, Mode.countsParentheses]
  | blockComment start depth => simp [Cursor.counts, Mode.countsParentheses]
  | _ =>
      obtain rfl := Option.some_inj.mp inside
      simp [Enclosure.isComment] at comment

theorem Cursor.Silent.append {cursor : Cursor} {index : Nat} {body more rest : Text}
    (silent : cursor.Silent index body (more ++ rest))
    (parenless : ∀ c ∈ more, isParenthesis c = false) :
    cursor.Silent index (body ++ more) rest := by
  intro front c back split
  rcases List.append_eq_append_iff.mp split with ⟨between, rfl, rfl⟩ | ⟨between, rfl, behind⟩
  · exact Or.inr (parenless c (by simp))
  · cases between with
    | nil =>
        rw [List.nil_append] at behind
        exact Or.inr (parenless c (by simp [← behind]))
    | cons first between =>
        rw [List.cons_append, List.cons_eq_cons] at behind
        obtain ⟨rfl, rfl⟩ := behind
        rw [List.append_assoc]
        exact silent front c between rfl

/-- A comment has no parenthesis that counts up to the place where it closes. -/
theorem silent_of_quiet {enclosure : Enclosure} (comment : enclosure.isComment = true) {index : Nat}
    {c : Char} (first : isParenthesis c = false) {body rest : Text}
    (inside : (Cursor.code.next index c (body ++ rest)).mode.enclosure = some enclosure)
    (quiet : ∀ moment ∈ Cursor.code.closings index (c :: (body ++ rest)),
      index + 1 + body.length ≤ moment.index) :
    Cursor.code.Silent index (c :: body) rest := by
  intro front d back split
  cases front with
  | nil =>
      obtain ⟨rfl, -⟩ := List.cons_eq_cons.mp split
      exact Or.inr first
  | cons other front =>
      rw [List.cons_append, List.cons_eq_cons] at split
      obtain ⟨rfl, rfl⟩ := split
      rw [List.append_assoc, List.cons_append] at inside quiet
      refine Or.inl (Cursor.counts_of_comment comment ?_)
      rw [Cursor.advance]
      apply Cursor.enclosed_of_quiet inside
      intro moment member
      have bound := quiet moment (by
        rw [Cursor.closings_cons]
        exact List.mem_append_right _ member)
      rw [List.length_append] at bound
      omega

theorem Encloses.quiet {index : Nat} {enclosure : Enclosure} {inner rest : Text}
    (encloses : Encloses index enclosure inner rest) :
    ∀ moment ∈ Cursor.code.closings index (enclosure.written inner ++ rest),
      index + (enclosure.opener ++ inner).length ≤ moment.index := by
  obtain ⟨before, listed⟩ := encloses.closings_eq
  rw [listed rest (Erases.refl rest)]
  intro moment member
  rcases List.mem_cons.mp member with rfl | later
  · exact Nat.le_refl _
  · have bound := (Cursor.run_bounds (List.mem_filter.mp later).1).1
    rw [Enclosure.written, List.length_append] at bound
    omega

theorem Encloses.silent {index : Nat} {enclosure : Enclosure} {inner rest : Text}
    (encloses : Encloses index enclosure inner rest) (comment : enclosure.isComment = true) :
    Cursor.code.Silent index (enclosure.written inner) rest := by
  have quiet := encloses.quiet
  have start := encloses.start_eq
  cases enclosure with
  | literal delimiter first => simp [Enclosure.isComment] at comment
  | lineComment first =>
      obtain rfl : first = index := start
      have shape : (Enclosure.lineComment first).written inner = '/' :: '/' :: inner := by
        simp [Enclosure.written, Enclosure.opener, Enclosure.terminator]
      rw [shape] at quiet ⊢
      refine silent_of_quiet comment (by decide) ?_ ?_
      · simp [Cursor.next, Cursor.code, Mode.consume, Mode.settle, Mode.step, stepCode, isQuote,
          Mode.enclosure]
      · intro moment member
        have bound := quiet moment member
        simp only [Enclosure.opener, List.length_append, List.length_cons, List.length_nil]
          at bound ⊢
        omega
  | blockComment first =>
      obtain rfl : first = index := start
      have shape : (Enclosure.blockComment first).written inner =
          '/' :: '*' :: inner ++ ['*', '/'] := rfl
      rw [shape, List.append_assoc] at quiet
      rw [shape]
      apply Cursor.Silent.append _ (by simp [isParenthesis])
      refine silent_of_quiet comment (by decide) ?_ ?_
      · simp [Cursor.next, Cursor.code, Mode.consume, Mode.settle, Mode.step, stepCode, isQuote,
          Mode.enclosure]
      · intro moment member
        have bound := quiet moment member
        simp only [Enclosure.opener, List.length_append, List.length_cons, List.length_nil]
          at bound ⊢
        omega

theorem counted_comment {index : Nat} {enclosure : Enclosure} {inner rest : Text}
    (encloses : Encloses index enclosure inner rest) (comment : enclosure.isComment = true) :
    Cursor.code.counted index (enclosure.written inner ++ rest) =
      List.replicate (enclosure.written inner).length ' ' ++
        Cursor.code.counted (index + (enclosure.written inner).length) rest := by
  rw [(encloses.silent comment).counted_eq, encloses.arrives.counted_eq]

theorem LeftOpen.enters {index : Nat} {enclosure : Enclosure} {c : Char} {rest : Text}
    (left : LeftOpen index enclosure (c :: rest)) :
    (Cursor.code.next index c rest).mode.enclosure = some enclosure := by
  rcases Mode.step_code_cases index c rest with ⟨-, plain⟩ | ⟨entered, -, -, -, -, inside, -⟩
  · exact absurd plain left.not_plain
  · have mode : (Cursor.code.next index c rest).mode.enclosure = some entered := inside
    have silent := left.silent
    rw [Cursor.closings_cons, List.append_eq_nil_iff] at silent
    have still : ((Cursor.code.next index c rest).advance (index + 1) rest []).mode.enclosure =
        some entered := by
      apply Cursor.enclosed_of_quiet mode
      rw [List.append_nil, silent.2]
      simp
    have final := left.inside
    rw [Cursor.advance, List.append_nil, still] at final
    rw [mode, final]

theorem counted_openComment {index : Nat} {enclosure : Enclosure} {text : Text}
    (left : LeftOpen index enclosure text) (comment : enclosure.isComment = true) :
    Cursor.code.counted index text = List.replicate text.length ' ' := by
  cases text with
  | nil => rfl
  | cons c rest =>
      have first : isParenthesis c = false := by
        rcases left.head with quote | rfl
        · by_contra parenthesis
          rw [Bool.not_eq_false, isParenthesis, Bool.or_eq_true, beq_iff_eq, beq_iff_eq]
            at parenthesis
          rcases parenthesis with rfl | rfl <;> exact absurd quote (by decide)
        · decide
      have inside := left.enters
      have silent : Cursor.code.Silent index (c :: rest) [] := by
        apply silent_of_quiet comment first
        · rwa [List.append_nil]
        · rw [List.append_nil, left.silent]
          simp
      have whole := silent.counted_eq
      rw [List.append_nil] at whole
      rw [whole]
      exact List.append_nil _

/-! Literals. -/

theorem Cursor.skip_le_of_advance {cursor : Cursor} {index : Nat} {body rest : Text}
    (done : (cursor.advance index body rest).skip = 0) : cursor.skip ≤ body.length := by
  induction body generalizing cursor index with
  | nil => exact Nat.le_of_eq done
  | cons c body ih =>
      have bound := ih done
      obtain ⟨mode, skip⟩ := cursor
      cases skip with
      | zero => simp
      | succ skip => exact Nat.succ_le_succ bound

theorem Cursor.next_erased {cursor : Cursor} (sound : cursor.mode.Sound) {body rest other : Text}
    (erases : Erases rest other) {index : Nat} {c : Char}
    (room : (cursor.next index c (body ++ rest)).skip ≤ body.length) :
    cursor.next index c (body ++ other) = cursor.next index c (body ++ rest) := by
  obtain ⟨mode, skip⟩ := cursor
  cases skip with
  | succ skip => rfl
  | zero =>
      have same : mode.consume index c (body ++ other) = mode.consume index c (body ++ rest) := by
        apply Mode.step_erased (sound.settle c) (erases.append_left body)
        have consumed : (mode.consume index c (body ++ rest)).width - 1 ≤ body.length := room
        rw [Mode.consume] at consumed
        rw [List.take_append_of_le_length consumed, List.take_append_of_le_length consumed]
      simp only [next, same]

/-- What is erased behind a part that has been consumed does not change what counts in it. -/
theorem Cursor.counted_erased {cursor : Cursor} (sound : cursor.mode.Sound) {body rest other : Text}
    (erases : Erases rest other) {index : Nat}
    (done : (cursor.advance index body rest).skip = 0) :
    ∃ marks, cursor.counted index (body ++ rest) =
        marks ++ (cursor.advance index body rest).counted (index + body.length) rest ∧
      cursor.counted index (body ++ other) =
        marks ++ (cursor.advance index body other).counted (index + body.length) other := by
  induction body generalizing cursor index with
  | nil => exact ⟨[], rfl, rfl⟩
  | cons c body ih =>
      have same := Cursor.next_erased sound erases (Cursor.skip_le_of_advance done)
      obtain ⟨marks, original, copied⟩ := ih (Cursor.sound_next sound index c _) done
      have place : index + (c :: body).length = index + 1 + body.length := by
        rw [List.length_cons]
        omega
      refine ⟨(if cursor.counts && isParenthesis c then c else ' ') :: marks, ?_, ?_⟩
      · rw [List.cons_append, counted, original, advance, place, List.cons_append]
      · rw [List.cons_append, counted, advance, same, copied, place, List.cons_append]

/-! A text whose comments have become blank. -/

theorem closed_closingAt (length index : Nat) (enclosure : Enclosure) (inner : Text)
    (before : Mode) :
    (commentSelection length fun _ => true).closed (enclosure.closingAt index inner before) =
      enclosure.isComment := by
  cases enclosure <;> rfl

theorem unclosed_of_enclosure {mode : Mode} {enclosure : Enclosure}
    (inside : mode.enclosure = some enclosure) (length : Nat) :
    (commentSelection length fun _ => true).unclosed mode = enclosure.isComment := by
  cases mode with
  | code => simp [Mode.enclosure] at inside
  | _ =>
      obtain rfl := Option.some_inj.mp inside
      rfl

theorem counted_blank {kept : Char → Bool}
    (harmless : ∀ c, kept c = true → isQuote c = false ∧ c ≠ '/')
    (parenless : ∀ c, kept c = true → isParenthesis c = false) {body : Text}
    (blank : ∀ c ∈ body, c = ' ' ∨ kept c = true) (index : Nat) (rest : Text) :
    Cursor.code.counted index (body ++ rest) =
      List.replicate body.length ' ' ++ Cursor.code.counted (index + body.length) rest := by
  rw [Cursor.counted_ordinary (ordinary_of_blank harmless blank)]
  intro c member
  rcases blank c member with rfl | stays
  · decide
  · exact parenless c stays

/-- The same parentheses count when the comments become blank. -/
theorem Blanked.counted_eq {kept : Char → Bool}
    (harmless : ∀ c, kept c = true → isQuote c = false ∧ c ≠ '/')
    (parenless : ∀ c, kept c = true → isParenthesis c = false) {length index : Nat}
    {text copy : Text}
    (blanked : Blanked kept (commentSelection length fun _ => true) index text copy) :
    Cursor.code.counted index copy = Cursor.code.counted index text := by
  induction blanked with
  | nil index => rfl
  | @plain index c rest copy step erases _ ih =>
      have same : Mode.code.step index c copy = ⟨.none, 1, .code⟩ := by
        rw [← step]
        apply Mode.step_erased Mode.sound_code erases
        simp [step]
      rw [Cursor.counted, Cursor.counted, Cursor.next_code_plain same, Cursor.next_code_plain step,
        ih]
  | stays encloses _ _ erases _ ih =>
      obtain ⟨marks, original, copied⟩ :=
        Cursor.counted_erased Mode.sound_code erases encloses.arrives.1
      rw [original, copied, encloses.arrives.counted_eq,
        (encloses.erased erases).arrives.counted_eq, ih]
  | goes encloses _ picked width blank _ ih =>
      rw [closed_closingAt] at picked
      rw [counted_comment encloses picked, counted_blank harmless parenless blank, width, ih]
  | openStays => rfl
  | @openGoes index enclosure text body left picked width blank =>
      rw [unclosed_of_enclosure left.inside] at picked
      have whole := counted_blank harmless parenless blank index []
      rw [List.append_nil, width] at whole
      rw [whole, counted_openComment left picked]
      exact List.append_nil _

theorem Selection.spansFrom_behind (selection : Selection) {back : Text} (nonempty : back ≠ [])
    (index : Nat) (front : Text) (uncovered : ∀ span ∈ inertFrom index (front ++ back),
      span.contains (index + front.length) = false) :
    ∀ offset, index + front.length ≤ offset →
      (selection.spansFrom index (front ++ back)).any (·.contains offset) =
        (selection.spansFrom (index + front.length) back).any (·.contains offset) := by
  apply uncovered_induction (motive := fun index front back => ∀ offset,
    index + front.length ≤ offset →
      (selection.spansFrom index (front ++ back)).any (·.contains offset) =
        (selection.spansFrom (index + front.length) back).any (·.contains offset))
    ?_ ?_ ?_ nonempty index front uncovered
  · intro index back offset _
    rw [List.nil_append, List.length_nil, Nat.add_zero]
  · intro index c front back step ih offset after
    have place : index + (c :: front).length = index + 1 + front.length := by
      rw [List.length_cons]
      omega
    rw [place] at after ⊢
    rw [List.cons_append, Selection.spansFrom_plain step]
    exact ih offset after
  · intro index enclosure inner front back encloses ih offset after
    rw [List.length_append, ← Nat.add_assoc] at after ⊢
    obtain ⟨before, listed⟩ := encloses.closings_eq
    rw [List.append_assoc, Selection.spansFrom_closed encloses (listed _ (Erases.refl _)),
      List.any_append, ih offset after]
    have passed : ¬ offset < index + (enclosure.written inner).length := by omega
    split <;> simp [Span.contains, passed]

theorem extractBalanced_append_parenthesis (front rest : Text) :
    extractBalanced (front ++ '(' :: rest) front.length =
      Cursor.code.balanced (front.length + 1) 1 rest := by
  have natural : ¬ ((front.length : Int) < 0) := by omega
  rw [extractBalanced, if_neg natural, Int.toNat_natCast, List.drop_left]
  rfl

/-- A parenthesis in code is closed in the same place when the comments become blank. -/
theorem length_extractBalanced_stripComments {text : Text} {offset : Nat}
    (parenthesis : text[offset]? = some '(')
    (outside : ∀ span ∈ inertSpans text, span.contains offset = false) :
    (extractBalanced (stripComments text []) offset).map List.length =
      (extractBalanced text offset).map List.length := by
  obtain ⟨front, rest, rfl, rfl⟩ := exists_split parenthesis
  rw [inertSpans_eq] at outside
  have step : Mode.code.step front.length '(' rest = ⟨.none, 1, .code⟩ :=
    step_code_ordinary (by decide) _ rest
  rw [stripComments_eq]
  generalize listed : (commentSpans (front ++ '(' :: rest)).filter
    (fun span => !isMarked [] (front ++ '(' :: rest) span) = spans
  have agree (place : Nat) (after : front.length ≤ place) : spans.any (·.contains place) =
      ((commentSelection (front ++ '(' :: rest).length fun _ => true).spansFrom
        (front.length + 1) rest).any (·.contains place) := by
    have behind := Selection.spansFrom_behind
      (commentSelection (front ++ '(' :: rest).length fun _ => true)
      (List.cons_ne_nil '(' rest) 0 front (by rwa [Nat.zero_add]) place (by rwa [Nat.zero_add])
    rw [Nat.zero_add, Selection.spansFrom_plain step] at behind
    rw [← listed, filter_commentSpans]
    exact behind
  have uncovered := agree front.length (Nat.le_refl _)
  rw [Selection.spansFrom_not_contains (Nat.lt_succ_self _)] at uncovered
  have before := extractBalanced_append_parenthesis (blankFrom isLineEnd spans 0 front)
    (blankFrom isLineEnd spans (front.length + 1) rest)
  rw [length_blankFrom] at before
  rw [blankOut_eq, blankFrom_append, Nat.zero_add, blankFrom_cons, uncovered, Bool.and_false,
    if_neg (by decide)]
  have harmless (c : Char) (stays : isLineEnd c = true) :
      isQuote c = false ∧ c ≠ '/' ∧ isParenthesis c = false := by
    rw [isLineEnd, Bool.or_eq_true, beq_iff_eq, beq_iff_eq] at stays
    rcases stays with rfl | rfl <;> decide
  have lineFeed : isLineEnd '\n' = true := by decide
  have blanked := blanked_blankFrom lineFeed _ (front.length + 1) rest spans
    fun place after => agree place (by omega)
  rw [before, extractBalanced_append_parenthesis, Cursor.length_balanced, Cursor.length_balanced,
    blanked.counted_eq (fun c stays => ⟨(harmless c stays).1, (harmless c stays).2.1⟩)
      (fun c stays => (harmless c stays).2.2)]

end HardcodedText
