import HardcodedText.Proofs.Scanner.Cut

/-!
Argument lists of calls. The list that a parenthesis in code opens has exactly the literals that the
whole text has inside of it, and two such lists are nested or apart.
-/

namespace HardcodedText

theorem Mode.consume_eq (mode : Mode) (index : Nat) (c : Char) (rest : Text) :
    (if (mode.step index c rest).width = 0 then (mode.step index c rest).mode.step index c rest
      else mode.step index c rest) = mode.consume index c rest := by
  rcases mode.settle_eq_self_or c with settled | ⟨start, rfl, rfl⟩
  · have moving := Mode.step_width_pos settled index rest
    rw [if_neg (by omega), Mode.consume, settled]
  · simp [Mode.step, stepLineComment, Mode.consume, Mode.settle]

namespace Cursor

def balanced (cursor : Cursor) (index depth : Nat) (text : Text) : Option Text :=
  balancedFrom cursor.mode index cursor.skip depth text

def counts (cursor : Cursor) : Bool :=
  cursor.skip == 0 && cursor.mode.countsParentheses

def depthAfter (cursor : Cursor) (c : Char) (depth : Nat) : Nat :=
  if cursor.counts && c == ')' then depth - 1
  else if cursor.counts && c == '(' then depth + 1
  else depth

@[simp] theorem balanced_nil (cursor : Cursor) (index depth : Nat) :
    cursor.balanced index depth [] = none := by
  simp [balanced, balancedFrom]

theorem balanced_cons (cursor : Cursor) (index depth : Nat) (c : Char) (rest : Text) :
    cursor.balanced index depth (c :: rest) =
      if (cursor.counts && c == ')' && decide (depth ≤ 1)) = true then some []
      else ((cursor.next index c rest).balanced (index + 1) (cursor.depthAfter c depth) rest).map
        (c :: ·) := by
  obtain ⟨mode, skip⟩ := cursor
  cases skip with
  | succ skip => simp [balanced, balancedFrom, counts, next, depthAfter]
  | zero =>
      simp only [balanced, balancedFrom, Mode.consume_eq, counts, next, depthAfter,
        beq_self_eq_true, Bool.true_and]

theorem balanced_eq_some {cursor : Cursor} {index depth : Nat} {text inside : Text}
    (found : cursor.balanced index depth text = some inside) :
    ∃ more, text = inside ++ ')' :: more := by
  induction text generalizing cursor index depth inside with
  | nil => simp at found
  | cons c rest ih =>
      rw [balanced_cons] at found
      split at found
      next closes =>
        simp only [Bool.and_eq_true, beq_iff_eq] at closes
        obtain rfl := Option.some_inj.mp found
        exact ⟨rest, by rw [closes.1.2]; rfl⟩
      next =>
        obtain ⟨later, inner, rfl⟩ := Option.map_eq_some_iff.mp found
        obtain ⟨more, rfl⟩ := ih inner
        exact ⟨more, rfl⟩

theorem depthAfter_pos {cursor : Cursor} {c : Char} {depth : Nat} (positive : 1 ≤ depth)
    (stays : ¬ (cursor.counts && c == ')' && decide (depth ≤ 1)) = true) :
    1 ≤ cursor.depthAfter c depth := by
  unfold depthAfter
  split
  next closes =>
    simp only [closes, Bool.true_and, decide_eq_true_eq] at stays
    omega
  next =>
    split
    · omega
    · exact positive

theorem balanced_append {cursor : Cursor} {index depth : Nat} {front back inside : Text}
    (positive : 1 ≤ depth)
    (found : cursor.balanced index depth (front ++ back) = some (front ++ inside)) :
    ∃ deeper, 1 ≤ deeper ∧
      (cursor.advance index front back).balanced (index + front.length) deeper back =
        some inside := by
  induction front generalizing cursor index depth with
  | nil => exact ⟨depth, positive, found⟩
  | cons c front ih =>
      rw [List.cons_append, balanced_cons] at found
      split at found
      next => simp at found
      next stays =>
        obtain ⟨later, inner, same⟩ := Option.map_eq_some_iff.mp found
        obtain rfl : later = front ++ inside := by simpa using same
        obtain ⟨deeper, open', result⟩ := ih (depthAfter_pos positive stays) inner
        refine ⟨deeper, open', ?_⟩
        rw [List.length_cons, ← Nat.add_assoc, Nat.add_right_comm]
        exact result

theorem balanced_shallower {cursor : Cursor} {index shallow deep : Nat} {text outer : Text}
    (positive : 1 ≤ shallow) (deeper : shallow < deep)
    (found : cursor.balanced index deep text = some outer) :
    ∃ inner, cursor.balanced index shallow text = some inner ∧ inner.length < outer.length := by
  induction text generalizing cursor index shallow deep outer with
  | nil => simp at found
  | cons c rest ih =>
      rw [balanced_cons] at found ⊢
      have goesOn : ¬ (cursor.counts && c == ')' && decide (deep ≤ 1)) = true := by
        simp only [Bool.and_eq_true, decide_eq_true_eq]
        omega
      rw [if_neg goesOn] at found
      obtain ⟨later, remaining, rfl⟩ := Option.map_eq_some_iff.mp found
      by_cases closes : (cursor.counts && c == ')' && decide (shallow ≤ 1)) = true
      · exact ⟨[], by rw [if_pos closes], by simp⟩
      · have less : cursor.depthAfter c shallow < cursor.depthAfter c deep := by
          have above := depthAfter_pos positive closes
          unfold depthAfter at above ⊢
          split
          next closing =>
            simp only [closing, if_true] at above
            omega
          next => split <;> omega
        obtain ⟨inner, result, shorter⟩ := ih (depthAfter_pos positive closes) less remaining
        refine ⟨c :: inner, by rw [if_neg closes, result]; rfl, ?_⟩
        simpa using shorter

theorem counts_shift (distance : Nat) (cursor : Cursor) :
    (cursor.shift distance).counts = cursor.counts := by
  obtain ⟨mode, skip⟩ := cursor
  cases mode <;> rfl

theorem balanced_shift (distance : Nat) (cursor : Cursor) (index depth : Nat)
    (text : Text) :
    (cursor.shift distance).balanced (index + distance) depth text =
      cursor.balanced index depth text := by
  induction text generalizing cursor index depth with
  | nil => simp
  | cons c rest ih =>
      rw [balanced_cons, balanced_cons, counts_shift, next_shift, depthAfter, depthAfter,
        counts_shift, Nat.add_right_comm, ih]

end Cursor

theorem extractBalanced_eq_some_iff {text inside : Text} {offset : Nat} :
    extractBalanced text offset = some inside ↔
      ∃ front rest, text = front ++ '(' :: rest ∧ front.length = offset ∧
        Cursor.code.balanced (offset + 1) 1 rest = some inside := by
  have natural : ¬ ((offset : Int) < 0) := by omega
  rw [extractBalanced, if_neg natural, Int.toNat_natCast]
  constructor
  · intro found
    split at found
    next rest dropped =>
      refine ⟨text.take offset, rest, ?_, ?_, found⟩
      · rw [← dropped, List.take_append_drop]
      · have shorter := congrArg List.length dropped
        simp only [List.length_drop, List.length_cons] at shorter
        rw [List.length_take]
        omega
    next => simp at found
  · rintro ⟨front, rest, rfl, rfl, found⟩
    rw [List.drop_left]
    exact found

theorem extractBalanced_append {text inside : Text}
    (found : extractBalanced ('(' :: text) 0 = some inside) (front : Text) :
    extractBalanced (front ++ '(' :: text) front.length = some inside := by
  obtain ⟨before, rest, split, length, balanced⟩ := extractBalanced_eq_some_iff.mp found
  obtain rfl : before = [] := List.length_eq_zero_iff.mp length
  obtain rfl : text = rest := (List.cons_eq_cons.mp split).2
  refine extractBalanced_eq_some_iff.mpr ⟨front, text, rfl, rfl, ?_⟩
  rw [← balanced, Nat.add_comm front.length]
  exact Cursor.balanced_shift front.length Cursor.code (0 + 1) 1 text

structure ArgumentsAt (text : Text) (offset : Nat) (inside : Text) : Prop where
  parenthesis : text[offset]? = some '('
  outside : ∀ span ∈ inertSpans text, span.contains offset = false
  extracted : extractBalanced text offset = some inside

def argumentSpan (offset : Nat) (inside : Text) : Span :=
  ⟨offset + 1, offset + 1 + inside.length⟩

namespace Span

def Within (inner outer : Span) : Prop :=
  outer.start ≤ inner.start ∧ inner.stop ≤ outer.stop

def Apart (left right : Span) : Prop :=
  left.stop ≤ right.start ∨ right.stop ≤ left.start

instance (inner outer : Span) : Decidable (inner.Within outer) :=
  inferInstanceAs (Decidable (_ ∧ _))

instance (left right : Span) : Decidable (left.Apart right) :=
  inferInstanceAs (Decidable (_ ∨ _))

end Span

structure ArgumentsSplit (text : Text) (offset : Nat) (front inside more : Text) : Prop where
  text_eq : text = front ++ '(' :: (inside ++ ')' :: more)
  length_eq : front.length = offset
  inCode : InCode front ('(' :: (inside ++ ')' :: more))
  balanced : Cursor.code.balanced (offset + 1) 1 (inside ++ ')' :: more) = some inside

theorem ArgumentsAt.split {text inside : Text} {offset : Nat}
    (arguments : ArgumentsAt text offset inside) :
    ∃ front more, ArgumentsSplit text offset front inside more := by
  obtain ⟨front, rest, rfl, rfl, found⟩ := extractBalanced_eq_some_iff.mp arguments.extracted
  obtain ⟨more, rfl⟩ := Cursor.balanced_eq_some found
  exact ⟨front, more, rfl, rfl, inCode_of_outside (by simp) arguments.outside, found⟩

theorem ArgumentsSplit.literals_eq {text front inside more : Text} {offset : Nat}
    (arguments : ArgumentsSplit text offset front inside more) :
    (stringLiterals inside).map (StringLiteral.shift (offset + 1)) =
      (stringLiterals text).filter fun literal =>
        literal.span.Within (argumentSpan offset inside) := by
  obtain ⟨rfl, rfl, inCode, -⟩ := arguments
  obtain ⟨later, cut, beyond⟩ := literalsFrom_append_solitary solitary_closeParenthesis
    (front.length + 1) inside more
  have before : (stringLiterals front).filter (fun literal =>
      literal.span.Within (argumentSpan front.length inside)) = [] := by
    rw [List.filter_eq_nil_iff]
    intro literal member
    have written := stringLiterals_writtenIn member
    have positive := written.start_lt_stop
    have last := written.last
    rw [decide_eq_true_eq]
    simp only [Span.Within, argumentSpan, StringLiteral.span]
    omega
  have within : (literalsFrom (front.length + 1) inside).filter (fun literal =>
      literal.span.Within (argumentSpan front.length inside)) =
        literalsFrom (front.length + 1) inside := by
    rw [List.filter_eq_self]
    intro literal member
    have written := literalsFrom_writtenIn _ _ literal member
    exact decide_eq_true ⟨written.first, written.last⟩
  have after : later.filter (fun literal =>
      literal.span.Within (argumentSpan front.length inside)) = [] := by
    rw [List.filter_eq_nil_iff]
    intro literal member
    have reaches := beyond literal member
    rw [decide_eq_true_eq]
    simp only [Span.Within, argumentSpan, StringLiteral.span]
    omega
  rw [stringLiterals_of_inCode inCode, cut, List.filter_append, List.filter_append, before, within,
    after, literalsFrom_eq_shift, List.nil_append, List.append_nil]

theorem split_inside {front inside more front' rest : Text}
    (same : front ++ '(' :: (inside ++ ')' :: more) = front' ++ '(' :: rest)
    (after : front.length < front'.length)
    (before : front'.length < front.length + 1 + inside.length) :
    ∃ left right, front' = front ++ '(' :: left ∧ inside = left ++ '(' :: right ∧
      rest = right ++ ')' :: more := by
  have opened : front ++ ['('] <+: front' := by
    have whole : front ++ ['('] <+: front' ++ '(' :: rest :=
      ⟨inside ++ ')' :: more, by simp [← same]⟩
    apply List.prefix_of_prefix_length_le whole (List.prefix_append _ _)
    rw [List.length_append, List.length_singleton]
    omega
  obtain ⟨left, rfl⟩ := opened
  have tail : inside ++ ')' :: more = left ++ '(' :: rest := by simpa using same
  have leftInside : left <+: inside := by
    have whole : left <+: inside ++ ')' :: more := ⟨'(' :: rest, tail.symm⟩
    apply List.prefix_of_prefix_length_le whole (List.prefix_append _ _)
    simp only [List.length_append, List.length_singleton] at before
    omega
  obtain ⟨right, rfl⟩ := leftInside
  rw [List.append_assoc, List.append_cancel_left_eq] at tail
  cases right with
  | nil => simp at tail
  | cons first right =>
      rw [List.cons_append, List.cons_eq_cons] at tail
      obtain ⟨rfl, rfl⟩ := tail
      exact ⟨left, right, by simp, rfl, rfl⟩

/-- An argument list that is opened inside of another one is closed there. -/
theorem ArgumentsSplit.within_of_lt {text front inside more front' inside' more' : Text}
    {offset offset' : Nat} (outer : ArgumentsSplit text offset front inside more)
    (inner : ArgumentsSplit text offset' front' inside' more') (after : offset < offset')
    (before : offset' < offset + 1 + inside.length) :
    (argumentSpan offset' inside').Within (argumentSpan offset inside) := by
  obtain ⟨rfl, rfl, inCode, balanced⟩ := outer
  obtain ⟨same, rfl, inCode', balanced'⟩ := inner
  obtain ⟨left, right, rfl, rfl, rest⟩ := split_inside same after before
  rw [rest] at inCode' balanced'
  rw [List.append_assoc, List.cons_append] at balanced
  -- The outer search passes the inner parenthesis with at least one more level open, and a search
  -- with fewer levels open ends earlier.
  obtain ⟨deeper, positive, found⟩ := Cursor.balanced_append (Nat.le_refl 1) balanced
  have here : Cursor.code.advance (front.length + 1) left ('(' :: (right ++ ')' :: more)) =
      Cursor.code := by
    have step : Mode.code.step front.length '(' (left ++ '(' :: (right ++ ')' :: more)) =
        ⟨.none, 1, .code⟩ := by
      simp [Mode.step, stepCode, isQuote]
    have start := inCode.eq_code (by decide)
    rw [List.append_assoc, List.cons_append] at start
    rw [InCode, Cursor.advance_append, List.cons_append, start, Nat.zero_add, Cursor.advance,
      Cursor.next_code_plain step] at inCode'
    exact inCode'.eq_code (by decide)
  have step : Mode.code.step (front.length + 1 + left.length) '(' (right ++ ')' :: more) =
      ⟨.none, 1, .code⟩ := by
    simp [Mode.step, stepCode, isQuote]
  rw [here, Cursor.balanced_cons, if_neg (by simp), Cursor.next_code_plain step] at found
  have opened : Cursor.code.depthAfter '(' deeper = deeper + 1 := rfl
  obtain ⟨_, remaining, same⟩ := Option.map_eq_some_iff.mp found
  obtain rfl := (List.cons_eq_cons.mp same).2
  rw [opened] at remaining
  obtain ⟨closed, result, shorter⟩ := Cursor.balanced_shallower (Nat.le_refl 1)
    (by omega : 1 < deeper + 1) remaining
  have place : (front ++ '(' :: left).length + 1 = front.length + 1 + left.length + 1 := by
    simp only [List.length_append, List.length_cons]
    omega
  rw [place, result, Option.some_inj] at balanced'
  subst balanced'
  simp only [Span.Within, argumentSpan, List.length_append, List.length_cons]
  omega

theorem ArgumentsSplit.nested_or_apart {text front inside more front' inside' more' : Text}
    {offset offset' : Nat} (left : ArgumentsSplit text offset front inside more)
    (right : ArgumentsSplit text offset' front' inside' more') :
    (argumentSpan offset inside).Within (argumentSpan offset' inside') ∨
      (argumentSpan offset' inside').Within (argumentSpan offset inside) ∨
      (argumentSpan offset inside).Apart (argumentSpan offset' inside') := by
  rcases Nat.lt_trichotomy offset offset' with before | same | after
  · by_cases opened : offset' < offset + 1 + inside.length
    · exact Or.inr (Or.inl (left.within_of_lt right before opened))
    · refine Or.inr (Or.inr (Or.inl ?_))
      simp only [argumentSpan]
      omega
  · subst same
    have extracted := extractBalanced_eq_some_iff.mpr
      ⟨front, _, left.text_eq, left.length_eq, left.balanced⟩
    have extracted' := extractBalanced_eq_some_iff.mpr
      ⟨front', _, right.text_eq, right.length_eq, right.balanced⟩
    obtain rfl := Option.some_inj.mp (extracted.symm.trans extracted')
    exact Or.inl ⟨Nat.le_refl _, Nat.le_refl _⟩
  · by_cases opened : offset < offset' + 1 + inside'.length
    · exact Or.inl (right.within_of_lt left after opened)
    · refine Or.inr (Or.inr (Or.inr ?_))
      simp only [argumentSpan]
      omega

/-- The argument list that a parenthesis in code opens has, moved to its place, exactly the literals
that the text has inside of it; and two such argument lists are nested or apart. -/
theorem arguments_literals_and_nesting (text : Text) :
    (∀ offset inside, ArgumentsAt text offset inside →
      (stringLiterals inside).map (StringLiteral.shift (offset + 1)) =
        (stringLiterals text).filter fun literal =>
          literal.span.Within (argumentSpan offset inside)) ∧
    ∀ offset inside offset' inside', ArgumentsAt text offset inside →
      ArgumentsAt text offset' inside' →
        (argumentSpan offset inside).Within (argumentSpan offset' inside') ∨
          (argumentSpan offset' inside').Within (argumentSpan offset inside) ∨
          (argumentSpan offset inside).Apart (argumentSpan offset' inside') := by
  constructor
  · intro offset inside arguments
    obtain ⟨front, more, split⟩ := arguments.split
    exact split.literals_eq
  · intro offset inside offset' inside' arguments arguments'
    obtain ⟨front, more, split⟩ := arguments.split
    obtain ⟨front', more', split'⟩ := arguments'.split
    exact split.nested_or_apart split'

theorem arguments_of_nested_calls :
    ArgumentsAt "A('x', B('$\x7bf(1)\x7d'))".toList 1 "'x', B('$\x7bf(1)\x7d')".toList ∧
      ArgumentsAt "A('x', B('$\x7bf(1)\x7d'))".toList 8 "'$\x7bf(1)\x7d'".toList ∧
      (stringLiterals "'$\x7bf(1)\x7d'".toList).map (StringLiteral.shift 9) =
        (stringLiterals "A('x', B('$\x7bf(1)\x7d'))".toList).filter (fun literal =>
          literal.span.Within (argumentSpan 8 "'$\x7bf(1)\x7d'".toList)) ∧
      (argumentSpan 8 "'$\x7bf(1)\x7d'".toList).Within
        (argumentSpan 1 "'x', B('$\x7bf(1)\x7d')".toList) := by
  have outer : ArgumentsAt "A('x', B('$\x7bf(1)\x7d'))".toList 1
      "'x', B('$\x7bf(1)\x7d')".toList := ⟨by decide, by decide, by decide⟩
  have inner : ArgumentsAt "A('x', B('$\x7bf(1)\x7d'))".toList 8
      "'$\x7bf(1)\x7d'".toList := ⟨by decide, by decide, by decide⟩
  refine ⟨outer, inner, (arguments_literals_and_nesting _).1 8 _ inner, ?_⟩
  rcases (arguments_literals_and_nesting _).2 8 _ 1 _ inner outer with within | within | apart
  · exact within
  · exact absurd within (by decide)
  · exact absurd apart (by decide)

end HardcodedText
