import HardcodedText.Proofs.LiteralGrammar

/-!
What decides the text that a parenthesis opens. The parentheses that count in it are balanced, and
the one behind it counts; neither depends on what stands around them. The parentheses that count in
a literal are those of its interpolations.
-/

namespace HardcodedText

/-- A parenthesis closes the first one if those between them leave none open. -/
theorem closingPlace_append_iff (level : Nat) (marks : Text) (c : Char) (rest : Text) :
    closingPlace (level + 1) (marks ++ c :: rest) = some marks.length ↔
      c = ')' ∧ levelAfter '(' ')' level marks = some 0 := by
  induction marks generalizing level with
  | nil =>
      by_cases closes : c = ')'
      · cases level <;> simp [closingPlace, levelAfter, closes]
      · simp [closingPlace, closes]
  | cons first marks ih =>
      by_cases opens : first = '('
      · subst opens
        rw [levelAfter_opening, ← ih]
        simp [closingPlace]
      · by_cases closes : first = ')'
        · subst closes
          cases level with
          | zero =>
              rw [levelAfter_unopened (by decide)]
              simp [closingPlace]
          | succ level =>
              rw [levelAfter_closing (by decide), ← ih]
              simp [closingPlace]
        · rw [levelAfter_other opens closes, ← ih]
          simp [closingPlace, opens, closes]

namespace Cursor

theorem length_counted (cursor : Cursor) (index : Nat) (text : Text) :
    (cursor.counted index text).length = text.length := by
  induction text generalizing cursor index with
  | nil => rfl
  | cons c text ih => rw [counted, List.length_cons, List.length_cons, ih]

theorem counted_append_solitary {cursor : Cursor} {x : Char} (sound : cursor.mode.Sound)
    (solitary : Solitary x) (index : Nat) (body more : Text) :
    cursor.counted index (body ++ x :: more) =
      cursor.counted index body ++
        (cursor.advance index body []).counted (index + body.length) (x :: more) := by
  induction body generalizing cursor index with
  | nil => rfl
  | cons c body ih =>
      have place : index + (c :: body).length = index + 1 + body.length := by
        rw [List.length_cons]
        omega
      rw [place, List.cons_append, counted, counted, next_append_solitary sound solitary,
        ih (sound_next sound index c body), advance, List.append_nil, List.cons_append]

theorem balanced_eq_some_iff_length (cursor : Cursor) (index depth : Nat) (inside more : Text) :
    cursor.balanced index depth (inside ++ ')' :: more) = some inside ↔
      (cursor.balanced index depth (inside ++ ')' :: more)).map List.length =
        some inside.length := by
  constructor
  · intro found
    rw [found, Option.map_some]
  · intro found
    obtain ⟨other, extracted, same⟩ := Option.map_eq_some_iff.mp found
    obtain ⟨rest, split⟩ := balanced_eq_some extracted
    rw [extracted, (List.append_inj split same.symm).1]

/-- The text up to a parenthesis decides whether that one closes it. -/
theorem balanced_eq_some_iff {cursor : Cursor} (sound : cursor.mode.Sound) (index : Nat)
    (inside more : Text) :
    cursor.balanced index 1 (inside ++ ')' :: more) = some inside ↔
      (cursor.advance index inside []).counts = true ∧
        Balanced '(' ')' (cursor.counted index inside) := by
  have mark (counts : Bool) :
      (if counts && isParenthesis ')' then ')' else ' ') = ')' ↔ counts = true := by
    cases counts <;> decide
  rw [balanced_eq_some_iff_length, length_balanced,
    counted_append_solitary sound solitary_closeParenthesis, counted,
    ← length_counted cursor index inside, closingPlace_append_iff 0, mark,
    balanced_iff (by decide)]

end Cursor

theorem extractBalanced_eq_some_iff_balanced (front inside more : Text) :
    extractBalanced (front ++ '(' :: (inside ++ ')' :: more)) front.length = some inside ↔
      (Cursor.code.advance 0 inside []).counts = true ∧
        Balanced '(' ')' (Cursor.code.counted 0 inside) := by
  have shifted := Cursor.balanced_shift (front.length + 1) Cursor.code 0 1 (inside ++ ')' :: more)
  rw [Nat.zero_add] at shifted
  rw [extractBalanced_append_parenthesis,
    ← Cursor.balanced_eq_some_iff Mode.sound_code 0 inside more, ← shifted]
  rfl

/-- The text that a parenthesis opens is bounded by parentheses, and between two parentheses it is
extracted wherever they stand. -/
theorem extractBalanced_anywhere {text inside : Text} {offset : Int}
    (found : extractBalanced text offset = some inside) :
    ∃ place : Nat, offset = place ∧ text[place]? = some '(' ∧
      text[place + 1 + inside.length]? = some ')' ∧
      ∀ front back, extractBalanced (front ++ '(' :: (inside ++ ')' :: back)) front.length =
        some inside := by
  have natural : 0 ≤ offset := by
    by_contra negative
    rw [extractBalanced, if_pos (by omega)] at found
    simp at found
  obtain ⟨place, rfl⟩ := Int.eq_ofNat_of_zero_le natural
  obtain ⟨before, rest, rfl, rfl, balanced⟩ := extractBalanced_eq_some_iff.mp found
  obtain ⟨more, rfl⟩ := Cursor.balanced_eq_some balanced
  refine ⟨before.length, rfl, by simp, ?_, ?_⟩
  · rw [Nat.add_assoc, List.getElem?_append_right (by omega), Nat.add_sub_cancel_left,
      Nat.add_comm 1]
    simp
  · intro front back
    rw [extractBalanced_eq_some_iff_balanced] at found ⊢
    exact found

theorem extractBalanced_anywhere_nested :
    let inside := "f('(', a /* ) */), \"$\x7bg(1)\x7d\"".toList
    extractBalanced ("Row(".toList ++ inside ++ ") + b)".toList) 3 = some inside ∧
      extractBalanced ('/' :: '(' :: (inside ++ [')', '"'])) 1 = some inside := by
  intro inside
  have found : extractBalanced ("Row(".toList ++ inside ++ ") + b)".toList) 3 = some inside := by
    decide
  obtain ⟨-, -, -, -, anywhere⟩ := extractBalanced_anywhere found
  exact ⟨found, anywhere ['/'] ['"']⟩

/-! The parentheses that count in a literal. -/

theorem filter_parenthesesOf (text : Text) :
    (parenthesesOf text).filter isParenthesis = text.filter isParenthesis := by
  induction text with
  | nil => rfl
  | cons c text ih =>
      rw [parenthesesOf, List.map_cons, List.filter_cons, List.filter_cons, ← parenthesesOf, ih]
      by_cases parenthesis : isParenthesis c = true
      · simp only [parenthesis, if_true]
      · rw [if_neg parenthesis, if_neg parenthesis, if_neg (by decide)]

theorem ContentItem.filter_marks (item : ContentItem) :
    item.marks.filter isParenthesis = item.code.filter isParenthesis := by
  have space : isParenthesis ' ' = false := by
    decide
  cases item with
  | escape c => simp [marks, code, space]
  | interpolation code => simp [marks, ContentItem.code, space, filter_parenthesesOf]
  | plain c => simp [marks, code, space]

namespace Cursor

variable {delimiter : Delimiter} {start : Nat}

theorem next_closing_quotes (quoted : isQuote delimiter.quote = true) {more : Text}
    (written : delimiter.text = delimiter.quote :: more) (index : Nat) (rest : Text) :
    (inLiteral delimiter start).next index delimiter.quote (more ++ rest) =
      ⟨.code, more.length⟩ := by
  have closes : (Mode.string delimiter start false).step index delimiter.quote (more ++ rest) = _ :=
    step_closing_quotes quoted written index rest
  simp [inLiteral, next, Mode.consume, Mode.settle, closes, written]

theorem advance_of_quotes (quoted : isQuote delimiter.quote = true) (index : Nat) (rest : Text) :
    (inLiteral delimiter start).advance index delimiter.text rest = Cursor.code := by
  obtain ⟨more, written⟩ := exists_text_cons delimiter
  rw [written, advance, next_closing_quotes quoted written, advance_skip]
  rfl

theorem counted_of_quotes (quoted : isQuote delimiter.quote = true) (index : Nat) (rest : Text) :
    (inLiteral delimiter start).counted index (delimiter.text ++ rest) =
      List.replicate delimiter.text.length ' ' ++
        Cursor.code.counted (index + delimiter.text.length) rest := by
  obtain ⟨more, written⟩ := exists_text_cons delimiter
  have place : index + 1 + more.length = index + delimiter.text.length := by
    rw [written, List.length_cons]
    omega
  have skipped := (passes_skipped .code (index + 1) more rest).counted_eq
  rw [place] at skipped
  rw [← place, written, List.cons_append, counted, next_closing_quotes quoted written, skipped,
    List.length_cons, List.replicate_succ, List.cons_append, place]
  rfl

/-- The scanner gets over a literal back to code, and what counts in it are the marks of its
items. -/
theorem counted_literal {rest : Text} {items : List ContentItem}
    (quoted : isQuote delimiter.quote = true)
    (opened : Delimiter.opening delimiter.quote rest = delimiter)
    (written : delimiter.quote :: rest = delimiter.text ++ (contentText items ++ delimiter.text))
    (fit : ItemsFit delimiter.text delimiter.text items) (index : Nat) :
    Cursor.code.advance index (delimiter.quote :: rest) [] = Cursor.code ∧
      Cursor.code.counted index (delimiter.quote :: rest) =
        List.replicate delimiter.text.length ' ' ++
          (items.flatMap ContentItem.marks ++ List.replicate delimiter.text.length ' ') := by
  have opening := passes_opening quoted index (opened.symm ▸ written)
  rw [opened] at opening
  have passed := opening.append (passes_items fit _)
  rw [← List.append_assoc] at written
  constructor
  · rw [written, advance_append, List.append_nil, passed.arrives]
    exact advance_of_quotes quoted _ []
  · have closing (place : Nat) : (inLiteral delimiter index).counted place (delimiter.text ++ []) =
        _ := counted_of_quotes quoted place []
    rw [List.append_nil] at closing
    rw [written, passed.counted_eq, closing, counted, List.append_nil, List.append_assoc]

end Cursor

def StringLiteral.SpelledBy (literal : StringLiteral) (items : List ContentItem) : Prop :=
  contentText items = literal.content ∧
    ItemsFit literal.delimiter.text literal.delimiter.text items

theorem exists_spelledBy {raw : Text} {literal : StringLiteral}
    (member : literal ∈ stringLiterals raw) (whole : literal.raw = raw) :
    ∃ rest, raw = literal.delimiter.quote :: rest ∧
      Delimiter.opening literal.delimiter.quote rest = literal.delimiter ∧
      ∃ items, literal.SpelledBy items := by
  have placed := stringLiterals_writtenIn member
  have start : literal.start = 0 := by
    have last := placed.last
    rw [StringLiteral.stop, placed.length_eq, whole] at last
    omega
  obtain ⟨more, quotes⟩ := Cursor.exists_text_cons literal.delimiter
  obtain ⟨rest, written⟩ : ∃ rest, raw = literal.delimiter.quote :: rest := by
    rw [← whole, StringLiteral.raw, quotes]
    exact ⟨_, rfl⟩
  rw [stringLiterals_eq, written] at member
  obtain ⟨content, ⟨items, beyond, spelled, same, fit⟩, shape⟩ :=
    (mem_literalsFrom_iff placed.quoted 0 rest literal).mp ⟨member, start⟩
  have opened := congrArg StringLiteral.delimiter shape
  have inner := congrArg StringLiteral.content shape
  simp only at opened inner
  rw [← text_opening, ← opened] at spelled fit
  rw [← written, ← whole, StringLiteral.raw, ← inner] at spelled
  obtain rfl : beyond = [] := by simpa using spelled
  rw [List.append_nil] at fit
  exact ⟨rest, written, opened.symm, items, same.trans inner.symm, fit⟩

/-- A literal between parentheses is extracted whole if and only if the parentheses in the code of
its interpolations are balanced. -/
theorem extractBalanced_literal_iff {raw : Text} {literal : StringLiteral}
    (lexed : stringLiterals raw = [literal]) (whole : literal.raw = raw) :
    (∃ items, literal.SpelledBy items) ∧
    ∀ items, literal.SpelledBy items →
      (extractBalanced ('(' :: (raw ++ [')'])) 0 = some raw ↔
        Balanced '(' ')' (items.flatMap ContentItem.code)) := by
  have member : literal ∈ stringLiterals raw := by
    rw [lexed]
    exact List.mem_singleton_self literal
  have quoted := (stringLiterals_writtenIn member).quoted
  obtain ⟨rest, written, opened, spelled⟩ := exists_spelledBy member whole
  refine ⟨spelled, ?_⟩
  rintro items ⟨same, fit⟩
  have quotes : literal.delimiter.quote :: rest =
      literal.delimiter.text ++ (contentText items ++ literal.delimiter.text) := by
    rw [← written, ← whole, StringLiteral.raw, same, List.append_assoc]
  obtain ⟨ends, counted⟩ := Cursor.counted_literal quoted opened quotes fit 0
  rw [← written] at ends counted
  have silent (width : Nat) : (List.replicate width ' ').filter isParenthesis = [] := by
    rw [List.filter_replicate_of_neg (by decide)]
  have marked : (Cursor.code.counted 0 raw).filter isParenthesis =
      (items.flatMap ContentItem.code).filter isParenthesis := by
    rw [counted, List.filter_append, List.filter_append, silent, List.nil_append, List.append_nil,
      List.filter_flatMap, List.filter_flatMap]
    simp only [ContentItem.filter_marks]
  have decided : Balanced '(' ')' (Cursor.code.counted 0 raw) ↔
      Balanced '(' ')' (items.flatMap ContentItem.code) := balanced_congr (by decide) marked
  have extracted := extractBalanced_eq_some_iff_balanced [] raw []
  rw [ends, decided] at extracted
  exact extracted.trans (and_iff_right rfl)

theorem extractBalanced_literal_iff_called :
    let content := "a) $\x7bf('\x7b\x7d', g(1))\x7d".toList
    let raw := '"' :: (content ++ ['"'])
    let literal : StringLiteral := ⟨⟨'"', false⟩, content, 0, 21⟩
    stringLiterals raw = [literal] ∧ literal.raw = raw ∧
      extractBalanced ('(' :: (raw ++ [')'])) 0 = some raw := by
  intro content raw literal
  have lexed : stringLiterals raw = [literal] := by
    decide
  have whole : literal.raw = raw := by
    decide
  have spelled : literal.SpelledBy
      [.plain 'a', .plain ')', .plain ' ', .interpolation "f('\x7b\x7d', g(1))".toList] := by
    constructor <;> decide
  have extracted := (extractBalanced_literal_iff lexed whole).2 _ spelled
  exact ⟨lexed, whole, extracted.mpr (by decide)⟩

/-- A parenthesis in a string of the interpolated code counts too. -/
theorem extractBalanced_ends_in_interpolation :
    let raw := "'$\x7b\")\"\x7d'".toList
    let literal : StringLiteral := ⟨⟨'\'', false⟩, "$\x7b\")\"\x7d".toList, 0, 8⟩
    stringLiterals raw = [literal] ∧ literal.raw = raw ∧
      extractBalanced ('(' :: (raw ++ [')'])) 0 ≠ some raw := by
  decide

end HardcodedText
