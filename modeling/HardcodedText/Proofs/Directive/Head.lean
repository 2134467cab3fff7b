import HardcodedText.Proofs.Directive.Token

/-!
Call heads beside a hidden comment. At a visible character both texts have the same head, and a head
inside of a hidden comment does not reach out of it. So the heads of the copy are those of the text
whose names stand outside of the hidden comments.
-/

namespace HardcodedText

/-- A name that is read stands in front of the text, and it is read alike in both texts. -/
structure NameReader.Agrees (reader : NameReader) : Prop where
  reads : reader.Reads
  named : ∀ name, reader.Names name → name ≠ [] ∧ Plain name
  veiled_eq : ∀ (previous : Option Cell) (cells : List Cell),
    SetApart (previous.toList ++ cells) → Begins cells →
    reader (previous.map Cell.veiled) (veiled cells) = reader (previous.map Cell.char) (shown cells)

theorem readKnownName_agrees {name : Text} (nonempty : name ≠ []) (plain : Plain name) :
    (readKnownName name).Agrees where
  reads := readKnownName_reads name
  named := by
    rintro found ⟨previous, text, read⟩
    obtain ⟨rfl, -⟩ := readKnownName_eq_some read
    exact ⟨nonempty, plain⟩
  veiled_eq := by
    intro previous cells apart begins
    have within : cells <:+: previous.toList ++ cells := (List.suffix_append _ cells).isInfix
    have found := isPrefixOf_veiled plain (apart.of_isInfix within).fenced begins.startsVisible
    rw [readKnownName, readKnownName, found, begins.head?_veiled]
    cases cells with
    | nil =>
        obtain ⟨c, rest, rfl⟩ := List.exists_cons_of_ne_nil nonempty
        rfl
    | cons cell cells =>
        have same := previous_any_veiled inside_isWordChar apart.toBordered begins (by simp)
        rw [isBoundary, isBoundary, same]

theorem readCustomName_plain {found text : Text} {previous : Option Char}
    (read : readCustomName previous text = some found) : found ≠ [] ∧ Plain found := by
  obtain ⟨-, begins, chars⟩ := readCustomName_eq_some read
  constructor
  · rintro rfl
    simp at begins
  · intro c member
    rcases Bool.or_eq_true_iff.mp (chars c member) with inName | dot
    · exact inside_isAsciiNameChar.plain_of_holds inName
    · rw [beq_iff_eq.mp dot]
      decide

theorem selectedName_veiled {dot : Cell} {cells : List Cell} (apart : SetApart (dot :: cells))
    (visible : dot.isVisible) (nonblank : isBlank dot.char = false) (base : Text) :
    (if (veiled cells).head?.any isNameStart then
        some (base ++ '.' :: (veiled cells).takeWhile isAsciiNameChar) else some base) =
      if (shown cells).head?.any isNameStart then
        some (base ++ '.' :: (shown cells).takeWhile isAsciiNameChar) else some base := by
  have fenced : Fenced ([dot] ++ cells) := apart.fenced
  have starts : (veiled cells).head?.any isNameStart = (shown cells).head?.any isNameStart :=
    head?_any_veiled inside_isNameStart fenced (startsVisible_cons visible cells)
      (by simpa using ⟨visible, nonblank⟩)
  rw [starts]
  split
  next named =>
    rw [← starts] at named
    have begun : StartsVisible cells := by
      intro cell first
      cases cells with
      | nil => simp at first
      | cons other cells =>
          obtain rfl := Option.some_inj.mp first
          exact Cell.isVisible_of_veiled (inside_isNameStart.nonblank (by simpa using named))
    obtain ⟨front, back, rfl, runOf⟩ := exists_run inside_isAsciiNameChar fenced.tail begun
    rw [runOf.takeWhile_veiled, runOf.takeWhile_shown]
  next => rfl

theorem readCustomName_agrees : readCustomName.Agrees where
  reads := readCustomName_reads
  named := by
    rintro name ⟨previous, text, read⟩
    exact readCustomName_plain read
  veiled_eq := by
    intro previous cells apart begins
    have within : cells <:+: previous.toList ++ cells := (List.suffix_append _ cells).isInfix
    have inside := apart.of_isInfix within
    rw [readCustomName, readCustomName, begins.head?_veiled]
    by_cases empty : cells = []
    · subst empty
      rfl
    rw [previous_any_veiled inside_isWordChar apart.toBordered begins empty]
    obtain ⟨front, back, rfl, runOf⟩ :=
      exists_run inside_isAsciiNameChar inside.fenced begins.startsVisible
    have width := (length_shown front).symm
    simp only [runOf.takeWhile_veiled, runOf.takeWhile_shown, drop_veiled width, drop_shown width]
    split
    next starts =>
      cases back with
      | nil => rfl
      | cons dot back =>
          cases hidden : dot.hidden with
          | false =>
              rw [veiled_cons, shown_cons, Cell.veiled_of_isVisible hidden]
              by_cases isDot : dot.char = '.'
              · have after : dot :: back <:+: front ++ dot :: back := ⟨front, [], by simp⟩
                simp only [isDot]
                exact selectedName_veiled (inside.of_isInfix after) hidden (by rw [isDot]; decide) _
              · simp [isDot]
          | true =>
              -- Behind the name a comment begins: its slash selects no member, nor does a blank.
              have slash : dot.char = '/' := by
                refine inside.fenced.slash_behind begins.startsVisible ?_ hidden
                intro cell member
                obtain ⟨visible, named⟩ := runOf.run cell member
                exact ⟨visible, inside_isAsciiNameChar.nonblank named⟩
              have copy : dot.veiled ≠ '.' := by
                intro isDot
                have blank := Cell.isBlank_veiled hidden
                rw [isDot] at blank
                exact absurd blank (by decide)
              simp [slash, copy]
    next => rfl

/-! Heads at a visible character. -/

theorem TrimmedTo.takeWhile_shown {gap rest : List Cell} (trimmed : TrimmedTo (gap ++ rest) rest) :
    (shown (gap ++ rest)).takeWhile isBlank = shown gap := by
  have parts := List.takeWhile_append_dropWhile (p := isBlank) (l := shown (gap ++ rest))
  rw [trimmed.shown_eq] at parts
  nth_rewrite 2 [shown_append] at parts
  exact List.append_cancel_right parts

theorem TrimmedTo.takeWhile_veiled {gap rest : List Cell} (trimmed : TrimmedTo (gap ++ rest) rest)
    (blanks : IsGap gap) : (veiled (gap ++ rest)).takeWhile isBlank = shown gap := by
  have parts := List.takeWhile_append_dropWhile (p := isBlank) (l := veiled (gap ++ rest))
  rw [trimmed.veiled_eq] at parts
  nth_rewrite 2 [veiled_append] at parts
  rw [List.append_cancel_right parts, veiled_eq_shown blanks.visible]

theorem drop_length_takeWhile (text : Text) :
    text.drop (text.takeWhile isBlank).length = text.dropWhile isBlank := by
  have parts := congrArg (List.drop (text.takeWhile isBlank).length)
    (List.takeWhile_append_dropWhile (p := isBlank) (l := text))
  rw [List.drop_left] at parts
  exact parts.symm

variable {reader : NameReader}

theorem NameReader.Agrees.tokenAt (agrees : reader.Agrees) {previous : Option Char}
    {cells : List Cell} {name : Text} (fenced : Fenced cells) (starts : StartsVisible cells)
    (read : reader previous (shown cells) = some name) : TokenAt name cells :=
  tokenAt_of_shown (agrees.named name ⟨previous, _, read⟩).2 fenced starts
    (agrees.reads previous _ name read)

theorem readHead_veiled (agrees : reader.Agrees) {previous : Option Cell} {cells : List Cell}
    (apart : SetApart (previous.toList ++ cells)) (begins : Begins cells) :
    readHead reader (previous.map Cell.veiled) (veiled cells) =
      readHead reader (previous.map Cell.char) (shown cells) := by
  have inside := apart.of_isInfix (List.suffix_append previous.toList cells).isInfix
  rw [readHead, readHead, agrees.veiled_eq previous cells apart begins]
  cases read : reader (previous.map Cell.char) (shown cells) with
  | none => rfl
  | some name =>
      have nonempty := (agrees.named name ⟨_, _, read⟩).1
      obtain ⟨front, back, rfl, visible, rfl⟩ :=
        agrees.tokenAt inside.fenced begins.startsVisible read
      have width := (length_shown front).symm
      simp only [Option.bind_some, drop_veiled width, drop_shown width, drop_length_takeWhile]
      obtain ⟨init, last, rfl⟩ := exists_last nonempty
      have behind : last :: back <:+: init ++ [last] ++ back := ⟨init, [], by simp⟩
      -- Blanks lead to one character in both texts, or a comment does not open an argument list.
      rcases (inside.of_isInfix behind).gap_cases (visible last (by simp)) with
        ⟨rest, trimmed⟩ | ⟨slash, allowed⟩
      · obtain ⟨gap, rfl, blanks⟩ := trimmed.gap
        rw [trimmed.head?_veiled, trimmed.takeWhile_shown, trimmed.takeWhile_veiled blanks]
      · have closed : ((veiled back).dropWhile isBlank).head? ≠ some '(' := by
          intro parenthesis
          exact (allowed '(' parenthesis).2.1 rfl
        simp [slash, closed]

theorem readConstHead_veiled (agrees : reader.Agrees) {previous : Option Cell} {cells : List Cell}
    (apart : SetApart (previous.toList ++ cells)) (begins : Begins cells) :
    readConstHead reader (previous.map Cell.veiled) (veiled cells) =
      readConstHead reader (previous.map Cell.char) (shown cells) := by
  have inside := apart.of_isInfix (List.suffix_append previous.toList cells).isInfix
  have plain : Plain "const".toList := by decide
  rw [readConstHead, readConstHead, isPrefixOf_veiled plain inside.fenced begins.startsVisible]
  by_cases found : "const".toList.isPrefixOf (shown cells) = true
  · obtain ⟨front, back, rfl, visible, written⟩ := tokenAt_of_shown plain inside.fenced
      begins.startsVisible (List.isPrefixOf_iff_prefix.mp found)
    have nonempty : shown front ≠ [] := by
      rw [written]
      decide
    obtain ⟨init, last, rfl⟩ := exists_last nonempty
    rw [previous_any_veiled inside_isWordChar apart.toBordered begins (by simp)]
    have five : (init ++ [last]).length = 5 := by rw [← length_shown, written]; rfl
    have letter : last.char = 't' := by
      have ends := congrArg List.getLast? written
      simpa [shown] using ends
    have behind : last :: back <:+: init ++ [last] ++ back := ⟨init, [], by simp⟩
    obtain ⟨rest, trimmed⟩ := (inside.of_isInfix behind).trimmed_after (visible last (by simp))
      (Or.inl (by rw [letter]; decide))
    obtain ⟨gap, rfl, blanks⟩ := trimmed.gap
    simp only [drop_veiled five, drop_shown five, drop_length_takeWhile]
    rw [trimmed.takeWhile_shown, trimmed.takeWhile_veiled blanks, trimmed.shown_eq,
      trimmed.veiled_eq]
    cases nearest : gap.getLast? with
    | none =>
        rw [List.getLast?_eq_none_iff.mp nearest]
        rfl
    | some space =>
        obtain ⟨more, rfl⟩ := List.getLast?_eq_some_iff.mp nearest
        have within : space :: rest <:+: init ++ [last] ++ (more ++ [space] ++ rest) :=
          ⟨init ++ [last] ++ more, [], by simp⟩
        have spaced : SetApart ((some space).toList ++ rest) := inside.of_isInfix within
        have same := readHead_veiled agrees spaced trimmed.begins
        have seen := Cell.veiled_of_isVisible (blanks space (by simp)).1
        rw [Option.map_some, Option.map_some, seen] at same
        have ends : (shown (more ++ [space])).getLast? = some space.char := by simp [shown]
        simp only [ends, same]
  · rw [Bool.not_eq_true] at found
    simp only [found, Bool.false_and, Bool.false_eq_true, if_false]

/-- At a visible character that is not blank both texts have the same head. -/
theorem headAt_veiled (agrees : reader.Agrees) {previous : Option Cell} {cells : List Cell}
    (apart : SetApart (previous.toList ++ cells)) (begins : Begins cells) :
    headAt reader (previous.map Cell.veiled) (veiled cells) =
      headAt reader (previous.map Cell.char) (shown cells) := by
  rw [headAt, headAt, readConstHead_veiled agrees apart begins, readHead_veiled agrees apart begins]

/-! Heads at a blank and inside of a hidden comment. -/

theorem headAt_blank (agrees : reader.Agrees) {c : Char} (blank : isBlank c = true)
    (previous : Option Char) (text : Text) : headAt reader previous (c :: text) = none := by
  have keyword : "const".toList.isPrefixOf (c :: text) = false := by
    rw [← Bool.not_eq_true, List.isPrefixOf_iff_prefix]
    intro found
    obtain rfl := (List.cons_prefix_cons.mp found).1
    exact absurd blank (by decide)
  have unread : reader previous (c :: text) = none := by
    by_contra found
    obtain ⟨name, read⟩ := Option.ne_none_iff_exists'.mp found
    obtain ⟨nonempty, plain⟩ := agrees.named name ⟨previous, _, read⟩
    obtain ⟨first, more, rfl⟩ := List.exists_cons_of_ne_nil nonempty
    obtain ⟨rfl, -⟩ := List.cons_prefix_cons.mp (agrees.reads previous _ _ read)
    rw [(plain first List.mem_cons_self).1] at blank
    exact absurd blank (by decide)
  rw [headAt, readConstHead, readHead, unread, keyword, Bool.false_and]
  rfl

/-- The argument list of a name in a hidden comment is opened in it. -/
theorem SetApart.hidden_parenthesis {last parenthesis : Cell} {gap : List Cell}
    (apart : SetApart (last :: (gap ++ [parenthesis]))) (hidden : last.hidden = true)
    (blanks : ∀ c ∈ shown gap, isBlank c = true) (opened : parenthesis.char = '(') :
    ∀ cell ∈ gap ++ [parenthesis], cell.hidden = true := by
  have here : parenthesis.hidden = true := by
    by_contra visible
    have follows := apart.after last gap parenthesis (List.infix_refl _) hidden
      (isBlank_veiled_of_shown blanks) (eq_false_of_ne_true visible) (by rw [opened]; decide)
    exact follows.2.1 opened
  have slashless : ∀ cell ∈ gap ++ [parenthesis], cell.char ≠ '/' := by
    intro cell member slash
    rcases List.mem_append.mp member with inGap | isLast
    · have blank := blanks _ (List.mem_map_of_mem inGap)
      rw [slash] at blank
      exact absurd blank (by decide)
    · rw [List.mem_singleton.mp isLast, opened] at slash
      exact absurd slash (by decide)
  intro cell member
  rcases List.mem_append.mp member with inGap | isLast
  · have behind := apart.of_isInfix (List.suffix_cons last _).isInfix
    exact behind.hidden_before here slashless cell inGap
  · rw [List.mem_singleton.mp isLast]
    exact here

/-- A head that begins in a hidden comment ends in it. -/
theorem headAt_hidden (agrees : reader.Agrees) {cell : Cell} {cells : List Cell}
    (apart : SetApart (cell :: cells)) (hidden : cell.hidden = true) {previous : Option Char}
    {head : CallHead} (found : headAt reader previous (shown (cell :: cells)) = some head) :
    head.nameOffset = 0 ∧ ∀ other ∈ (cell :: cells).take head.width, other.hidden = true := by
  rcases Option.or_eq_some_iff.mp found with constant | ⟨-, bare⟩
  · unfold readConstHead at constant
    split at constant
    next starts =>
      rw [Bool.and_eq_true, List.isPrefixOf_iff_prefix] at starts
      obtain ⟨front, back, split, inside, written⟩ :=
        apart.hidden_token (by decide) hidden starts.1
      have within : front <:+: cell :: cells := ⟨[], back, by simp [split]⟩
      exact absurd (by rw [written]; exact List.mem_cons_self) (apart.wordless front within inside)
    next => simp at constant
  · obtain ⟨named, blanks, rest, written⟩ := readHead_eq_some agrees.reads bare
    obtain ⟨nonempty, plain⟩ := agrees.named _ named
    have text := written.text_eq
    rw [List.nil_append] at text
    obtain ⟨front, back, split, inside, same⟩ :=
      apart.hidden_token plain hidden ⟨_, text.symm⟩
    rw [split, shown_append, same, List.append_cancel_left_eq] at text
    obtain ⟨gap, remaining, rfl, rfl, opened⟩ := List.map_eq_append_iff.mp text
    obtain ⟨parenthesis, more, rfl, opens, rfl⟩ := List.map_eq_cons_iff.mp opened
    rw [← same] at nonempty
    obtain ⟨init, last, rfl⟩ := exists_last nonempty
    have within : last :: (gap ++ [parenthesis]) <:+: cell :: cells :=
      ⟨init, more, by simp [split]⟩
    have covered := (apart.of_isInfix within).hidden_parenthesis (inside last (by simp))
      written.blank opens
    refine ⟨written.keyword_length.symm, ?_⟩
    have width : head.width = (init ++ [last] ++ (gap ++ [parenthesis])).length := by
      rw [written.width_eq, ← same]
      simp [shown]
      omega
    have whole : cell :: cells = init ++ [last] ++ (gap ++ [parenthesis]) ++ more := by
      simp [split]
    rw [whole, width, List.take_left]
    intro other member
    rcases List.mem_append.mp member with inName | behind
    · exact inside other inName
    · exact covered other behind

/-! All heads. -/

theorem headsFrom_blank (agrees : reader.Agrees) {c : Char} (blank : isBlank c = true)
    (offset : Nat) (previous : Option Char) (text : Text) :
    headsFrom reader offset 0 previous (c :: text) =
      headsFrom reader (offset + 1) 0 (some c) text := by
  rw [headsFrom, headAt_blank agrees blank]

theorem headAt_visible (agrees : reader.Agrees) {previous : Option Cell} {cell : Cell}
    {cells : List Cell} (apart : SetApart (previous.toList ++ cell :: cells))
    (visible : cell.isVisible) :
    headAt reader (previous.map Cell.veiled) (cell.veiled :: veiled cells) =
      headAt reader (previous.map Cell.char) (cell.char :: shown cells) := by
  cases blank : isBlank cell.char with
  | true =>
      rw [Cell.veiled_of_isVisible visible, headAt_blank agrees blank, headAt_blank agrees blank]
  | false =>
      exact headAt_veiled agrees apart (begins_cons visible blank cells)

theorem mem_take_cons {α : Type} {value other : α} {values : List α} {width : Nat}
    (member : other ∈ values.take (width - 1)) : other ∈ (value :: values).take width := by
  cases width with
  | zero => simp at member
  | succ width => exact List.mem_cons_of_mem _ member

/-- The heads of the copy are those of the text that do not begin in a hidden comment. -/
theorem headsFrom_veiled (agrees : reader.Agrees) {seen : Nat → Bool} (cells : List Cell) :
    ∀ (offset skip skipped : Nat) (previous : Option Cell), SetApart (previous.toList ++ cells) →
    (∀ place cell, cells[place]? = some cell → seen (offset + place) = !cell.hidden) →
    (skipped = skip ∨ skipped = 0 ∧ ∀ cell ∈ cells.take skip, cell.hidden = true) →
    headsFrom reader offset skipped (previous.map Cell.veiled) (veiled cells) =
      (headsFrom reader offset skip (previous.map Cell.char) (shown cells)).filter (seen ·.1) := by
  -- Both searches skip alike, but for one that has found a head in a comment: it skips hidden
  -- cells, where the other one walks over blanks.
  induction cells with
  | nil =>
      intro offset skip skipped previous _ _ _
      rfl
  | cons cell cells ih =>
      intro offset skip skipped previous apart agree relation
      have inside := apart.of_isInfix (List.suffix_append previous.toList _).isInfix
      have here : seen offset = !cell.hidden := agree 0 cell rfl
      have later (skip skipped : Nat)
          (relation : skipped = skip ∨ skipped = 0 ∧ ∀ cell ∈ cells.take skip, cell.hidden = true) :
          headsFrom reader (offset + 1) skipped (some cell.veiled) (veiled cells) =
            (headsFrom reader (offset + 1) skip (some cell.char) (shown cells)).filter
              (seen ·.1) := by
        refine ih (offset + 1) skip skipped (some cell) inside ?_ relation
        intro place other read
        rw [Nat.add_assoc, Nat.add_comm 1]
        exact agree (place + 1) other read
      rw [veiled_cons, shown_cons]
      cases skip with
      | succ skip =>
          rcases relation with rfl | ⟨rfl, covered⟩
          · exact later skip skip (Or.inl rfl)
          · rw [List.take_succ_cons] at covered
            have hidden := covered cell List.mem_cons_self
            rw [headsFrom_blank agrees (Cell.isBlank_veiled hidden)]
            exact later skip 0 (Or.inr ⟨rfl, fun other member =>
              covered other (List.mem_cons_of_mem _ member)⟩)
      | zero =>
          obtain rfl : skipped = 0 := by
            rcases relation with same | ⟨zero, -⟩
            · exact same
            · exact zero
          cases hidden : cell.hidden with
          | true =>
              rw [headsFrom_blank agrees (Cell.isBlank_veiled hidden), headsFrom]
              cases found : headAt reader (previous.map Cell.char) (cell.char :: shown cells) with
              | none => exact later 0 0 (Or.inl rfl)
              | some head =>
                  rw [hidden] at here
                  simp only [List.filter_cons, here]
                  obtain ⟨-, covered⟩ := headAt_hidden agrees inside hidden found
                  exact later (head.width - 1) 0
                    (Or.inr ⟨rfl, fun other member => covered other (mem_take_cons member)⟩)
          | false =>
              rw [headsFrom, headsFrom, headAt_visible agrees apart hidden]
              cases headAt reader (previous.map Cell.char) (cell.char :: shown cells) with
              | none => exact later 0 0 (Or.inl rfl)
              | some head =>
                  rw [hidden] at here
                  simp only [List.filter_cons, here]
                  exact congrArg _ (later _ _ (Or.inl rfl))

theorem heads_veiled (agrees : reader.Agrees) {seen : Nat → Bool} {cells : List Cell}
    (apart : SetApart cells)
    (agree : ∀ place cell, cells[place]? = some cell → seen place = !cell.hidden) :
    heads reader (veiled cells) = (heads reader (shown cells)).filter (seen ·.1) := by
  refine headsFrom_veiled agrees cells 0 0 0 none apart ?_ (Or.inl rfl)
  intro place cell read
  rw [Nat.zero_add]
  exact agree place cell read

end HardcodedText
