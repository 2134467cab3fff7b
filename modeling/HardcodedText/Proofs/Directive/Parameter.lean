import HardcodedText.Proofs.Directive.Token

/-!
Named arguments beside a hidden comment. The literals of an argument list are blank when its names
are looked for, so that only colons matter here: none stands in a hidden comment or follows one. The
names, the named-argument test and the inferred parameter are then the same in both texts.
-/

namespace HardcodedText

structure Colonless (cells : List Cell) : Prop extends Bordered (· ≠ ':') cells where
  within : ∀ cell ∈ cells, cell.hidden = true → cell.char ≠ ':'

theorem Colonless.of_isInfix {cells part : List Cell} (colonless : Colonless cells)
    (inside : part <:+: cells) : Colonless part where
  toBordered := colonless.toBordered.of_isInfix inside
  within cell member := colonless.within cell (inside.subset member)

/-! Names at a place. -/

theorem namedTokenAt_blank {c : Char} (blank : isBlank c = true) (previous : Option Char)
    (text : Text) : namedTokenAt previous (c :: text) = none := by
  rw [namedTokenAt, List.head?_cons, Option.any_some, inside_isNameStart.blank c blank]
  rfl

/-- No colon follows a name in a hidden comment, blanks aside. -/
theorem Colonless.hidden_name {last colon : Cell} {gap : List Cell}
    (colonless : Colonless (last :: (gap ++ [colon]))) (hidden : last.hidden = true)
    (blanks : ∀ c ∈ shown gap, isBlank c = true) : colon.char ≠ ':' := by
  intro isColon
  cases inside : colon.hidden with
  | true => exact colonless.within colon (by simp) inside isColon
  | false =>
      exact colonless.after last gap colon (List.infix_refl _) hidden
        (isBlank_veiled_of_shown blanks) inside (by rw [isColon]; decide) isColon

theorem namedTokenAt_hidden {cell : Cell} {cells : List Cell}
    (colonless : Colonless (cell :: cells)) (hidden : cell.hidden = true) (previous : Option Char) :
    namedTokenAt previous (shown (cell :: cells)) = none := by
  unfold namedTokenAt
  split
  next starts =>
    split
    next rest colon =>
      rw [Bool.and_eq_true] at starts
      have word : isWordChar cell.char = true :=
        isWordChar_of_isNameStart (by simpa using starts.1)
      obtain ⟨front, back, split, inside, same⟩ := colonless.hidden_token
        (inside_isWordChar.plain_takeWhile _) hidden (List.takeWhile_prefix isWordChar)
      have parts := List.takeWhile_append_dropWhile (p := isWordChar) (l := shown (cell :: cells))
      rw [← same] at parts
      nth_rewrite 2 [split] at parts
      rw [shown_append, List.append_cancel_left_eq] at parts
      have behind := List.takeWhile_append_dropWhile (p := isBlank) (l := shown back)
      rw [parts, Text.trimStart] at colon
      rw [colon] at behind
      obtain ⟨gap, remaining, rfl, blanks, opened⟩ := List.map_eq_append_iff.mp behind.symm
      obtain ⟨last, more, rfl, isColon, -⟩ := List.map_eq_cons_iff.mp opened
      have nonempty : shown front ≠ [] := by
        rw [same, shown_cons, List.takeWhile_cons, if_pos word]
        simp
      obtain ⟨init, nearest, rfl⟩ := exists_last nonempty
      have reach : nearest :: (gap ++ [last]) <:+: cell :: cells :=
        ⟨init, more, by simp [split]⟩
      refine absurd isColon ((colonless.of_isInfix reach).hidden_name (inside nearest (by simp)) ?_)
      intro c member
      rw [shown, blanks] at member
      exact List.mem_takeWhile_imp member
    next => rfl
  next => rfl

def tokenAt (previous : Option Char) (text : Text) : Option (Text × Bool) :=
  (namedTokenAt previous text).map fun (name, rest) => (name, rest.head? == some ':')

theorem secondColon_veiled {colon : Cell} {cells : List Cell}
    (colonless : Colonless (colon :: cells)) (visible : colon.isVisible) :
    ((veiled cells).head? == some ':') = ((shown cells).head? == some ':') := by
  cases cells with
  | nil => rfl
  | cons next cells =>
      cases hidden : next.hidden with
      | false => rw [veiled_cons, shown_cons, Cell.veiled_of_isVisible hidden, List.head?_cons,
          List.head?_cons]
      | true =>
          have slash := colonless.opens colon next ⟨[], cells, rfl⟩ visible hidden
          have copy : next.veiled ≠ ':' := by
            intro isColon
            have blank := Cell.isBlank_veiled hidden
            rw [isColon] at blank
            exact absurd blank (by decide)
          simp [slash, copy]

theorem tokenAt_veiled {previous : Option Cell} {cells : List Cell}
    (colonless : Colonless (previous.toList ++ cells)) (begins : Begins cells)
    (nonempty : cells ≠ []) :
    tokenAt (previous.map Cell.veiled) (veiled cells) =
      tokenAt (previous.map Cell.char) (shown cells) := by
  have inside := colonless.of_isInfix (List.suffix_append previous.toList cells).isInfix
  rw [tokenAt, tokenAt, namedTokenAt, namedTokenAt, begins.head?_veiled,
    previous_any_veiled inside_isWordChar colonless.toBordered begins nonempty]
  obtain ⟨front, back, rfl, runOf⟩ :=
    exists_run inside_isWordChar inside.fenced begins.startsVisible
  rw [runOf.dropWhile_veiled, runOf.dropWhile_shown, runOf.takeWhile_veiled, runOf.takeWhile_shown]
  split
  next starts =>
    rw [Bool.and_eq_true] at starts
    have named : shown front ≠ [] := by
      intro empty
      obtain rfl := List.map_eq_nil_iff.mp empty
      cases back with
      | nil => exact nonempty rfl
      | cons cell back =>
          have word := isWordChar_of_isNameStart (c := cell.char) (by simpa using starts.1)
          rw [(runOf.stops cell rfl).1] at word
          exact absurd word (by decide)
    obtain ⟨init, last, rfl⟩ := exists_last named
    have behind : last :: back <:+: init ++ [last] ++ back := ⟨init, [], by simp⟩
    -- Blanks lead to one character in both texts, or a comment follows and no colon does.
    rcases (inside.of_isInfix behind).gap_cases (runOf.run last (by simp)).1 with
      ⟨rest, trimmed⟩ | ⟨slash, allowed⟩
    · rw [Text.trimStart, Text.trimStart, trimmed.veiled_eq, trimmed.shown_eq]
      cases rest with
      | nil => rfl
      | cons colon rest =>
          obtain ⟨visible, -⟩ := trimmed.begins colon rfl
          have within := (trimmed.suffix.trans (List.suffix_append (init ++ [last]) back)).isInfix
          rw [veiled_cons, shown_cons, Cell.veiled_of_isVisible visible]
          by_cases isColon : colon.char = ':'
          · simp [isColon, secondColon_veiled (inside.of_isInfix within) visible]
          · simp [isColon]
    · have original : ∀ rest, (shown back).dropWhile isBlank ≠ ':' :: rest := by
        intro rest isColon
        rw [isColon] at slash
        simp at slash
      have copied : ∀ rest, (veiled back).dropWhile isBlank ≠ ':' :: rest := by
        intro rest isColon
        exact allowed ':' (by rw [isColon]; rfl) rfl
      rw [Text.trimStart, Text.trimStart]
      split
      next rest isColon => exact absurd isColon (copied rest)
      next => rfl
  next => rfl

/-! The names of an argument list. -/

theorem tokenAt_cells {previous : Option Cell} {cell : Cell} {cells : List Cell}
    (colonless : Colonless (previous.toList ++ cell :: cells)) :
    tokenAt (previous.map Cell.veiled) (veiled (cell :: cells)) =
      tokenAt (previous.map Cell.char) (shown (cell :: cells)) := by
  have inside := colonless.of_isInfix (List.suffix_append previous.toList _).isInfix
  cases hidden : cell.hidden with
  | true =>
      rw [tokenAt, tokenAt, namedTokenAt_hidden inside hidden, veiled_cons,
        namedTokenAt_blank (Cell.isBlank_veiled hidden)]
  | false =>
      cases blank : isBlank cell.char with
      | true =>
          rw [tokenAt, tokenAt, veiled_cons, shown_cons, Cell.veiled_of_isVisible hidden,
            namedTokenAt_blank blank, namedTokenAt_blank blank]
      | false =>
          exact tokenAt_veiled colonless (begins_cons hidden blank cells)
            (List.cons_ne_nil cell cells)

theorem namedTokensFrom_cons (offset : Nat) (previous : Option Char) (c : Char) (rest : Text) :
    namedTokensFrom offset previous (c :: rest) =
      ((tokenAt previous (c :: rest)).map fun found => ⟨offset, found.1⟩).toList ++
        namedTokensFrom (offset + 1) (some c) rest := by
  rw [namedTokensFrom, tokenAt]
  cases namedTokenAt previous (c :: rest) <;> rfl

theorem namedTokensFrom_veiled {previous : Option Cell} {cells : List Cell}
    (colonless : Colonless (previous.toList ++ cells)) (offset : Nat) :
    namedTokensFrom offset (previous.map Cell.veiled) (veiled cells) =
      namedTokensFrom offset (previous.map Cell.char) (shown cells) := by
  induction cells generalizing previous offset with
  | nil => rfl
  | cons cell cells ih =>
      have here := tokenAt_cells colonless
      have later := @ih (some cell)
        (colonless.of_isInfix (List.suffix_append previous.toList _).isInfix) (offset + 1)
      rw [veiled_cons, shown_cons] at here ⊢
      rw [namedTokensFrom_cons, namedTokensFrom_cons, here]
      exact congrArg _ later

def namesArgument (previous : Option Char) (text : Text) : Bool :=
  (tokenAt previous text).any fun found => !found.2

theorem hasNamedParameter_eq (argText : Text) :
    hasNamedParameter argText = (maskLiterals argText).anyPlace namesArgument none := by
  rw [hasNamedParameter]
  congr 1
  funext previous text
  rw [namesArgument, tokenAt]
  cases namedTokenAt previous text <;> rfl

theorem anyPlace_namesArgument_veiled {previous : Option Cell} {cells : List Cell}
    (colonless : Colonless (previous.toList ++ cells)) :
    (veiled cells).anyPlace namesArgument (previous.map Cell.veiled) =
      (shown cells).anyPlace namesArgument (previous.map Cell.char) := by
  induction cells generalizing previous with
  | nil => rfl
  | cons cell cells ih =>
      have here := tokenAt_cells colonless
      have later := @ih (some cell)
        (colonless.of_isInfix (List.suffix_append previous.toList _).isInfix)
      rw [veiled_cons, shown_cons] at here ⊢
      rw [Text.anyPlace, Text.anyPlace, namesArgument, namesArgument, here]
      exact congrArg _ later

end HardcodedText
