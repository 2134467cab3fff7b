import HardcodedText.Proofs.Scanner.Enclosure

/-!
How far a step looks ahead. A step tests whether certain tokens come next, and it consumes those
that decide it. So it is the same step when the text is cut before a character that occurs in no
token, and when characters beyond those it consumes become spaces.
-/

namespace HardcodedText

def Mode.Sound (mode : Mode) : Prop :=
  ∀ enclosure, mode.enclosure = some enclosure → enclosure.Sound

theorem Mode.sound_code : Mode.code.Sound := by
  intro enclosure inside
  simp [Mode.enclosure] at inside

theorem Mode.Sound.settle {mode : Mode} (sound : mode.Sound) (c : Char) :
    (mode.settle c).Sound := by
  rcases mode.settle_eq_self_or c with settled | ⟨start, rfl, rfl⟩
  · rwa [settled]
  · exact Mode.sound_code

theorem Mode.Sound.step {mode : Mode} (sound : mode.Sound) (index : Nat) (c : Char)
    (rest : Text) : (mode.step index c rest).mode.Sound := by
  intro enclosure inside
  rcases Mode.enclosure_of_step inside with before | ⟨-, opened, -⟩
  · exact sound enclosure before
  · exact opened

theorem Mode.Sound.consume {mode : Mode} (sound : mode.Sound) (index : Nat) (c : Char)
    (rest : Text) : (mode.consume index c rest).mode.Sound :=
  (sound.settle c).step index c rest

theorem Cursor.sound_next {cursor : Cursor} (sound : cursor.mode.Sound) (index : Nat) (c : Char)
    (rest : Text) : (cursor.next index c rest).mode.Sound := by
  obtain ⟨mode, skip⟩ := cursor
  cases skip with
  | zero => exact sound.consume index c rest
  | succ skip => exact sound

/-! Cutting a text before a character that no token holds. -/

def Solitary (c : Char) : Prop :=
  isQuote c = false ∧ c ≠ '/' ∧ c ≠ '*' ∧ c ≠ '\x7b'

instance (c : Char) : Decidable (Solitary c) :=
  inferInstanceAs (Decidable (_ ∧ _))

theorem solitary_openParenthesis : Solitary '(' := by decide

theorem solitary_closeParenthesis : Solitary ')' := by decide

theorem prefix_append_cons_iff {token : Text} {x : Char} (absent : x ∉ token)
    (text more : Text) : token <+: text ++ x :: more ↔ token <+: text := by
  constructor
  · intro found
    rcases List.prefix_or_prefix_of_prefix found (List.prefix_append text (x :: more)) with
      inside | beyond
    · exact inside
    · obtain ⟨tail, rfl⟩ := beyond
      rw [List.prefix_append_right_inj] at found
      cases tail with
      | nil => simp
      | cons first tail =>
          rw [List.cons_prefix_cons] at found
          exact absurd (by simp [found.1]) absent
  · intro found
    exact found.trans (List.prefix_append text (x :: more))

theorem infix_append_cons {needle front back : Text} {x : Char} (absent : x ∉ needle)
    (occurs : needle <:+: front ++ x :: back) : needle <:+: front ∨ needle <:+: back := by
  induction front with
  | nil =>
      rw [List.nil_append, List.infix_cons_iff] at occurs
      rcases occurs with starts | later
      · have empty := (prefix_append_cons_iff absent [] back).mp starts
        exact Or.inl empty.isInfix
      · exact Or.inr later
  | cons c front ih =>
      rw [List.cons_append, List.infix_cons_iff] at occurs
      rcases occurs with starts | later
      · have inFront := (prefix_append_cons_iff absent (c :: front) back).mp starts
        exact Or.inl inFront.isInfix
      · rcases ih later with inFront | inBack
        · exact Or.inl (List.infix_cons inFront)
        · exact Or.inr inBack

theorem Delimiter.not_mem_text {delimiter : Delimiter} {x : Char}
    (quoted : isQuote delimiter.quote = true) (plain : isQuote x = false) :
    x ∉ delimiter.text := by
  intro member
  have same : x = delimiter.quote := by
    cases delimiter with
    | mk quote tripled => cases tripled <;> simpa [Delimiter.text] using member
  rw [same, quoted] at plain
  simp at plain

theorem isPrefixOf_append_cons {token : Text} {x : Char} (absent : x ∉ token) (text more : Text) :
    token.isPrefixOf (text ++ x :: more) = token.isPrefixOf text := by
  rw [Bool.eq_iff_iff, List.isPrefixOf_iff_prefix, List.isPrefixOf_iff_prefix]
  exact prefix_append_cons_iff absent text more

theorem head?_append_cons_beq {x y : Char} (different : x ≠ y) (text more : Text) :
    ((text ++ x :: more).head? == some y) = (text.head? == some y) := by
  cases text with
  | nil => simpa using different
  | cons first text => rfl

theorem Mode.step_append_solitary {mode : Mode} (sound : mode.Sound) {x : Char}
    (solitary : Solitary x) (index : Nat) (c : Char) (rest more : Text) :
    mode.step index c (rest ++ x :: more) = mode.step index c rest := by
  obtain ⟨plain, noSlash, noStar, noBrace⟩ := solitary
  cases mode with
  | code =>
      simp only [step, stepCode, head?_append_cons_beq noSlash, head?_append_cons_beq noStar]
      by_cases quote : isQuote c = true
      · have absent : x ∉ [c, c] := by
          intro member
          have same : x = c := by simpa using member
          rw [same, quote] at plain
          simp at plain
        simp only [quote, if_true, Delimiter.opening, isPrefixOf_append_cons absent]
      · simp only [quote, if_false, Bool.false_eq_true]
  | string delimiter start escaped =>
      have absent := Delimiter.not_mem_text (sound _ rfl) plain
      have closes := isPrefixOf_append_cons absent (c :: rest) more
      rw [List.cons_append] at closes
      simp only [step, stepString, head?_append_cons_beq noBrace, closes]
  | interpolation delimiter start depth => rfl
  | lineComment start => rfl
  | blockComment start depth =>
      simp only [step, stepBlockComment, head?_append_cons_beq noSlash,
        head?_append_cons_beq noStar]

namespace Cursor

variable {cursor : Cursor} {x : Char}

theorem next_append_solitary (sound : cursor.mode.Sound) (solitary : Solitary x) (index : Nat)
    (c : Char) (rest more : Text) :
    cursor.next index c (rest ++ x :: more) = cursor.next index c rest := by
  simp only [next, Mode.consume,
    Mode.step_append_solitary (sound.settle c) solitary index c rest more]

theorem moments_append_solitary (sound : cursor.mode.Sound) (solitary : Solitary x) (index : Nat)
    (c : Char) (rest more : Text) :
    cursor.moments index c (rest ++ x :: more) = cursor.moments index c rest := by
  simp only [moments, Mode.consume,
    Mode.step_append_solitary (sound.settle c) solitary index c rest more]

theorem advance_solitary (sound : cursor.mode.Sound) (solitary : Solitary x) (index : Nat)
    (body more : Text) : cursor.advance index body (x :: more) = cursor.advance index body [] := by
  induction body generalizing cursor index with
  | nil => rfl
  | cons c body ih =>
      simp only [advance, List.append_nil, next_append_solitary sound solitary]
      exact ih (sound_next sound index c body) (index + 1)

theorem run_append_solitary (sound : cursor.mode.Sound) (solitary : Solitary x) (index : Nat)
    (body more : Text) :
    cursor.run index (body ++ x :: more) =
      cursor.run index body ++
        (cursor.advance index body []).run (index + body.length) (x :: more) := by
  induction body generalizing cursor index with
  | nil => simp [advance]
  | cons c body ih =>
      rw [List.cons_append, run_cons, run_cons, moments_append_solitary sound solitary,
        next_append_solitary sound solitary, ih (sound_next sound index c body) (index + 1)]
      simp only [advance, List.append_nil, List.append_assoc, List.length_cons]
      congr 3
      omega

end Cursor

/-! Characters beyond the consumed ones that become spaces. -/

/-- The second text is the first one with spaces for some characters, but not for line feeds. -/
def Erases (text erased : Text) : Prop :=
  List.Forall₂ (fun c left => left = c ∨ (left = ' ' ∧ c ≠ '\n')) text erased

namespace Erases

theorem refl (text : Text) : Erases text text := by
  induction text with
  | nil => exact List.Forall₂.nil
  | cons c text ih => exact List.Forall₂.cons (Or.inl rfl) ih

theorem append_left {text erased : Text} (erases : Erases text erased) (body : Text) :
    Erases (body ++ text) (body ++ erased) := by
  induction body with
  | nil => exact erases
  | cons c body ih => exact List.Forall₂.cons (Or.inl rfl) ih

theorem trans {text erased other : Text} (first : Erases text erased)
    (second : Erases erased other) : Erases text other := by
  induction first generalizing other with
  | nil => exact second
  | cons same rest ih =>
      cases second with
      | cons again later =>
          refine List.Forall₂.cons ?_ (ih later)
          rcases again with rfl | ⟨space, left⟩
          · exact same
          · rcases same with rfl | ⟨-, noLineFeed⟩
            · exact Or.inr ⟨space, left⟩
            · exact Or.inr ⟨space, noLineFeed⟩

theorem prefix_of_prefix {text erased token : Text} (erases : Erases text erased)
    (spaceless : ' ' ∉ token) (found : token <+: erased) : token <+: text := by
  induction erases generalizing token with
  | nil => exact found
  | cons same rest ih =>
      cases token with
      | nil => exact List.nil_prefix
      | cons first token =>
          rw [List.cons_prefix_cons] at found ⊢
          rw [List.mem_cons, not_or] at spaceless
          refine ⟨?_, ih spaceless.2 found.2⟩
          rcases same with same | ⟨space, -⟩
          · rw [found.1, same]
          · exact absurd (found.1.trans space).symm spaceless.1

end Erases

theorem prefix_of_take_eq {text other token : Text} {width : Nat}
    (same : other.take width = text.take width) (room : token.length ≤ width)
    (found : token <+: text) : token <+: other := by
  have taken : token <+: text.take width := by
    rw [List.prefix_take_iff]
    exact ⟨found, room⟩
  rw [← same] at taken
  exact taken.trans (List.take_prefix width other)

theorem isPrefixOf_erased {text other token : Text} (erases : Erases text other)
    (spaceless : ' ' ∉ token) (keeps : token <+: text → token <+: other) :
    token.isPrefixOf other = token.isPrefixOf text := by
  rw [Bool.eq_iff_iff, List.isPrefixOf_iff_prefix, List.isPrefixOf_iff_prefix]
  exact ⟨erases.prefix_of_prefix spaceless, keeps⟩

theorem head?_erased {text other : Text} {x : Char} (erases : Erases text other)
    (spaceless : x ≠ ' ') (keeps : [x] <+: text → [x] <+: other) :
    (other.head? == some x) = (text.head? == some x) := by
  rw [Bool.eq_iff_iff, beq_iff_eq, beq_iff_eq, head?_eq_some_iff_prefix,
    head?_eq_some_iff_prefix]
  exact ⟨erases.prefix_of_prefix (by simpa using spaceless.symm), keeps⟩

theorem pair_erased {text other : Text} {c x y : Char} (erases : Erases text other)
    (spaceless : y ≠ ' ') (keeps : c = x → [y] <+: text → [y] <+: other) :
    (c == x && other.head? == some y) = (c == x && text.head? == some y) := by
  by_cases first : c = x
  · rw [head?_erased erases spaceless (keeps first)]
  · have absent : (c == x) = false := by simpa using first
    rw [absent, Bool.false_and, Bool.false_and]

theorem isQuote_of_isBlank {c : Char} (blank : isBlank c = true) : isQuote c = false := by
  have none : ['\'', '"', '\x60'].any isBlank = false := by decide
  have different : c ∉ ['\'', '"', '\x60'] := by
    intro listed
    exact List.any_eq_false.mp none c listed blank
  simpa [isQuote, and_assoc] using different

theorem isBlank_of_isQuote {c : Char} (quote : isQuote c = true) : isBlank c = false := by
  by_contra blank
  rw [isQuote_of_isBlank (by simpa using blank)] at quote
  exact absurd quote (by decide)

theorem ne_space_of_isQuote {c : Char} (quote : isQuote c = true) : c ≠ ' ' := by
  rintro rfl
  simp [isQuote] at quote

theorem stepCode_erased {rest other : Text} (erases : Erases rest other) (index : Nat) (c : Char)
    (consumed : other.take ((stepCode index c rest).width - 1) =
      rest.take ((stepCode index c rest).width - 1)) :
    stepCode index c other = stepCode index c rest := by
  by_cases quote : isQuote c = true
  · have tripled : [c, c].isPrefixOf other = [c, c].isPrefixOf rest := by
      apply isPrefixOf_erased erases
      · simpa using (ne_space_of_isQuote quote).symm
      · intro found
        refine prefix_of_take_eq consumed ?_ found
        simp [stepCode, quote, Delimiter.opening, Delimiter.width,
          List.isPrefixOf_iff_prefix.mpr found]
    simp only [stepCode, quote, if_true, Delimiter.opening, tripled]
  · have lineOpens : (c == '/' && other.head? == some '/') =
        (c == '/' && rest.head? == some '/') := by
      apply pair_erased erases (by decide)
      intro slash found
      refine prefix_of_take_eq consumed ?_ found
      simp [stepCode, slash, isQuote, head?_eq_some_iff_prefix.mpr found]
    have blockOpens : (c == '/' && other.head? == some '*') =
        (c == '/' && rest.head? == some '*') := by
      apply pair_erased erases (by decide)
      intro slash found
      refine prefix_of_take_eq consumed ?_ found
      simp [stepCode, slash, isQuote, head?_eq_some_iff_prefix.mpr found]
    simp only [stepCode, quote, if_false, Bool.false_eq_true, lineOpens, blockOpens]

theorem stepString_erased {delimiter : Delimiter} (quoted : isQuote delimiter.quote = true)
    {rest other : Text} (erases : Erases rest other) (start : Nat) (escaped : Bool) (c : Char)
    (consumed : other.take ((stepString delimiter start escaped c rest).width - 1) =
      rest.take ((stepString delimiter start escaped c rest).width - 1)) :
    stepString delimiter start escaped c other = stepString delimiter start escaped c rest := by
  by_cases backslash : c = '\\'
  · simp [stepString, backslash]
  by_cases inEscape : escaped = true
  · simp [stepString, backslash, inEscape]
  have interpolates : (c == '$' && other.head? == some '\x7b') =
      (c == '$' && rest.head? == some '\x7b') := by
    apply pair_erased erases (by decide)
    intro dollar found
    refine prefix_of_take_eq consumed ?_ found
    simp [stepString, inEscape, dollar, head?_eq_some_iff_prefix.mpr found]
  by_cases interpolated : (c == '$' && rest.head? == some '\x7b') = true
  · simp [stepString, inEscape, interpolates, interpolated]
  have closes : delimiter.text.isPrefixOf (c :: other) = delimiter.text.isPrefixOf (c :: rest) := by
    apply isPrefixOf_erased (erases.append_left [c])
    · exact Delimiter.not_mem_text quoted (by decide)
    · intro found
      have width : (stepString delimiter start escaped c rest).width = delimiter.text.length := by
        have token := List.isPrefixOf_iff_prefix.mpr found
        rw [List.singleton_append] at token
        simp [stepString, backslash, inEscape, interpolated, token, Delimiter.length_text]
      have positive := List.length_pos_iff.mpr delimiter.text_ne_nil
      have same : ([c] ++ other).take delimiter.text.length =
          ([c] ++ rest).take delimiter.text.length := by
        rw [width] at consumed
        rw [List.singleton_append, List.singleton_append, List.take_cons positive,
          List.take_cons positive, consumed]
      exact prefix_of_take_eq same (Nat.le_refl _) found
  simp only [stepString, interpolates, closes]

theorem stepBlockComment_erased {rest other : Text} (erases : Erases rest other)
    (start depth : Nat) (c : Char)
    (consumed : other.take ((stepBlockComment start depth c rest).width - 1) =
      rest.take ((stepBlockComment start depth c rest).width - 1)) :
    stepBlockComment start depth c other = stepBlockComment start depth c rest := by
  have opens : (c == '/' && other.head? == some '*') = (c == '/' && rest.head? == some '*') := by
    apply pair_erased erases (by decide)
    intro slash found
    refine prefix_of_take_eq consumed ?_ found
    simp [stepBlockComment, slash, head?_eq_some_iff_prefix.mpr found]
  have ends : (c == '*' && other.head? == some '/') = (c == '*' && rest.head? == some '/') := by
    apply pair_erased erases (by decide)
    intro star found
    refine prefix_of_take_eq consumed ?_ found
    by_cases last : depth ≤ 1 <;>
      simp [stepBlockComment, star, last, head?_eq_some_iff_prefix.mpr found]
  simp only [stepBlockComment, opens, ends]

/-- A step looks only at what it consumes and at the absence of tokens. -/
theorem Mode.step_erased {mode : Mode} (sound : mode.Sound) {rest other : Text}
    (erases : Erases rest other) (index : Nat) (c : Char)
    (consumed : other.take ((mode.step index c rest).width - 1) =
      rest.take ((mode.step index c rest).width - 1)) :
    mode.step index c other = mode.step index c rest := by
  cases mode with
  | code => exact stepCode_erased erases index c consumed
  | string delimiter start escaped =>
      exact stepString_erased (sound _ rfl) erases start escaped c consumed
  | interpolation delimiter start depth => rfl
  | lineComment start => rfl
  | blockComment start depth => exact stepBlockComment_erased erases start depth c consumed

end HardcodedText
