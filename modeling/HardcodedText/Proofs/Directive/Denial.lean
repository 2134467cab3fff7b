import HardcodedText.Proofs.DeniedContext
import HardcodedText.Proofs.Directive.Token

/-!
The words before a call beside a hidden comment. A keyword that denies the call stands outside of
the hidden comments, and what follows it on its line is the same in both texts.
-/

namespace HardcodedText

theorem denying_plain :
    ∀ token ∈ denyingKeywords ++ denyingWords, token ≠ [] ∧ Plain token := by
  decide

theorem deniesFrom_eq_true {previous : Option Char} {rest : Text}
    (denies : deniesFrom previous rest = true) :
    (∃ keyword ∈ denyingKeywords, keyword <+: rest) ∨ rest ∈ denyingWords := by
  rw [deniesFrom, Bool.and_eq_true, Bool.or_eq_true] at denies
  rcases denies.2 with line | word
  · obtain ⟨keyword, listed, holds⟩ := List.any_eq_true.mp line
    rw [Bool.and_eq_true, Bool.and_eq_true, List.isPrefixOf_iff_prefix] at holds
    exact Or.inl ⟨keyword, listed, holds.1.1⟩
  · exact Or.inr (List.contains_iff_mem.mp word)

theorem exists_token_of_deniesFrom {previous : Option Char} {rest : Text}
    (denies : deniesFrom previous rest = true) :
    ∃ token ∈ denyingKeywords ++ denyingWords, token <+: rest := by
  rcases deniesFrom_eq_true denies with ⟨keyword, listed, found⟩ | word
  · exact ⟨keyword, List.mem_append_left _ listed, found⟩
  · exact ⟨rest, List.mem_append_right _ word, List.prefix_refl rest⟩

theorem deniesFrom_blank {c : Char} (blank : isBlank c = true) (previous : Option Char)
    (rest : Text) : deniesFrom previous (c :: rest) = false := by
  rw [← Bool.not_eq_true]
  intro denies
  obtain ⟨token, listed, found⟩ := exists_token_of_deniesFrom denies
  obtain ⟨nonempty, plain⟩ := denying_plain token listed
  obtain ⟨first, more, rfl⟩ := List.exists_cons_of_ne_nil nonempty
  obtain ⟨rfl, -⟩ := List.cons_prefix_cons.mp found
  rw [(plain first List.mem_cons_self).1] at blank
  exact absurd blank (by decide)

/-- Nothing, or cells whose last one is visible. -/
def EndsVisible (cells : List Cell) : Prop :=
  ∀ cell ∈ cells.getLast?, cell.isVisible

/-- No denying word stands in a hidden comment. -/
theorem deniesFrom_hidden {cell : Cell} {cells : List Cell} (apart : SetApart (cell :: cells))
    (ends : EndsVisible (cell :: cells)) (hidden : cell.hidden = true) (previous : Option Char) :
    deniesFrom previous (shown (cell :: cells)) = false := by
  rw [← Bool.not_eq_true]
  intro denies
  rcases deniesFrom_eq_true denies with ⟨keyword, listed, found⟩ | word
  · have plain := (denying_plain keyword (List.mem_append_left _ listed)).2
    obtain ⟨front, back, split, inside, same⟩ := apart.hidden_token plain hidden found
    refine apart.wordless front ⟨[], back, by simp [split]⟩ inside ?_
    rw [same]
    exact List.mem_cons_of_mem _ listed
  · have plain := (denying_plain _ (List.mem_append_right _ word)).2
    obtain ⟨front, back, split, inside, same⟩ :=
      apart.hidden_token plain hidden (List.prefix_refl _)
    have nothing : back = [] := by
      have sizes := congrArg List.length same
      rw [split, length_shown, length_shown, List.length_append] at sizes
      exact List.length_eq_zero_iff.mp (by omega)
    rw [nothing, List.append_nil] at split
    rw [split] at ends
    have nonempty : shown front ≠ [] := by
      rw [same]
      simp
    obtain ⟨init, last, rfl⟩ := exists_last nonempty
    have seen : last.hidden = false := ends last (by simp)
    rw [inside last (by simp)] at seen
    exact absurd seen (by decide)

theorem veiled_eq_iff_shown_eq {word : Text} (plain : Plain word) {cells : List Cell}
    (fenced : Fenced cells) (starts : StartsVisible cells) :
    veiled cells = word ↔ shown cells = word := by
  have whole (found : TokenAt word cells) (size : word.length = cells.length) :
      veiled cells = word ∧ shown cells = word := by
    obtain ⟨front, back, rfl, visible, rfl⟩ := found
    rw [length_shown, List.length_append] at size
    obtain rfl : back = [] := List.length_eq_zero_iff.mp (by omega)
    rw [List.append_nil]
    exact ⟨veiled_eq_shown visible, rfl⟩
  constructor
  · rintro rfl
    exact (whole (tokenAt_of_veiled plain (List.prefix_refl _)) (length_veiled cells)).2
  · rintro rfl
    exact (whole (tokenAt_of_shown plain fenced starts (List.prefix_refl _)) (length_shown cells)).1

/-- Behind a keyword the rest of the line is the same in both texts. -/
theorem denyingKeyword_veiled {cells : List Cell} (apart : SetApart cells) (begins : Begins cells)
    {keyword : Text} (listed : keyword ∈ denyingKeywords) :
    (keyword.isPrefixOf (veiled cells) &&
        ((veiled cells).drop keyword.length).head?.any isBlank &&
        !(Text.trimStart ((veiled cells).drop keyword.length)).contains '\n') =
      (keyword.isPrefixOf (shown cells) &&
        ((shown cells).drop keyword.length).head?.any isBlank &&
        !(Text.trimStart ((shown cells).drop keyword.length)).contains '\n') := by
  obtain ⟨nonempty, plain⟩ := denying_plain keyword (List.mem_append_left _ listed)
  rw [isPrefixOf_veiled plain apart.fenced begins.startsVisible]
  cases found : keyword.isPrefixOf (shown cells) with
  | false => rfl
  | true =>
      obtain ⟨front, back, rfl, visible, rfl⟩ := tokenAt_of_shown plain apart.fenced
        begins.startsVisible (List.isPrefixOf_iff_prefix.mp found)
      have width := (length_shown front).symm
      obtain ⟨init, last, rfl⟩ := exists_last nonempty
      have word : isWordChar last.char = true := by
        have letters : denyingKeywords.all (·.all isWordChar) = true := by decide
        have here := List.all_eq_true.mp letters _ listed
        exact List.all_eq_true.mp here last.char (by simp [shown])
      have behind : last :: back <:+: init ++ [last] ++ back := ⟨init, [], by simp⟩
      obtain ⟨rest, trimmed⟩ := (apart.of_isInfix behind).trimmed_after (visible last (by simp))
        (Or.inl word)
      have lines : (veiled rest).contains '\n' = (shown rest).contains '\n' := by
        rw [Bool.eq_iff_iff, List.contains_iff_mem, List.contains_iff_mem]
        exact lineFeed_mem_veiled_iff rest
      have first : (veiled back).head? = (shown back).head? := by
        obtain ⟨gap, rfl, blanks⟩ := trimmed.gap
        rw [veiled_append, shown_append, veiled_eq_shown blanks.visible, List.head?_append,
          List.head?_append, trimmed.begins.head?_veiled]
      rw [drop_veiled width, drop_shown width, Text.trimStart, Text.trimStart, trimmed.veiled_eq,
        trimmed.shown_eq, lines, first]

theorem deniesFrom_veiled {previous : Option Cell} {cells : List Cell}
    (apart : SetApart (previous.toList ++ cells)) (begins : Begins cells) (nonempty : cells ≠ []) :
    deniesFrom (previous.map Cell.veiled) (veiled cells) =
      deniesFrom (previous.map Cell.char) (shown cells) := by
  have inside := apart.of_isInfix (List.suffix_append previous.toList cells).isInfix
  have keywords : (denyingKeywords.any fun keyword => keyword.isPrefixOf (veiled cells) &&
        ((veiled cells).drop keyword.length).head?.any isBlank &&
        !(Text.trimStart ((veiled cells).drop keyword.length)).contains '\n') =
      denyingKeywords.any fun keyword => keyword.isPrefixOf (shown cells) &&
        ((shown cells).drop keyword.length).head?.any isBlank &&
        !(Text.trimStart ((shown cells).drop keyword.length)).contains '\n' :=
    any_congr_of_mem fun keyword listed => denyingKeyword_veiled inside begins listed
  have words : denyingWords.contains (veiled cells) = denyingWords.contains (shown cells) := by
    rw [Bool.eq_iff_iff, List.contains_iff_mem, List.contains_iff_mem]
    constructor
    · intro listed
      have plain := (denying_plain _ (List.mem_append_right _ listed)).2
      rwa [(veiled_eq_iff_shown_eq plain inside.fenced begins.startsVisible).mp rfl]
    · intro listed
      have plain := (denying_plain _ (List.mem_append_right _ listed)).2
      rwa [(veiled_eq_iff_shown_eq plain inside.fenced begins.startsVisible).mpr rfl]
  rw [deniesFrom, deniesFrom, keywords, words,
    previous_any_veiled inside_isWordChar apart.toBordered begins nonempty]

theorem EndsVisible.tail {cell : Cell} {cells : List Cell} (ends : EndsVisible (cell :: cells)) :
    EndsVisible cells := by
  intro last found
  apply ends
  cases cells with
  | nil => simp at found
  | cons next cells => rwa [List.getLast?_cons_cons]

theorem anyPlace_deniesFrom_veiled {previous : Option Cell} {cells : List Cell}
    (apart : SetApart (previous.toList ++ cells)) (ends : EndsVisible cells) :
    (veiled cells).anyPlace deniesFrom (previous.map Cell.veiled) =
      (shown cells).anyPlace deniesFrom (previous.map Cell.char) := by
  induction cells generalizing previous with
  | nil =>
      rw [veiled_nil, shown_nil, Text.anyPlace, Text.anyPlace, deniesFrom_nil, deniesFrom_nil]
  | cons cell cells ih =>
      have inside := apart.of_isInfix (List.suffix_append previous.toList _).isInfix
      have later := @ih (some cell) inside ends.tail
      have here : deniesFrom (previous.map Cell.veiled) (cell.veiled :: veiled cells) =
          deniesFrom (previous.map Cell.char) (cell.char :: shown cells) := by
        cases hidden : cell.hidden with
        | true =>
            rw [deniesFrom_blank (Cell.isBlank_veiled hidden)]
            exact (deniesFrom_hidden inside ends hidden _).symm
        | false =>
            cases blank : isBlank cell.char with
            | true =>
                rw [Cell.veiled_of_isVisible hidden, deniesFrom_blank blank, deniesFrom_blank blank]
            | false =>
                exact deniesFrom_veiled apart (begins_cons hidden blank cells)
                  (List.cons_ne_nil cell cells)
      rw [veiled_cons, shown_cons, Text.anyPlace, Text.anyPlace, here]
      exact congrArg _ later

theorem deniesCall_veiled {cells : List Cell} (apart : SetApart cells) (ends : EndsVisible cells) :
    deniesCall (veiled cells) = deniesCall (shown cells) := by
  have last : (veiled cells).getLast? = (shown cells).getLast? := by
    rw [veiled, shown, List.getLast?_map, List.getLast?_map]
    cases found : cells.getLast? with
    | none => rfl
    | some cell => rw [Option.map_some, Option.map_some, Cell.veiled_of_isVisible (ends cell found)]
  rw [deniesCall, deniesCall, last]
  exact congrArg _ (@anyPlace_deniesFrom_veiled none cells apart ends)

def ClearBefore (cells : List Cell) (place : Nat) : Prop :=
  ∀ before cell gap, cells.take place = before ++ cell :: gap →
    (∀ other ∈ gap, isBlank other.veiled = true) → cell.isVisible

theorem ClearBefore.trimmed {cells front window : List Cell} {offset : Nat}
    (clear : ClearBefore cells offset) (split : cells.take offset = front ++ window) :
    ∃ rest, TrimmedTo window.reverse rest := by
  apply exists_trimmedTo
  intro gap cell back reversed blanks
  have order : window = back.reverse ++ cell :: gap.reverse := by
    rw [← List.reverse_reverse window, reversed]
    simp
  apply clear (front ++ back.reverse) cell gap.reverse
  · rw [split, order, List.append_assoc]
  · intro other member
    exact blanks other (List.mem_reverse.mp member)

theorem deniesCall_trimEnd_veiled {window rest : List Cell} (apart : SetApart window)
    (trimmed : TrimmedTo window.reverse rest) :
    deniesCall (Text.trimEnd (veiled window)) = deniesCall (Text.trimEnd (shown window)) := by
  have copied : Text.trimEnd (veiled window) = veiled rest.reverse := by
    have same := trimmed.veiled_eq
    rw [veiled, List.map_reverse, ← veiled] at same
    rw [Text.trimEnd, same, veiled, veiled, List.map_reverse]
  have original : Text.trimEnd (shown window) = shown rest.reverse := by
    have same := trimmed.shown_eq
    rw [shown, List.map_reverse, ← shown] at same
    rw [Text.trimEnd, same, shown, shown, List.map_reverse]
  have within : rest.reverse <:+: window := by
    have part := List.reverse_prefix.mpr trimmed.suffix
    rw [List.reverse_reverse] at part
    exact part.isInfix
  have ends : EndsVisible rest.reverse := by
    intro cell last
    rw [List.getLast?_reverse] at last
    exact (trimmed.begins cell last).1
  rw [copied, original, deniesCall_veiled (apart.of_isInfix within) ends]

theorem inDeniedContext_veiled {cells : List Cell} (apart : SetApart cells) {offset : Nat}
    (clear : ClearBefore cells offset) {tables : FilterTables}
    (patterns : tables.contextPatterns = defaultContextPatterns) :
    inDeniedContext (veiled cells) offset tables = inDeniedContext (shown cells) offset tables := by
  rw [inDeniedContext, inDeniedContext, Text.slice, Text.slice, length_veiled, length_shown]
  generalize Text.place cells.length (max 0 (offset - tables.contextWindow)) = first
  rw [Text.place_natCast]
  have copied : ((veiled cells).drop first).take (min offset cells.length - first) =
      veiled ((cells.drop first).take (min offset cells.length - first)) := by
    rw [veiled, veiled, List.map_take, List.map_drop]
  have original : ((shown cells).drop first).take (min offset cells.length - first) =
      shown ((cells.drop first).take (min offset cells.length - first)) := by
    rw [shown, shown, List.map_take, List.map_drop]
  rw [copied, original, denies_eq_deniesCall patterns, denies_eq_deniesCall patterns]
  by_cases order : first ≤ min offset cells.length
  · have split : cells.take offset =
        cells.take first ++ (cells.drop first).take (min offset cells.length - first) := by
      rw [← List.take_add, Nat.add_sub_cancel' order, ← List.take_eq_take_min]
    obtain ⟨rest, trimmed⟩ := clear.trimmed split
    refine deniesCall_trimEnd_veiled (apart.of_isInfix ?_) trimmed
    exact (List.take_prefix _ _).isInfix.trans (List.drop_suffix _ _).isInfix
  · have empty : min offset cells.length - first = 0 := by omega
    rw [empty, List.take_zero]
    rfl

end HardcodedText
