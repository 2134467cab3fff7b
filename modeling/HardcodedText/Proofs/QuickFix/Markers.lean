import HardcodedText.Proofs.Silencing
import HardcodedText.QuickFix

/-!
Two readings of the markers. The rules of a text are collected from its first line to its last; the
quick fixes ask about one line and look at that line and the one above it. Both find the same lines
silenced, also outside of the text, and the same texts silenced as a whole.
-/

namespace HardcodedText

/-! Texts within the lines of a text. -/

theorem Text.exists_mem_of_infix_intercalate {needle : Text} {separator : Char} {pieces : List Text}
    (some : pieces ≠ []) (absent : separator ∉ needle)
    (within : needle <:+: List.intercalate [separator] pieces) :
    ∃ piece ∈ pieces, needle <:+: piece := by
  induction pieces with
  | nil => exact absurd rfl some
  | cons piece later ih =>
      cases later with
      | nil =>
          rw [List.intercalate_singleton] at within
          exact ⟨piece, List.mem_cons_self, within⟩
      | cons next rest =>
          rw [List.intercalate_cons_of_ne_nil (List.cons_ne_nil next rest), List.append_assoc,
            List.singleton_append] at within
          rcases infix_append_cons absent within with here | behind
          · exact ⟨piece, List.mem_cons_self, here⟩
          · obtain ⟨other, listed, inside⟩ := ih (List.cons_ne_nil next rest) behind
            exact ⟨other, List.mem_cons_of_mem _ listed, inside⟩

/-- What holds no separator occurs in a text if it occurs in one of its pieces. -/
theorem Text.occursIn_iff_piece {needle : Text} {separator : Char} (absent : separator ∉ needle)
    (text : Text) :
    needle.occursIn text = true ↔
      ∃ piece ∈ text.splitOn separator, needle.occursIn piece = true := by
  simp only [occursIn_iff]
  constructor
  · intro within
    have some := List.splitOn_ne_nil separator text
    have joined : List.intercalate [separator] (text.splitOn separator) = text :=
      List.intercalate_splitOn separator
    rw [← joined] at within
    exact exists_mem_of_infix_intercalate some absent within
  · rintro ⟨piece, listed, inside⟩
    exact inside.trans (infix_of_mem_splitOn listed)

theorem infix_dropWhile {drops : Char → Bool} {c : Char} {needle text : Text}
    (stays : drops c = false) (within : c :: needle <:+: text) :
    c :: needle <:+: text.dropWhile drops := by
  induction text with
  | nil => exact within
  | cons first rest ih =>
      cases dropped : drops first with
      | false => rwa [List.dropWhile_cons_of_neg (by simp [dropped])]
      | true =>
          rw [List.dropWhile_cons_of_pos dropped]
          rcases List.infix_cons_iff.mp within with begins | later
          · obtain ⟨rfl, -⟩ := List.cons_prefix_cons.mp begins
            rw [stays] at dropped
            exact absurd dropped (by decide)
          · exact ih later

theorem occursIn_dropLineEnd {needle : Text} {c : Char} (ends : (c == '\r' || c == '\n') = false)
    (line : Text) :
    (needle ++ [c]).occursIn (dropLineEnd line) = (needle ++ [c]).occursIn line := by
  rw [Bool.eq_iff_iff, Text.occursIn_iff, Text.occursIn_iff]
  constructor
  · intro within
    refine within.trans ?_
    rw [dropLineEnd, ← List.reverse_infix, List.reverse_reverse]
    exact (List.dropWhile_suffix _).isInfix
  · intro within
    rw [← List.reverse_infix, List.reverse_append] at within
    rw [dropLineEnd, ← List.reverse_infix, List.reverse_reverse, List.reverse_append]
    exact infix_dropWhile ends within

/-! Markers on the lines that are asked about. -/

def MarkedAt (marker : Text) (lines : List Text) (number : Int) : Prop :=
  ∃ (marked : Nat) (line : Text), lines[marked]? = some line ∧ marker.occursIn line = true ∧
    number = marked

theorem occursIn_lineAt {marker : Text} {c : Char} (ends : (c == '\r' || c == '\n') = false)
    (lines : List Text) (number : Int) :
    (marker ++ [c]).occursIn (lineAt lines number) = true ↔
      MarkedAt (marker ++ [c]) lines number := by
  have never : (marker ++ [c]).occursIn [] ≠ true := by simp [Text.occursIn]
  constructor
  · intro occurs
    rw [lineAt] at occurs
    split at occurs
    next => exact absurd occurs never
    next within =>
      cases listed : lines[number.toNat]? with
      | none =>
          rw [listed] at occurs
          exact absurd occurs never
      | some line =>
          rw [listed, Option.map_some, Option.getD_some, occursIn_dropLineEnd ends] at occurs
          exact ⟨number.toNat, line, listed, occurs, by omega⟩
  · rintro ⟨marked, line, listed, occurs, rfl⟩
    rw [lineAt, if_neg (by omega), Int.toNat_natCast, listed, Option.map_some, Option.getD_some,
      occursIn_dropLineEnd ends, occurs]

theorem hasLineIgnore_iff (lines : List Text) (number : Int) :
    hasLineIgnore lines number = true ↔
      MarkedAt lineMarker lines number ∨ MarkedAt nextLineMarker lines (number - 1) := by
  have own : lineMarker.occursIn (lineAt lines number) = true ↔
      MarkedAt lineMarker lines number :=
    @occursIn_lineAt lineMarker.dropLast 'e' (by decide) lines number
  have above : nextLineMarker.occursIn (lineAt lines (number - 1)) = true ↔
      MarkedAt nextLineMarker lines (number - 1) :=
    @occursIn_lineAt nextLineMarker.dropLast 'e' (by decide) lines (number - 1)
  rw [hasLineIgnore, Bool.or_eq_true, Bool.and_eq_true, own, above, decide_eq_true_eq]
  apply or_congr_right
  constructor
  · exact And.right
  · rintro ⟨marked, line, listed, occurs, same⟩
    exact ⟨by omega, marked, line, listed, occurs, same⟩

/-! Markers as rules. -/

def IgnoreRule.isBlock : IgnoreRule → Bool
  | .block _ _ => true
  | _ => false

theorem mem_rulesOfLine {last number : Nat} {line : Text} {rule : IgnoreRule} :
    rule ∈ rulesOfLine last line number ↔
      (lineMarker.occursIn line = true ∧ rule = .line number) ∨
      (nextLineMarker.occursIn line = true ∧ rule = .nextLine (number + 1)) ∨
      (fileMarker.occursIn line = true ∧ rule = .block number last) := by
  have stated (marked : Bool) (other : IgnoreRule) :
      rule ∈ (if marked then [other] else []) ↔ marked = true ∧ rule = other := by
    cases marked <;> simp
  rw [rulesOfLine, List.mem_append, List.mem_append, stated, stated, stated, or_assoc]

theorem mem_ignoreRules {text : Text} {rule : IgnoreRule} :
    rule ∈ ignoreRules text ↔
      ∃ marked line, (text.splitOn '\n')[marked]? = some line ∧
        rule ∈ rulesOfLine ((text.splitOn '\n').length - 1) line marked := by
  simp only [ignoreRules, List.mem_flatMap, Prod.exists, List.mem_zipIdx_iff_getElem?]
  exact exists_comm

theorem exists_line_rule_iff (text : Text) (number : Int) :
    (∃ rule ∈ ignoreRules text, rule.isBlock = false ∧ rule.covers number = true) ↔
      MarkedAt lineMarker (text.splitOn '\n') number ∨
        MarkedAt nextLineMarker (text.splitOn '\n') (number - 1) := by
  constructor
  · rintro ⟨rule, member, single, covers⟩
    obtain ⟨marked, line, listed, stated⟩ := mem_ignoreRules.mp member
    rcases mem_rulesOfLine.mp stated with ⟨own, rfl⟩ | ⟨next, rfl⟩ | ⟨-, rfl⟩
    · rw [IgnoreRule.covers, beq_iff_eq] at covers
      exact Or.inl ⟨marked, line, listed, own, covers⟩
    · rw [IgnoreRule.covers, beq_iff_eq] at covers
      exact Or.inr ⟨marked, line, listed, next, by omega⟩
    · exact absurd single (by simp [IgnoreRule.isBlock])
  · rintro (⟨marked, line, listed, own, same⟩ | ⟨marked, line, listed, next, same⟩)
    · refine ⟨.line marked, mem_ignoreRules.mpr ⟨marked, line, listed, ?_⟩, rfl, ?_⟩
      · exact mem_rulesOfLine.mpr (Or.inl ⟨own, rfl⟩)
      · rw [IgnoreRule.covers, beq_iff_eq, same]
    · refine ⟨.nextLine (marked + 1), mem_ignoreRules.mpr ⟨marked, line, listed, ?_⟩, rfl, ?_⟩
      · exact mem_rulesOfLine.mpr (Or.inr (Or.inl ⟨next, rfl⟩))
      · rw [IgnoreRule.covers, beq_iff_eq]
        omega

theorem exists_block_rule_iff (text : Text) :
    (∃ rule ∈ ignoreRules text, rule.isBlock = true) ↔
      ∃ line ∈ text.splitOn '\n', fileMarker.occursIn line = true := by
  constructor
  · rintro ⟨rule, member, block⟩
    obtain ⟨marked, line, listed, stated⟩ := mem_ignoreRules.mp member
    rcases mem_rulesOfLine.mp stated with ⟨-, rfl⟩ | ⟨-, rfl⟩ | ⟨whole, rfl⟩
    · exact absurd block (by simp [IgnoreRule.isBlock])
    · exact absurd block (by simp [IgnoreRule.isBlock])
    · exact ⟨line, List.mem_of_getElem? listed, whole⟩
  · rintro ⟨line, member, whole⟩
    obtain ⟨marked, listed⟩ := List.mem_iff_getElem?.mp member
    exact ⟨_, mem_ignoreRules.mpr
      ⟨marked, line, listed, mem_rulesOfLine.mpr (Or.inr (Or.inr ⟨whole, rfl⟩))⟩, rfl⟩

/-- A line counts as silenced for the quick fixes exactly if a rule for single lines covers it, and
a text counts as silenced exactly if it has a rule for all lines from some line on. -/
theorem markers_read_alike (text : Text) (number : Int) :
    (hasLineIgnore (text.splitOn '\n') number = true ↔
      ∃ rule ∈ ignoreRules text, rule.isBlock = false ∧ rule.covers number = true) ∧
    (hasFileIgnore text = true ↔ ∃ rule ∈ ignoreRules text, rule.isBlock = true) := by
  constructor
  · rw [hasLineIgnore_iff, exists_line_rule_iff]
  · rw [hasFileIgnore, Text.occursIn_iff_piece (by decide : '\n' ∉ fileMarker),
      exists_block_rule_iff]

end HardcodedText
