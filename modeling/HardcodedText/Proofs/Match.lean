import HardcodedText.Match
import HardcodedText.NamedToken
import HardcodedText.Proofs.Text
import Mathlib.Data.List.Basic

/-!
Positions in reading order. Within a text a later offset has a later position, so that a position
names one offset. The line and the column of a character say where it stands when the text is cut at
its line feeds. Both are numbers that can be counted: the line feeds before an offset, and the
characters since the last of them.

The removal of duplicates among matches keeps their order and leaves one for each span.
-/

namespace HardcodedText

def Position.Before (left right : Position) : Prop :=
  left.line < right.line ∨ (left.line = right.line ∧ left.column < right.column)

instance (left right : Position) : Decidable (left.Before right) :=
  inferInstanceAs (Decidable (_ ∨ _))

theorem Position.Before.ne {left right : Position} (before : left.Before right) : left ≠ right := by
  rintro rfl
  rcases before with line | ⟨-, column⟩ <;> omega

theorem Position.Before.asymm {left right : Position} (before : left.Before right) :
    ¬ right.Before left := by
  intro after
  rcases before with line | ⟨line, column⟩ <;> rcases after with line' | ⟨line', column'⟩ <;> omega

namespace LineIndex

theorem line_le_locate (offset line start : Nat) (starts : List Nat) :
    line ≤ (locate offset line start starts).line := by
  induction starts generalizing line start with
  | nil => exact Nat.le_refl _
  | cons next later ih =>
      rw [locate]
      split
      · have further := ih (line + 1) next
        omega
      · exact Nat.le_refl _

theorem locate_before {left right : Nat} (before : left < right) (line start : Nat)
    (starts : List Nat) (reached : start ≤ left) :
    (locate left line start starts).Before (locate right line start starts) := by
  induction starts generalizing line start with
  | nil => exact Or.inr ⟨rfl, by simp only [locate]; omega⟩
  | cons next later ih =>
      rw [locate, locate]
      by_cases beyond : next ≤ left
      · rw [if_pos beyond, if_pos (by omega)]
        exact ih (line + 1) next beyond
      · rw [if_neg beyond]
        split
        · have further := line_le_locate right (line + 1) next later
          exact Or.inl (by simp only; omega)
        · exact Or.inr ⟨rfl, by simp only; omega⟩

theorem position_before {text : Text} {left right : Nat} (before : left < right)
    (within : right ≤ text.length) :
    ((ofText text).position left).Before ((ofText text).position right) := by
  have first : min (left : Int).toNat text.length = left := by omega
  have second : min (right : Int).toNat text.length = right := by omega
  simp only [position, ofText, first, second]
  exact locate_before before 0 0 _ (Nat.zero_le _)

theorem position_injective {text : Text} {left right : Nat} (leftWithin : left ≤ text.length)
    (rightWithin : right ≤ text.length)
    (same : (ofText text).position left = (ofText text).position right) : left = right := by
  rcases Nat.lt_trichotomy left right with before | equal | after
  · exact absurd same (position_before before rightWithin).ne
  · exact equal
  · exact absurd same.symm (position_before after leftWithin).ne

theorem not_position_before {text : Text} {left right : Nat} (order : left ≤ right)
    (within : right ≤ text.length) :
    ¬ ((ofText text).position right).Before ((ofText text).position left) := by
  rcases Nat.eq_or_lt_of_le order with rfl | before
  · intro after
    exact after.ne rfl
  · exact (position_before before within).asymm

theorem locate_of_before {offset index : Nat} (before : offset ≤ index) (line start : Nat)
    (text : Text) : locate offset line start (startsFrom index text) = ⟨line, offset - start⟩ := by
  induction text generalizing index with
  | nil => rfl
  | cons c rest ih =>
      rw [startsFrom]
      split
      · rw [locate, if_neg (by omega)]
      · exact ih (by omega)

/-- The walk over the line starts of a text finds a character where it stands in the lines, the
line that is open before the text included. -/
theorem locate_startsFrom {text : Text} {place : Nat} {c : Char} (read : text[place]? = some c)
    (visible : c ≠ '\n') (line start index : Nat) {opened : Text} (sameLine : '\n' ∉ opened)
    (reached : index = start + opened.length) :
    ∃ further piece, (List.splitOn '\n' (opened ++ text))[further]? = some piece ∧
      (locate (index + place) line start (startsFrom index text)).line = line + further ∧
      piece[(locate (index + place) line start (startsFrom index text)).column]? = some c := by
  induction text generalizing place opened line start index with
  | nil => simp at read
  | cons first rest ih =>
      by_cases lineEnd : first = '\n'
      · subst lineEnd
        cases place with
        | zero => exact absurd (Option.some_inj.mp read).symm visible
        | succ place =>
            -- The line feed closes the open line, and the next one begins empty.
            obtain ⟨further, piece, cut, number, stands⟩ :=
              ih read (line + 1) (index + 1) (index + 1) List.not_mem_nil (Nat.add_zero _).symm
            have walk : locate (index + (place + 1)) line start (startsFrom index ('\n' :: rest)) =
                locate (index + 1 + place) (line + 1) (index + 1) (startsFrom (index + 1) rest) := by
              rw [startsFrom, if_pos (beq_self_eq_true _), locate, if_pos (by omega),
                Nat.add_assoc index 1, Nat.add_comm 1]
            rw [List.splitOn_append_cons_self_of_not_mem sameLine, walk]
            exact ⟨further + 1, piece, cut, by omega, stands⟩
      · have still : '\n' ∉ opened ++ [first] := by
          simpa [sameLine] using Ne.symm lineEnd
        have starts : startsFrom index (first :: rest) = startsFrom (index + 1) rest := by
          rw [startsFrom, if_neg (by simpa using lineEnd)]
        have whole : opened ++ first :: rest = (opened ++ [first]) ++ rest := by simp
        rw [starts, whole]
        cases place with
        | zero =>
            obtain ⟨piece, pieces, -, cut⟩ := Text.splitOn_append_of_not_mem still rest
            rw [Nat.add_zero, locate_of_before (Nat.le_succ index), cut]
            refine ⟨0, _, rfl, rfl, ?_⟩
            rw [reached, Nat.add_sub_cancel_left]
            simpa using read
        | succ place =>
            obtain ⟨further, piece, cut, number, stands⟩ := ih read line start
              (index + 1) still (by simp [reached, Nat.add_assoc])
            rw [Nat.add_assoc, Nat.add_comm 1] at number stands
            exact ⟨further, piece, cut, number, stands⟩

/-- A character other than a line feed stands in the line and the column of its position, when the
text is cut at its line feeds. -/
theorem getElem?_position {text : Text} {offset : Nat} {c : Char} (read : text[offset]? = some c)
    (visible : c ≠ '\n') :
    ∃ row, (text.splitOn '\n')[((ofText text).position offset).line]? = some row ∧
      row[((ofText text).position offset).column]? = some c := by
  obtain ⟨inside, -⟩ := List.getElem?_eq_some_iff.mp read
  have clamped : min (offset : Int).toNat text.length = offset := by omega
  obtain ⟨number, line, cut, same, stands⟩ := locate_startsFrom read visible 0 0 0
    List.not_mem_nil rfl
  rw [Nat.zero_add] at same stands
  simp only [position, ofText, clamped]
  refine ⟨line, ?_, stands⟩
  rw [same, Nat.zero_add]
  exact cut

/-! Counting line feeds. -/

theorem length_startsFrom (index : Nat) (text : Text) :
    (startsFrom index text).length = text.count '\n' := by
  induction text generalizing index with
  | nil => rfl
  | cons c rest ih =>
      by_cases lineEnd : c = '\n'
      · simp [startsFrom, lineEnd, ih]
      · rw [startsFrom, if_neg (by simpa using lineEnd), List.count_cons_of_ne lineEnd, ih]

theorem lineCount_ofText (text : Text) : (ofText text).lineCount = (text.splitOn '\n').length := by
  rw [lineCount, ofText, List.length_cons, length_startsFrom, Text.length_splitOn]

theorem takeWhile_reverse_unbroken {line : Text} (sameLine : '\n' ∉ line) :
    line.reverse.takeWhile (· != '\n') = line.reverse := by
  rw [List.takeWhile_eq_self_iff]
  intro c member
  rw [bne_iff_ne]
  rintro rfl
  exact sameLine (List.mem_reverse.mp member)

theorem locate_openLine (line start : Nat) {opened : Text} (sameLine : '\n' ∉ opened)
    (text : Text) :
    locate (start + opened.length) line start (startsFrom (start + opened.length) text) =
      ⟨line, (opened.reverse.takeWhile (· != '\n')).length⟩ := by
  rw [locate_of_before (Nat.le_refl _), takeWhile_reverse_unbroken sameLine, List.length_reverse,
    Nat.add_sub_cancel_left]

/-- The walk over the line starts counts the line feeds before an offset and the characters since
the last of them, those of the line that is open before the text included. -/
theorem locate_startsFrom_eq {text : Text} {place : Nat} (within : place ≤ text.length)
    (line start index : Nat) {opened : Text} (sameLine : '\n' ∉ opened)
    (reached : index = start + opened.length) :
    locate (index + place) line start (startsFrom index text) =
      ⟨line + (text.take place).count '\n',
        ((opened ++ text.take place).reverse.takeWhile (· != '\n')).length⟩ := by
  induction text generalizing place opened line start index with
  | nil =>
      obtain rfl : place = 0 := by simpa using within
      subst reached
      simpa using locate_openLine line start sameLine []
  | cons c rest ih =>
      cases place with
      | zero =>
          subst reached
          simpa using locate_openLine line start sameLine (c :: rest)
      | succ place =>
          have room : place ≤ rest.length := by simpa using within
          have next : index + (place + 1) = index + 1 + place := by omega
          rw [next, List.take_succ_cons]
          by_cases lineEnd : c = '\n'
          -- The line feed closes the open line, and the next one begins empty.
          · subst lineEnd
            rw [startsFrom, if_pos (beq_self_eq_true _), locate, if_pos (by omega),
              ih room (line + 1) (index + 1) (index + 1) List.not_mem_nil (Nat.add_zero _).symm,
              List.nil_append, List.count_cons_self, List.reverse_append, List.reverse_cons,
              List.append_assoc, List.singleton_append, takeWhile_append_stop (by decide),
              Nat.add_assoc line, Nat.add_comm 1]
          · have still : '\n' ∉ opened ++ [c] := by
              simpa [sameLine] using Ne.symm lineEnd
            rw [startsFrom, if_neg (by simpa using lineEnd),
              ih room line start (index + 1) still (by simp [reached, Nat.add_assoc]),
              List.count_cons_of_ne lineEnd, List.append_assoc, List.singleton_append]

theorem position_eq {text : Text} {place : Nat} (within : place ≤ text.length) :
    (ofText text).position place =
      ⟨(text.take place).count '\n', place - lineStart text place⟩ := by
  have clamped : min (place : Int).toNat text.length = place := by omega
  have there : Text.place text.length place = place := by
    rw [Text.place_natCast, Nat.min_eq_left within]
  have located := locate_startsFrom_eq within 0 0 0 List.not_mem_nil rfl
  rw [Nat.zero_add, Nat.zero_add, List.nil_append] at located
  have short := (List.takeWhile_prefix (· != '\n') (l := (text.take place).reverse)).length_le
  rw [List.length_reverse, List.length_take, Nat.min_eq_left within] at short
  simp only [position, ofText, clamped, located, lineStart, there, List.length_take,
    Nat.min_eq_left within, Nat.sub_sub_self short]

/-- An offset outside of the text has the position of the nearer end. -/
theorem position_clamped (text : Text) (offset : Int) :
    (ofText text).position offset =
      (ofText text).position (max 0 (min offset text.length)).toNat := by
  have same : min offset.toNat text.length =
      min ((max 0 (min offset text.length)).toNat : Int).toNat text.length := by omega
  simp only [position, ofText, same]

/-- The line of an offset is the number of line feeds before it, and its column the number of
characters since the last of them; an offset outside of the text counts as the nearer end. There is
one line more than there are line feeds, and within the text later offsets have later positions. -/
theorem position_counts_line_feeds (text : Text) :
    (∀ offset : Int,
      let place := (max 0 (min offset text.length)).toNat
      ((ofText text).position offset).line = (text.take place).count '\n' ∧
      ((ofText text).position offset).column = place - lineStart text place ∧
      ((ofText text).position offset).line < (ofText text).lineCount) ∧
    (ofText text).lineCount = (text.splitOn '\n').length ∧
    (∀ left right : Nat, left < right → right ≤ text.length →
      ((ofText text).position left).Before ((ofText text).position right)) ∧
    ∀ left right : Nat, left ≤ text.length → right ≤ text.length →
      (ofText text).position left = (ofText text).position right → left = right := by
  refine ⟨?_, lineCount_ofText text, ?_, ?_⟩
  · intro offset place
    have within : place ≤ text.length := by omega
    have few : (text.take place).count '\n' ≤ text.count '\n' :=
      (List.take_sublist place text).count_le '\n'
    rw [position_clamped, position_eq within, lineCount_ofText, Text.length_splitOn]
    exact ⟨rfl, rfl, Nat.lt_succ_of_le few⟩
  · intro left right before within
    exact position_before before within
  · intro left right leftWithin rightWithin same
    exact position_injective leftWithin rightWithin same

theorem position_counts_line_feeds_between_lines :
    let text : Text := "a\r\n\nb".toList
    (ofText text).position 2 = ⟨0, 2⟩ ∧ (ofText text).position 3 = ⟨1, 0⟩ ∧
      (ofText text).position (-7) = ⟨0, 0⟩ ∧ (ofText text).position 9 = ⟨2, 1⟩ ∧
      (2 < 3 ∧ 3 ≤ text.length ∧
        ((ofText text).position (2 : Nat)).Before ((ofText text).position (3 : Nat))) := by
  intro text
  refine ⟨by decide, by decide, by decide, by decide, by decide, by decide, ?_⟩
  exact (position_counts_line_feeds text).2.2.1 2 3 (by decide) (by decide)

end LineIndex

/-! Matches and their spans. -/

def Match.Overlaps (left right : Match) : Prop :=
  left.start.Before right.stop ∧ right.start.Before left.stop

instance (left right : Match) : Decidable (left.Overlaps right) :=
  inferInstanceAs (Decidable (_ ∧ _))

section Dedupe

variable {α κ : Type} [BEq κ] [LawfulBEq κ] {key : α → κ}

omit [LawfulBEq κ] in
theorem dedupeFrom_sublist (seen : List κ) (items : List α) :
    (dedupeFrom key seen items).Sublist items := by
  induction items generalizing seen with
  | nil => exact List.Sublist.slnil
  | cons item later ih =>
      rw [dedupeFrom]
      split
      · exact (ih seen).cons item
      · exact (ih (key item :: seen)).cons_cons item

theorem key_not_mem_seen {seen : List κ} {items : List α} {item : α}
    (member : item ∈ dedupeFrom key seen items) : key item ∉ seen := by
  induction items generalizing seen with
  | nil => simp [dedupeFrom] at member
  | cons first later ih =>
      rw [dedupeFrom] at member
      split at member
      · exact ih member
      next fresh =>
        rcases List.mem_cons.mp member with rfl | member
        · simpa using fresh
        · intro listed
          exact ih member (List.mem_cons_of_mem _ listed)

theorem dedupeFrom_keys (seen : List κ) (items : List α) :
    (dedupeFrom key seen items).Pairwise fun left right => key left ≠ key right := by
  induction items generalizing seen with
  | nil => exact List.Pairwise.nil
  | cons item later ih =>
      rw [dedupeFrom]
      split
      · exact ih seen
      · refine List.pairwise_cons.mpr ⟨?_, ih (key item :: seen)⟩
        intro other member same
        exact key_not_mem_seen member (same ▸ List.mem_cons_self)

theorem exists_mem_dedupeFrom {seen : List κ} {items : List α} {item : α} (member : item ∈ items)
    (fresh : key item ∉ seen) : ∃ kept ∈ dedupeFrom key seen items, key kept = key item := by
  induction items generalizing seen with
  | nil => simp at member
  | cons first later ih =>
      rw [dedupeFrom]
      by_cases same : key first = key item
      · have unseen : ¬ seen.contains (key first) = true := by simpa [same] using fresh
        rw [if_neg unseen]
        exact ⟨first, List.mem_cons_self, same⟩
      · have remains : item ∈ later := by
          rcases List.mem_cons.mp member with rfl | remains
          · exact absurd rfl same
          · exact remains
        split
        · exact ih remains fresh
        · have unlisted : key item ∉ key first :: seen := by
            simp only [List.mem_cons, not_or]
            exact ⟨fun equal => same equal.symm, fresh⟩
          obtain ⟨kept, listed, equal⟩ := ih remains unlisted
          exact ⟨kept, List.mem_cons_of_mem _ listed, equal⟩

end Dedupe

theorem dedupe_sublist (found : List Match) : (dedupe found).Sublist found :=
  dedupeFrom_sublist [] found

theorem dedupe_spans (found : List Match) :
    (dedupe found).Pairwise fun left right => left.span ≠ right.span :=
  dedupeFrom_keys [] found

theorem exists_mem_dedupe {found : List Match} {candidate : Match} (member : candidate ∈ found) :
    ∃ kept ∈ dedupe found, kept.span = candidate.span :=
  exists_mem_dedupeFrom member List.not_mem_nil

end HardcodedText
