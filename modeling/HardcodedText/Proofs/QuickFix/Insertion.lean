import HardcodedText.Proofs.Match
import HardcodedText.QuickFix

/-!
Inserting text at a line and a column. The place of an edit is the offset whose position it names.
Around a line of a text everything can be told line by line: what is put in the place of the line is
cut into lines of its own, between the lines before it and those after it.
-/

namespace HardcodedText

def LineIndex.offset (index : LineIndex) (line column : Nat) : Nat :=
  match index.starts[line]? with
  | some start => min (start + column) index.length
  | none => index.length

namespace TextEdit

def place (edit : TextEdit) (text : Text) : Nat :=
  (LineIndex.ofText text).offset edit.line.toNat edit.character

def applyTo (edit : TextEdit) (text : Text) : Text :=
  text.take (edit.place text) ++ (edit.newText ++ text.drop (edit.place text))

end TextEdit

namespace LineIndex

theorem locate_start (offset line start : Nat) (starts : List Nat) (reached : start ≤ offset) :
    ∃ further begun, (start :: starts)[further]? = some begun ∧ begun ≤ offset ∧
      locate offset line start starts = ⟨line + further, offset - begun⟩ := by
  induction starts generalizing line start with
  | nil => exact ⟨0, start, rfl, reached, rfl⟩
  | cons next later ih =>
      rw [locate]
      split
      next beyond =>
        obtain ⟨further, begun, listed, before, found⟩ := ih (line + 1) next beyond
        exact ⟨further + 1, begun, listed, before, by rw [found]; congr 1; omega⟩
      next => exact ⟨0, start, rfl, reached, rfl⟩

theorem offset_position {text : Text} {place : Nat} (within : place ≤ text.length) :
    (ofText text).offset ((ofText text).position place).line
      ((ofText text).position place).column = place := by
  have clamped : min (place : Int).toNat text.length = place := by omega
  obtain ⟨number, begun, listed, before, found⟩ :=
    locate_start place 0 0 (startsFrom 0 text) (Nat.zero_le _)
  rw [Nat.zero_add] at found
  simp only [position, ofText, clamped, found, offset, listed]
  omega

end LineIndex

/-- The row is the line of the text with the given number, between `front` and `back`; what stands
there in its place leaves the other lines as they are. -/
structure RowAt (text : Text) (number : Nat) (front row back : Text) : Prop where
  listed : (text.splitOn '\n')[number]? = some row
  text_eq : text = front ++ (row ++ back)
  count_eq : front.count '\n' = number
  begins : front = [] ∨ ∃ body, front = body ++ ['\n']
  unbroken : '\n' ∉ row
  ends : back = [] ∨ ∃ body, back = '\n' :: body
  earlier : ∀ other, List.splitOn '\n' (front ++ other) =
    (text.splitOn '\n').take number ++ List.splitOn '\n' other
  later : ∀ other, '\n' ∉ other → List.splitOn '\n' (other ++ back) =
    other :: (text.splitOn '\n').drop (number + 1)

/-- The first line of a text. -/
theorem RowAt.first {row back : Text} (unbroken : '\n' ∉ row)
    (ends : back = [] ∨ ∃ body, back = '\n' :: body) : RowAt (row ++ back) 0 [] row back := by
  obtain ⟨rest, cut⟩ : ∃ rest, ∀ other, '\n' ∉ other →
      List.splitOn '\n' (other ++ back) = other :: rest := by
    rcases ends with rfl | ⟨body, rfl⟩
    · refine ⟨[], ?_⟩
      intro other clean
      rw [List.append_nil, List.splitOn_eq_singleton clean]
    · refine ⟨List.splitOn '\n' body, ?_⟩
      intro other clean
      exact List.splitOn_append_cons_self_of_not_mem clean body
  have own := cut row unbroken
  refine ⟨?_, rfl, rfl, Or.inl rfl, unbroken, ends, fun _ => rfl, ?_⟩
  · rw [own]
    rfl
  · intro other clean
    rw [cut other clean, own]
    rfl

/-- A line stays a line when another one is put above it. -/
theorem RowAt.below {piece rest front row back : Text} {number : Nat}
    (line : RowAt rest number front row back) (unbroken : '\n' ∉ piece) :
    RowAt (piece ++ '\n' :: rest) (number + 1) (piece ++ '\n' :: front) row back := by
  have cut := List.splitOn_append_cons_self_of_not_mem unbroken rest
  refine ⟨?_, ?_, ?_, ?_, line.unbroken, line.ends, ?_, ?_⟩
  · rw [cut, List.getElem?_cons_succ]
    exact line.listed
  · rw [line.text_eq]
    simp
  · rw [List.count_append, List.count_cons_self, line.count_eq,
      List.count_eq_zero.mpr unbroken, Nat.zero_add]
  · right
    rcases line.begins with rfl | ⟨body, rfl⟩
    · exact ⟨piece, rfl⟩
    · exact ⟨piece ++ '\n' :: body, by simp⟩
  · intro other
    rw [List.append_assoc, List.cons_append, List.splitOn_append_cons_self_of_not_mem unbroken,
      line.earlier, cut]
    rfl
  · intro other clean
    rw [line.later other clean, cut]
    rfl

theorem exists_rowAt {text : Text} {number : Nat} {row : Text}
    (listed : (text.splitOn '\n')[number]? = some row) :
    ∃ front back, RowAt text number front row back := by
  induction number generalizing text with
  | zero =>
      by_cases broken : '\n' ∈ text
      · obtain ⟨piece, rest, rfl, unbroken⟩ := List.eq_append_cons_of_mem broken
        rw [List.splitOn_append_cons_self_of_not_mem unbroken] at listed
        obtain rfl := Option.some_inj.mp listed
        exact ⟨[], '\n' :: rest, .first unbroken (Or.inr ⟨rest, rfl⟩)⟩
      · rw [List.splitOn_eq_singleton broken] at listed
        obtain rfl := Option.some_inj.mp listed
        have line := RowAt.first broken (Or.inl rfl)
        rw [List.append_nil] at line
        exact ⟨[], [], line⟩
  | succ number ih =>
      by_cases broken : '\n' ∈ text
      · obtain ⟨piece, rest, rfl, unbroken⟩ := List.eq_append_cons_of_mem broken
        rw [List.splitOn_append_cons_self_of_not_mem unbroken, List.getElem?_cons_succ] at listed
        obtain ⟨front, back, line⟩ := ih listed
        exact ⟨piece ++ '\n' :: front, back, line.below unbroken⟩
      · rw [List.splitOn_eq_singleton broken] at listed
        simp at listed

namespace RowAt

variable {text front row back : Text} {number : Nat}

theorem take_eq (line : RowAt text number front row back) {column : Nat}
    (within : column ≤ row.length) :
    text.take (front.length + column) = front ++ row.take column := by
  rw [line.text_eq, List.take_length_add_append, List.take_append_of_le_length within]

theorem room (line : RowAt text number front row back) {column : Nat}
    (within : column ≤ row.length) : front.length + column ≤ text.length := by
  rw [line.text_eq, List.length_append, List.length_append]
  omega

theorem lineStart_eq (line : RowAt text number front row back) {column : Nat}
    (within : column ≤ row.length) :
    lineStart text (front.length + column : Nat) = front.length := by
  have unbroken : '\n' ∉ row.take column :=
    fun member => line.unbroken (List.mem_of_mem_take member)
  have room := line.room within
  have place : Text.place text.length (front.length + column : Nat) = front.length + column := by
    rw [Text.place_natCast, Nat.min_eq_left room]
  have behind : (front ++ row.take column).reverse.takeWhile (· != '\n') =
      (row.take column).reverse := by
    rcases line.begins with rfl | ⟨body, rfl⟩
    · exact LineIndex.takeWhile_reverse_unbroken unbroken
    · rw [List.append_assoc, List.singleton_append, List.reverse_append, List.reverse_cons,
        List.append_assoc, List.singleton_append, takeWhile_append_stop (by decide)]
      exact LineIndex.takeWhile_reverse_unbroken unbroken
  rw [lineStart, place, line.take_eq within, behind, List.length_reverse, List.length_append,
    Nat.add_sub_cancel]

theorem position_eq (line : RowAt text number front row back) {column : Nat}
    (within : column ≤ row.length) :
    (LineIndex.ofText text).position (front.length + column : Nat) = ⟨number, column⟩ := by
  have unbroken : '\n' ∉ row.take column :=
    fun member => line.unbroken (List.mem_of_mem_take member)
  rw [LineIndex.position_eq (line.room within), line.take_eq within, line.lineStart_eq within,
    List.count_append, line.count_eq, List.count_eq_zero.mpr unbroken, Nat.add_zero,
    Nat.add_sub_cancel_left]

theorem place_eq (line : RowAt text number front row back) {column : Nat}
    (within : column ≤ row.length) (newText : Text) :
    (⟨number, column, newText⟩ : TextEdit).place text = front.length + column := by
  have same := LineIndex.offset_position (line.room within)
  rw [line.position_eq within] at same
  exact same

theorem applyTo_eq (line : RowAt text number front row back) {column : Nat}
    (within : column ≤ row.length) (newText : Text) :
    (⟨number, column, newText⟩ : TextEdit).applyTo text =
      front ++ (row.take column ++ (newText ++ (row.drop column ++ back))) := by
  rw [TextEdit.applyTo, line.place_eq within, line.text_eq, List.take_length_add_append,
    List.drop_length_add_append, List.take_append_of_le_length within,
    List.drop_append_of_le_length within, List.append_assoc]

theorem lineAt_eq (line : RowAt text number front row back) :
    lineAt (text.splitOn '\n') number = dropLineEnd row := by
  rw [lineAt, if_neg (by omega), Int.toNat_natCast, line.listed]
  rfl

theorem getElem?_take_append (line : RowAt text number front row back) (lines : List Text)
    (further : Nat) :
    ((text.splitOn '\n').take number ++ lines)[number + further]? = lines[further]? := by
  have within := (List.getElem?_eq_some_iff.mp line.listed).1
  have length : ((text.splitOn '\n').take number).length = number := by
    rw [List.length_take]
    omega
  rw [List.getElem?_append_right (by omega), length, Nat.add_sub_cancel_left]

end RowAt

/-! The lines of a text with a quick fix for one line. -/

theorem dropWhile_dropWhile {fewer more : Char → Bool}
    (covered : ∀ c, fewer c = true → more c = true) (text : Text) :
    (text.dropWhile fewer).dropWhile more = text.dropWhile more := by
  induction text with
  | nil => rfl
  | cons c rest ih =>
      cases dropped : fewer c with
      | true =>
          rw [List.dropWhile_cons_of_pos dropped, ih,
            List.dropWhile_cons_of_pos (covered c dropped)]
      | false => rw [List.dropWhile_cons_of_neg (by simp [dropped])]

theorem trimEnd_dropLineEnd (row : Text) : (dropLineEnd row).trimEnd = row.trimEnd := by
  have blank (c : Char) (lineEnd : (c == '\r' || c == '\n') = true) : isBlank c = true := by
    rcases (by simpa using lineEnd : c = '\r' ∨ c = '\n') with rfl | rfl <;> rfl
  rw [Text.trimEnd, dropLineEnd, List.reverse_reverse, dropWhile_dropWhile blank, Text.trimEnd]

theorem dropLineEnd_isPrefix (row : Text) : dropLineEnd row <+: row := by
  rw [dropLineEnd, ← List.reverse_suffix, List.reverse_reverse]
  exact List.dropWhile_suffix _

theorem mem_of_mem_indentation {row : Text} {c : Char}
    (member : c ∈ indentation (dropLineEnd row)) : isBlank c = true ∧ c ∈ row :=
  ⟨List.mem_takeWhile_imp member,
    (dropLineEnd_isPrefix row).subset ((List.takeWhile_subset _) member)⟩

namespace RowAt

variable {text front row back : Text} {number : Nat}

/-- The marker at the end of a line stands before the blanks with which the line ends. -/
theorem applyTo_ignoreLineEdit (line : RowAt text number front row back) :
    ∃ gap, row = row.trimEnd ++ gap ∧ (∀ c ∈ gap, isBlank c = true) ∧
      (ignoreLineEdit (text.splitOn '\n') number).place text =
        (front ++ row.trimEnd).length ∧
      (ignoreLineEdit (text.splitOn '\n') number).applyTo text =
        front ++ (row.trimEnd ++ (' ' :: lineMarker ++ (gap ++ back))) := by
  obtain ⟨gap, split, blank⟩ := Text.exists_trimEnd_append row
  have within := Text.length_trimEnd_le row
  have before : (row.trimEnd ++ gap).take row.trimEnd.length = row.trimEnd := List.take_left
  have behind : (row.trimEnd ++ gap).drop row.trimEnd.length = gap := List.drop_left
  rw [← split] at before behind
  rw [ignoreLineEdit, line.lineAt_eq, trimEnd_dropLineEnd, line.place_eq within,
    line.applyTo_eq within, before, behind, List.length_append]
  exact ⟨gap, split, blank, rfl, rfl⟩

theorem applyTo_ignoreNextLineEdit (line : RowAt text number front row back) :
    (ignoreNextLineEdit (text.splitOn '\n') number).place text = front.length ∧
      (ignoreNextLineEdit (text.splitOn '\n') number).applyTo text =
        front ++ (indentation (dropLineEnd row) ++ nextLineMarker ++ ['\n'] ++ (row ++ back)) := by
  rw [ignoreNextLineEdit, line.lineAt_eq, line.place_eq (Nat.zero_le _),
    line.applyTo_eq (Nat.zero_le _), List.take_zero, List.nil_append, List.drop_zero, Nat.add_zero]
  exact ⟨rfl, rfl⟩

theorem splitOn_ignoreLineEdit (line : RowAt text number front row back) :
    ∃ gap, row = row.trimEnd ++ gap ∧
      ((ignoreLineEdit (text.splitOn '\n') number).applyTo text).splitOn '\n' =
        (text.splitOn '\n').take number ++ (row.trimEnd ++ (' ' :: lineMarker ++ gap)) ::
          (text.splitOn '\n').drop (number + 1) := by
  obtain ⟨gap, split, -, -, applied⟩ := line.applyTo_ignoreLineEdit
  have unbroken : '\n' ∉ row.trimEnd ++ (' ' :: lineMarker ++ gap) := by
    have clean := line.unbroken
    rw [split, List.mem_append, not_or] at clean
    have marker : '\n' ∉ ' ' :: lineMarker := by decide
    simp only [List.mem_append, not_or]
    exact ⟨clean.1, marker, clean.2⟩
  have joined : row.trimEnd ++ (' ' :: lineMarker ++ (gap ++ back)) =
      row.trimEnd ++ (' ' :: lineMarker ++ gap) ++ back := by
    simp only [List.append_assoc]
  rw [applied, joined, line.earlier, line.later _ unbroken]
  exact ⟨gap, split, rfl⟩

theorem splitOn_ignoreNextLineEdit (line : RowAt text number front row back) :
    ((ignoreNextLineEdit (text.splitOn '\n') number).applyTo text).splitOn '\n' =
      (text.splitOn '\n').take number ++ (indentation (dropLineEnd row) ++ nextLineMarker) :: row ::
        (text.splitOn '\n').drop (number + 1) := by
  have unbroken : '\n' ∉ indentation (dropLineEnd row) ++ nextLineMarker := by
    rw [List.mem_append, not_or]
    exact ⟨fun member => line.unbroken (mem_of_mem_indentation member).2, by decide⟩
  rw [line.applyTo_ignoreNextLineEdit.2, List.append_assoc _ ['\n'], List.singleton_append,
    line.earlier, List.splitOn_append_cons_self_of_not_mem unbroken, line.later row line.unbroken]

end RowAt

end HardcodedText
