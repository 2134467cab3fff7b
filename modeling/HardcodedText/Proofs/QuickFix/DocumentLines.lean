import HardcodedText.Proofs.QuickFix.Insertion
import HardcodedText.Proofs.QuickFix.Markers
import HardcodedText.Text.Basic

/-!
The lines of a document and the lines of a text. Both end at line feeds, but a document has other
line breaks too. A line of the text begins as many document lines later as there are other breaks
above it, and the document line that begins there reaches to the first break in the line.
-/

namespace HardcodedText

namespace Text

def endsLine (c : Char) (rest : Text) : Bool :=
  isLineBreak c && !(c == '\r' && rest.head? == some '\n')

/-- The line breaks of a text that are neither line feeds nor part of one with a carriage return. -/
def otherBreaks : Text → Nat
  | [] => 0
  | c :: rest => (if c != '\n' && endsLine c rest then 1 else 0) + otherBreaks rest

def firstLine : Text → Text
  | [] => []
  | c :: rest => if endsLine c rest then [c] else c :: firstLine rest

theorem isBlank_of_isLineBreak {c : Char} (breaks : isLineBreak c = true) : isBlank c = true := by
  simp only [isLineBreak, Bool.or_eq_true, Bool.and_eq_true, decide_eq_true_eq, beq_iff_eq] at breaks
  simp only [isBlank, Bool.or_eq_true, Bool.and_eq_true, decide_eq_true_eq, beq_iff_eq]
  omega

theorem documentLinesFrom_cons (current : Text) (c : Char) (rest : Text) :
    documentLinesFrom current (c :: rest) =
      if endsLine c rest then (c :: current).reverse :: documentLinesFrom [] rest
      else documentLinesFrom (c :: current) rest := by
  rw [documentLinesFrom, endsLine]
  cases c == '\r' && rest.head? == some '\n' <;> cases isLineBreak c <;> rfl

/-! Up to a line feed a text is read without what follows it. -/

theorem endsLine_lineFeed (c : Char) (body rest : Text) :
    endsLine c (body ++ '\n' :: rest) = endsLine c (body ++ ['\n']) := by
  cases body <;> rfl

theorem documentLinesFrom_lineFeed (current body rest : Text) :
    documentLinesFrom current (body ++ '\n' :: rest) =
      documentLinesFrom current (body ++ ['\n']) ++ documentLinesFrom [] rest := by
  induction body generalizing current with
  | nil => rfl
  | cons c body ih =>
      rw [List.cons_append, List.cons_append, documentLinesFrom_cons, documentLinesFrom_cons,
        endsLine_lineFeed]
      split
      · rw [ih, List.cons_append]
      · exact ih _

theorem otherBreaks_lineFeed (body rest : Text) :
    otherBreaks (body ++ '\n' :: rest) = otherBreaks (body ++ ['\n']) + otherBreaks rest := by
  induction body with
  | nil => rfl
  | cons c body ih =>
      rw [List.cons_append, List.cons_append, otherBreaks, otherBreaks, endsLine_lineFeed, ih,
        Nat.add_assoc]

theorem firstLine_lineFeed (body rest : Text) :
    firstLine (body ++ '\n' :: rest) = firstLine (body ++ ['\n']) := by
  induction body with
  | nil => rfl
  | cons c body ih =>
      rw [List.cons_append, List.cons_append, firstLine, firstLine, endsLine_lineFeed, ih]

theorem length_documentLinesFrom (current body : Text) :
    (documentLinesFrom current (body ++ ['\n'])).length =
      (body ++ ['\n']).count '\n' + otherBreaks (body ++ ['\n']) := by
  induction body generalizing current with
  | nil => rfl
  | cons c body ih =>
      rw [List.cons_append, documentLinesFrom_cons, otherBreaks, List.count_cons]
      cases ends : endsLine c (body ++ ['\n']) with
      | true =>
          rw [if_pos rfl, List.length_cons, ih, Bool.and_true]
          by_cases lineFeed : c = '\n'
          · rw [if_pos (by simpa using lineFeed), if_neg (by simpa using lineFeed)]
            omega
          · rw [if_neg (by simpa using lineFeed), if_pos (by simpa using lineFeed)]
            omega
      | false =>
          have plain : c ≠ '\n' := by
            rintro rfl
            exact absurd ends (by simp [endsLine, isLineBreak])
          rw [if_neg (by decide), ih, Bool.and_false, if_neg (by simpa using plain),
            if_neg (by decide)]
          omega

/-! The first document line of a text. -/

theorem head?_documentLinesFrom (current text : Text) :
    (documentLinesFrom current text).head?.getD [] = current.reverse ++ firstLine text := by
  induction text generalizing current with
  | nil =>
      cases current with
      | nil => rfl
      | cons c current => simp [documentLinesFrom, firstLine]
  | cons c rest ih =>
      rw [documentLinesFrom_cons, firstLine]
      split
      · simp
      · rw [ih, List.reverse_cons, List.append_assoc, List.singleton_append]

theorem firstLine_isPrefix (text : Text) : firstLine text <+: text := by
  induction text with
  | nil => exact List.prefix_refl _
  | cons c rest ih =>
      rw [firstLine]
      split
      · exact ⟨rest, rfl⟩
      · exact (List.prefix_cons_inj c).mpr ih

theorem firstLine_append {front : Text} (whole : ∀ c ∈ front, isLineBreak c = false)
    (rest : Text) : firstLine (front ++ rest) = front ++ firstLine rest := by
  induction front with
  | nil => rfl
  | cons c front ih =>
      have plain : endsLine c (front ++ rest) = false := by
        rw [endsLine, whole c List.mem_cons_self, Bool.false_and]
      rw [List.cons_append, firstLine, plain, if_neg (by decide),
        ih fun other member => whole other (List.mem_cons_of_mem _ member), List.cons_append]

theorem firstLine_append_break {front : Text} (whole : ∀ c ∈ front, isLineBreak c = false)
    {c next : Char} (breaks : isLineBreak c = true) (other : next ≠ '\n') (rest : Text) :
    firstLine (front ++ c :: next :: rest) = front ++ [c] := by
  have ends : endsLine c (next :: rest) = true := by
    simp [endsLine, breaks, other]
  rw [firstLine_append whole, firstLine, if_pos ends]

end Text

theorem indentation_eq_of_trimEnd_eq {line other : Text} (same : line.trimEnd = other.trimEnd)
    {c : Char} (member : c ∈ other) (shown : isBlank c = false) :
    indentation line = indentation other := by
  obtain ⟨gap, lineEnds, -⟩ := Text.exists_trimEnd_append line
  obtain ⟨otherGap, otherEnds, -⟩ := Text.exists_trimEnd_append other
  obtain ⟨front, back, split⟩ := List.append_of_mem (Text.mem_trimEnd member shown)
  rw [lineEnds, otherEnds, same, split, indentation, indentation, List.append_assoc,
    List.append_assoc, List.cons_append, List.cons_append, takeWhile_append_stop shown,
    takeWhile_append_stop shown]

namespace RowAt

variable {text front row back : Text} {number : Nat}

theorem documentLines_eq (line : RowAt text number front row back) :
    text.documentLines = front.documentLines ++ (row ++ back).documentLines := by
  rw [line.text_eq]
  rcases line.begins with rfl | ⟨body, rfl⟩
  · rfl
  · rw [List.append_assoc, List.singleton_append]
    exact Text.documentLinesFrom_lineFeed [] body (row ++ back)

theorem length_documentLines (line : RowAt text number front row back) :
    front.documentLines.length = number + front.otherBreaks := by
  rw [← line.count_eq]
  rcases line.begins with rfl | ⟨body, rfl⟩
  · rfl
  · exact Text.length_documentLinesFrom [] body

theorem otherBreaks_le (line : RowAt text number front row back) {later : Nat}
    {upTo laterRow rest : Text} (below : RowAt text later upTo laterRow rest)
    (order : number < later) : front.otherBreaks ≤ upTo.otherBreaks := by
  have within : front <+: text := ⟨row ++ back, line.text_eq.symm⟩
  have within' : upTo <+: text := ⟨laterRow ++ rest, below.text_eq.symm⟩
  -- Both begin the text, so the one with fewer line feeds begins the other.
  have shorter : front <+: upTo := by
    rcases List.prefix_or_prefix_of_prefix within within' with before | behind
    · exact before
    · have counts := behind.sublist.count_le '\n'
      rw [line.count_eq, below.count_eq] at counts
      omega
  obtain ⟨between, rfl⟩ := shorter
  rcases line.begins with rfl | ⟨body, rfl⟩
  · exact Nat.zero_le _
  · rw [List.append_assoc, List.singleton_append, Text.otherBreaks_lineFeed body between]
    exact Nat.le_add_right _ _

theorem getElem?_documentLines (line : RowAt text number front row back) :
    (text.documentLines[number + front.otherBreaks]?).getD [] = (row ++ back).firstLine := by
  rw [line.documentLines_eq, ← line.length_documentLines,
    List.getElem?_append_right (Nat.le_refl _), Nat.sub_self, ← List.head?_eq_getElem?]
  exact Text.head?_documentLinesFrom [] (row ++ back)

theorem firstLine_isPrefix (line : RowAt text number front row back) :
    (row ++ back).firstLine <+: row ++ ['\n'] := by
  rcases line.ends with rfl | ⟨body, rfl⟩
  · rw [List.append_nil]
    exact (Text.firstLine_isPrefix row).trans (List.prefix_append _ _)
  · rw [Text.firstLine_lineFeed]
    exact Text.firstLine_isPrefix _

/-- A row without breaks up to the blanks at its end is in one document line. -/
theorem trimEnd_firstLine (line : RowAt text number front row back)
    (whole : ∀ c ∈ row.trimEnd, Text.isLineBreak c = false) :
    (row ++ back).firstLine.trimEnd = row.trimEnd := by
  obtain ⟨gap, split, blank⟩ := Text.exists_trimEnd_append row
  have first : (row ++ back).firstLine = row.trimEnd ++ (gap ++ back).firstLine := by
    rw [← Text.firstLine_append whole, ← List.append_assoc, ← split]
  have begins : row.trimEnd ++ (gap ++ back).firstLine <+: row.trimEnd ++ (gap ++ ['\n']) := by
    rw [← first, ← List.append_assoc, ← split]
    exact line.firstLine_isPrefix
  -- The rest of the document line reaches to the line feed at most.
  have blanks : ∀ c ∈ (gap ++ back).firstLine, isBlank c = true := by
    intro c member
    have inside := ((List.prefix_append_right_inj _).mp begins).subset member
    rcases List.mem_append.mp inside with before | lineFeed
    · exact blank c before
    · rw [List.mem_singleton.mp lineFeed]
      rfl
  have reduced := Text.trimEnd_append_blank blank row.trimEnd
  rw [← split] at reduced
  rw [first, Text.trimEnd_append_blank blanks, ← reduced]

/-- A row with a break before the blanks at its end is not in one document line. -/
theorem trimEnd_firstLine_shorter (line : RowAt text number front row back) {c : Char}
    (member : c ∈ row.trimEnd) (breaks : Text.isLineBreak c = true) :
    (row ++ back).firstLine.trimEnd.length < row.trimEnd.length := by
  obtain ⟨first, found⟩ := Option.isSome_iff_exists.mp
    (List.find?_isSome.mpr ⟨c, member, breaks⟩)
  obtain ⟨isBreak, begun, rest, split, earlier⟩ := List.find?_eq_some_iff_append.mp found
  have whole : ∀ other ∈ begun, Text.isLineBreak other = false := by simpa using earlier
  have blank := Text.isBlank_of_isLineBreak isBreak
  obtain ⟨gap, ends, -⟩ := Text.exists_trimEnd_append row
  -- Something follows the first break, as the row has lost the blanks at its end.
  cases rest with
  | nil => exact absurd split (Text.trimEnd_ne_append_blank blank)
  | cons next rest =>
      have inRow : next ∈ row := by
        rw [ends, split]
        simp
      have other : next ≠ '\n' := fun same => line.unbroken (same ▸ inRow)
      have cut : (row ++ back).firstLine = begun ++ [first] := by
        rw [ends, split, List.append_assoc, List.append_assoc]
        exact Text.firstLine_append_break whole isBreak other _
      have blanks : ∀ c ∈ [first], isBlank c = true := by simpa using blank
      rw [cut, Text.trimEnd_append_blank blanks, split, List.length_append]
      have within := Text.length_trimEnd_le begun
      rw [List.length_cons]
      omega

/-! With no other breaks above a row the document line of its number begins with it. -/

theorem lineAt_documentLines (line : RowAt text number front row back)
    (aligned : front.otherBreaks = 0) :
    lineAt text.documentLines number = dropLineEnd (row ++ back).firstLine := by
  rw [← line.getElem?_documentLines, aligned, Nat.add_zero, lineAt, if_neg (by omega),
    Int.toNat_natCast]
  cases text.documentLines[number]? with
  | none => rfl
  | some documentLine => rfl

theorem markedAt_of_documentLines (line : RowAt text number front row back)
    (aligned : front.otherBreaks = 0) {marker : Text} (absent : '\n' ∉ marker)
    (marked : MarkedAt marker text.documentLines number) :
    MarkedAt marker (text.splitOn '\n') number := by
  obtain ⟨place, documentLine, listed, occurs, same⟩ := marked
  obtain rfl : number = place := by omega
  have first := line.getElem?_documentLines
  rw [aligned, Nat.add_zero, listed, Option.getD_some] at first
  rw [Text.occursIn_iff, first] at occurs
  have within : marker <:+: row ++ '\n' :: [] := occurs.trans line.firstLine_isPrefix.isInfix
  have inRow : marker <:+: row := by
    rcases infix_append_cons absent within with inside | empty
    · exact inside
    · rw [List.infix_nil.mp empty]
      exact List.nil_infix
  exact ⟨number, row, line.listed, Text.occursIn_iff.mpr inRow, rfl⟩

theorem hasLineIgnore_documentLines (line : RowAt text number front row back)
    (aligned : front.otherBreaks = 0)
    (heard : hasLineIgnore (text.splitOn '\n') number = false) :
    hasLineIgnore text.documentLines number = false := by
  rw [← Bool.not_eq_true] at heard ⊢
  intro marked
  refine heard ((hasLineIgnore_iff _ _).mpr ?_)
  rcases (hasLineIgnore_iff _ _).mp marked with own | above
  · exact Or.inl (line.markedAt_of_documentLines aligned (by decide) own)
  · right
    have below : 0 < number := by
      obtain ⟨place, -, -, -, same⟩ := above
      omega
    have within := (List.getElem?_eq_some_iff.mp line.listed).1
    have listed := List.getElem?_eq_getElem (by omega : number - 1 < (text.splitOn '\n').length)
    obtain ⟨front', back', previous⟩ := exists_rowAt listed
    have fewer := previous.otherBreaks_le line (by omega)
    have same : (number : Int) - 1 = (number - 1 : Nat) := by omega
    rw [same] at above ⊢
    exact previous.markedAt_of_documentLines (by omega) (by decide) above

end RowAt

theorem hasLineIgnore_of_mem_findHardcoded {text : Text} {catalog : List WidgetPattern}
    {tables : FilterTables} {found : Match} (member : found ∈ findHardcoded text catalog tables) :
    hasLineIgnore (text.splitOn '\n') found.start.line = false := by
  have heard := (mem_findHardcoded.mp member).2
  rw [← Bool.not_eq_true, hasLineIgnore_iff]
  rintro (⟨marked, line, listed, own, same⟩ | ⟨marked, line, listed, next, same⟩)
  · exact heard ⟨marked, line, listed, Or.inl ⟨own, by omega⟩⟩
  · exact heard ⟨marked, line, listed, Or.inr (Or.inl ⟨next, Or.inr (by omega)⟩)⟩

end HardcodedText
