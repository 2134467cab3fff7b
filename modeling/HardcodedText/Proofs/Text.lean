import HardcodedText.Filter.Identifier
import Mathlib.Data.List.Basic
import Mathlib.Data.List.DropRight
import Mathlib.Data.List.Sort
import Mathlib.Data.List.TakeWhile

/-!
Words and names, texts within texts, and lists of texts: sorting, and the pieces between
separators.
-/

namespace HardcodedText

theorem sortBy_eq_insertionSort {α : Type} (le : α → α → Bool) (entries : List α) :
    sortBy le entries = entries.insertionSort fun left right => le left right = true := by
  have inserted (entry : α) (others : List α) : insertBy le entry others =
      others.orderedInsert (fun left right => le left right = true) entry := by
    induction others with
    | nil => rfl
    | cons head tail ih => simp only [insertBy, List.orderedInsert, ih]
  induction entries with
  | nil => rfl
  | cons entry later ih =>
      rw [List.insertionSort_cons, ← ih, ← inserted]
      rfl

@[simp] theorem mem_sortBy {α : Type} {le : α → α → Bool} {entry : α} {entries : List α} :
    entry ∈ sortBy le entries ↔ entry ∈ entries := by
  rw [sortBy_eq_insertionSort, List.mem_insertionSort]

@[simp] theorem mem_sorted {text : Text} {texts : List Text} :
    text ∈ Text.sorted texts ↔ text ∈ texts :=
  mem_sortBy

/-! Words. -/

def blankCodes : List Nat :=
  [0x09, 0x0a, 0x0b, 0x0c, 0x0d, 0x1c, 0x1d, 0x1e, 0x1f, 0x20, 0x85, 0xa0, 0x1680, 0x2000, 0x2001,
    0x2002, 0x2003, 0x2004, 0x2005, 0x2006, 0x2007, 0x2008, 0x2009, 0x200a, 0x2028, 0x2029, 0x202f,
    0x205f, 0x3000]

theorem mem_blankCodes {c : Char} (blank : isBlank c = true) : c.toNat ∈ blankCodes := by
  simp only [isBlank, Bool.or_eq_true, Bool.and_eq_true, decide_eq_true_eq, beq_iff_eq] at blank
  simp only [blankCodes, List.mem_cons, List.not_mem_nil, or_false]
  omega

theorem isWordChar_of_isBlank {c : Char} (blank : isBlank c = true) : isWordChar c = false := by
  have none : ∀ code ∈ blankCodes, isWordChar (Char.ofNat code) = false := by decide +kernel
  have here := none c.toNat (mem_blankCodes blank)
  rwa [Char.ofNat_toNat] at here

theorem isBlank_of_isWordChar {c : Char} (word : isWordChar c = true) : isBlank c = false := by
  by_contra blank
  rw [isWordChar_of_isBlank (by simpa using blank)] at word
  exact absurd word (by decide)

theorem isWordChar_of_isNameStart {c : Char} (starts : isNameStart c = true) :
    isWordChar c = true := by
  rw [isNameStart, Bool.or_eq_true] at starts
  rw [isWordChar, Bool.or_eq_true]
  rcases starts with alpha | underscore
  · refine Or.inr ?_
    rw [isAlphanumeric]
    split
    · rw [Char.isAlphanum, alpha, Bool.true_or]
    · rw [isLetter_of_isAlpha alpha, Bool.true_or]
  · exact Or.inl underscore

theorem dropWhile_isBlank_eq_self {text : Text} (visible : ∀ c ∈ text, isBlank c = false) :
    text.dropWhile isBlank = text := by
  rw [List.dropWhile_eq_self_iff]
  intro nonempty
  rw [visible _ (List.getElem_mem nonempty)]
  decide

theorem takeWhile_append_stop {holds : Char → Bool} {c : Char} (stops : holds c = false)
    (text more : Text) : (text ++ c :: more).takeWhile holds = text.takeWhile holds := by
  induction text with
  | nil => simp [stops]
  | cons first text ih =>
      rw [List.cons_append, List.takeWhile_cons, List.takeWhile_cons, ih]

namespace Text

theorem place_of_nonneg {offset : Int} (nonneg : 0 ≤ offset) (length : Nat) :
    place length offset = min offset.toNat length := by
  rw [place, if_neg (by omega)]

theorem place_natCast (length offset : Nat) : place length offset = min offset length := by
  rw [place_of_nonneg (Int.natCast_nonneg offset), Int.toNat_natCast]

theorem dropWhile_isBlank_append {gap : Text} (blanks : ∀ c ∈ gap, isBlank c = true) {c : Char}
    (nonblank : isBlank c = false) (rest : Text) :
    (gap ++ c :: rest).dropWhile isBlank = c :: rest := by
  rw [List.dropWhile_append_of_pos blanks, List.dropWhile_cons, nonblank, if_neg (by decide)]

theorem trim_eq_self {text : Text} (visible : ∀ c ∈ text, isBlank c = false) :
    text.trim = text := by
  rw [trim, trimEnd, trimStart, dropWhile_isBlank_eq_self visible,
    dropWhile_isBlank_eq_self (by simpa using visible), List.reverse_reverse]

theorem exists_trimEnd_append (text : Text) :
    ∃ gap, text = text.trimEnd ++ gap ∧ ∀ c ∈ gap, isBlank c = true := by
  have ends := congrArg List.reverse
    (List.takeWhile_append_dropWhile (p := isBlank) (l := text.reverse))
  rw [List.reverse_append, List.reverse_reverse] at ends
  exact ⟨_, ends.symm, fun c member => List.mem_takeWhile_imp (List.mem_reverse.mp member)⟩

theorem exists_trim_split (text : Text) : ∃ gap after, text = gap ++ trim text ++ after ∧
    (∀ c ∈ gap, isBlank c = true) ∧ ∀ c ∈ after, isBlank c = true := by
  obtain ⟨after, ends, blank⟩ := exists_trimEnd_append (trimStart text)
  refine ⟨text.takeWhile isBlank, after, ?_, fun c member => List.mem_takeWhile_imp member, blank⟩
  rw [trim, List.append_assoc, ← ends, trimStart, List.takeWhile_append_dropWhile]

theorem mem_of_mem_trim {text : Text} {c : Char} (member : c ∈ text.trim) : c ∈ text := by
  obtain ⟨gap, after, split, -⟩ := exists_trim_split text
  rw [split]
  exact List.mem_append_left _ (List.mem_append_right _ member)

theorem mem_trim {text : Text} {c : Char} (member : c ∈ text) (nonblank : isBlank c = false) :
    c ∈ text.trim := by
  obtain ⟨gap, after, split, before, behind⟩ := exists_trim_split text
  rw [split, List.mem_append, List.mem_append] at member
  rcases member with (inGap | inside) | inAfter
  · rw [before c inGap] at nonblank
    exact absurd nonblank (by decide)
  · exact inside
  · rw [behind c inAfter] at nonblank
    exact absurd nonblank (by decide)

theorem trimEnd_append_blank {gap : Text} (blank : ∀ c ∈ gap, isBlank c = true) (text : Text) :
    (text ++ gap).trimEnd = text.trimEnd := by
  rw [trimEnd, List.reverse_append,
    List.dropWhile_append_of_pos fun c member => blank c (List.mem_reverse.mp member), trimEnd]

theorem trimEnd_append {back : Text} (nonempty : back.trimEnd ≠ []) (front : Text) :
    (front ++ back).trimEnd = front ++ back.trimEnd := by
  have more : (back.reverse.dropWhile isBlank).isEmpty = false := by
    rw [List.isEmpty_eq_false_iff]
    exact fun empty => nonempty (by rw [trimEnd, empty, List.reverse_nil])
  rw [trimEnd, List.reverse_append, List.dropWhile_append, more, if_neg (by decide),
    List.reverse_append, List.reverse_reverse, trimEnd]

theorem trimEnd_trimEnd (text : Text) : text.trimEnd.trimEnd = text.trimEnd := by
  obtain ⟨gap, split, blank⟩ := exists_trimEnd_append text
  have trimmed := trimEnd_append_blank blank text.trimEnd
  rw [← split] at trimmed
  exact trimmed.symm

theorem length_trimEnd_le (text : Text) : text.trimEnd.length ≤ text.length := by
  obtain ⟨gap, split, -⟩ := exists_trimEnd_append text
  have length := congrArg List.length split
  rw [List.length_append] at length
  omega

theorem mem_trimEnd {text : Text} {c : Char} (member : c ∈ text) (shown : isBlank c = false) :
    c ∈ text.trimEnd := by
  obtain ⟨gap, split, blank⟩ := exists_trimEnd_append text
  rw [split, List.mem_append] at member
  rcases member with before | behind
  · exact before
  · rw [blank c behind] at shown
    exact absurd shown (by decide)

theorem trimEnd_ne_append_blank {text front : Text} {c : Char} (blank : isBlank c = true) :
    text.trimEnd ≠ front ++ [c] := by
  intro same
  rw [trimEnd, List.reverse_eq_iff, List.reverse_append] at same
  have first := List.head?_dropWhile_not isBlank text.reverse
  rw [same] at first
  simp [blank] at first

theorem trimStart_trimEnd_trimStart (text : Text) :
    trimStart (trimEnd text.trimStart) = trimEnd text.trimStart := by
  obtain ⟨gap, split, -⟩ := exists_trimEnd_append text.trimStart
  cases trimmed : trimEnd text.trimStart with
  | nil => rfl
  | cons c rest =>
      have first := List.head?_dropWhile_not isBlank text
      have front : text.dropWhile isBlank = c :: (rest ++ gap) := by
        rw [← List.cons_append, ← trimmed]
        exact split
      rw [front] at first
      have shown : isBlank c = false := by simpa using first
      rw [trimStart, List.dropWhile_cons_of_neg (by simp [shown])]

theorem trim_trim (text : Text) : text.trim.trim = text.trim := by
  rw [trim, trim, trimStart_trimEnd_trimStart, trimEnd, trimEnd, List.reverse_reverse,
    List.dropWhile_idempotent]

theorem trim_eq_nil {text : Text} (blank : ∀ c ∈ text, isBlank c = true) : text.trim = [] := by
  rw [trim, trimStart, List.dropWhile_eq_nil_iff.mpr blank]
  rfl

theorem anyPlace_iff {holds : Option Char → Text → Bool} {previous : Option Char} {text : Text} :
    anyPlace holds previous text = true ↔
      ∃ front back, text = front ++ back ∧ holds (front.getLast?.or previous) back = true := by
  induction text generalizing previous with
  | nil =>
      rw [anyPlace]
      constructor
      · intro here
        exact ⟨[], [], rfl, here⟩
      · rintro ⟨front, back, split, here⟩
        obtain ⟨rfl, rfl⟩ := List.append_eq_nil_iff.mp split.symm
        exact here
  | cons c rest ih =>
      rw [anyPlace, Bool.or_eq_true, ih]
      constructor
      · rintro (here | ⟨front, back, rfl, later⟩)
        · exact ⟨[], c :: rest, rfl, here⟩
        · refine ⟨c :: front, back, rfl, ?_⟩
          rw [List.getLast?_cons]
          cases last : front.getLast? <;> simpa [last] using later
      · rintro ⟨front, back, split, found⟩
        cases front with
        | nil =>
            obtain rfl := split
            exact Or.inl found
        | cons first front =>
            obtain ⟨rfl, rfl⟩ := List.cons_eq_cons.mp split
            refine Or.inr ⟨front, back, rfl, ?_⟩
            rw [List.getLast?_cons] at found
            cases last : front.getLast? <;> simpa [last] using found

theorem occursIn_iff {needle text : Text} : needle.occursIn text = true ↔ needle <:+: text := by
  induction text with
  | nil => simp [occursIn]
  | cons c rest ih =>
      rw [occursIn, Bool.or_eq_true, List.isPrefixOf_iff_prefix, ih, List.infix_cons_iff]

theorem occursIn_trans {needle longer text : Text} (within : needle.occursIn longer = true)
    (occurs : longer.occursIn text = true) : needle.occursIn text = true :=
  occursIn_iff.mpr ((occursIn_iff.mp within).trans (occursIn_iff.mp occurs))

theorem exists_cons_splitOn (separator : Char) (text : Text) :
    ∃ piece pieces, text.splitOn separator = piece :: pieces :=
  List.exists_cons_of_ne_nil (List.splitOn_ne_nil separator text)

/-- The text before the first separator belongs to the first piece. -/
theorem splitOn_append_of_not_mem {separator : Char} {front : Text} (absent : separator ∉ front)
    (rest : Text) :
    ∃ piece pieces, List.splitOn separator rest = piece :: pieces ∧
      List.splitOn separator (front ++ rest) = (front ++ piece) :: pieces := by
  induction front with
  | nil =>
      obtain ⟨piece, pieces, cut⟩ := exists_cons_splitOn separator rest
      exact ⟨piece, pieces, cut, cut⟩
  | cons c front ih =>
      rw [List.mem_cons, not_or] at absent
      obtain ⟨piece, pieces, cut, whole⟩ := ih absent.2
      refine ⟨piece, pieces, cut, ?_⟩
      rw [List.cons_append, List.splitOn_cons_eq_if_modifyHead,
        if_neg (by simpa using fun equal : c = separator => absent.1 equal.symm), whole]
      rfl

theorem length_splitOn (separator : Char) (text : Text) :
    (text.splitOn separator).length = text.count separator + 1 := by
  induction text with
  | nil => rfl
  | cons c rest ih =>
      rw [List.splitOn_cons_eq_if_modifyHead]
      by_cases same : c = separator
      · simp [same, ih]
      · simp [same, ih]

theorem intercalate_append {front back : List Text} (before : front ≠ []) (after : back ≠ [])
    (separator : Text) :
    List.intercalate separator (front ++ back) =
      List.intercalate separator front ++ separator ++ List.intercalate separator back := by
  induction front with
  | nil => exact absurd rfl before
  | cons piece front ih =>
      cases front with
      | nil =>
          rw [List.singleton_append, List.intercalate_cons_of_ne_nil after,
            List.intercalate_singleton]
      | cons next later =>
          have joined : next :: later ++ back ≠ [] := by simp
          rw [List.cons_append, List.intercalate_cons_of_ne_nil joined,
            ih (List.cons_ne_nil next later),
            List.intercalate_cons_of_ne_nil (List.cons_ne_nil next later)]
          simp only [List.append_assoc]

theorem infix_intercalate {separator piece : Text} {pieces : List Text}
    (member : piece ∈ pieces) : piece <:+: List.intercalate separator pieces := by
  induction pieces with
  | nil => simp at member
  | cons first later ih =>
      cases later with
      | nil =>
          rw [List.mem_singleton] at member
          simp [member]
      | cons next rest =>
          rw [List.intercalate_cons_of_ne_nil (List.cons_ne_nil next rest), List.append_assoc]
          rcases List.mem_cons.mp member with rfl | inRest
          · exact (List.prefix_append _ _).isInfix
          · refine (ih inRest).trans (List.IsSuffix.isInfix ?_)
            exact (List.suffix_append _ _).trans (List.suffix_append _ _)

theorem mem_intercalate {separator : Text} {pieces : List Text} {c : Char}
    (member : c ∈ List.intercalate separator pieces) :
    c ∈ separator ∨ ∃ piece ∈ pieces, c ∈ piece := by
  induction pieces with
  | nil => simp at member
  | cons piece pieces ih =>
      cases pieces with
      | nil =>
          rw [List.intercalate_singleton] at member
          exact Or.inr ⟨piece, List.mem_cons_self, member⟩
      | cons next rest =>
          rw [List.intercalate_cons_of_ne_nil (List.cons_ne_nil next rest), List.mem_append,
            List.mem_append] at member
          rcases member with (inside | between) | later
          · exact Or.inr ⟨piece, List.mem_cons_self, inside⟩
          · exact Or.inl between
          · rcases ih later with between | ⟨other, listed, inside⟩
            · exact Or.inl between
            · exact Or.inr ⟨other, List.mem_cons_of_mem _ listed, inside⟩

theorem exists_mem_splitOn {separator c : Char} {text : Text} (member : c ∈ text)
    (different : c ≠ separator) : ∃ piece ∈ text.splitOn separator, c ∈ piece := by
  have joined : List.intercalate [separator] (text.splitOn separator) = text :=
    List.intercalate_splitOn separator
  rw [← joined] at member
  rcases mem_intercalate member with between | found
  · exact absurd (List.mem_singleton.mp between) different
  · exact found

theorem infix_of_mem_splitOn {separator : Char} {text piece : Text}
    (member : piece ∈ text.splitOn separator) : piece <:+: text := by
  have within : piece <:+: List.intercalate [separator] (text.splitOn separator) :=
    infix_intercalate member
  rwa [List.intercalate_splitOn] at within

theorem not_mem_of_mem_splitOn {separator : Char} {text piece : Text}
    (member : piece ∈ text.splitOn separator) : separator ∉ piece := by
  induction text generalizing piece with
  | nil => simp_all
  | cons c rest ih =>
      obtain ⟨first, pieces, cut⟩ := exists_cons_splitOn separator rest
      rw [cut] at ih
      rw [List.splitOn_cons_eq_if_modifyHead, cut] at member
      split at member
      next =>
        rcases List.mem_cons.mp member with rfl | later
        · exact List.not_mem_nil
        · exact ih later
      next other =>
        have different : separator ≠ c := fun same => other (by simp [same])
        rcases List.mem_cons.mp member with rfl | later
        · exact List.not_mem_cons_of_ne_of_not_mem different (ih List.mem_cons_self)
        · exact ih (List.mem_cons_of_mem first later)

end Text

end HardcodedText
