import HardcodedText.Proofs.CallSite
import HardcodedText.Proofs.Comment
import HardcodedText.Proofs.Text

/-!
A text and a copy of it in which some comments are blank, side by side. Both are read off one list
of cells, each a character and whether the copy hides it. What the searches and the filters see of
the two texts is compared by splitting this list: at runs of blanks, at runs of word characters, and
behind a token. The splits are the same for both as long as the hidden comments are set apart from
the code around them.
-/

namespace HardcodedText

structure Cell where
  char : Char
  hidden : Bool

namespace Cell

def veiled (cell : Cell) : Char :=
  if !isLineEnd cell.char && cell.hidden then ' ' else cell.char

def isVisible (cell : Cell) : Prop :=
  cell.hidden = false

theorem veiled_of_isVisible {cell : Cell} (visible : cell.isVisible) : cell.veiled = cell.char := by
  rw [veiled, visible, Bool.and_false, if_neg (by decide)]

theorem isBlank_veiled {cell : Cell} (hidden : cell.hidden = true) :
    isBlank cell.veiled = true := by
  rw [veiled, hidden, Bool.and_true]
  split
  next => decide
  next stays =>
    rw [Bool.not_eq_true, Bool.not_eq_false', isLineEnd, Bool.or_eq_true, beq_iff_eq,
      beq_iff_eq] at stays
    rcases stays with same | same <;> rw [same] <;> decide

theorem isVisible_of_veiled {cell : Cell} (nonblank : isBlank cell.veiled = false) :
    cell.isVisible := by
  by_contra hidden
  rw [isBlank_veiled (by simpa [isVisible] using hidden)] at nonblank
  exact absurd nonblank (by decide)

theorem veiled_eq_lineFeed_iff (cell : Cell) : cell.veiled = '\n' ↔ cell.char = '\n' := by
  rw [veiled]
  split
  next blanked =>
    constructor
    · intro space
      exact absurd space (by decide)
    · intro lineFeed
      simp [lineFeed, isLineEnd] at blanked
  next => exact Iff.rfl

end Cell

def shown (cells : List Cell) : Text :=
  cells.map Cell.char

def veiled (cells : List Cell) : Text :=
  cells.map Cell.veiled

@[simp] theorem shown_nil : shown [] = [] := rfl

@[simp] theorem veiled_nil : veiled [] = [] := rfl

@[simp] theorem shown_cons (cell : Cell) (cells : List Cell) :
    shown (cell :: cells) = cell.char :: shown cells := rfl

@[simp] theorem veiled_cons (cell : Cell) (cells : List Cell) :
    veiled (cell :: cells) = cell.veiled :: veiled cells := rfl

@[simp] theorem shown_append (front back : List Cell) :
    shown (front ++ back) = shown front ++ shown back :=
  List.map_append

@[simp] theorem veiled_append (front back : List Cell) :
    veiled (front ++ back) = veiled front ++ veiled back :=
  List.map_append

@[simp] theorem length_shown (cells : List Cell) : (shown cells).length = cells.length :=
  List.length_map _

@[simp] theorem length_veiled (cells : List Cell) : (veiled cells).length = cells.length :=
  List.length_map _

theorem drop_shown {width : Nat} {front : List Cell} (length : front.length = width)
    (back : List Cell) : (shown (front ++ back)).drop width = shown back := by
  rw [shown_append, ← length, ← length_shown front, List.drop_left]

theorem drop_veiled {width : Nat} {front : List Cell} (length : front.length = width)
    (back : List Cell) : (veiled (front ++ back)).drop width = veiled back := by
  rw [veiled_append, ← length, ← length_veiled front, List.drop_left]

theorem veiled_eq_shown {cells : List Cell} (visible : ∀ cell ∈ cells, cell.isVisible) :
    veiled cells = shown cells :=
  List.map_congr_left fun cell member => Cell.veiled_of_isVisible (visible cell member)

theorem lineFeed_mem_veiled_iff (cells : List Cell) : '\n' ∈ veiled cells ↔ '\n' ∈ shown cells := by
  simp [veiled, shown, Cell.veiled_eq_lineFeed_iff]

/-- The hidden cells are comments: one begins with a slash, and ends with a slash or before a line
feed. Behind it, after blanks, stands nothing or a character that is allowed there. -/
structure Bordered (allowed : Char → Prop) (cells : List Cell) : Prop where
  opens : ∀ cell next, [cell, next] <:+: cells → cell.isVisible → next.hidden = true →
    next.char = '/'
  closes : ∀ cell next, [cell, next] <:+: cells → cell.hidden = true → next.isVisible →
    cell.char = '/' ∨ next.char = '\n'
  after : ∀ cell gap next, cell :: (gap ++ [next]) <:+: cells → cell.hidden = true →
    (∀ other ∈ gap, isBlank other.veiled = true) → next.isVisible → isBlank next.char = false →
    allowed next.char

theorem Bordered.of_isInfix {allowed : Char → Prop} {cells part : List Cell}
    (bordered : Bordered allowed cells) (within : part <:+: cells) : Bordered allowed part where
  opens cell next pair := bordered.opens cell next (pair.trans within)
  closes cell next pair := bordered.closes cell next (pair.trans within)
  after cell gap next reach := bordered.after cell gap next (reach.trans within)

/-- What may follow a hidden comment: no literal, no argument list and no colon. -/
def MayFollow (c : Char) : Prop :=
  isQuote c = false ∧ c ≠ '(' ∧ c ≠ ':'

instance (c : Char) : Decidable (MayFollow c) :=
  inferInstanceAs (Decidable (isQuote c = false ∧ c ≠ '(' ∧ c ≠ ':'))

/-- The hidden comments are set apart from the code around them: behind a name, a dot or a literal
stands none, and none stands before a literal, a parenthesis or a colon. They hold no quote, no
colon and no keyword that matters for a call. -/
structure SetApart (cells : List Cell) : Prop extends Bordered MayFollow cells where
  before : ∀ cell gap next, cell :: (gap ++ [next]) <:+: cells → cell.isVisible →
    isBlank cell.char = false → (∀ other ∈ gap, isBlank other.veiled = true) → next.hidden = true →
    isWordChar cell.char = false ∧ isQuote cell.char = false ∧ cell.char ≠ '.'
  quiet : ∀ cell ∈ cells, cell.hidden = true → isQuote cell.char = false ∧ cell.char ≠ ':'
  wordless : ∀ run, run <:+: cells → (∀ cell ∈ run, cell.hidden = true) →
    shown run ∉ "const".toList :: denyingKeywords

theorem SetApart.of_isInfix {cells part : List Cell} (apart : SetApart cells)
    (within : part <:+: cells) : SetApart part where
  toBordered := apart.toBordered.of_isInfix within
  before cell gap next reach := apart.before cell gap next (reach.trans within)
  quiet cell member := apart.quiet cell (within.subset member)
  wordless run inside := apart.wordless run (inside.trans within)

/-! Runs of blanks. -/

def IsGap (gap : List Cell) : Prop :=
  ∀ cell ∈ gap, cell.isVisible ∧ isBlank cell.char = true

/-- Nothing, or a visible character that is not blank, and what follows it. -/
def Begins (rest : List Cell) : Prop :=
  ∀ cell ∈ rest.head?, cell.isVisible ∧ isBlank cell.char = false

theorem begins_cons {cell : Cell} (visible : cell.isVisible) (nonblank : isBlank cell.char = false)
    (rest : List Cell) : Begins (cell :: rest) := by
  intro other first
  obtain rfl := Option.some_inj.mp first
  exact ⟨visible, nonblank⟩

theorem exists_gap {cells : List Cell}
    (clear : ∀ front cell back, cells = front ++ cell :: back →
      (∀ other ∈ front, isBlank other.veiled = true) → cell.isVisible) :
    ∃ gap rest, cells = gap ++ rest ∧ IsGap gap ∧ Begins rest := by
  refine ⟨cells.takeWhile (isBlank ·.veiled), cells.dropWhile (isBlank ·.veiled),
    List.takeWhile_append_dropWhile.symm, ?_, ?_⟩
  · intro cell member
    have blank : isBlank cell.veiled = true :=
      List.mem_takeWhile_imp (p := fun cell : Cell => isBlank cell.veiled) member
    obtain ⟨front, back, split⟩ := List.append_of_mem member
    have visible : cell.isVisible := by
      apply clear front cell (back ++ cells.dropWhile (isBlank ·.veiled))
      · rw [← List.cons_append, ← List.append_assoc, ← split, List.takeWhile_append_dropWhile]
      · intro other inFront
        apply List.mem_takeWhile_imp (p := fun cell : Cell => isBlank cell.veiled)
        rw [split]
        exact List.mem_append_left _ inFront
    rw [Cell.veiled_of_isVisible visible] at blank
    exact ⟨visible, blank⟩
  · intro cell first
    have nonblank : isBlank cell.veiled = false := by
      have stops := List.head?_dropWhile_not (fun cell : Cell => isBlank cell.veiled) cells
      rw [Option.mem_def.mp first] at stops
      simpa using stops
    have visible := Cell.isVisible_of_veiled nonblank
    rw [Cell.veiled_of_isVisible visible] at nonblank
    exact ⟨visible, nonblank⟩

theorem IsGap.visible {gap : List Cell} (blanks : IsGap gap) : ∀ cell ∈ gap, cell.isVisible :=
  fun cell member => (blanks cell member).1

theorem dropWhile_gap {view : Cell → Char} {gap rest : List Cell}
    (same : ∀ cell, cell.isVisible → view cell = cell.char) (blanks : IsGap gap)
    (begins : Begins rest) : ((gap ++ rest).map view).dropWhile isBlank = rest.map view := by
  rw [List.map_append, List.dropWhile_append_of_pos]
  · cases rest with
    | nil => rfl
    | cons cell rest =>
        obtain ⟨visible, nonblank⟩ := begins cell rfl
        rw [List.map_cons, List.dropWhile_cons, same cell visible, nonblank]
        rfl
  · intro c member
    obtain ⟨cell, inGap, rfl⟩ := List.mem_map.mp member
    rw [same cell (blanks cell inGap).1]
    exact (blanks cell inGap).2

theorem dropWhile_shown {gap rest : List Cell} (blanks : IsGap gap) (begins : Begins rest) :
    (shown (gap ++ rest)).dropWhile isBlank = shown rest :=
  dropWhile_gap (fun _ _ => rfl) blanks begins

theorem dropWhile_veiled {gap rest : List Cell} (blanks : IsGap gap) (begins : Begins rest) :
    (veiled (gap ++ rest)).dropWhile isBlank = veiled rest :=
  dropWhile_gap (fun _ visible => Cell.veiled_of_isVisible visible) blanks begins

structure TrimmedTo (cells rest : List Cell) : Prop where
  gap : ∃ gap, cells = gap ++ rest ∧ IsGap gap
  begins : Begins rest
  shown_eq : (shown cells).dropWhile isBlank = shown rest
  veiled_eq : (veiled cells).dropWhile isBlank = veiled rest

theorem Begins.head?_veiled {rest : List Cell} (begins : Begins rest) :
    (veiled rest).head? = (shown rest).head? := by
  cases rest with
  | nil => rfl
  | cons cell rest =>
      rw [veiled_cons, shown_cons, Cell.veiled_of_isVisible (begins cell rfl).1]
      rfl

theorem TrimmedTo.suffix {cells rest : List Cell} (trimmed : TrimmedTo cells rest) :
    rest <:+ cells := by
  obtain ⟨gap, rfl, -⟩ := trimmed.gap
  exact List.suffix_append gap rest

theorem TrimmedTo.head?_veiled {cells rest : List Cell} (trimmed : TrimmedTo cells rest) :
    ((veiled cells).dropWhile isBlank).head? = ((shown cells).dropWhile isBlank).head? := by
  rw [trimmed.veiled_eq, trimmed.shown_eq, trimmed.begins.head?_veiled]

theorem exists_trimmedTo {cells : List Cell}
    (clear : ∀ front cell back, cells = front ++ cell :: back →
      (∀ other ∈ front, isBlank other.veiled = true) → cell.isVisible) :
    ∃ rest, TrimmedTo cells rest := by
  obtain ⟨gap, rest, rfl, blanks, begins⟩ := exists_gap clear
  exact ⟨rest, ⟨gap, rfl, blanks⟩, begins, dropWhile_shown blanks begins,
    dropWhile_veiled blanks begins⟩

/-- Behind a name, a dot or a literal the blanks are visible up to the next character. -/
theorem SetApart.trimmed_after {cell : Cell} {cells : List Cell} (apart : SetApart (cell :: cells))
    (visible : cell.isVisible)
    (holds : isWordChar cell.char = true ∨ isQuote cell.char = true ∨ cell.char = '.') :
    ∃ rest, TrimmedTo cells rest := by
  have nonblank : isBlank cell.char = false := by
    rcases holds with word | quote | dot
    · by_contra blank
      rw [isWordChar_of_isBlank (by simpa using blank)] at word
      exact absurd word (by decide)
    · exact isBlank_of_isQuote quote
    · rw [dot]
      decide
  apply exists_trimmedTo
  intro front next back split blanks
  by_contra hidden
  have reach : cell :: (front ++ [next]) <:+: cell :: cells := by
    refine ⟨[], back, ?_⟩
    rw [split]
    simp
  obtain ⟨word, quote, dot⟩ := apart.before cell front next reach visible nonblank blanks
    (by simpa [Cell.isVisible] using hidden)
  rcases holds with isWord | isQuoted | isDot
  · rw [word] at isWord
    exact absurd isWord (by decide)
  · rw [quote] at isQuoted
    exact absurd isQuoted (by decide)
  · exact dot isDot

/-- Before a literal, a parenthesis or a colon the blanks are visible, read backwards. -/
theorem SetApart.trimmed_before {cell : Cell} {cells : List Cell}
    (apart : SetApart (cells ++ [cell])) (visible : cell.isVisible)
    (holds : isQuote cell.char = true ∨ cell.char = '(' ∨ cell.char = ':') :
    ∃ rest, TrimmedTo cells.reverse rest := by
  have nonblank : isBlank cell.char = false := by
    rcases holds with quote | parenthesis | colon
    · exact isBlank_of_isQuote quote
    · rw [parenthesis]
      decide
    · rw [colon]
      decide
  apply exists_trimmedTo
  intro front next back split blanks
  by_contra hidden
  have order : cells = back.reverse ++ next :: front.reverse := by
    rw [← List.reverse_reverse cells, split]
    simp
  have reach : next :: (front.reverse ++ [cell]) <:+: cells ++ [cell] := by
    refine ⟨back.reverse, [], ?_⟩
    rw [order]
    simp
  obtain ⟨quote, parenthesis, colon⟩ := apart.after next front.reverse cell reach
    (by simpa [Cell.isVisible] using hidden) (by simpa using blanks) visible nonblank
  rcases holds with isQuoted | isParenthesis | isColon
  · rw [quote] at isQuoted
    exact absurd isQuoted (by decide)
  · exact parenthesis isParenthesis
  · exact colon isColon

theorem dropWhile_veiled_head {cells : List Cell} {c : Char}
    (first : ((veiled cells).dropWhile isBlank).head? = some c) :
    ∃ gap cell rest, cells = gap ++ cell :: rest ∧ (∀ other ∈ gap, isBlank other.veiled = true) ∧
      cell.isVisible ∧ cell.char = c ∧ isBlank c = false := by
  induction cells with
  | nil => simp at first
  | cons cell cells ih =>
      rw [veiled_cons, List.dropWhile_cons] at first
      cases blank : isBlank cell.veiled with
      | true =>
          rw [blank, if_pos rfl] at first
          obtain ⟨gap, next, rest, rfl, blanks, found⟩ := ih first
          refine ⟨cell :: gap, next, rest, rfl, ?_, found⟩
          intro other member
          rcases List.mem_cons.mp member with rfl | later
          · exact blank
          · exact blanks other later
      | false =>
          rw [blank, if_neg (by decide), List.head?_cons, Option.some_inj] at first
          have visible := Cell.isVisible_of_veiled blank
          rw [first] at blank
          rw [Cell.veiled_of_isVisible visible] at first
          exact ⟨[], cell, cells, rfl, by simp, visible, first, blank⟩

/-- Behind a visible cell either the blanks are visible, or a comment follows them. -/
theorem Bordered.gap_cases {allowed : Char → Prop} {cell : Cell} {cells : List Cell}
    (bordered : Bordered allowed (cell :: cells)) (visible : cell.isVisible) :
    (∃ rest, TrimmedTo cells rest) ∨
      ((shown cells).dropWhile isBlank).head? = some '/' ∧
        ∀ c, ((veiled cells).dropWhile isBlank).head? = some c → allowed c := by
  induction cells generalizing cell with
  | nil => exact Or.inl ⟨[], ⟨[], rfl, by simp [IsGap]⟩, by simp [Begins], rfl, rfl⟩
  | cons next cells ih =>
      cases hidden : next.hidden with
      | true =>
          have slash := bordered.opens cell next ⟨[], cells, rfl⟩ visible hidden
          refine Or.inr ⟨?_, ?_⟩
          · rw [shown_cons, slash]
            rfl
          · intro c first
            rw [veiled_cons, List.dropWhile_cons, Cell.isBlank_veiled hidden, if_pos rfl] at first
            obtain ⟨gap, found, rest, rfl, blanks, seen, rfl, nonblank⟩ :=
              dropWhile_veiled_head first
            have reach : next :: (gap ++ [found]) <:+: cell :: next :: (gap ++ found :: rest) :=
              ⟨[cell], rest, by simp⟩
            exact bordered.after next gap found reach hidden blanks seen nonblank
      | false =>
          have seen : next.isVisible := hidden
          cases blank : isBlank next.char with
          | false =>
              refine Or.inl ⟨next :: cells, ⟨[], rfl, by simp [IsGap]⟩,
                begins_cons seen blank cells, ?_, ?_⟩
              · rw [shown_cons, List.dropWhile_cons, blank, if_neg (by decide)]
              · rw [veiled_cons, List.dropWhile_cons, Cell.veiled_of_isVisible seen, blank,
                  if_neg (by decide)]
          | true =>
              have later := ih (bordered.of_isInfix (List.suffix_cons cell _).isInfix) seen
              rw [shown_cons, veiled_cons, List.dropWhile_cons, List.dropWhile_cons,
                Cell.veiled_of_isVisible seen, blank, if_pos rfl, if_pos rfl]
              rcases later with ⟨rest, ⟨gap, rfl, blanks⟩, begins, original, copied⟩ | comment
              · refine Or.inl ⟨rest, ⟨next :: gap, rfl, ?_⟩, begins, ?_, ?_⟩
                · intro other member
                  rcases List.mem_cons.mp member with rfl | inGap
                  · exact ⟨seen, blank⟩
                  · exact blanks other inGap
                · rw [shown_cons, List.dropWhile_cons, blank, if_pos rfl, original]
                · rw [veiled_cons, List.dropWhile_cons, Cell.veiled_of_isVisible seen, blank,
                    if_pos rfl, copied]
              · exact Or.inr comment

end HardcodedText
