import HardcodedText.Proofs.Directive.Parameter

/-!
The literals of an argument list that holds hidden comments. They stand outside of these and begin
with a quote, so that a comment is as far away from the next colon after they have become blank as
before.
-/

namespace HardcodedText

def maskCell (spans : List Span) (offset : Nat) (cell : Cell) : Cell :=
  if cell.char != '\n' && spans.any (·.contains offset) then ⟨' ', cell.hidden⟩ else cell

def maskFrom (spans : List Span) (index : Nat) (cells : List Cell) : List Cell :=
  (cells.zipIdx index).map fun (cell, offset) => maskCell spans offset cell

section Mask

variable {spans : List Span}

@[simp] theorem hidden_maskCell (offset : Nat) (cell : Cell) :
    (maskCell spans offset cell).hidden = cell.hidden := by
  rw [maskCell]
  split <;> rfl

theorem maskCell_of_uncovered {offset : Nat} (uncovered : spans.any (·.contains offset) = false)
    (cell : Cell) : maskCell spans offset cell = cell := by
  rw [maskCell, uncovered, Bool.and_false, if_neg (by decide)]

theorem maskCell_of_nonblank {offset : Nat} {cell : Cell}
    (nonblank : isBlank (maskCell spans offset cell).char = false) :
    maskCell spans offset cell = cell := by
  unfold maskCell at nonblank ⊢
  split
  next covered =>
    rw [if_pos covered] at nonblank
    have blank : isBlank ' ' = true := by decide
    rw [blank] at nonblank
    exact absurd nonblank (by decide)
  next => rfl

theorem char_maskCell (offset : Nat) (cell : Cell) :
    (maskCell spans offset cell).char =
      if !(cell.char == '\n') && spans.any (·.contains offset) then ' ' else cell.char := by
  rw [maskCell, bne]
  split <;> rfl

theorem veiled_maskCell (offset : Nat) (cell : Cell) :
    (maskCell spans offset cell).veiled =
      if !(cell.veiled == '\n') && spans.any (·.contains offset) then ' ' else cell.veiled := by
  have lineFeed : (cell.veiled == '\n') = (cell.char == '\n') := by
    rw [Bool.eq_iff_iff, beq_iff_eq, beq_iff_eq, Cell.veiled_eq_lineFeed_iff]
  rw [maskCell, bne, lineFeed]
  split
  next => rw [Cell.veiled]; split <;> rfl
  next => rfl

theorem shown_maskFrom (index : Nat) (cells : List Cell) :
    shown (maskFrom spans index cells) = blankFrom (· == '\n') spans index (shown cells) := by
  induction cells generalizing index with
  | nil => rfl
  | cons cell cells ih =>
      rw [shown_cons, blankFrom_cons, ← ih, ← char_maskCell]
      rfl

theorem veiled_maskFrom (index : Nat) (cells : List Cell) :
    veiled (maskFrom spans index cells) = blankFrom (· == '\n') spans index (veiled cells) := by
  induction cells generalizing index with
  | nil => rfl
  | cons cell cells ih =>
      rw [veiled_cons, blankFrom_cons, ← ih, ← veiled_maskCell]
      rfl

theorem mem_maskFrom_append (index : Nat) (front : List Cell) (cell : Cell) (back : List Cell) :
    maskCell spans (index + front.length) cell ∈ maskFrom spans index (front ++ cell :: back) := by
  rw [maskFrom, List.zipIdx_append, List.zipIdx_cons, List.map_append, List.map_cons]
  exact List.mem_append_right _ List.mem_cons_self

theorem maskFrom_eq_append {index : Nat} {cells left right : List Cell}
    (split : maskFrom spans index cells = left ++ right) :
    ∃ front back, cells = front ++ back ∧ maskFrom spans index front = left ∧
      maskFrom spans (index + front.length) back = right := by
  obtain ⟨_, _, parts, rfl, rfl⟩ := List.map_eq_append_iff.mp split
  obtain ⟨front, back, rfl, rfl, rfl⟩ := List.zipIdx_eq_append_iff.mp parts
  exact ⟨front, back, rfl, rfl, rfl⟩

theorem maskFrom_eq_cons {index : Nat} {cells more : List Cell} {masked : Cell}
    (split : maskFrom spans index cells = masked :: more) :
    ∃ cell rest, cells = cell :: rest ∧ maskCell spans index cell = masked ∧
      maskFrom spans (index + 1) rest = more := by
  cases cells with
  | nil => simp [maskFrom] at split
  | cons cell rest =>
      rw [maskFrom, List.zipIdx_cons, List.map_cons, List.cons_eq_cons] at split
      exact ⟨cell, rest, rfl, split.1, split.2⟩

theorem maskFrom_eq_nil {index : Nat} {cells : List Cell}
    (empty : maskFrom spans index cells = []) : cells = [] := by
  rwa [maskFrom, List.map_eq_nil_iff, List.zipIdx_eq_nil_iff] at empty

/-- The cells behind a part of the masked ones. -/
theorem exists_of_isInfix_maskFrom {cells gap : List Cell} {cell next : Cell}
    (reach : cell :: (gap ++ [next]) <:+: maskFrom spans 0 cells) :
    ∃ front own between following back, cells = front ++ own :: (between ++ following :: back) ∧
      maskCell spans front.length own = cell ∧
      maskFrom spans (front.length + 1) between = gap ∧
      maskCell spans (front.length + 1 + between.length) following = next := by
  obtain ⟨left, right, whole⟩ := reach
  rw [List.append_assoc, List.cons_append, List.append_assoc, List.singleton_append] at whole
  obtain ⟨front, behind, rfl, -, more⟩ := maskFrom_eq_append whole.symm
  rw [Nat.zero_add] at more
  obtain ⟨own, rest, rfl, here, more⟩ := maskFrom_eq_cons more
  obtain ⟨between, last, rfl, gap, more⟩ := maskFrom_eq_append more
  obtain ⟨following, back, rfl, there, -⟩ := maskFrom_eq_cons more
  exact ⟨front, own, between, following, back, rfl, here, gap, there⟩

theorem exists_of_pair_maskFrom {cells : List Cell} {cell next : Cell}
    (pair : [cell, next] <:+: maskFrom spans 0 cells) :
    ∃ front own following back, cells = front ++ own :: following :: back ∧
      maskCell spans front.length own = cell ∧
      maskCell spans (front.length + 1) following = next := by
  have reach : cell :: ([] ++ [next]) <:+: maskFrom spans 0 cells := pair
  obtain ⟨front, own, between, following, back, split, here, empty, there⟩ :=
    exists_of_isInfix_maskFrom reach
  obtain rfl := maskFrom_eq_nil empty
  exact ⟨front, own, following, back, split, here, there⟩

end Mask

structure OutsideHidden (spans : List Span) (cells : List Cell) : Prop where
  uncovered : ∀ place cell, cells[place]? = some cell → cell.hidden = true →
    spans.any (·.contains place) = false
  quoted : ∀ span ∈ spans, span.start < span.stop ∧
    ∃ cell, cells[span.start]? = some cell ∧ isQuote cell.char = true

section OutsideHidden

variable {spans : List Span} {cells : List Cell} (apart : SetApart cells)
  (outside : OutsideHidden spans cells)

include outside

theorem OutsideHidden.maskCell_hidden {front back : List Cell} {cell : Cell}
    (split : cells = front ++ cell :: back) (hidden : cell.hidden = true) :
    maskCell spans front.length cell = cell := by
  apply maskCell_of_uncovered
  apply outside.uncovered front.length cell _ hidden
  rw [split, List.getElem?_append_right (Nat.le_refl _), Nat.sub_self]
  rfl

/-- A literal that reaches behind a hidden character begins behind it, at a visible quote. -/
theorem OutsideHidden.opens_behind {place : Nat} {cell : Cell} (here : cells[place]? = some cell)
    (hidden : cell.hidden = true) {span : Span} (listed : span ∈ spans)
    (reaches : place < span.stop) :
    place < span.start ∧ ∃ opening, cells[span.start]? = some opening ∧
      isQuote opening.char = true ∧ opening.isVisible := by
  obtain ⟨order, opening, read, quote⟩ := outside.quoted span listed
  have apart {offset : Nat} {other : Cell} (at' : cells[offset]? = some other)
      (hidden : other.hidden = true) : ¬ (span.start ≤ offset ∧ offset < span.stop) := by
    have uncovered := outside.uncovered offset other at' hidden
    rw [List.any_eq_false] at uncovered
    exact fun within => uncovered span listed (Span.contains_iff.mpr within)
  refine ⟨?_, opening, read, quote, ?_⟩
  · have beyond := apart here hidden
    omega
  · exact eq_false_of_ne_true fun unseen => apart read unseen ⟨Nat.le_refl _, order⟩

include apart

/-- Between a hidden comment and the next character that is left, no literal has become blank. -/
theorem OutsideHidden.gap_blank {front gap back : List Cell} {cell : Cell}
    (split : cells = front ++ cell :: (gap ++ back)) (hidden : cell.hidden = true)
    (blanks : ∀ other ∈ maskFrom spans (front.length + 1) gap, isBlank other.veiled = true) :
    ∀ other ∈ gap, isBlank other.veiled = true := by
  cases first : ((veiled gap).dropWhile isBlank).head? with
  | none =>
      rw [List.head?_eq_none_iff, List.dropWhile_eq_nil_iff] at first
      intro other member
      exact first _ (List.mem_map_of_mem member)
  | some c =>
      -- The first character of the gap would be the quote of a literal.
      obtain ⟨before, found, after, rfl, clear, visible, rfl, nonblank⟩ :=
        dropWhile_veiled_head first
      have reach : cell :: (before ++ [found]) <:+: cells := ⟨front, after ++ back, by simp [split]⟩
      have follows := apart.after cell before found reach hidden clear visible nonblank
      obtain ⟨span, listed, covers⟩ : ∃ span ∈ spans,
          span.contains (front.length + 1 + before.length) = true := by
        rw [← List.any_eq_true]
        by_contra uncovered
        have blank := blanks _ (mem_maskFrom_append (front.length + 1) before found after)
        rw [maskCell_of_uncovered (eq_false_of_ne_true uncovered),
          Cell.veiled_of_isVisible visible, nonblank] at blank
        exact absurd blank (by decide)
      rw [Span.contains_iff] at covers
      have own : cells[front.length]? = some cell := by rw [split]; simp
      obtain ⟨behind, opening, read, quote, seen⟩ :=
        outside.opens_behind own hidden listed (by omega)
      obtain ⟨place, start⟩ : ∃ place, span.start = front.length + 1 + place :=
        ⟨span.start - front.length - 1, by omega⟩
      have at' : cells[span.start]? = (before ++ found :: after ++ back)[place]? := by
        have distance : span.start - front.length = place + 1 := by omega
        rw [split, List.getElem?_append_right (by omega), distance, List.getElem?_cons_succ]
      rw [at', List.append_assoc] at read
      rcases Nat.lt_or_ge place before.length with inside | beyond
      · rw [List.getElem?_append_left inside] at read
        have blank := clear opening (List.mem_of_getElem? read)
        rw [Cell.veiled_of_isVisible seen] at blank
        rw [isQuote_of_isBlank blank] at quote
        exact absurd quote (by decide)
      · have last : place - before.length = 0 := by omega
        rw [List.getElem?_append_right beyond, last] at read
        obtain rfl := Option.some_inj.mp read
        rw [follows.1] at quote
        exact absurd quote (by decide)

theorem OutsideHidden.opens_maskFrom {cell next : Cell}
    (pair : [cell, next] <:+: maskFrom spans 0 cells) (visible : cell.isVisible)
    (hidden : next.hidden = true) : next.char = '/' := by
  obtain ⟨front, own, following, back, split, rfl, rfl⟩ := exists_of_pair_maskFrom pair
  rw [hidden_maskCell] at hidden
  rw [Cell.isVisible, hidden_maskCell] at visible
  have here : maskCell spans (front ++ [own]).length following = following :=
    outside.maskCell_hidden (by rw [split, List.append_assoc]; rfl) hidden
  rw [List.length_append, List.length_singleton] at here
  rw [here]
  exact apart.opens own following ⟨front, back, by simp [split]⟩ visible hidden

theorem OutsideHidden.closes_maskFrom {cell next : Cell}
    (pair : [cell, next] <:+: maskFrom spans 0 cells) (hidden : cell.hidden = true)
    (visible : next.isVisible) : cell.char = '/' ∨ next.char = '\n' := by
  obtain ⟨front, own, following, back, split, rfl, rfl⟩ := exists_of_pair_maskFrom pair
  rw [hidden_maskCell] at hidden
  rw [Cell.isVisible, hidden_maskCell] at visible
  rw [outside.maskCell_hidden split hidden]
  rcases apart.closes own following ⟨front, back, by simp [split]⟩ hidden visible with
    slash | lineFeed
  · exact Or.inl slash
  · refine Or.inr ?_
    rw [char_maskCell, lineFeed]
    simp

theorem OutsideHidden.after_maskFrom {cell next : Cell} {gap : List Cell}
    (reach : cell :: (gap ++ [next]) <:+: maskFrom spans 0 cells) (hidden : cell.hidden = true)
    (blanks : ∀ other ∈ gap, isBlank other.veiled = true) (visible : next.isVisible)
    (nonblank : isBlank next.char = false) : MayFollow next.char := by
  obtain ⟨front, own, between, following, back, split, rfl, rfl, rfl⟩ :=
    exists_of_isInfix_maskFrom reach
  rw [hidden_maskCell] at hidden
  have same := maskCell_of_nonblank nonblank
  rw [same] at visible nonblank ⊢
  have clear := outside.gap_blank apart split hidden blanks
  exact apart.after own between following ⟨front, back, by simp [split]⟩ hidden clear visible
    nonblank

/-- Blank literals leave no colon in reach of a hidden comment. -/
theorem OutsideHidden.colonless : Colonless (maskFrom spans 0 cells) where
  opens _ _ pair := outside.opens_maskFrom apart pair
  closes _ _ pair := outside.closes_maskFrom apart pair
  after _ _ _ reach hidden blanks visible nonblank :=
    (outside.after_maskFrom apart reach hidden blanks visible nonblank).2.2
  within := by
    intro masked member hidden
    obtain ⟨⟨cell, place⟩, listed, rfl⟩ := List.mem_map.mp member
    have read := List.mem_zipIdx_iff_getElem?.mp listed
    simp only at hidden read ⊢
    rw [hidden_maskCell] at hidden
    rw [maskCell_of_uncovered (outside.uncovered place cell read hidden)]
    exact (apart.quiet cell (List.mem_of_getElem? read) hidden).2

end OutsideHidden

end HardcodedText
