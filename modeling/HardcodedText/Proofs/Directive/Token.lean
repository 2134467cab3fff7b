import HardcodedText.Proofs.Directive.Cell

/-!
Runs of characters and tokens beside a hidden comment, read forwards or backwards. One that begins
outside of the hidden comments ends before the next of them, and one that begins inside ends there.
-/

namespace HardcodedText

/-- Where visible cells change to hidden ones, a slash or a blank stands between them. -/
def Fenced (cells : List Cell) : Prop :=
  ∀ cell next, [cell, next] <:+: cells → cell.isVisible → next.hidden = true →
    next.char = '/' ∨ isBlank cell.char = true

theorem Bordered.fenced {allowed : Char → Prop} {cells : List Cell}
    (bordered : Bordered allowed cells) : Fenced cells :=
  fun cell next pair visible hidden => Or.inl (bordered.opens cell next pair visible hidden)

theorem Bordered.fenced_reverse {allowed : Char → Prop} {cells : List Cell}
    (bordered : Bordered allowed cells) : Fenced cells.reverse := by
  intro cell next pair visible hidden
  have order : [next, cell] <:+: cells := by
    have reversed := List.reverse_infix.mpr pair
    rwa [List.reverse_reverse] at reversed
  rcases bordered.closes next cell order hidden visible with slash | lineFeed
  · exact Or.inl slash
  · rw [lineFeed]
    exact Or.inr (by decide)

theorem Fenced.of_isInfix {cells part : List Cell} (fenced : Fenced cells)
    (within : part <:+: cells) : Fenced part :=
  fun cell next pair => fenced cell next (pair.trans within)

def StartsVisible (cells : List Cell) : Prop :=
  ∀ cell ∈ cells.head?, cell.isVisible

theorem Begins.startsVisible {rest : List Cell} (begins : Begins rest) : StartsVisible rest :=
  fun cell first => (begins cell first).1

/-- Characters that can stand neither at the border of a comment nor in its place. -/
structure Inside (holds : Char → Bool) : Prop where
  slash : holds '/' = false
  blank : ∀ c, isBlank c = true → holds c = false

theorem Inside.nonblank {holds : Char → Bool} (inside : Inside holds) {c : Char}
    (here : holds c = true) : isBlank c = false := by
  by_contra blank
  rw [inside.blank c (by simpa using blank)] at here
  exact absurd here (by decide)

theorem inside_isWordChar : Inside isWordChar :=
  ⟨by decide, fun _ blank => isWordChar_of_isBlank blank⟩

theorem inside_isAsciiNameChar : Inside isAsciiNameChar := by
  refine ⟨by decide, ?_⟩
  intro c blank
  have none : ∀ code ∈ blankCodes, isAsciiNameChar (Char.ofNat code) = false := by decide +kernel
  have here := none c.toNat (mem_blankCodes blank)
  rwa [Char.ofNat_toNat] at here

theorem inside_isNameStart : Inside isNameStart := by
  refine ⟨by decide, ?_⟩
  intro c blank
  have none : ∀ code ∈ blankCodes, isNameStart (Char.ofNat code) = false := by decide +kernel
  have here := none c.toNat (mem_blankCodes blank)
  rwa [Char.ofNat_toNat] at here

theorem Fenced.tail {cell : Cell} {rest : List Cell} (fenced : Fenced (cell :: rest)) :
    Fenced rest :=
  fenced.of_isInfix (List.suffix_cons cell rest).isInfix

theorem Fenced.slash {cell next : Cell} {rest : List Cell} (fenced : Fenced (cell :: next :: rest))
    (visible : cell.isVisible) (nonblank : isBlank cell.char = false)
    (hidden : next.hidden = true) :
    next.char = '/' := by
  have pair : [cell, next] <:+: cell :: next :: rest := ⟨[], rest, rfl⟩
  rcases fenced cell next pair visible hidden with slash | blank
  · exact slash
  · rw [nonblank] at blank
    exact absurd blank (by decide)

theorem startsVisible_cons {cell : Cell} (visible : cell.isVisible) (rest : List Cell) :
    StartsVisible (cell :: rest) := by
  intro other first
  obtain rfl := Option.some_inj.mp first
  exact visible

/-- A visible run of characters for which the test holds, up to one for which it fails in both
texts. -/
structure RunOf (holds : Char → Bool) (front back : List Cell) : Prop where
  run : ∀ cell ∈ front, cell.isVisible ∧ holds cell.char = true
  stops : ∀ cell ∈ back.head?, holds cell.char = false ∧ holds cell.veiled = false

theorem exists_run {holds : Char → Bool} (inside : Inside holds) {cells : List Cell}
    (fenced : Fenced cells) (starts : StartsVisible cells) :
    ∃ front back, cells = front ++ back ∧ RunOf holds front back := by
  induction cells with
  | nil => exact ⟨[], [], rfl, by simp, by simp⟩
  | cons cell rest ih =>
      have visible := starts cell rfl
      by_cases here : holds cell.char = true
      · have nonblank := inside.nonblank here
        have later : ∃ front back, rest = front ++ back ∧ RunOf holds front back := by
          cases rest with
          | nil => exact ⟨[], [], rfl, by simp, by simp⟩
          | cons next rest =>
              cases hidden : next.hidden with
              | false => exact ih fenced.tail (startsVisible_cons hidden rest)
              | true =>
                  refine ⟨[], next :: rest, rfl, by simp, ?_⟩
                  intro other first
                  obtain rfl := Option.some_inj.mp first
                  rw [fenced.slash visible nonblank hidden]
                  exact ⟨inside.slash, inside.blank _ (Cell.isBlank_veiled hidden)⟩
        obtain ⟨front, back, rfl, run, stops⟩ := later
        refine ⟨cell :: front, back, rfl, ?_, stops⟩
        intro other member
        rcases List.mem_cons.mp member with rfl | inFront
        · exact ⟨visible, here⟩
        · exact run other inFront
      · refine ⟨[], cell :: rest, rfl, by simp, ?_⟩
        intro other first
        obtain rfl := Option.some_inj.mp first
        rw [Bool.not_eq_true] at here
        exact ⟨here, by rwa [Cell.veiled_of_isVisible visible]⟩

namespace RunOf

variable {holds : Char → Bool} {front back : List Cell} (runOf : RunOf holds front back)

include runOf

theorem veiled_front : veiled front = shown front :=
  veiled_eq_shown fun cell member => (runOf.run cell member).1

theorem takeWhile_append {view : Cell → Char}
    (same : ∀ cell, view cell = cell.char ∨ view cell = cell.veiled) :
    (shown front ++ back.map view).takeWhile holds = shown front := by
  rw [List.takeWhile_append_of_pos]
  · cases back with
    | nil => simp
    | cons cell back =>
        obtain ⟨first, copied⟩ := runOf.stops cell rfl
        rcases same cell with original | copy
        · simp [original, first]
        · simp [copy, copied]
  · intro c member
    obtain ⟨cell, inFront, rfl⟩ := List.mem_map.mp member
    exact (runOf.run cell inFront).2

theorem takeWhile_shown : (shown (front ++ back)).takeWhile holds = shown front := by
  rw [shown_append]
  exact runOf.takeWhile_append fun _ => Or.inl rfl

theorem takeWhile_veiled : (veiled (front ++ back)).takeWhile holds = shown front := by
  rw [veiled_append, runOf.veiled_front]
  exact runOf.takeWhile_append fun _ => Or.inr rfl

theorem dropWhile_shown : (shown (front ++ back)).dropWhile holds = shown back := by
  have parts := List.takeWhile_append_dropWhile (p := holds) (l := shown (front ++ back))
  rw [runOf.takeWhile_shown, shown_append, List.append_cancel_left_eq] at parts
  rw [shown_append]
  exact parts

theorem dropWhile_veiled : (veiled (front ++ back)).dropWhile holds = veiled back := by
  have parts := List.takeWhile_append_dropWhile (p := holds) (l := veiled (front ++ back))
  rw [runOf.takeWhile_veiled, veiled_append, runOf.veiled_front,
    List.append_cancel_left_eq] at parts
  rw [veiled_append, runOf.veiled_front]
  exact parts

end RunOf

/-- No part of the token can stand at the border of a comment or in its place. -/
def Plain (token : Text) : Prop :=
  ∀ c ∈ token, isBlank c = false ∧ c ≠ '/'

instance (token : Text) : Decidable (Plain token) :=
  List.decidableBAll (fun c => isBlank c = false ∧ c ≠ '/') token

theorem Inside.plain_of_holds {holds : Char → Bool} (inside : Inside holds) {c : Char}
    (here : holds c = true) : isBlank c = false ∧ c ≠ '/' := by
  refine ⟨inside.nonblank here, ?_⟩
  rintro rfl
  rw [inside.slash] at here
  exact absurd here (by decide)

theorem Inside.plain_takeWhile {holds : Char → Bool} (inside : Inside holds) (text : Text) :
    Plain (text.takeWhile holds) := by
  intro c member
  exact inside.plain_of_holds (List.mem_takeWhile_imp member)

def TokenAt (token : Text) (cells : List Cell) : Prop :=
  ∃ front back, cells = front ++ back ∧ (∀ cell ∈ front, cell.isVisible) ∧ shown front = token

theorem TokenAt.prefix_shown {token : Text} {cells : List Cell} (found : TokenAt token cells) :
    token <+: shown cells := by
  obtain ⟨front, back, rfl, -, rfl⟩ := found
  rw [shown_append]
  exact List.prefix_append _ _

theorem TokenAt.prefix_veiled {token : Text} {cells : List Cell} (found : TokenAt token cells) :
    token <+: veiled cells := by
  obtain ⟨front, back, rfl, visible, rfl⟩ := found
  rw [veiled_append, veiled_eq_shown visible]
  exact List.prefix_append _ _

theorem tokenAt_nil (cells : List Cell) : TokenAt [] cells :=
  ⟨[], cells, rfl, by simp, rfl⟩

theorem TokenAt.cons {token : Text} {cell : Cell} {cells : List Cell} (visible : cell.isVisible)
    (found : TokenAt token cells) : TokenAt (cell.char :: token) (cell :: cells) := by
  obtain ⟨front, back, rfl, others, rfl⟩ := found
  refine ⟨cell :: front, back, rfl, ?_, rfl⟩
  intro other member
  rcases List.mem_cons.mp member with rfl | inFront
  · exact visible
  · exact others other inFront

theorem tokenAt_of_veiled {token : Text} (plain : Plain token) {cells : List Cell}
    (found : token <+: veiled cells) : TokenAt token cells := by
  induction token generalizing cells with
  | nil => exact tokenAt_nil cells
  | cons c token ih =>
      cases cells with
      | nil => simp at found
      | cons cell cells =>
          rw [veiled_cons, List.cons_prefix_cons] at found
          have nonblank : isBlank cell.veiled = false := by
            rw [← found.1]
            exact (plain c List.mem_cons_self).1
          have visible := Cell.isVisible_of_veiled nonblank
          rw [found.1, Cell.veiled_of_isVisible visible]
          exact (ih (fun other member => plain other (List.mem_cons_of_mem _ member)) found.2).cons
            visible

theorem tokenAt_of_shown {token : Text} (plain : Plain token) {cells : List Cell}
    (fenced : Fenced cells) (starts : StartsVisible cells) (found : token <+: shown cells) :
    TokenAt token cells := by
  induction token generalizing cells with
  | nil => exact tokenAt_nil cells
  | cons c token ih =>
      cases cells with
      | nil => simp at found
      | cons cell cells =>
          rw [shown_cons, List.cons_prefix_cons] at found
          obtain ⟨rfl, later⟩ := found
          have visible := starts cell rfl
          have rest : Plain token := fun other member => plain other (List.mem_cons_of_mem _ member)
          refine TokenAt.cons visible ?_
          cases token with
          | nil => exact tokenAt_nil cells
          | cons d token =>
              cases cells with
              | nil => simp at later
              | cons next cells =>
                  apply ih rest fenced.tail _ later
                  apply startsVisible_cons
                  by_contra hidden
                  have slash := fenced.slash visible (plain _ List.mem_cons_self).1
                    (by simpa [Cell.isVisible] using hidden)
                  rw [shown_cons, List.cons_prefix_cons, slash] at later
                  exact (rest d List.mem_cons_self).2 later.1

theorem isPrefixOf_veiled {token : Text} (plain : Plain token) {cells : List Cell}
    (fenced : Fenced cells) (starts : StartsVisible cells) :
    token.isPrefixOf (veiled cells) = token.isPrefixOf (shown cells) := by
  rw [Bool.eq_iff_iff, List.isPrefixOf_iff_prefix, List.isPrefixOf_iff_prefix]
  constructor
  · intro found
    exact (tokenAt_of_veiled plain found).prefix_shown
  · intro found
    exact (tokenAt_of_shown plain fenced starts found).prefix_veiled

theorem Fenced.slash_behind {front back : List Cell} {next : Cell}
    (fenced : Fenced (front ++ next :: back)) (starts : StartsVisible (front ++ next :: back))
    (nonblank : ∀ cell ∈ front, cell.isVisible ∧ isBlank cell.char = false)
    (hidden : next.hidden = true) : next.char = '/' := by
  cases last : front.getLast? with
  | none =>
      obtain rfl := List.getLast?_eq_none_iff.mp last
      have visible : next.hidden = false := starts next rfl
      rw [visible] at hidden
      exact absurd hidden (by decide)
  | some cell =>
      obtain ⟨init, rfl⟩ := List.getLast?_eq_some_iff.mp last
      have within : cell :: next :: back <:+: init ++ [cell] ++ next :: back :=
        ⟨init, [], by simp⟩
      obtain ⟨visible, seen⟩ := nonblank cell (by simp)
      exact (fenced.of_isInfix within).slash visible seen hidden

/-- Behind visible characters that are not blank, the next one answers such a test alike in both
texts. -/
theorem head?_any_veiled {holds : Char → Bool} (inside : Inside holds) {front back : List Cell}
    (fenced : Fenced (front ++ back)) (starts : StartsVisible (front ++ back))
    (nonblank : ∀ cell ∈ front, cell.isVisible ∧ isBlank cell.char = false) :
    (veiled back).head?.any holds = (shown back).head?.any holds := by
  cases back with
  | nil => rfl
  | cons next back =>
      rw [veiled_cons, shown_cons, List.head?_cons, List.head?_cons, Option.any_some,
        Option.any_some]
      cases hidden : next.hidden with
      | false => rw [Cell.veiled_of_isVisible hidden]
      | true =>
          rw [inside.blank _ (Cell.isBlank_veiled hidden),
            fenced.slash_behind starts nonblank hidden, inside.slash]

theorem previous_any_veiled {holds : Char → Bool} (inside : Inside holds) {allowed : Char → Prop}
    {previous : Option Cell} {cells : List Cell}
    (bordered : Bordered allowed (previous.toList ++ cells)) (begins : Begins cells)
    (nonempty : cells ≠ []) :
    (previous.map Cell.veiled).any holds = (previous.map Cell.char).any holds := by
  cases previous with
  | none => rfl
  | some cell =>
      obtain ⟨next, rest, rfl⟩ := List.exists_cons_of_ne_nil nonempty
      obtain ⟨visible, nonblank⟩ := begins next rfl
      rw [Option.map_some, Option.map_some, Option.any_some, Option.any_some]
      cases hidden : cell.hidden with
      | false => rw [Cell.veiled_of_isVisible hidden]
      | true =>
          rw [inside.blank _ (Cell.isBlank_veiled hidden)]
          have slash : cell.char = '/' := by
            rcases bordered.closes cell next ⟨[], rest, rfl⟩ hidden visible with slash | lineFeed
            · exact slash
            · rw [lineFeed] at nonblank
              exact absurd nonblank (by decide)
          rw [slash, inside.slash]

theorem any_congr_of_mem {α : Type} {items : List α} {holds other : α → Bool}
    (same : ∀ item ∈ items, holds item = other item) : items.any holds = items.any other := by
  rw [Bool.eq_iff_iff, List.any_eq_true, List.any_eq_true]
  apply exists_congr
  intro item
  apply and_congr_right
  intro listed
  rw [same item listed]

theorem exists_last {front : List Cell} (nonempty : shown front ≠ []) :
    ∃ init last, front = init ++ [last] := by
  rcases List.eq_nil_or_concat front with rfl | ⟨init, last, rfl⟩
  · exact absurd rfl nonempty
  · exact ⟨init, last, List.concat_eq_append⟩

/-! Inside of a hidden comment. -/

/-- A token that begins in a hidden comment ends in it. -/
theorem Bordered.hidden_token {allowed : Char → Prop} {token : Text} (plain : Plain token)
    {cell : Cell} {cells : List Cell} (bordered : Bordered allowed (cell :: cells))
    (hidden : cell.hidden = true) (found : token <+: shown (cell :: cells)) :
    ∃ front back, cell :: cells = front ++ back ∧ (∀ other ∈ front, other.hidden = true) ∧
      shown front = token := by
  induction token generalizing cell cells with
  | nil => exact ⟨[], cell :: cells, rfl, by simp, rfl⟩
  | cons c token ih =>
      rw [shown_cons, List.cons_prefix_cons] at found
      obtain ⟨rfl, later⟩ := found
      have rest : Plain token := fun other member => plain other (List.mem_cons_of_mem _ member)
      have further : ∃ front back, cells = front ++ back ∧
          (∀ other ∈ front, other.hidden = true) ∧ shown front = token := by
        cases token with
        | nil => exact ⟨[], cells, rfl, by simp, rfl⟩
        | cons d token =>
            cases cells with
            | nil => simp at later
            | cons next cells =>
                refine ih rest (bordered.of_isInfix (List.suffix_cons cell _).isInfix) ?_ later
                -- A comment ends behind a slash or before a line feed, and the token has neither.
                by_contra visible
                rcases bordered.closes cell next ⟨[], cells, rfl⟩ hidden
                  (eq_false_of_ne_true visible) with slash | lineFeed
                · exact (plain _ List.mem_cons_self).2 slash
                · have here := (List.cons_prefix_cons.mp later).1
                  have nonblank := (rest d List.mem_cons_self).1
                  rw [here, lineFeed] at nonblank
                  exact absurd nonblank (by decide)
      obtain ⟨front, back, rfl, others, rfl⟩ := further
      refine ⟨cell :: front, back, rfl, ?_, rfl⟩
      intro other member
      rcases List.mem_cons.mp member with rfl | inFront
      · exact hidden
      · exact others other inFront

/-- Cells before a hidden one are hidden too if no slash stands between. -/
theorem Bordered.hidden_before {allowed : Char → Prop} {gap : List Cell} {last : Cell}
    (bordered : Bordered allowed (gap ++ [last])) (hidden : last.hidden = true)
    (slashless : ∀ cell ∈ gap ++ [last], cell.char ≠ '/') : ∀ cell ∈ gap, cell.hidden = true := by
  induction gap with
  | nil => simp
  | cons first gap ih =>
      have later := ih (bordered.of_isInfix (List.suffix_cons first _).isInfix)
        fun cell member => slashless cell (List.mem_cons_of_mem _ member)
      have all : ∀ cell ∈ gap ++ [last], cell.hidden = true := by
        intro cell member
        rcases List.mem_append.mp member with inGap | isLast
        · exact later cell inGap
        · rw [List.mem_singleton.mp isLast]
          exact hidden
      obtain ⟨next, more, split⟩ := List.exists_cons_of_ne_nil (l := gap ++ [last]) (by simp)
      intro cell member
      rcases List.mem_cons.mp member with rfl | inGap
      · by_contra visible
        have pair : [cell, next] <:+: cell :: gap ++ [last] := ⟨[], more, by simp [split]⟩
        have slash := bordered.opens cell next pair (eq_false_of_ne_true visible)
          (all next (by simp [split]))
        exact slashless next (List.mem_cons_of_mem _ (by simp [split])) slash
      · exact later cell inGap

theorem isBlank_veiled_of_shown {gap : List Cell}
    (blanks : ∀ c ∈ shown gap, isBlank c = true) : ∀ cell ∈ gap, isBlank cell.veiled = true := by
  intro cell member
  cases hidden : cell.hidden with
  | true => exact Cell.isBlank_veiled hidden
  | false =>
      rw [Cell.veiled_of_isVisible hidden]
      exact blanks _ (List.mem_map_of_mem member)

end HardcodedText
