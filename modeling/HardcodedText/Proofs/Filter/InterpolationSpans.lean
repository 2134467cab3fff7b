import HardcodedText.Proofs.Filter.Interpolation
import HardcodedText.Proofs.Scanner.Moments

/-!
Interpolations as the scanner and as the filters see them. For the scanner a dollar sign behind an
odd run of backslashes begins nothing, while stripping a content pays no heed to backslashes. Both
take the same characters for interpolations, unless such a dollar sign stands before a brace.
-/

namespace HardcodedText

namespace Mode

def inInterpolation : Mode → Bool
  | interpolation .. => true
  | _ => false

def isEscaped : Mode → Bool
  | string _ _ escaped => escaped
  | _ => false

end Mode

namespace Moment

def interpolates (moment : Moment) : Bool :=
  moment.before.inInterpolation || moment.after.inInterpolation

def span (moment : Moment) : Span :=
  ⟨moment.index, moment.next⟩

end Moment

/-- Whether one of the moments reads the character at the place as a part of an interpolation. -/
def interpolated (moments : List Moment) (place : Nat) : Bool :=
  moments.any fun moment => moment.interpolates && moment.span.contains place

def leaveOut (omitted : Nat → Bool) (index : Nat) (text : Text) : Text :=
  ((text.zipIdx index).filter fun entry => !omitted entry.2).map Prod.fst

namespace StringLiteral

def uninterpolated (literal : StringLiteral) (text : Text) : Text :=
  leaveOut (interpolated (run text)) literal.contentStart literal.content

/-- Between the quotes the scanner passes over an escaped dollar sign that stands before a brace. -/
def EscapesBrace (literal : StringLiteral) (text : Text) : Prop :=
  ∃ moment ∈ run text,
    literal.contentStart ≤ moment.index ∧
    moment.index < literal.contentStart + literal.content.length ∧
    moment.before.isEscaped = true ∧ ['$', '\x7b'] <+: text.drop moment.index

instance (literal : StringLiteral) (text : Text) : Decidable (literal.EscapesBrace text) :=
  inferInstanceAs (Decidable (∃ _ ∈ _, _ ∧ _ ∧ _ ∧ _))

end StringLiteral

theorem leaveOut_congr {left right : Nat → Bool} {index : Nat} {text : Text}
    (same : ∀ place, index ≤ place → place < index + text.length → left place = right place) :
    leaveOut left index text = leaveOut right index text := by
  rw [leaveOut, leaveOut]
  congr 1
  apply List.filter_congr
  rintro ⟨c, place⟩ member
  have bounds := List.mem_zipIdx member
  simp only
  rw [same place bounds.1 bounds.2.1]

theorem leaveOut_append (omitted : Nat → Bool) (index : Nat) (front back : Text) :
    leaveOut omitted index (front ++ back) =
      leaveOut omitted index front ++ leaveOut omitted (index + front.length) back := by
  rw [leaveOut, List.zipIdx_append, List.filter_append, List.map_append]
  rfl

theorem leaveOut_none {omitted : Nat → Bool} {index : Nat} {text : Text}
    (none : ∀ place, index ≤ place → place < index + text.length → omitted place = false) :
    leaveOut omitted index text = text := by
  have same : leaveOut omitted index text = leaveOut (fun _ => false) index text :=
    leaveOut_congr none
  rw [same]
  simp [leaveOut]

theorem leaveOut_all {omitted : Nat → Bool} {index : Nat} {text : Text}
    (all : ∀ place, index ≤ place → place < index + text.length → omitted place = true) :
    leaveOut omitted index text = [] := by
  have same : leaveOut omitted index text = leaveOut (fun _ => true) index text :=
    leaveOut_congr all
  rw [same]
  simp [leaveOut]

theorem interpolated_append (front back : List Moment) (place : Nat) :
    interpolated (front ++ back) place = (interpolated front place || interpolated back place) :=
  List.any_append

theorem interpolated_eq_false {moments : List Moment} {place : Nat}
    (none : ∀ moment ∈ moments, moment.interpolates = true →
      place < moment.index ∨ moment.next ≤ place) :
    interpolated moments place = false := by
  rw [interpolated, List.any_eq_false]
  intro moment member covers
  rw [Bool.and_eq_true, Span.contains, Bool.and_eq_true, decide_eq_true_eq, decide_eq_true_eq]
    at covers
  have apart := none moment member covers.1
  simp only [Moment.span] at covers
  omega

theorem leaveOut_before {earlier moments : List Moment} {index : Nat}
    (before : ∀ moment ∈ earlier, moment.next ≤ index) (text : Text) :
    leaveOut (interpolated (earlier ++ moments)) index text =
      leaveOut (interpolated moments) index text := by
  apply leaveOut_congr
  intro place first _
  have none : interpolated earlier place = false := by
    apply interpolated_eq_false
    intro moment member _
    exact Or.inr (Nat.le_trans (before moment member) first)
  rw [interpolated_append, none, Bool.false_or]

theorem leaveOut_behind {moments later : List Moment} {index : Nat} {text : Text}
    (behind : ∀ moment ∈ later, index + text.length ≤ moment.index) :
    leaveOut (interpolated (moments ++ later)) index text =
      leaveOut (interpolated moments) index text := by
  apply leaveOut_congr
  intro place _ last
  have none : interpolated later place = false := by
    apply interpolated_eq_false
    intro moment member _
    exact Or.inl (Nat.lt_of_lt_of_le last (behind moment member))
  rw [interpolated_append, none, Bool.or_false]

/-! What the scanner does on the way over an item. -/

section Items

variable {delimiter : Delimiter} {start : Nat}

theorem momentsOver_escape (index : Nat) (c : Char) (rest : Text) :
    (Cursor.inLiteral delimiter start).momentsOver index ['\\', c] rest =
      [⟨index, .string delimiter start false, .none, index + 1, .string delimiter start true⟩,
        ⟨index + 1, .string delimiter start true, .none, index + 2,
          .string delimiter start false⟩] := by
  have first : (Mode.string delimiter start false).step index '\\' ([c] ++ rest) =
      ⟨.none, 1, .string delimiter start true⟩ := Cursor.step_backslash false index _
  rw [← List.singleton_append, Cursor.momentsOver_append, Cursor.inLiteral,
    (Cursor.passes_step rfl rfl first).arrives, Cursor.momentsOver_singleton rfl,
    Cursor.momentsOver_singleton rfl, first, Cursor.step_escaped]
  rfl

theorem momentsOver_plain {c : Char} {rest : Text}
    (fits : (ContentItem.plain c).Fits delimiter.text rest) (index : Nat) :
    (Cursor.inLiteral delimiter start).momentsOver index [c] rest =
      [⟨index, .string delimiter start false, .none, index + 1,
        .string delimiter start false⟩] := by
  rw [Cursor.inLiteral, Cursor.momentsOver_singleton rfl, Cursor.step_plain fits]
  rfl

/-- The steps over the code of an interpolation begin inside of it. -/
theorem before_of_mem_code {level last : Nat} {code : Text}
    (levels : levelAfter '\x7b' '\x7d' level code = some last) {index : Nat} {rest : Text}
    {moment : Moment}
    (member : moment ∈
      (⟨.interpolation delimiter start level, 0⟩ : Cursor).momentsOver index code rest) :
    ∃ depth, moment.before = .interpolation delimiter start depth := by
  induction code generalizing level index with
  | nil => simp [Cursor.momentsOver] at member
  | cons c code ih =>
      rw [levelAfter_cons, Option.bind_eq_some_iff] at levels
      obtain ⟨next, first, later⟩ := levels
      rw [← List.singleton_append, Cursor.momentsOver_append, List.mem_append,
        Cursor.momentsOver_singleton rfl, List.mem_singleton,
        (Cursor.passes_brace first index (code ++ rest)).arrives] at member
      rcases member with rfl | behind
      · exact ⟨level, rfl⟩
      · exact ih later behind

theorem interpolates_of_mem {code : Text} (balanced : Balanced '\x7b' '\x7d' code) {index : Nat}
    {rest : Text} {moment : Moment}
    (member : moment ∈ (Cursor.inLiteral delimiter start).momentsOver index
      (ContentItem.interpolation code).text rest) :
    moment.interpolates = true ∧ moment.before.isEscaped = false := by
  have inside (depth : Nat) (within : moment.before = .interpolation delimiter start depth) :
      moment.interpolates = true ∧ moment.before.isEscaped = false := by
    rw [Moment.interpolates, within]
    exact ⟨rfl, rfl⟩
  rw [balanced_iff (by decide)] at balanced
  have shape : (ContentItem.interpolation code).text = ['$', '\x7b'] ++ (code ++ ['\x7d']) := rfl
  rw [shape, Cursor.momentsOver_append, List.mem_append,
    (Cursor.passes_interpolation_opening index _).arrives, Cursor.momentsOver_append,
    List.mem_append, (Cursor.passes_code balanced _ _).arrives,
    Cursor.momentsOver_singleton rfl] at member
  rcases member with opening | within | closing
  · obtain rfl : moment = ⟨index, .string delimiter start false, .none, index + 2,
        .interpolation delimiter start 0⟩ := by
      simpa [Cursor.momentsOver, Cursor.moments, Cursor.next, Cursor.inLiteral, Mode.settling,
        Mode.settle, Mode.consume, Mode.step, stepString, Moment.ofStep] using opening
    exact ⟨rfl, rfl⟩
  · obtain ⟨depth, before⟩ := before_of_mem_code balanced within
    exact inside depth before
  · rw [List.mem_singleton] at closing
    exact inside 0 (by rw [closing]; rfl)

theorem leaveOut_item {item : ContentItem} {rest : Text} (fits : item.Fits delimiter.text rest)
    (index : Nat) :
    leaveOut (interpolated ((Cursor.inLiteral delimiter start).momentsOver index item.text rest))
      index item.text = item.kept := by
  cases item with
  | escape c =>
      apply leaveOut_none
      intro place _ _
      rw [ContentItem.text, momentsOver_escape]
      rfl
  | plain c =>
      apply leaveOut_none
      intro place _ _
      rw [ContentItem.text, momentsOver_plain fits]
      rfl
  | interpolation code =>
      apply leaveOut_all
      intro place first last
      obtain ⟨moment, member, reached, before⟩ : ∃ moment ∈
          (Cursor.inLiteral delimiter start).momentsOver index
            (ContentItem.interpolation code).text rest,
          moment.index ≤ place ∧ place < moment.next := Cursor.exists_moment_at first last
      rw [interpolated, List.any_eq_true]
      refine ⟨moment, member, ?_⟩
      rw [(interpolates_of_mem fits member).1, Bool.true_and, Span.contains, Bool.and_eq_true]
      exact ⟨decide_eq_true reached, decide_eq_true before⟩

/-- Of the items the scanner leaves what is no interpolation. -/
theorem leaveOut_contentText {items : List ContentItem} {rest : Text}
    (fit : ItemsFit delimiter.text rest items) (index : Nat) :
    leaveOut (interpolated ((Cursor.inLiteral delimiter start).momentsOver index
      (contentText items) rest)) index (contentText items) = keptText items := by
  induction items generalizing index with
  | nil => rfl
  | cons item later ih =>
      have arrives : (Cursor.inLiteral delimiter start).advance index item.text
          (contentText later ++ rest) = Cursor.inLiteral delimiter start :=
        (Cursor.passes_item fit.1 index).arrives
      rw [contentText_cons, Cursor.momentsOver_append, arrives, leaveOut_append, leaveOut_behind,
        leaveOut_before, leaveOut_item fit.1, ih fit.2, keptText_cons]
      · intro moment member
        exact Cursor.next_le_of_mem_momentsOver (by rw [arrives]; rfl) member
      · intro moment member
        exact Cursor.le_index_of_mem_momentsOver member

def ItemsEscapeBrace : List ContentItem → Prop
  | [] => False
  | item :: later =>
      (item = .escape '$' ∧ ['\x7b'] <+: contentText later) ∨ ItemsEscapeBrace later

theorem escaped_item_iff (start : Nat) {item : ContentItem} {text following : Text} {index : Nat}
    (fits : item.Fits delimiter.text following) (read : text.drop index = item.text ++ following) :
    (∃ moment ∈ (Cursor.inLiteral delimiter start).momentsOver index item.text following,
        moment.before.isEscaped = true ∧ ['$', '\x7b'] <+: text.drop moment.index) ↔
      item = .escape '$' ∧ ['\x7b'] <+: following := by
  cases item with
  | escape c =>
      have escaped : text.drop (index + 1) = c :: following := by
        rw [← List.drop_drop, read]
        rfl
      rw [ContentItem.text, momentsOver_escape]
      simp only [List.mem_cons, List.not_mem_nil, or_false, exists_eq_or_imp, exists_eq_left,
        Mode.isEscaped, Bool.false_eq_true, false_and, false_or, true_and, escaped,
        List.cons_prefix_cons, ContentItem.escape.injEq]
      rw [eq_comm]
  | plain c =>
      rw [ContentItem.text, momentsOver_plain fits]
      simp [Mode.isEscaped]
  | interpolation code =>
      constructor
      · rintro ⟨moment, member, escaped, -⟩
        rw [(interpolates_of_mem fits member).2] at escaped
        exact absurd escaped (by decide)
      · rintro ⟨same, -⟩
        exact absurd same (by simp)

theorem escaped_items_iff {items : List ContentItem} {text rest : Text} {index : Nat}
    (fit : ItemsFit delimiter.text rest items) (noBrace : rest.head? ≠ some '\x7b')
    (read : text.drop index = contentText items ++ rest) :
    (∃ moment ∈ (Cursor.inLiteral delimiter start).momentsOver index (contentText items) rest,
        moment.before.isEscaped = true ∧ ['$', '\x7b'] <+: text.drop moment.index) ↔
      ItemsEscapeBrace items := by
  induction items generalizing index with
  | nil => simp [contentText, Cursor.momentsOver, ItemsEscapeBrace]
  | cons item later ih =>
      have arrives : (Cursor.inLiteral delimiter start).advance index item.text
          (contentText later ++ rest) = Cursor.inLiteral delimiter start :=
        (Cursor.passes_item fit.1 index).arrives
      rw [contentText_cons, List.append_assoc] at read
      have behind : text.drop (index + item.text.length) = contentText later ++ rest := by
        rw [← List.drop_drop, read, List.drop_left]
      have begins : ['\x7b'] <+: contentText later ++ rest ↔ ['\x7b'] <+: contentText later := by
        rw [← head?_eq_some_iff_prefix, ← head?_eq_some_iff_prefix, List.head?_append]
        cases contentText later with
        | nil => simpa using noBrace
        | cons c _ => rfl
      rw [contentText_cons, Cursor.momentsOver_append, arrives, ItemsEscapeBrace, ← begins,
        ← escaped_item_iff start fit.1 read, ← ih fit.2 behind]
      simp only [List.mem_append, or_and_right, exists_or]

end Items

/-! What stripping does. -/

theorem dropBraced_head {quotes rest : Text} {item : ContentItem} {later : List ContentItem}
    (fits : item.Fits quotes (contentText later ++ rest))
    (harmless : ¬ (item = .escape '$' ∧ ['\x7b'] <+: contentText later)) :
    dropBraced none (item.text ++ contentText later) =
      item.kept ++ dropBraced none (contentText later) := by
  cases item with
  | interpolation code => exact dropBraced_interpolation fits _
  | plain c =>
      have plain : ¬ ['$', '\x7b'] <+: c :: contentText later := by
        intro opens
        exact fits.2.1 (opens.trans (List.prefix_append (c :: contentText later) rest))
      exact dropBraced_plain plain
  | escape c =>
      have backslash : ¬ ['$', '\x7b'] <+: '\\' :: c :: contentText later := by
        simp [List.cons_prefix_cons]
      have plain : ¬ ['$', '\x7b'] <+: c :: contentText later := by
        rw [List.cons_prefix_cons]
        rintro ⟨rfl, brace⟩
        exact harmless ⟨rfl, brace⟩
      have first := dropBraced_plain backslash
      rw [dropBraced_plain plain] at first
      exact first

theorem dropBraced_escaped {quotes rest : Text} {later : List ContentItem}
    (fit : ItemsFit quotes rest later) (brace : ['\x7b'] <+: contentText later) :
    ∃ items, later = .plain '\x7b' :: items ∧
      dropBraced none ((ContentItem.escape '$').text ++ contentText later) =
        '\\' :: dropBraced (some 0) (contentText items) := by
  cases later with
  | nil => simp [contentText] at brace
  | cons item items =>
      cases item with
      | escape c => simp [contentText, ContentItem.text, List.cons_prefix_cons] at brace
      | interpolation code => simp [contentText, ContentItem.text, List.cons_prefix_cons] at brace
      | plain c =>
          obtain rfl : '\x7b' = c := by
            simpa [contentText, ContentItem.text, List.cons_prefix_cons] using brace
          refine ⟨items, rfl, ?_⟩
          have backslash (more : Text) : ¬ ['$', '\x7b'] <+: '\\' :: more := by
            simp [List.cons_prefix_cons]
          exact (dropBraced_plain (backslash _)).trans
            (congrArg _ (dropBraced_opening (contentText items)))

/-- Inside of an interpolation stripping keeps nothing of an item. -/
theorem dropBraced_item {quotes following : Text} {item : ContentItem}
    (fits : item.Fits quotes following) (level : Nat) :
    ∃ next, ∀ rest, dropBraced (some level) (item.text ++ rest) = dropBraced next rest := by
  have single (level : Nat) (c : Char) :
      ∃ next, ∀ rest, dropBraced (some level) (c :: rest) = dropBraced next rest := by
    cases levels : levelAfter '\x7b' '\x7d' level [c] with
    | some next => exact ⟨some next, dropBraced_brace levels⟩
    | none =>
        obtain ⟨rfl, rfl⟩ := levelAfter_singleton_eq_none levels
        exact ⟨none, dropBraced_closing⟩
  cases item with
  | plain c => exact single level c
  | escape c =>
      obtain ⟨next, steps⟩ := single level c
      have backslash (rest : Text) :
          dropBraced (some level) ('\\' :: rest) = dropBraced (some level) rest :=
        dropBraced_brace rfl rest
      exact ⟨next, fun rest => (backslash _).trans (steps rest)⟩
  | interpolation code =>
      have balanced := (balanced_iff (by decide) code).mp fits
      have deeper := levelAfter_add (by decide) balanced (level + 1)
      have dollar (rest : Text) :
          dropBraced (some level) ('$' :: rest) = dropBraced (some level) rest :=
        dropBraced_brace rfl rest
      have opening (rest : Text) :
          dropBraced (some level) ('\x7b' :: rest) = dropBraced (some (level + 1)) rest :=
        dropBraced_brace rfl rest
      have closing (rest : Text) :
          dropBraced (some (level + 1)) ('\x7d' :: rest) = dropBraced (some level) rest :=
        dropBraced_brace rfl rest
      refine ⟨some level, fun rest => ?_⟩
      simp only [ContentItem.text, List.cons_append, List.append_assoc, List.nil_append]
      rw [Nat.zero_add] at deeper
      rw [dollar, opening, dropBraced_code deeper, closing]

/-- Of the braces outside of the interpolations stripping leaves some. -/
theorem count_dropBraced_le {quotes rest : Text} (length : Nat) :
    ∀ (items : List ContentItem) (depth : Option Nat), items.length = length →
      ItemsFit quotes rest items →
      (dropBraced depth (contentText items)).count '\x7b' ≤ (keptText items).count '\x7b' := by
  -- An escaped dollar sign takes the item behind it along, so the induction is on the number of
  -- items.
  induction length using Nat.strongRecOn with
  | ind length ih =>
      intro items depth size fit
      cases items with
      | nil => simp [contentText, dropBraced]
      | cons item later =>
          rw [List.length_cons] at size
          have below (next : Option Nat) := ih later.length (by omega) later next rfl fit.2
          rw [contentText_cons, keptText_cons, List.count_append]
          cases depth with
          | some level =>
              obtain ⟨next, steps⟩ := dropBraced_item fit.1 level
              have bound := below next
              rw [steps]
              omega
          | none =>
              by_cases escaped : item = .escape '$' ∧ ['\x7b'] <+: contentText later
              · obtain ⟨rfl, brace⟩ := escaped
                obtain ⟨items, rfl, stripped⟩ := dropBraced_escaped fit.2 brace
                rw [List.length_cons] at size
                have bound := ih items.length (by omega) items (some 0) rfl fit.2.2
                rw [stripped, List.count_cons_of_ne (by decide), keptText_cons, List.count_append]
                omega
              · have bound := below none
                rw [dropBraced_head fit.1 escaped, List.count_append]
                omega

theorem count_dropBraced_lt {quotes rest : Text} {items : List ContentItem}
    (fit : ItemsFit quotes rest items) (escapes : ItemsEscapeBrace items) :
    (dropBraced none (contentText items)).count '\x7b' < (keptText items).count '\x7b' := by
  induction items with
  | nil => exact absurd escapes id
  | cons item later ih =>
      rw [contentText_cons, keptText_cons, List.count_append]
      by_cases here : item = .escape '$' ∧ ['\x7b'] <+: contentText later
      · obtain ⟨rfl, brace⟩ := here
        obtain ⟨items, rfl, stripped⟩ := dropBraced_escaped fit.2 brace
        have bound := count_dropBraced_le items.length items (some 0) rfl fit.2.2
        rw [stripped, List.count_cons_of_ne (by decide), keptText_cons, List.count_append]
        have one : ((ContentItem.plain '\x7b').kept).count '\x7b' = 1 := by decide
        omega
      · have bound := ih fit.2 (escapes.resolve_left here)
        rw [dropBraced_head fit.1 here, List.count_append]
        omega

theorem dropBraced_contentText {quotes rest : Text} {items : List ContentItem}
    (fit : ItemsFit quotes rest items) (harmless : ¬ ItemsEscapeBrace items) :
    dropBraced none (contentText items) = keptText items := by
  induction items with
  | nil => rfl
  | cons item later ih =>
      rw [ItemsEscapeBrace, not_or] at harmless
      rw [contentText_cons, keptText_cons, dropBraced_head fit.1 harmless.1, ih fit.2 harmless.2]

/-- There is no brace in a reference. -/
theorem count_dropReferencesFrom {skip : Nat} {text : Text} (within : skip ≤ referenceWidth text) :
    (dropReferencesFrom skip text).count '\x7b' = text.count '\x7b' := by
  fun_induction dropReferencesFrom skip text with
  | case1 => rfl
  | case2 c rest skip ih =>
      rw [referenceWidth] at within
      split at within
      next inside =>
        have noBrace : c ≠ '\x7b' := by
          rintro rfl
          exact absurd inside (by simp [isWordChar]; decide)
        rw [ih (by omega), List.count_cons_of_ne noBrace]
      next => omega
  | case3 c rest refers ih =>
      have dollar : c = '$' := by
        rw [Bool.and_eq_true, beq_iff_eq] at refers
        exact refers.1
      rw [ih (Nat.le_refl _), dollar, List.count_cons_of_ne (by decide)]
  | case4 c rest _ ih =>
      rw [List.count_cons, List.count_cons, ih (Nat.zero_le _)]

theorem count_dropReferences (text : Text) :
    (dropReferences text).count '\x7b' = text.count '\x7b' :=
  count_dropReferencesFrom (Nat.zero_le _)

theorem stripInterpolation_contentText_iff {quotes rest : Text} {items : List ContentItem}
    (fit : ItemsFit quotes rest items) :
    stripInterpolation (contentText items) = dropReferences (keptText items) ↔
      ¬ ItemsEscapeBrace items := by
  constructor
  -- No reference has a brace, so the texts still differ in their braces without the references.
  · intro same escapes
    have fewer := count_dropBraced_lt fit escapes
    have braces := congrArg (List.count '\x7b') same
    rw [stripInterpolation, count_dropReferences, count_dropReferences] at braces
    omega
  · intro harmless
    rw [stripInterpolation, dropBraced_contentText fit harmless]

namespace StringLiteral.Spelled

variable {literal : StringLiteral} {text front rest : Text} {items : List ContentItem}

theorem uninterpolated_eq (spelled : literal.Spelled text front items rest) :
    literal.uninterpolated text = keptText items := by
  obtain ⟨earlier, later, ran, before, behind⟩ := spelled.exists_moments
  rw [uninterpolated, spelled.content_eq, ran, leaveOut_behind behind,
    leaveOut_before fun moment member => (before moment member).2,
    leaveOut_contentText spelled.fit]

theorem escapesBrace_iff (spelled : literal.Spelled text front items rest) :
    literal.EscapesBrace text ↔ ItemsEscapeBrace items := by
  obtain ⟨earlier, later, ran, before, behind⟩ := spelled.exists_moments
  have noBrace : (literal.delimiter.text ++ rest).head? ≠ some '\x7b' := by
    obtain ⟨more, quotes⟩ := Cursor.exists_text_cons literal.delimiter
    have quoted := spelled.quoted
    rw [quotes]
    intro brace
    have same : literal.delimiter.quote = '\x7b' := by simpa using brace
    rw [same] at quoted
    exact absurd quoted (by decide)
  rw [← escaped_items_iff spelled.fit noBrace spelled.drop_contentStart, EscapesBrace, ran,
    spelled.content_eq]
  constructor
  · rintro ⟨moment, member, first, last, escaped⟩
    rw [List.mem_append, List.mem_append] at member
    rcases member with (outside | inside) | outside
    · have bound := (before moment outside).1
      omega
    · exact ⟨moment, inside, escaped⟩
    · have bound := behind moment outside
      omega
  · rintro ⟨moment, inside, escaped⟩
    exact ⟨moment, List.mem_append_left _ (List.mem_append_right _ inside),
      Cursor.le_index_of_mem_momentsOver inside, Cursor.momentsOver_bounds inside, escaped⟩

end StringLiteral.Spelled

/-- Stripping a literal of the text takes away what the scanner reads as interpolations and then the
references, if and only if the literal has no escaped dollar sign before a brace. -/
theorem stripped_as_scanned_iff {text : Text} {literal : StringLiteral}
    (member : literal ∈ stringLiterals text) :
    stripInterpolation literal.content = dropReferences (literal.uninterpolated text) ↔
      ¬ literal.EscapesBrace text := by
  obtain ⟨front, items, rest, spelled⟩ := StringLiteral.exists_spelled member
  rw [spelled.uninterpolated_eq, spelled.escapesBrace_iff, spelled.content_eq,
    stripInterpolation_contentText_iff spelled.fit]

theorem stripped_as_scanned_behind_backslashes :
    let text := "f('\\\\$\x7bg(\x7b1\x7d)\x7d \\$$\x7bx\x7d $n.m');".toList
    ∃ literal ∈ stringLiterals text, literal.uninterpolated text = "\\\\ \\$ $n.m".toList ∧
      stripInterpolation literal.content = dropReferences (literal.uninterpolated text) := by
  intro text
  have member : (⟨⟨'\'', false⟩, "\\\\$\x7bg(\x7b1\x7d)\x7d \\$$\x7bx\x7d $n.m".toList, 2, 25⟩ :
      StringLiteral) ∈ stringLiterals text := by decide
  exact ⟨_, member, by decide, (stripped_as_scanned_iff member).mpr (by decide)⟩

/-- The scanner sees no interpolation in `\${Save it}`; stripping leaves the backslash alone. -/
theorem escaped_dollar_stripped :
    ¬∀ (text : Text), ∀ literal ∈ stringLiterals text,
      stripInterpolation literal.content = dropReferences (literal.uninterpolated text) := by
  intro agree
  have member : (⟨⟨'\'', false⟩, "\\$\x7bSave it\x7d".toList, 0, 13⟩ : StringLiteral) ∈
      stringLiterals "'\\$\x7bSave it\x7d'".toList := by decide
  exact absurd (agree _ _ member) (by decide)

end HardcodedText
