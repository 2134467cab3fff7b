import HardcodedText.Proofs.Filter.Prose
import HardcodedText.Proofs.LiteralGrammar

/-!
Stripping a content of its interpolations. The braced ones are passed over with their balanced code,
whatever that holds; what is left of a content without a dollar sign is the content itself. So no
filter sees more of a content of interpolations among noise than the noise.
-/

namespace HardcodedText

theorem dropBraced_opening (rest : Text) :
    dropBraced none ('$' :: '\x7b' :: rest) = dropBraced (some 0) rest := by
  rw [dropBraced]

theorem dropBraced_plain {c : Char} {rest : Text} (plain : ¬ ['$', '\x7b'] <+: c :: rest) :
    dropBraced none (c :: rest) = c :: dropBraced none rest := by
  rw [dropBraced.eq_def]
  split
  next opens =>
    obtain ⟨rfl, rfl⟩ := List.cons.inj opens
    exact absurd (List.prefix_append ['$', '\x7b'] _) plain
  all_goals simp_all

theorem dropBraced_closing (rest : Text) :
    dropBraced (some 0) ('\x7d' :: rest) = dropBraced none rest := by
  rw [dropBraced, if_neg (by decide), if_pos (by decide)]

theorem dropBraced_brace {level next : Nat} {c : Char}
    (levels : levelAfter '\x7b' '\x7d' level [c] = some next) (rest : Text) :
    dropBraced (some level) (c :: rest) = dropBraced (some next) rest := by
  by_cases opens : c = '\x7b'
  · subst opens
    obtain rfl := Option.some_inj.mp levels
    rfl
  · by_cases closes : c = '\x7d'
    · subst closes
      cases level with
      | zero => simp [levelAfter_unopened] at levels
      | succ level =>
          obtain rfl := Option.some_inj.mp levels
          rfl
    · rw [levelAfter_other opens closes] at levels
      obtain rfl := Option.some_inj.mp levels
      simp [dropBraced, opens, closes]

/-- Inside of an interpolation only the braces matter. -/
theorem dropBraced_code {level last : Nat} {code : Text}
    (levels : levelAfter '\x7b' '\x7d' level code = some last) (rest : Text) :
    dropBraced (some level) (code ++ rest) = dropBraced (some last) rest := by
  induction code generalizing level with
  | nil =>
      obtain rfl : level = last := by simpa [levelAfter] using levels
      rfl
  | cons c code ih =>
      rw [levelAfter_cons, Option.bind_eq_some_iff] at levels
      obtain ⟨next, first, later⟩ := levels
      rw [List.cons_append, dropBraced_brace first, ih later]

theorem dropBraced_interpolation {code : Text} (balanced : Balanced '\x7b' '\x7d' code)
    (rest : Text) :
    dropBraced none ((ContentItem.interpolation code).text ++ rest) = dropBraced none rest := by
  have levels := (balanced_iff (by decide) code).mp balanced
  simp only [ContentItem.text, List.cons_append, List.append_assoc, List.nil_append]
  rw [dropBraced_opening, dropBraced_code levels, dropBraced_closing]

theorem dropBraced_sublist (depth : Option Nat) (text : Text) :
    (dropBraced depth text).Sublist text := by
  fun_induction dropBraced depth text with
  | case1 rest ih => exact (ih.cons _).cons _
  | case2 c rest _ ih => exact ih.cons_cons c
  | case3 depth c rest _ ih => exact ih.cons c
  | case4 c rest _ _ ih => exact ih.cons c
  | case5 c rest _ _ depth ih => exact ih.cons c
  | case6 depth c rest _ _ ih => exact ih.cons c
  | case7 => exact List.Sublist.refl _

theorem dropReferencesFrom_sublist (skip : Nat) (text : Text) :
    (dropReferencesFrom skip text).Sublist text := by
  fun_induction dropReferencesFrom skip text with
  | case1 => exact List.Sublist.refl _
  | case2 c rest skip ih => exact ih.cons c
  | case3 c rest _ ih => exact ih.cons c
  | case4 c rest _ ih => exact ih.cons_cons c

theorem mem_of_mem_stripInterpolation {c : Char} {content : Text}
    (member : c ∈ stripInterpolation content) : c ∈ content :=
  ((dropReferencesFrom_sublist 0 _).trans (dropBraced_sublist none content)).subset member

theorem dropBraced_eq_self {text : Text} (absent : '$' ∉ text) : dropBraced none text = text := by
  induction text with
  | nil => rfl
  | cons c rest ih =>
      rw [List.mem_cons, not_or] at absent
      have plain : ¬ ['$', '\x7b'] <+: c :: rest := by
        rw [List.cons_prefix_cons]
        exact fun begins => absent.1 begins.1
      rw [dropBraced_plain plain, ih absent.2]

theorem dropReferences_eq_self {text : Text} (absent : '$' ∉ text) :
    dropReferences text = text := by
  induction text with
  | nil => rfl
  | cons c rest ih =>
      rw [List.mem_cons, not_or] at absent
      have other : ¬ (c == '$' && rest.head?.any isNameStart) = true := by
        simp [Ne.symm absent.1]
      have later : dropReferencesFrom 0 rest = rest := ih absent.2
      rw [dropReferences, dropReferencesFrom, if_neg other, later]

theorem stripInterpolation_eq_self {content : Text} (absent : '$' ∉ content) :
    stripInterpolation content = content := by
  rw [stripInterpolation, dropBraced_eq_self absent, dropReferences_eq_self absent]

/-! Interpolations among noise. -/

namespace ContentItem

def kept : ContentItem → Text
  | interpolation _ => []
  | item => item.text

def IsNoise : ContentItem → Prop
  | interpolation code => Balanced '\x7b' '\x7d' code
  | plain c => isBlank c = true ∨ c ∈ "+-*/%'\"\x60".toList
  | escape _ => False

instance : (item : ContentItem) → Decidable item.IsNoise
  | interpolation code => inferInstanceAs (Decidable (Balanced _ _ code))
  | plain _ => inferInstanceAs (Decidable (_ ∨ _))
  | escape _ => isFalse id

end ContentItem

def keptText (items : List ContentItem) : Text :=
  items.flatMap ContentItem.kept

theorem keptText_cons (item : ContentItem) (later : List ContentItem) :
    keptText (item :: later) = item.kept ++ keptText later :=
  List.flatMap_cons

theorem noise_char {c : Char} (noise : (ContentItem.plain c).IsNoise) :
    isNoise c = true ∧ c ≠ '$' ∧ isAlphanumeric c = false := by
  rcases noise with blank | mark
  · refine ⟨by rw [isNoise, blank, Bool.true_or], ?_, isAlphanumeric_of_isBlank blank⟩
    rintro rfl
    exact absurd blank (by decide)
  · have marks : ("+-*/%'\"\x60".toList.all fun d =>
        isNoise d && d != '$' && !isAlphanumeric d) = true := by decide
    have here := List.all_eq_true.mp marks c mark
    simpa [and_assoc] using here

section Noise

variable {items : List ContentItem} (noise : ∀ item ∈ items, item.IsNoise)

include noise

theorem noise_of_mem_keptText {c : Char} (member : c ∈ keptText items) :
    (ContentItem.plain c).IsNoise := by
  obtain ⟨item, listed, inside⟩ := List.mem_flatMap.mp member
  have noisy := noise item listed
  cases item with
  | escape _ => exact absurd noisy id
  | interpolation code => simp [ContentItem.kept] at inside
  | plain d =>
      obtain rfl : c = d := by simpa [ContentItem.kept, ContentItem.text] using inside
      exact noisy

theorem dropBraced_noise : dropBraced none (contentText items) = keptText items := by
  induction items with
  | nil => rfl
  | cons item later ih =>
      have rest := ih fun other listed => noise other (List.mem_cons_of_mem item listed)
      have here := noise item List.mem_cons_self
      rw [contentText_cons, keptText_cons, ← rest]
      cases item with
      | escape _ => exact absurd here id
      | interpolation code => exact dropBraced_interpolation here _
      | plain c =>
          have plain : ¬ ['$', '\x7b'] <+: c :: contentText later := by
            rw [List.cons_prefix_cons]
            exact fun begins => (noise_char here).2.1 begins.1.symm
          exact dropBraced_plain plain

theorem stripInterpolation_noise : stripInterpolation (contentText items) = keptText items := by
  rw [stripInterpolation, dropBraced_noise noise]
  apply dropReferences_eq_self
  intro dollar
  exact (noise_char (noise_of_mem_keptText noise dollar)).2.1 rfl

end Noise

/-- A literal that has nothing beside its interpolations but blanks, arithmetic signs and quotes is
dropped, whatever the interpolations hold and wherever it stands. -/
theorem interpolations_among_noise_dropped {context : LiteralContext} {tables : FilterTables}
    {items : List ContentItem} (spelled : context.content = contentText items)
    (noise : ∀ item ∈ items, item.IsNoise)
    (interpolated : ∃ code, ContentItem.interpolation code ∈ items) :
    (classify context tables).verdict = .drop := by
  have left := stripInterpolation_noise noise
  have noProse : isProse context.stripped = false := by
    apply isProse_eq_false_of_unlettered
    intro c member
    rw [LiteralContext.stripped, spelled, left] at member
    have noisy := noise_of_mem_keptText noise (Text.mem_of_mem_trim member)
    exact unlettered_of_symbol (noise_char noisy).2.2
  have fires : Filter.interpolation.fires context tables = true := by
    obtain ⟨code, listed⟩ := interpolated
    have dollar : '$' ∈ contentText items :=
      List.mem_flatMap.mpr ⟨_, listed, by simp [ContentItem.text]⟩
    have nothing : (keptText items).filter (!isNoise ·) = [] := by
      rw [List.filter_eq_nil_iff]
      intro c member
      simp [(noise_char (noise_of_mem_keptText noise member)).1]
    simp [Filter.fires, isMainlyInterpolation, spelled, left, dollar, nothing]
  exact verdict_eq_drop_of_fires noProse (by decide) fires

theorem interpolations_among_noise_dropped_with_prose :
    let items : List ContentItem := [.interpolation "f(\x7b'a': 'Save it!'\x7d)".toList, .plain ' ',
      .plain '-', .plain '"', .interpolation "g('$\x7bb\x7d')".toList]
    let context : LiteralContext := { content := contentText items, offset := -1, quoteWidth := 3 }
    context.content = "$\x7bf(\x7b'a': 'Save it!'\x7d)\x7d -\"$\x7bg('$\x7bb\x7d')\x7d".toList ∧
      (∀ item ∈ items, item.IsNoise) ∧ (∃ code, ContentItem.interpolation code ∈ items) ∧
      (classify context defaultTables).verdict = .drop := by
  intro items context
  have noise : ∀ item ∈ items, item.IsNoise := by decide
  have interpolated : ∃ code, ContentItem.interpolation code ∈ items := ⟨_, List.mem_cons_self⟩
  exact ⟨by decide, noise, interpolated,
    interpolations_among_noise_dropped rfl noise interpolated⟩

end HardcodedText
