import HardcodedText.Proofs.Filter.DefaultPatterns

/-!
The window before a call. The context that denies a call is looked for in the last characters before
it, and these can begin inside of a word. What the window denies, all of the text before the call
denies too, unless the window begins with a keyword that is the rest of a longer word.
-/

namespace HardcodedText

theorem deniesFrom_nil (previous : Option Char) : deniesFrom previous [] = false := by
  have nothing : deniesFrom none [] = false := by decide
  rw [deniesFrom, Option.any_none, Bool.not_false, Bool.true_and] at nothing
  rw [deniesFrom, nothing, Bool.and_false]

/-- The character before a place matters only if it is a word character. -/
theorem deniesFrom_of_boundary {previous : Option Char} {rest : Text}
    (boundary : previous.any isWordChar = false) :
    deniesFrom previous rest = deniesFrom none rest := by
  rw [deniesFrom, deniesFrom, boundary, Option.any_none]

namespace Text

theorem anyPlace_append {holds : Option Char → Text → Bool} {front back : Text}
    {previous : Option Char}
    (found : anyPlace holds (front.getLast?.or previous) back = true) :
    anyPlace holds previous (front ++ back) = true := by
  rw [anyPlace_iff] at found ⊢
  obtain ⟨inner, rest, rfl, here⟩ := found
  refine ⟨front ++ inner, rest, (List.append_assoc ..).symm, ?_⟩
  rwa [List.getLast?_append, Option.or_assoc]

theorem anyPlace_cases {holds : Option Char → Text → Bool} {text : Text}
    (found : anyPlace holds none text = true) (previous : Option Char) :
    holds none text = true ∨ anyPlace holds previous text = true := by
  cases text with
  | nil => exact Or.inl found
  | cons c rest =>
      rw [anyPlace, Bool.or_eq_true] at found
      rcases found with here | later
      · exact Or.inl here
      · exact Or.inr (by rw [anyPlace, later, Bool.or_true])

theorem anyPlace_of_first {holds : Option Char → Text → Bool} {previous : Option Char}
    {text : Text} (first : holds previous text = true) : anyPlace holds previous text = true := by
  cases text with
  | nil => exact first
  | cons c rest => rw [anyPlace, first, Bool.true_or]

end Text

/-- More text in front takes a denial back only at the first place, and only if that then stands
inside of a word. -/
theorem deniesCall_append {window : Text} (denies : deniesCall window = true) (front : Text) :
    deniesCall (front ++ window) = true ∨
      (front.getLast?.any isWordChar = true ∧ deniesFrom none window = true) := by
  rw [deniesCall, Bool.or_eq_true, beq_iff_eq] at denies
  have within (found : Text.anyPlace deniesFrom front.getLast? window = true) :
      deniesCall (front ++ window) = true := by
    have whole : Text.anyPlace deniesFrom none (front ++ window) = true :=
      Text.anyPlace_append (by rwa [Option.or_none])
    rw [deniesCall, whole, Bool.or_true]
  rcases denies with dot | place
  · refine Or.inl ?_
    rw [deniesCall, List.getLast?_append, dot]
    rfl
  · rcases Text.anyPlace_cases place front.getLast? with first | later
    · cases word : front.getLast?.any isWordChar with
      | true => exact Or.inr ⟨rfl, first⟩
      | false =>
          refine Or.inl (within (Text.anyPlace_of_first ?_))
          rw [deniesFrom_of_boundary word, first]
    · exact Or.inl (within later)

def contextBefore (text : Text) (offset : Nat) (tables : FilterTables) : Text :=
  Text.trimEnd (text.slice (max 0 (offset - tables.contextWindow)) offset)

def beyondContext (text : Text) (offset : Nat) (tables : FilterTables) : Text :=
  text.take (offset - tables.contextWindow).toNat

theorem trimEnd_take_eq {text : Text} {offset : Nat} {tables : FilterTables}
    (nonempty : contextBefore text offset tables ≠ []) :
    Text.trimEnd (text.take offset) =
      beyondContext text offset tables ++ contextBefore text offset tables := by
  have first : Text.place text.length (max 0 (offset - tables.contextWindow)) =
      min (offset - tables.contextWindow).toNat text.length := by
    rw [Text.place_of_nonneg (Int.le_max_left 0 _)]
    congr 1
    omega
  rw [contextBefore, Text.slice, first, Text.place_natCast] at nonempty ⊢
  rw [beyondContext]
  generalize (offset - tables.contextWindow).toNat = cut at nonempty ⊢
  -- A negative width puts the window behind the offset, and then it is empty.
  have order : min cut text.length ≤ min offset text.length := by
    by_contra beyond
    apply nonempty
    rw [Nat.sub_eq_zero_of_le (by omega), List.take_zero]
    rfl
  have split : text.take offset =
      text.take cut ++ (text.drop (min cut text.length)).take
        (min offset text.length - min cut text.length) := by
    rw [List.take_eq_take_min (i := cut), ← List.take_add, Nat.add_sub_cancel' order,
      ← List.take_eq_take_min]
  rw [split, Text.trimEnd_append nonempty]

structure CutsKeyword (text : Text) (offset : Nat) (tables : FilterTables) : Prop where
  inWord : (beyondContext text offset tables).getLast?.any isWordChar = true
  keyword : deniesFrom none (contextBefore text offset tables) = true

section DefaultPatterns

variable {tables : FilterTables} (patterns : tables.contextPatterns = defaultContextPatterns)
  {text : Text} {offset : Nat}

include patterns

theorem inDeniedContext_eq :
    inDeniedContext text offset tables = deniesCall (contextBefore text offset tables) :=
  denies_eq_deniesCall patterns _

theorem CutsKeyword.inDeniedContext (cuts : CutsKeyword text offset tables) :
    inDeniedContext text offset tables = true := by
  rw [inDeniedContext_eq patterns, deniesCall, Text.anyPlace_of_first cuts.keyword, Bool.or_true]

theorem inDeniedContext_cases (denied : inDeniedContext text offset tables = true) :
    tables.denies (Text.trimEnd (text.take offset)) = true ∨ CutsKeyword text offset tables := by
  rw [inDeniedContext_eq patterns] at denied
  have nonempty : contextBefore text offset tables ≠ [] := by
    intro empty
    rw [empty] at denied
    exact absurd denied (by decide)
  rcases deniesCall_append denied (beyondContext text offset tables) with whole | cut
  · exact Or.inl (by rwa [denies_eq_deniesCall patterns, trimEnd_take_eq nonempty])
  · exact Or.inr ⟨cut.1, cut.2⟩

end DefaultPatterns

/-- What denies a call in the window before it denies the call in all of the text before it, if and
only if this is so where the window cuts a keyword out of a longer word. -/
theorem window_denial_holds_iff (text : Text) (offset : Nat) (tables : FilterTables)
    (patterns : tables.contextPatterns = defaultContextPatterns) :
    (inDeniedContext text offset tables = true →
        tables.denies (Text.trimEnd (text.take offset)) = true) ↔
      (CutsKeyword text offset tables →
        tables.denies (Text.trimEnd (text.take offset)) = true) := by
  constructor
  · intro holds cuts
    exact holds (cuts.inDeniedContext patterns)
  · intro holds denied
    rcases inDeniedContext_cases patterns denied with whole | cuts
    · exact whole
    · exact holds cuts

/-- The window before `Foo` begins inside of `final`, which is no keyword. -/
theorem window_denial_holds_iff_in_declaration :
    let text : Text :=
      "final w = 1; class Labels extends Card with Wide ?? Foo(label: 'Save it')".toList
    defaultTables.contextPatterns = defaultContextPatterns ∧
      inDeniedContext text 52 defaultTables = true ∧
      defaultTables.denies (Text.trimEnd (text.take 52)) = true := by
  intro text
  have denied : inDeniedContext text 52 defaultTables = true := by decide +kernel
  refine ⟨rfl, denied, (window_denial_holds_iff text 52 defaultTables rfl).mpr ?_ denied⟩
  intro cuts
  exact absurd cuts.keyword (by decide +kernel)

/-- The window before `Foo` begins with the last five letters of `superclass`. -/
theorem superclass_denies_call :
    ¬∀ (text : Text) (offset : Nat), offset ≤ text.length →
      inDeniedContext text offset defaultTables = true →
      defaultTables.denies (Text.trimEnd (text.take offset)) = true := by
  intro holds
  have wrong := holds
    "superclass = resolve(parent, depth, fallback: none) ?? Foo(label: 'Save it')".toList 55
    (by decide) (by decide +kernel)
  exact absurd wrong (by decide +kernel)

end HardcodedText
