import HardcodedText.Proofs.Filter.Widening

/-!
What is no prose. A text without letters has no words, and a word of date letters is no prose word
and no proper noun. A literal that is no prose is dropped as soon as one of the filters behind the
prose filter fires.
-/

namespace HardcodedText

section Runs

variable {test other : Char → Bool} {text : Text}

theorem runs_congr (same : ∀ c ∈ text, test c = other c) : runs test text = runs other text := by
  have open' (current : Text) : runsFrom test current text = runsFrom other current text := by
    induction text generalizing current with
    | nil => rfl
    | cons c rest ih =>
        have later := ih fun d member => same d (List.mem_cons_of_mem c member)
        simp only [runsFrom, same c List.mem_cons_self, later]
  exact open' []

theorem runs_eq_nil (none : ∀ c ∈ text, test c = false) : runs test text = [] := by
  induction text with
  | nil => rfl
  | cons c rest ih =>
      have later : runsFrom test [] rest = [] :=
        ih fun d member => none d (List.mem_cons_of_mem c member)
      simp [runs, runsFrom, none c List.mem_cons_self, later]

theorem runsFrom_eq_singleton (all : ∀ c ∈ text, test c = true) {current : Text}
    (open' : current ≠ []) : runsFrom test current text = [current.reverse ++ text] := by
  induction text generalizing current with
  | nil => simp [runsFrom, open']
  | cons c rest ih =>
      have later := ih (fun d member => all d (List.mem_cons_of_mem c member))
        (List.cons_ne_nil c current)
      rw [runsFrom, if_pos (all c List.mem_cons_self), later]
      simp

theorem runs_eq_singleton (all : ∀ c ∈ text, test c = true) (nonempty : text ≠ []) :
    runs test text = [text] := by
  obtain ⟨c, rest, rfl⟩ := List.exists_cons_of_ne_nil nonempty
  rw [runs, runsFrom, if_pos (all c List.mem_cons_self)]
  exact runsFrom_eq_singleton (fun d member => all d (List.mem_cons_of_mem c member))
    (List.cons_ne_nil c [])

theorem runsFrom_append_cons {x : Char} (separates : test x = false) (current back : Text) :
    runsFrom test current (text ++ x :: back) =
      runsFrom test current text ++ runs test back := by
  induction text generalizing current with
  | nil => by_cases empty : current = [] <;> simp [runsFrom, runs, separates, empty]
  | cons c rest ih =>
      rw [List.cons_append, runsFrom, runsFrom]
      split
      · exact ih (c :: current)
      · split
        · exact ih []
        · rw [ih [], List.cons_append]

theorem runs_append_cons {x : Char} (separates : test x = false) (back : Text) :
    runs test (text ++ x :: back) = runs test text ++ runs test back :=
  runsFrom_append_cons separates [] back

theorem flatten_runsFrom (current : Text) :
    (runsFrom test current text).flatten = current.reverse ++ text.filter test := by
  induction text generalizing current with
  | nil => by_cases empty : current = [] <;> simp [runsFrom, empty]
  | cons c rest ih =>
      rw [runsFrom]
      split
      next inRun => rw [ih, List.filter_cons_of_pos inRun, List.reverse_cons, List.append_assoc,
        List.singleton_append]
      next endsRun =>
        rw [List.filter_cons_of_neg endsRun]
        split
        next empty => rw [ih, List.isEmpty_iff.mp empty]
        next => rw [List.flatten_cons, ih, List.reverse_nil, List.nil_append]

theorem exists_run_of_mem {c : Char} (member : c ∈ text) (inRun : test c = true) :
    ∃ run ∈ runs test text, c ∈ run := by
  rw [← List.mem_flatten, runs, flatten_runsFrom]
  exact List.mem_append_right _ (List.mem_filter.mpr ⟨member, inRun⟩)

end Runs

theorem isDateLetter_of_isDateRunsFrom {letter : Char} {length : Nat} {text : Text}
    (date : isDateRunsFrom letter length text = true) :
    ∀ c ∈ letter :: text, isDateLetter c = true := by
  have ofRun {letter : Char} {length : Nat} (run : isDateRun letter length = true) :
      isDateLetter letter = true := by
    simp only [isDateRun, Bool.and_eq_true] at run
    exact run.1.1
  induction text generalizing letter length with
  | nil => simpa using ofRun date
  | cons c rest ih =>
      rw [isDateRunsFrom] at date
      split at date
      next same =>
        obtain rfl := beq_iff_eq.mp same
        intro d member
        rcases List.mem_cons.mp member with rfl | later
        · exact ih date d List.mem_cons_self
        · exact ih date d later
      next =>
        rw [Bool.and_eq_true] at date
        exact List.forall_mem_cons.mpr ⟨ofRun date.1, ih date.2⟩

theorem isDateLetter_of_isDateWord {word : Text} (date : isDateWord word = true) :
    ∀ c ∈ word, isDateLetter c = true := by
  cases word with
  | nil => simp
  | cons first rest =>
      rw [isDateWord, Bool.or_eq_true, Bool.and_eq_true, List.all_eq_true] at date
      rcases date with ⟨letter, repeated⟩ | runs
      · refine List.forall_mem_cons.mpr ⟨letter, fun c member => ?_⟩
        rw [beq_iff_eq.mp (repeated c member)]
        exact letter
      · exact isDateLetter_of_isDateRunsFrom runs

theorem isAlphanumeric_of_isBlank {c : Char} (blank : isBlank c = true) :
    isAlphanumeric c = false :=
  (Bool.or_eq_false_iff.mp (isWordChar_of_isBlank blank)).2

theorem isAlphanumeric_of_isLetter {c : Char} (letter : isLetter c = true) :
    isAlphanumeric c = true := by
  by_cases ascii : c.toNat < 0x80
  · rw [isLetter, if_pos ascii] at letter
    rw [isAlphanumeric, if_pos ascii, Char.isAlphanum, letter, Bool.true_or]
  · rw [isAlphanumeric, if_neg ascii, letter, Bool.true_or]

theorem letters_of_isProperNoun {text : Text} (noun : isProperNoun text = true) :
    ∀ c ∈ text, isLetter c = true := by
  match text with
  | [] => simp
  | [_] => simp [isProperNoun] at noun
  | first :: second :: rest =>
      simp only [isProperNoun, Bool.and_eq_true, List.all_eq_true] at noun
      exact noun.1.1.1

theorem unlettered_of_symbol {c : Char} (symbol : isAlphanumeric c = false) :
    isProseChar c = false ∧ isLetter c = false := by
  refine ⟨by rw [isProseChar, symbol, Bool.false_and], ?_⟩
  by_contra letter
  rw [isAlphanumeric_of_isLetter (by simpa using letter)] at symbol
  exact absurd symbol (by decide)

theorem isProse_eq_false_of_unlettered {text : Text}
    (unlettered : ∀ c ∈ text, isProseChar c = false ∧ isLetter c = false) :
    isProse text = false := by
  have wordless : hasProseWord text = false := by
    rw [hasProseWord, runs_eq_nil fun c member => (unlettered c member).1]
    rfl
  have noNoun : isProperNoun text = false := by
    cases text with
    | nil => rfl
    | cons first rest =>
        by_contra noun
        have letter := letters_of_isProperNoun (by simpa using noun) first List.mem_cons_self
        rw [(unlettered first List.mem_cons_self).2] at letter
        exact absurd letter (by decide)
  rw [isProse, wordless, noNoun, Bool.false_and, Bool.or_false]

/-- A date word of two letters or more begins with a letter twice. -/
theorem second_eq_of_isDateWord {first second : Char} {rest : Text}
    (word : isDateWord (first :: second :: rest) = true) : second = first := by
  by_contra different
  simp [isDateWord, isDateRunsFrom, isDateRun, different] at word

theorem isProperNoun_of_isDateWord {text : Text} (word : isDateWord text = true) :
    isProperNoun text = false := by
  match text with
  | [] => rfl
  | [_] => rfl
  | first :: second :: rest =>
      obtain rfl := second_eq_of_isDateWord word
      cases capital : isUppercase second <;> simp [isProperNoun, capital]

theorem verdict_eq_drop_of_fires {context : LiteralContext} {tables : FilterTables}
    (noProse : isProse context.stripped = false) {filter : Filter}
    (listed : filter ∈ [Filter.mask, .interpolation, .identifier])
    (fires : filter.fires context tables = true) : (classify context tables).verdict = .drop := by
  have dropped : ¬ (classify context tables).keep = true := by
    rw [classify_keep_iff]
    rintro ⟨-, prose | silent⟩
    · exact absurd (prose.symm.trans noProse) (by decide)
    · exact absurd (fires.symm.trans (silent filter listed)) (by decide)
  cases verdict : (classify context tables).verdict with
  | drop => rfl
  | keep => exact absurd (by rw [Classification.keep, verdict]; rfl) dropped

end HardcodedText
