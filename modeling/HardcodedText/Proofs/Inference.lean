import HardcodedText.Proofs.NamedToken
import Mathlib.Data.List.Induction

/-!
The parameter that a literal belongs to. The tokens before an offset are found by halving an ordered
list, and the nearest of them that will do gives its name. The main statement says that this is the
name one finds by looking at all tokens.
-/

namespace HardcodedText

/-! Halving. -/

structure Narrowed (tokens : List NamedToken) (offset : Int) (low high : Nat) : Prop where
  order : low ≤ high
  room : high ≤ tokens.length
  before : ∀ place token, place < low → tokens[place]? = some token → token.offset < offset
  behind : ∀ place token, high ≤ place → tokens[place]? = some token → offset ≤ token.offset

section Halving

variable {tokens : List NamedToken} {offset : Int} {low high middle : Nat} {token : NamedToken}

theorem offset_le_of_ordered
    (ordered : tokens.Pairwise fun left right => left.offset < right.offset) {left right : Nat}
    {first second : NamedToken} (order : left ≤ right) (atLeft : tokens[left]? = some first)
    (atRight : tokens[right]? = some second) : first.offset ≤ second.offset := by
  obtain ⟨leftRoom, rfl⟩ := List.getElem?_eq_some_iff.mp atLeft
  obtain ⟨rightRoom, rfl⟩ := List.getElem?_eq_some_iff.mp atRight
  rcases Nat.eq_or_lt_of_le order with rfl | before
  · exact Nat.le_refl _
  · exact Nat.le_of_lt (List.pairwise_iff_getElem.mp ordered left right leftRoom rightRoom before)

theorem Narrowed.raise (narrowed : Narrowed tokens offset low high)
    (ordered : tokens.Pairwise fun left right => left.offset < right.offset)
    (below : middle < high) (found : tokens[middle]? = some token) (early : token.offset < offset) :
    Narrowed tokens offset (middle + 1) high where
  order := below
  room := narrowed.room
  behind := narrowed.behind
  before := by
    intro place other inside listed
    have order := offset_le_of_ordered ordered (Nat.le_of_lt_succ inside) listed found
    omega

theorem Narrowed.lower (narrowed : Narrowed tokens offset low high)
    (ordered : tokens.Pairwise fun left right => left.offset < right.offset)
    (above : low ≤ middle) (below : middle < high) (found : tokens[middle]? = some token)
    (late : ¬ token.offset < offset) : Narrowed tokens offset low middle where
  order := above
  room := Nat.le_trans (Nat.le_of_lt below) narrowed.room
  before := narrowed.before
  behind := by
    intro place other inside listed
    have order := offset_le_of_ordered ordered inside found listed
    omega

theorem countBefore_narrowed
    (ordered : tokens.Pairwise fun left right => left.offset < right.offset)
    (narrowed : Narrowed tokens offset low high) :
    Narrowed tokens offset (countBefore tokens offset low high)
      (countBefore tokens offset low high) := by
  fun_induction countBefore tokens offset low high with
  | case1 low high opened middle early ih =>
      have below : middle < high := by omega
      have room := narrowed.room
      have found := List.getElem?_eq_getElem (l := tokens) (i := middle) (by omega)
      rw [found, Option.any_some, decide_eq_true_eq] at early
      exact ih (narrowed.raise ordered below found early)
  | case2 low high opened middle late ih =>
      have below : middle < high := by omega
      have room := narrowed.room
      have found := List.getElem?_eq_getElem (l := tokens) (i := middle) (by omega)
      rw [found, Option.any_some, decide_eq_true_eq] at late
      exact ih (narrowed.lower ordered (by omega) below found late)
  | case3 low high closed =>
      have order := narrowed.order
      obtain rfl : low = high := by omega
      exact narrowed

theorem tokensBefore_eq
    (ordered : tokens.Pairwise fun left right => left.offset < right.offset) (offset : Int) :
    tokensBefore tokens offset =
      (tokens.filter fun token => (token.offset : Int) < offset).reverse := by
  have start : Narrowed tokens offset 0 tokens.length := by
    refine ⟨Nat.zero_le _, Nat.le_refl _, ?_, ?_⟩
    · intro place token inside
      omega
    · intro place token inside listed
      have room := (List.getElem?_eq_some_iff.mp listed).1
      omega
  have narrowed := countBefore_narrowed ordered start
  rw [tokensBefore]
  generalize countBefore tokens offset 0 tokens.length = count at narrowed
  congr 1
  have front : (tokens.take count).filter (fun token => (token.offset : Int) < offset) =
      tokens.take count := by
    rw [List.filter_eq_self]
    intro token member
    obtain ⟨place, listed⟩ := List.mem_iff_getElem?.mp member
    rw [List.getElem?_take] at listed
    split at listed
    next inside => exact decide_eq_true (narrowed.before place token inside listed)
    next => simp at listed
  have back : (tokens.drop count).filter (fun token => (token.offset : Int) < offset) = [] := by
    rw [List.filter_eq_nil_iff]
    intro token member
    obtain ⟨place, listed⟩ := List.mem_iff_getElem?.mp member
    rw [List.getElem?_drop] at listed
    have late := narrowed.behind _ token (Nat.le_add_right _ _) listed
    rw [decide_eq_true_eq]
    omega
  conv_rhs => rw [← List.take_append_drop count tokens]
  rw [List.filter_append, front, back, List.append_nil]

end Halving

/-! The nearest token. -/

structure Nearest (tokens : List NamedToken) (offset : Int) (holds : NamedToken → Prop)
    (token : NamedToken) : Prop where
  listed : token ∈ tokens
  before : token.offset < offset
  has : holds token
  last : ∀ other ∈ tokens, other.offset < offset → holds other → other.offset ≤ token.offset

section Nearest

variable {tokens : List NamedToken} {offset : Int} {token : NamedToken}

theorem mem_tokensBefore
    (ordered : tokens.Pairwise fun left right => left.offset < right.offset) :
    token ∈ tokensBefore tokens offset ↔ token ∈ tokens ∧ token.offset < offset := by
  rw [tokensBefore_eq ordered, List.mem_reverse, List.mem_filter, decide_eq_true_eq]

theorem tokensBefore_descending
    (ordered : tokens.Pairwise fun left right => left.offset < right.offset) (offset : Int) :
    (tokensBefore tokens offset).Pairwise fun left right => right.offset < left.offset := by
  rw [tokensBefore_eq ordered, List.pairwise_reverse]
  exact ordered.filter _

theorem nearest_of_find?
    (ordered : tokens.Pairwise fun left right => left.offset < right.offset)
    {accepts : NamedToken → Bool}
    (found : (tokensBefore tokens offset).find? accepts = some token) :
    Nearest tokens offset (fun other => accepts other = true) token := by
  obtain ⟨accepted, nearer, further, split, refused⟩ := List.find?_eq_some_iff_append.mp found
  have member : token ∈ tokensBefore tokens offset := List.mem_of_find?_eq_some found
  obtain ⟨listed, before⟩ := (mem_tokensBefore ordered).mp member
  refine ⟨listed, before, accepted, ?_⟩
  intro other otherListed otherBefore otherAccepted
  have among := (mem_tokensBefore ordered).mpr ⟨otherListed, otherBefore⟩
  have descending := tokensBefore_descending ordered offset
  rw [split] at among descending
  rcases List.mem_append.mp among with inFront | inRest
  · have refusal := refused other inFront
    rw [otherAccepted] at refusal
    exact absurd refusal (by decide)
  · rcases List.mem_cons.mp inRest with rfl | inBack
    · exact Nat.le_refl _
    · have later := (List.pairwise_append.mp descending).2.1
      exact Nat.le_of_lt ((List.pairwise_cons.mp later).1 other inBack)

end Nearest

/-! The line of an offset. -/

theorem lineFeed_mem_drop_iff (text : Text) (place : Nat) :
    '\n' ∈ text.drop place ↔
      place < text.length - (text.reverse.takeWhile (· != '\n')).length := by
  induction text using List.reverseRecOn with
  | nil => simp
  | append_singleton text c ih =>
      rw [List.reverse_append, List.reverse_singleton, List.singleton_append, List.length_append,
        List.length_singleton, List.drop_append, List.mem_append, ih]
      by_cases lineEnd : c = '\n'
      · subst lineEnd
        rw [List.takeWhile_cons_of_neg (by decide), List.length_nil, Nat.sub_zero]
        by_cases within : place ≤ text.length
        · rw [Nat.sub_eq_zero_of_le within, List.drop_zero]
          exact iff_of_true (Or.inr (List.mem_singleton_self _)) (Nat.lt_succ_of_le within)
        · rw [List.drop_of_length_le (by rw [List.length_singleton]; omega)]
          simp only [List.not_mem_nil, or_false]
          omega
      · have absent : '\n' ∉ [c].drop (place - text.length) := fun member =>
          lineEnd (List.mem_singleton.mp (List.mem_of_mem_drop member)).symm
        rw [List.takeWhile_cons_of_pos (by simpa using lineEnd), List.length_cons, or_iff_left absent,
          Nat.add_sub_add_right]

theorem lt_lineStart_iff {text : Text} {offset : Int} (nonneg : 0 ≤ offset) (place : Nat) :
    place < lineStart text offset ↔ '\n' ∈ text.slice place offset := by
  have stop := Text.place_of_nonneg nonneg text.length
  have between : text.slice place offset =
      (text.take (Text.place text.length offset)).drop place := by
    rw [Text.slice, Text.place_natCast, List.drop_take]
    by_cases within : place ≤ text.length
    · rw [Nat.min_eq_left within]
    · rw [Nat.min_eq_right (by omega), List.drop_length, List.drop_of_length_le (by omega),
        List.take_nil, List.take_nil]
  rw [between, lineFeed_mem_drop_iff, lineStart]

/-! Inference. -/

theorem name_ne_nil_of_mem {argText : Text} {token : NamedToken}
    (member : token ∈ namedTokens argText) : token.name ≠ [] := by
  obtain ⟨colon, across⟩ := mem_namedTokens_iff.mp member
  exact List.length_pos_iff.mp across.named.length_pos

def IsCandidate (candidates : List Text) (token : NamedToken) : Prop :=
  token.name ∈ candidates ∧ token.name ≠ []

theorem inferParameter_nearest (argText : Text) (offset : Int) (candidates : List Text) :
    (∃ token, Nearest (namedTokens argText) offset (IsCandidate candidates) token ∧
      inferParameter (namedTokens argText) offset candidates = token.name) ∨
    ((∀ token ∈ namedTokens argText, token.offset < offset → ¬ IsCandidate candidates token) ∧
      inferParameter (namedTokens argText) offset candidates = []) := by
  have ordered := namedTokens_ordered argText
  rw [inferParameter]
  cases found : (tokensBefore (namedTokens argText) offset).find?
      (fun token => candidates.contains token.name) with
  | some token =>
      have nearest := nearest_of_find? ordered found
      refine Or.inl ⟨token, ⟨nearest.listed, nearest.before, ?_, ?_⟩, rfl⟩
      · exact ⟨List.contains_iff_mem.mp nearest.has, name_ne_nil_of_mem nearest.listed⟩
      · intro other listed before candidate
        exact nearest.last other listed before (List.contains_iff_mem.mpr candidate.1)
  | none =>
      refine Or.inr ⟨?_, rfl⟩
      intro token listed before candidate
      have refused := List.find?_eq_none.mp found token
        ((mem_tokensBefore ordered).mpr ⟨listed, before⟩)
      exact refused (List.contains_iff_mem.mpr candidate.1)

theorem inferGenericParameter_nearest (argText : Text) {offset : Int} (nonneg : 0 ≤ offset) :
    (∃ token, Nearest (namedTokens argText) offset (fun _ => True) token ∧
      inferGenericParameter argText (namedTokens argText) offset =
        if '\n' ∈ argText.slice token.offset offset then [] else token.name) ∨
    ((∀ token ∈ namedTokens argText, ¬ token.offset < offset) ∧
      inferGenericParameter argText (namedTokens argText) offset = []) := by
  have ordered := namedTokens_ordered argText
  rw [inferGenericParameter]
  cases tokens : tokensBefore (namedTokens argText) offset with
  | nil =>
      refine Or.inr ⟨?_, rfl⟩
      intro token listed before
      have member := (mem_tokensBefore ordered).mpr ⟨listed, before⟩
      rw [tokens] at member
      simp at member
  | cons token further =>
      have found : (tokensBefore (namedTokens argText) offset).find? (fun _ => true) =
          some token := by
        rw [tokens]
        rfl
      have nearest := nearest_of_find? ordered found
      refine Or.inl ⟨token, ⟨nearest.listed, nearest.before, trivial, ?_⟩, ?_⟩
      · intro other listed before _
        exact nearest.last other listed before rfl
      · simp only [lt_lineStart_iff nonneg]

theorem tokensOf_eq {argText : Text} {known : Option (List NamedToken)}
    (right : ∀ tokens ∈ known, tokens = namedTokens argText) :
    tokensOf argText known = namedTokens argText := by
  cases known with
  | none => rfl
  | some tokens => exact right tokens rfl

/-- The parameter of an offset is the name of the last token before it that is a candidate. Without
candidates it is the name of the last token before the offset, if no line feed stands between the
two. Where there is no such token it is empty. The answers are the same for tokens that are known
already. -/
theorem parameters_of_nearest_tokens (argText : Text) (known : Option (List NamedToken))
    (right : ∀ tokens ∈ known, tokens = namedTokens argText) (offset : Int)
    (candidates : List Text) :
    ((∃ token, Nearest (namedTokens argText) offset (IsCandidate candidates) token ∧
        inferParameter (tokensOf argText known) offset candidates = token.name) ∨
      ((∀ token ∈ namedTokens argText, token.offset < offset → ¬ IsCandidate candidates token) ∧
        inferParameter (tokensOf argText known) offset candidates = [])) ∧
    (0 ≤ offset →
      (∃ token, Nearest (namedTokens argText) offset (fun _ => True) token ∧
        inferGenericParameter argText (tokensOf argText known) offset =
          if '\n' ∈ argText.slice token.offset offset then [] else token.name) ∨
      ((∀ token ∈ namedTokens argText, ¬ token.offset < offset) ∧
        inferGenericParameter argText (tokensOf argText known) offset = [])) ∧
    inferParameter (tokensOf argText known) offset candidates =
      inferParameter (tokensOf argText none) offset candidates ∧
    inferGenericParameter argText (tokensOf argText known) offset =
      inferGenericParameter argText (tokensOf argText none) offset := by
  rw [tokensOf_eq right]
  exact ⟨inferParameter_nearest argText offset candidates,
    fun nonneg => inferGenericParameter_nearest argText nonneg, rfl, rfl⟩

theorem parameters_of_nearest_tokens_on_line :
    let argText : Text := "title: 'One',\n  label: x, 'Two'".toList
    let tokens : List NamedToken := [⟨0, "title".toList⟩, ⟨16, "label".toList⟩]
    namedTokens argText = tokens ∧ (0 : Int) ≤ 26 ∧
      inferParameter (tokensOf argText (some tokens)) 26 ["title".toList] = "title".toList ∧
      inferParameter (tokensOf argText none) 0 ["title".toList] = [] ∧
      inferGenericParameter argText (tokensOf argText (some tokens)) 16 = [] ∧
      (inferGenericParameter argText (tokensOf argText (some tokens)) 26 = "label".toList ∧
        ∃ token, Nearest (namedTokens argText) 26 (fun _ => True) token ∧
          inferGenericParameter argText (tokensOf argText (some tokens)) 26 =
            if '\n' ∈ argText.slice token.offset 26 then [] else token.name) := by
  intro argText tokens
  have listed : namedTokens argText = tokens := by decide +kernel
  have right : ∀ other ∈ some tokens, other = namedTokens argText := by
    intro other given
    rw [listed, ← Option.some_inj.mp given]
  refine ⟨listed, by decide, by decide +kernel, by decide +kernel, by decide +kernel,
    by decide +kernel, ?_⟩
  rcases (parameters_of_nearest_tokens argText (some tokens) right 26 []).2.1 (by decide) with
    found | ⟨none, -⟩
  · exact found
  · refine absurd ?_ (none ⟨0, "title".toList⟩ (by rw [listed]; exact List.mem_cons_self))
    decide

end HardcodedText
