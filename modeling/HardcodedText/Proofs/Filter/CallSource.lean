import HardcodedText.Proofs.Pattern.Escaped
import Mathlib.Data.List.Sort

/-!
The written search for technical calls. The names are escaped and stand as alternatives, the longest
first, behind a place that continues no longer name and before an opening parenthesis at the end.
Without any name it is a search that finds nothing.
-/

namespace HardcodedText

def longestFirst (names : List Text) : List Text :=
  names.insertionSort fun left right => right.length ≤ left.length

def technicalCallSource (calls : List Text) : Text :=
  let names := List.intercalate ['|'] ((longestFirst calls).map Text.escaped)
  if names.isEmpty then "(?!)".toList
  else "(?<![\\w.])".toList ++ ("(?:".toList ++ (names ++ ")\\s*\\(\\s*$".toList))

def callHead (names : List Text) : Pattern :=
  .all [.behind false 1 (.oneOf [.word true, .single '.']),
    .any (names.map fun name => .all (name.map .char)),
    .many (.oneOf [.blank true]), .char '(', .many (.oneOf [.blank true]), .lastLineEnd]

def technicalCallPattern (calls : List Text) : Pattern :=
  if calls.isEmpty || calls == [[]] then .any [] else callHead (longestFirst calls)

theorem mem_longestFirst {names : List Text} {name : Text} :
    name ∈ longestFirst names ↔ name ∈ names :=
  List.mem_insertionSort _

theorem longestFirst_eq_nil {names : List Text} : longestFirst names = [] ↔ names = [] := by
  constructor
  · intro none
    have same : (longestFirst names).Perm names := List.perm_insertionSort _ names
    rw [none] at same
    exact same.nil_eq.symm
  · rintro rfl
    rfl

theorem longestFirst_eq_singleton {names : List Text} {name : Text} :
    longestFirst names = [name] ↔ names = [name] := by
  constructor
  · intro single
    have same : (longestFirst names).Perm names := List.perm_insertionSort _ names
    rw [single] at same
    exact List.perm_singleton.mp same.symm
  · rintro rfl
    rfl

theorem intercalate_bar_eq_nil {pieces : List Text} :
    List.intercalate ['|'] pieces = [] ↔ pieces = [] ∨ pieces = [[]] := by
  cases pieces with
  | nil => simp [List.intercalate]
  | cons piece later =>
      cases later with
      | nil => simp
      | cons next later => simp

theorem intercalate_escaped_isEmpty (calls : List Text) :
    (List.intercalate ['|'] ((longestFirst calls).map Text.escaped)).isEmpty =
      (calls.isEmpty || calls == [[]]) := by
  have single : (longestFirst calls).map Text.escaped = [[]] ↔ longestFirst calls = [[]] := by
    simp [List.map_eq_singleton_iff, Text.escaped_eq_nil]
  rw [Bool.eq_iff_iff, List.isEmpty_iff, intercalate_bar_eq_nil, List.map_eq_nil_iff, single,
    longestFirst_eq_nil, longestFirst_eq_singleton, Bool.or_eq_true, List.isEmpty_iff, beq_iff_eq]

namespace Pattern

variable {progress : Progress} {rest : Text} {fuel opened : Nat} {first : Bool} {items : List Item}

theorem splitToken_close : splitToken (')' :: rest) = some (.plain ')', rest) :=
  splitToken_plain (by decide)

/-! The place where no longer name is continued. -/

theorem readSet_boundary [CharacterNames] :
    (readSet {}).run { progress with rest := '\\' :: 'w' :: '.' :: ']' :: ')' :: rest } =
      .ok (.oneOf [.word true, .single '.'], { progress with rest := ')' :: rest }) := rfl

theorem readAlternatives_boundary [CharacterNames] (progress : Progress) :
    (readAlternatives (fuel + 3) {} false []).run
        { progress with rest := '[' :: '\\' :: 'w' :: '.' :: ']' :: ')' :: rest } =
      .ok (.oneOf [.word true, .single '.'], { progress with rest := ')' :: rest }) := by
  refine (readAlternatives_last ((readItems_set rfl rfl (splitToken_plain (by decide)) (by simp)
    readSet_boundary).trans (readItems_stop ?_)) ?_).trans ?_
  · simp [splitToken_close]
  · simp [splitToken_close]
  · rfl

theorem readGroupHead_behind :
    (readGroupHead {} opened).run { progress with rest := '?' :: '<' :: '!' :: '[' :: rest } =
      .ok (.behind false, { progress with rest := '[' :: rest }) := rfl

theorem readGroup_boundary [CharacterNames] (closed : rest ≠ ['\\']) :
    (readGroup (fuel + 4) {} opened (.behind false)).run
        { progress with rest := '[' :: '\\' :: 'w' :: '.' :: ']' :: ')' :: rest } =
      .ok (some ⟨.behind false 1 (.oneOf [.word true, .single '.']), .plain⟩,
        { progress with rest }) := by
  let inside : Progress :=
    { progress with lookBehindFrom := progress.lookBehindFrom.getD progress.groups.length }
  exact (readGroup_behind (readAlternatives_boundary inside) splitToken_close closed).trans rfl

theorem readItems_boundary [CharacterNames] (closed : rest ≠ ['\\']) :
    (readItems (fuel + 5) {} first items).run
        { progress with rest := "(?<![\\w.])".toList ++ rest } =
      (readItems (fuel + 4) {} first
        (⟨.behind false 1 (.oneOf [.word true, .single '.']), .plain⟩ :: items)).run
          { progress with rest } :=
  readItems_group rfl (.inr rfl) rfl (splitToken_plain (by decide)) (by simp)
    (fun _ => readGroupHead_behind) fun _ => readGroup_boundary closed

/-! The names. -/

theorem readGroupHead_plain (closed : rest ≠ ['\\']) :
    (readGroupHead {} opened).run { progress with rest := '?' :: ':' :: rest } =
      .ok (.plain, { progress with rest }) := by
  have colon : splitToken (':' :: rest) = some (.plain ':', rest) := splitToken_plain (by decide)
  have mark : splitToken ('?' :: ':' :: rest) = some (.plain '?', ':' :: rest) := rfl
  rw [readGroupHead, bind_run (accept_run mark (by simp)), if_pos rfl, readExtension]
  refine (bind_run (StateT.run_get _)).trans ?_
  rw [bind_run (nextToken_run colon closed)]
  rfl

theorem readItems_names [CharacterNames] {names : List Text} (listed : names ≠ [])
    (closed : rest ≠ ['\\'])
    (enough : (List.intercalate ['|'] (names.map Text.escaped)).length + 1 < fuel) :
    (readItems (fuel + 2) {} first items).run { progress with rest :=
        "(?:".toList ++ (List.intercalate ['|'] (names.map Text.escaped) ++ ')' :: rest) } =
      (readItems (fuel + 1) {} first
        (⟨.any (names.map fun name => .all (name.map char)), .plain⟩ :: items)).run
          { progress with rest } := by
  refine readItems_group rfl (.inl rfl) rfl (splitToken_plain (by decide)) (by simp)
    (fun _ => readGroupHead_plain (append_close_ne_backslash _)) fun _ => ?_
  exact (readGroup_plain (readAlternatives_escaped listed enough) splitToken_close closed).trans rfl

/-! The parenthesis at the end. -/

theorem readEscape_blank [CharacterNames] :
    (readEscape {} 's').run progress = .ok (⟨.oneOf [.blank true], .plain⟩, progress) := rfl

theorem readItems_blanks [CharacterNames] (closed : rest ≠ ['\\'])
    (eager : (splitToken rest).map Prod.fst ≠ some (.plain '?'))
    (yielding : (splitToken rest).map Prod.fst ≠ some (.plain '+')) :
    (readItems (fuel + 2) {} first items).run { progress with rest := '\\' :: 's' :: '*' :: rest } =
      (readItems fuel {} first (⟨.many (.oneOf [.blank true]), .repetition⟩ :: items)).run
        { progress with rest } := by
  have star : splitToken ('*' :: rest) = some (.plain '*', rest) := splitToken_plain (by decide)
  have escape : splitToken ('\\' :: 's' :: '*' :: rest) = some (.escape 's', '*' :: rest) := rfl
  rw [readItems_escape escape (by simp) readEscape_blank,
    readItems_star rfl rfl star closed eager yielding]

theorem readItems_dollar [CharacterNames] :
    (readItems (fuel + 1) {} first items).run { progress with rest := "$".toList } =
      (readItems fuel {} first (⟨.lastLineEnd, .anchor⟩ :: items)).run
        { progress with rest := [] } := by
  have split : splitToken "$".toList = some (.plain '$', []) := rfl
  have item : simpleItem {} '$' = ⟨.lastLineEnd, .anchor⟩ := rfl
  rw [readItems_simple rfl (by decide) split (by decide), item]

theorem readItems_opening [CharacterNames] :
    (readItems (fuel + 7) {} first items).run { progress with rest := "\\s*\\(\\s*$".toList } =
      .ok ((ofItems (⟨.lastLineEnd, .anchor⟩ :: ⟨.many (.oneOf [.blank true]), .repetition⟩ ::
        ⟨.char '(', .plain⟩ :: ⟨.many (.oneOf [.blank true]), .repetition⟩ :: items), {}),
          { progress with rest := [] }) := by
  calc (readItems (fuel + 7) {} first items).run { progress with rest := "\\s*\\(\\s*$".toList }
    _ = (readItems (fuel + 5) {} first (⟨.many (.oneOf [.blank true]), .repetition⟩ :: items)).run
          { progress with rest := "\\(\\s*$".toList } :=
        readItems_blanks (by decide) (by decide) (by decide)
    _ = (readItems (fuel + 4) {} first (⟨.char '(', .plain⟩ ::
          ⟨.many (.oneOf [.blank true]), .repetition⟩ :: items)).run
            { progress with rest := "\\s*$".toList } :=
        readItems_escape rfl (by decide) (readEscape_special rfl)
    _ = (readItems (fuel + 2) {} first (⟨.many (.oneOf [.blank true]), .repetition⟩ ::
          ⟨.char '(', .plain⟩ :: ⟨.many (.oneOf [.blank true]), .repetition⟩ :: items)).run
            { progress with rest := "$".toList } :=
        readItems_blanks (by decide) (by decide) (by decide)
    _ = (readItems (fuel + 1) {} first (⟨.lastLineEnd, .anchor⟩ ::
          ⟨.many (.oneOf [.blank true]), .repetition⟩ ::
          ⟨.char '(', .plain⟩ :: ⟨.many (.oneOf [.blank true]), .repetition⟩ :: items)).run
            { progress with rest := [] } :=
        readItems_dollar
    _ = _ := readItems_stop List.mem_cons_self

/-! The search as a whole. -/

theorem readAlternatives_callHead [CharacterNames] {names : List Text} (progress : Progress)
    (listed : names ≠ [])
    (enough : (List.intercalate ['|'] (names.map Text.escaped)).length < fuel + 5) :
    (readAlternatives (fuel + 10) {} true []).run { progress with rest :=
        "(?<![\\w.])".toList ++ ("(?:".toList ++
          (List.intercalate ['|'] (names.map Text.escaped) ++ ")\\s*\\(\\s*$".toList)) } =
      .ok (callHead names, { progress with rest := [] }) := by
  have items : (readItems (fuel + 9) {} true []).run { progress with rest :=
      "(?<![\\w.])".toList ++ ("(?:".toList ++
        (List.intercalate ['|'] (names.map Text.escaped) ++ ')' :: "\\s*\\(\\s*$".toList)) } =
      .ok ((callHead names, {}), { progress with rest := [] }) := by
    rw [readItems_boundary (by simp), readItems_names listed (by decide) (by omega),
      readItems_opening]
    rfl
  exact readAlternatives_last items (by simp [splitToken])

theorem hiddenFault?_callHead {names : List Text} {groups : Nat → Width} :
    hiddenFault? false groups (callHead names) = none := by
  have named : ∀ pattern ∈ names.map fun name => all (name.map char),
      hiddenFault? false groups pattern = none := by
    rw [List.forall_mem_map]
    intro name _
    apply hiddenFault?_all
    rw [List.forall_mem_map]
    intro c _
    rfl
  apply hiddenFault?_all
  simp only [List.forall_mem_cons]
  exact ⟨rfl, hiddenFault?_any named, rfl, rfl, rfl, rfl, by simp⟩

end Pattern

theorem parse_technicalCallSource [CharacterNames] (calls : List Text) :
    Pattern.parse (technicalCallSource calls) =
      .ok ⟨technicalCallSource calls, technicalCallPattern calls⟩ := by
  have unnamed := intercalate_escaped_isEmpty calls
  by_cases empty : (List.intercalate ['|'] ((longestFirst calls).map Text.escaped)).isEmpty = true
  · have source_eq : technicalCallSource calls = "(?!)".toList := if_pos empty
    have pattern_eq : technicalCallPattern calls = .any [] := if_pos (unnamed ▸ empty)
    rw [source_eq, pattern_eq]
    rfl
  · have source_eq : technicalCallSource calls = _ := if_neg empty
    have pattern_eq : technicalCallPattern calls = _ := if_neg (unnamed ▸ empty)
    have listed : longestFirst calls ≠ [] := by
      intro none
      simp [none] at empty
    -- The fuel is three times the length of the source, and the names are only a part of it.
    have long : (List.intercalate ['|'] ((longestFirst calls).map Text.escaped)).length + 3 ≤
        (technicalCallSource calls).length := by
      have marks : "(?:".length = 3 := rfl
      rw [source_eq]
      simp only [List.length_append, String.length_toList]
      omega
    obtain ⟨fuel, enough⟩ : ∃ fuel, 3 * (technicalCallSource calls).length + 3 = fuel + 10 :=
      ⟨3 * (technicalCallSource calls).length - 7, by omega⟩
    have read := Pattern.readAlternatives_callHead
      { length := (technicalCallSource calls).length, rest := [] } listed
      (show _ < fuel + 5 by omega)
    rw [← source_eq, ← enough] at read
    have closed : technicalCallSource calls ≠ ['\\'] := by simp [source_eq]
    rw [pattern_eq]
    exact Pattern.parse_eq_ok closed read Pattern.hiddenFault?_callHead

example : technicalCallSource ["Key".toList, "Image.asset".toList] =
    "(?<![\\w.])(?:Image\\.asset|Key)\\s*\\(\\s*$".toList := by
  decide +kernel

end HardcodedText
