import HardcodedText.Pattern.Parser
import Mathlib.Tactic.FinCases

/-!
Reading escaped texts. A text in which every special character is escaped is read as the pattern of
this text alone, and several of them with bars in between as the alternatives. One lemma for each
kind of item says what reading it adds to the items read so far.
-/

namespace HardcodedText

def isSpecial (c : Char) : Bool :=
  "()[]\x7b\x7d?*+-|^$\\.&~# \t\n\r\x0b\x0c".toList.contains c

def Text.escaped (text : Text) : Text :=
  text.flatMap fun c => if isSpecial c then ['\\', c] else [c]

theorem Text.escaped_cons_special {c : Char} {text : Text} (special : isSpecial c = true) :
    Text.escaped (c :: text) = '\\' :: c :: Text.escaped text := by
  simp [Text.escaped, special]

theorem Text.escaped_cons_plain {c : Char} {text : Text} (plain : isSpecial c = false) :
    Text.escaped (c :: text) = c :: Text.escaped text := by
  simp [Text.escaped, plain]

theorem Text.length_le_length_escaped (text : Text) : text.length ≤ text.escaped.length := by
  induction text with
  | nil => exact Nat.le_refl 0
  | cons c text ih =>
      cases special : isSpecial c with
      | true =>
          rw [Text.escaped_cons_special special, List.length_cons, List.length_cons,
            List.length_cons]
          omega
      | false =>
          rw [Text.escaped_cons_plain special, List.length_cons, List.length_cons]
          omega

theorem Text.escaped_eq_nil {text : Text} : text.escaped = [] ↔ text = [] := by
  constructor
  · intro none
    have short : text.length ≤ text.escaped.length := text.length_le_length_escaped
    rw [none, List.length_nil] at short
    exact List.length_eq_zero_iff.mp (Nat.le_zero.mp short)
  · rintro rfl
    rfl

theorem ne_of_not_special {c special : Char} (plain : isSpecial c = false)
    (own : isSpecial special = true) : c ≠ special := by
  rintro rfl
  rw [plain] at own
  cases own

namespace Pattern

section Reading

variable {α β : Type} {progress later : Progress} {value : α} {rest : Text} {token : Token}
  {c : Char} {scope : Scope} {fuel opened : Nat} {first whole : Bool} {item : Item}
  {items : List Item} {pattern : Pattern}

theorem bind_run {reader : Reader α} {next : α → Reader β}
    (read : reader.run progress = .ok (value, later)) :
    (reader >>= next).run progress = (next value).run later := by
  rw [StateT.run_bind, read]
  rfl

theorem position_run :
    position.run progress = .ok (progress.length - progress.rest.length, progress) := rfl

theorem peek_run :
    peek.run progress = .ok ((splitToken progress.rest).map Prod.fst, progress) := rfl

theorem moveTo_run (closed : rest ≠ ['\\']) :
    (moveTo rest).run progress = .ok ((), { progress with rest }) := by
  rw [moveTo, StateT.run_bind]
  simp [closed]
  rfl

theorem nextToken_run (split : splitToken progress.rest = some (token, rest))
    (closed : rest ≠ ['\\']) :
    nextToken.run progress = .ok (some token, { progress with rest }) := by
  simp [nextToken, split, moveTo_run closed]

theorem accept_run (split : splitToken progress.rest = some (.plain c, rest))
    (closed : rest ≠ ['\\']) :
    (accept c).run progress = .ok (true, { progress with rest }) := by
  simp [accept, split, moveTo_run closed]

theorem accept_other_run (other : (splitToken progress.rest).map Prod.fst ≠ some (.plain c)) :
    (accept c).run progress = .ok (false, progress) := by
  rw [accept, StateT.run_bind]
  cases split : splitToken progress.rest with
  | none =>
      simp [split]
      rfl
  | some found =>
      have differs : found.1 ≠ .plain c := by simpa [split] using other
      simp [split, differs]
      rfl

theorem splitToken_plain (plain : c ≠ '\\') : splitToken (c :: rest) = some (.plain c, rest) := by
  cases rest <;> simp [splitToken, plain]

/-! The items. -/

theorem readItems_escape [CharacterNames]
    (split : splitToken progress.rest = some (.escape c, rest))
    (closed : rest ≠ ['\\'])
    (read : (readEscape scope c).run { progress with rest } = .ok (item, later)) :
    (readItems (fuel + 1) scope first items).run progress =
      (readItems fuel scope first (item :: items)).run later := by
  rw [readItems, bind_run position_run, bind_run peek_run, split]
  exact (bind_run (nextToken_run split closed)).trans (bind_run read)

/-- A character that ends no alternative takes the last branch of the reader of items. -/
theorem run_atToken_plain (c : Char) (bar : c ≠ '|') (close : c ≠ ')') {atEnd : Reader α}
    {escaped plain : Char → Reader α} :
    (match some (Token.plain c) with
      | none | some (.plain '|') | some (.plain ')') => atEnd
      | some (.escape c) => escaped c
      | some (.plain c) => plain c).run progress = (plain c).run progress := by
  split
  next found => simp at found
  next found => simp [bar] at found
  next found => simp [close] at found
  next found => simp at found
  next found =>
    cases found
    rfl

theorem readItems_simple [CharacterNames] (quiet : scope.verbose = false)
    (simple : c ∉ ['[', '?', '*', '+', '\x7b', '(', '|', ')'])
    (split : splitToken progress.rest = some (.plain c, rest)) (closed : rest ≠ ['\\']) :
    (readItems (fuel + 1) scope first items).run progress =
      (readItems fuel scope first (simpleItem scope c :: items)).run { progress with rest } := by
  simp only [List.mem_cons, not_or] at simple
  rw [readItems, bind_run position_run, bind_run peek_run, split]
  refine (run_atToken_plain c (by simp [simple]) (by simp [simple])).trans ?_
  rw [bind_run (nextToken_run split closed)]
  simp [quiet, simple]

theorem readItems_set [CharacterNames] (quiet : scope.verbose = false) (bracket : c = '[')
    (split : splitToken progress.rest = some (.plain c, rest)) (closed : rest ≠ ['\\'])
    (read : (readSet scope).run { progress with rest } = .ok (pattern, later)) :
    (readItems (fuel + 1) scope first items).run progress =
      (readItems fuel scope first (⟨pattern, .plain⟩ :: items)).run later := by
  rw [readItems, bind_run position_run, bind_run peek_run, split]
  refine (run_atToken_plain c (by simp [bracket]) (by simp [bracket])).trans ?_
  rw [bind_run (nextToken_run split closed)]
  simp only [quiet, bracket]
  exact bind_run read

/-- A star after which neither a question mark nor a plus sign stands. -/
theorem readItems_star [CharacterNames] (quiet : scope.verbose = false) (star : c = '*')
    (split : splitToken progress.rest = some (.plain c, rest)) (closed : rest ≠ ['\\'])
    (eager : (splitToken rest).map Prod.fst ≠ some (.plain '?'))
    (yielding : (splitToken rest).map Prod.fst ≠ some (.plain '+')) :
    (readItems (fuel + 1) scope first (⟨pattern, .plain⟩ :: items)).run progress =
      (readItems fuel scope first (⟨.many pattern, .repetition⟩ :: items)).run
        { progress with rest } := by
  have greed : readGreed.run { progress with rest } = .ok (.greedy, { progress with rest }) := by
    rw [readGreed, bind_run (accept_other_run eager)]
    exact bind_run (accept_other_run yielding)
  have repeated (announced : Nat) :
      (repeatLatest (0, none) announced (⟨pattern, .plain⟩ :: items)).run { progress with rest } =
        .ok (⟨.many pattern, .repetition⟩ :: items, { progress with rest }) := by
    rw [repeatLatest]
    exact bind_run greed
  rw [readItems, bind_run position_run, bind_run peek_run, split]
  refine (run_atToken_plain c (by simp [star]) (by simp [star])).trans ?_
  rw [bind_run (nextToken_run split closed)]
  simp only [quiet, star]
  exact bind_run (repeated _)

theorem readItems_group [CharacterNames] {head : GroupHead} {headed : Progress}
    (quiet : scope.verbose = false)
    (grouped : head = .plain ∨ head = .behind false) (parenthesis : c = '(')
    (split : splitToken progress.rest = some (.plain c, rest)) (closed : rest ≠ ['\\'])
    (readHead : ∀ opened, (readGroupHead scope opened).run { progress with rest } =
      .ok (head, headed))
    (read : ∀ opened, (readGroup fuel scope opened head).run headed = .ok (some item, later)) :
    (readItems (fuel + 1) scope first items).run progress =
      (readItems fuel scope first (item :: items)).run later := by
  rw [readItems, bind_run position_run, bind_run peek_run, split]
  refine (run_atToken_plain c (by simp [parenthesis]) (by simp [parenthesis])).trans ?_
  rw [bind_run (nextToken_run split closed)]
  simp only [quiet, parenthesis]
  refine (bind_run (readHead _)).trans ?_
  rcases grouped with rfl | rfl
  · exact bind_run (read _)
  · exact bind_run (read _)

theorem readItems_stop [CharacterNames] (stop : (splitToken progress.rest).map Prod.fst ∈
      [none, some (.plain '|'), some (.plain ')')]) :
    (readItems (fuel + 1) scope first items).run progress =
      .ok ((ofItems items, scope), progress) := by
  rw [readItems, bind_run position_run, bind_run peek_run]
  split
  next => rfl
  next => rfl
  next => rfl
  next found => simp [found] at stop
  next bar close found =>
    rw [found] at stop
    simp only [List.mem_cons, reduceCtorEq, Option.some.injEq, Token.plain.injEq, List.not_mem_nil,
      or_false, false_or] at stop
    rcases stop with rfl | rfl
    · exact absurd rfl bar
    · exact absurd rfl close

/-! Groups and alternatives. -/

theorem closeItem_run {make : Pattern → Pattern}
    (split : splitToken progress.rest = some (.plain ')', rest)) (closed : rest ≠ ['\\']) :
    (closeItem opened make pattern).run progress =
      .ok (some ⟨make pattern, .plain⟩, { progress with rest }) := by
  rw [closeItem, expectClose]
  exact bind_run (bind_run (accept_run split closed))

theorem readGroup_plain [CharacterNames]
    (read : (readAlternatives fuel scope false []).run progress = .ok (pattern, later))
    (split : splitToken later.rest = some (.plain ')', rest)) (closed : rest ≠ ['\\']) :
    (readGroup (fuel + 1) scope opened .plain).run progress =
      .ok (some ⟨pattern, .plain⟩, { later with rest }) := by
  rw [readGroup]
  exact (bind_run read).trans (closeItem_run split closed)

theorem readGroup_behind [CharacterNames] {present : Bool}
    (read : (readAlternatives fuel scope false []).run
      { progress with lookBehindFrom := progress.lookBehindFrom.getD progress.groups.length } =
        .ok (pattern, later))
    (split : splitToken later.rest = some (.plain ')', rest)) (closed : rest ≠ ['\\']) :
    (readGroup (fuel + 1) scope opened (.behind present)).run progress =
      .ok (some ⟨.behind present (later.measure pattern).least pattern, .plain⟩,
        { later with lookBehindFrom := progress.lookBehindFrom, rest }) := by
  rw [readGroup, bind_run (StateT.run_get progress)]
  refine (bind_run (StateT.run_modify _ progress)).trans ?_
  refine (bind_run read).trans ?_
  refine (bind_run (StateT.run_modify _ later)).trans ?_
  refine (bind_run (StateT.run_get _)).trans ?_
  exact closeItem_run split closed

theorem readAlternatives_last [CharacterNames] {finished : List Pattern} {inner : Scope}
    (read : (readItems fuel scope (whole && finished.isEmpty) []).run progress =
      .ok ((pattern, inner), later))
    (stop : (splitToken later.rest).map Prod.fst ≠ some (.plain '|')) :
    (readAlternatives (fuel + 1) scope whole finished).run progress =
      .ok (any (pattern :: finished).reverse, later) := by
  rw [readAlternatives, bind_run read]
  exact bind_run (accept_other_run stop)

theorem readAlternatives_bar [CharacterNames] {finished : List Pattern} {inner : Scope}
    (read : (readItems fuel scope (whole && finished.isEmpty) []).run progress =
      .ok ((pattern, inner), later))
    (split : splitToken later.rest = some (.plain '|', rest)) (closed : rest ≠ ['\\']) :
    (readAlternatives (fuel + 1) scope whole finished).run progress =
      (readAlternatives fuel inner whole (pattern :: finished)).run { later with rest } := by
  rw [readAlternatives, bind_run read]
  exact bind_run (accept_run split closed)

/-! Escaped texts. -/

theorem readEscape_special [CharacterNames] (special : isSpecial c = true) :
    (readEscape scope c).run progress = .ok (.code scope c.toNat, progress) := by
  rw [isSpecial, List.contains_iff_mem] at special
  fin_cases special <;> rfl

theorem simpleItem_plain (plain : isSpecial c = false) :
    simpleItem scope c = .code scope c.toNat := by
  have dot : c ≠ '.' := ne_of_not_special plain rfl
  have caret : c ≠ '^' := ne_of_not_special plain rfl
  have dollar : c ≠ '$' := ne_of_not_special plain rfl
  simp [simpleItem, dot, caret, dollar]

theorem escaped_append_ne_backslash (text : Text) (closed : rest ≠ ['\\']) :
    text.escaped ++ rest ≠ ['\\'] := by
  cases text with
  | nil => exact closed
  | cons c text =>
      cases special : isSpecial c with
      | true =>
          rw [Text.escaped_cons_special special]
          simp
      | false =>
          have differs : c ≠ '\\' := ne_of_not_special special rfl
          rw [Text.escaped_cons_plain special]
          simp [differs]

theorem readItems_escaped [CharacterNames] (quiet : scope.verbose = false) (text : Text)
    (closed : rest ≠ ['\\']) :
    (readItems (fuel + text.length) scope first items).run
        { progress with rest := Text.escaped text ++ rest } =
      (readItems fuel scope first
        ((text.map fun c => Item.code scope c.toNat).reverse ++ items)).run
          { progress with rest } := by
  induction text generalizing items with
  | nil => rfl
  | cons c text ih =>
      have closed : Text.escaped text ++ rest ≠ ['\\'] := escaped_append_ne_backslash text closed
      rw [List.length_cons, ← Nat.add_assoc, List.map_cons, List.reverse_cons, List.append_assoc,
        List.singleton_append, ← ih]
      cases special : isSpecial c with
      | true =>
          rw [Text.escaped_cons_special special]
          exact readItems_escape rfl closed (readEscape_special special)
      | false =>
          have simple : c ∉ ['[', '?', '*', '+', '\x7b', '(', '|', ')'] := by
            intro member
            fin_cases member <;> cases special
          have split : splitToken (c :: (Text.escaped text ++ rest)) = some (.plain c, _) :=
            splitToken_plain (ne_of_not_special special rfl)
          rw [Text.escaped_cons_plain special, ← simpleItem_plain special]
          exact readItems_simple quiet simple split closed

theorem ofItems_codes (text : Text) :
    ofItems (text.map fun c => Item.code {} c.toNat).reverse = all (text.map char) := by
  have code (c : Char) : (Item.code {} c.toNat).pattern = char c := by
    simp [Item.code, setOf, ClassItem.ofCode, char, oneOf]
  rw [ofItems, List.reverse_reverse, List.map_map]
  congr 1
  exact List.map_congr_left fun c _ => code c

theorem readItems_alternative [CharacterNames] (text : Text) (stop : c = '|' ∨ c = ')')
    (enough : text.length < fuel) :
    (readItems fuel {} first []).run { progress with rest := Text.escaped text ++ c :: rest } =
      .ok ((all (text.map char), {}), { progress with rest := c :: rest }) := by
  obtain ⟨extra, rfl⟩ : ∃ extra, fuel = extra + 1 + text.length :=
    ⟨fuel - 1 - text.length, by omega⟩
  have plain : c ≠ '\\' := by rcases stop with rfl | rfl <;> decide
  have closed : c :: rest ≠ ['\\'] := by simp [plain]
  rw [readItems_escaped rfl text closed, List.append_nil, readItems_stop, ofItems_codes]
  rw [splitToken_plain plain]
  rcases stop with rfl | rfl <;> simp

theorem append_close_ne_backslash (text : Text) : text ++ ')' :: rest ≠ ['\\'] := by
  intro same
  have inside : ')' ∈ ['\\'] := by simp [← same]
  simp at inside

theorem readAlternatives_escaped [CharacterNames] {texts : List Text} (listed : texts ≠ [])
    {finished : List Pattern}
    (enough : (List.intercalate ['|'] (texts.map Text.escaped)).length + 1 < fuel) :
    (readAlternatives fuel {} false finished).run
        { progress with rest := List.intercalate ['|'] (texts.map Text.escaped) ++ ')' :: rest } =
      .ok (any (finished.reverse ++ texts.map fun text => all (text.map char)),
        { progress with rest := ')' :: rest }) := by
  induction texts generalizing fuel finished with
  | nil => exact absurd rfl listed
  | cons text later ih =>
      -- Each alternative takes one unit of fuel, and one unit for each of its characters.
      obtain ⟨fuel, rfl⟩ : ∃ below, fuel = below + 1 := ⟨fuel - 1, by omega⟩
      have short : text.length ≤ (Text.escaped text).length := Text.length_le_length_escaped text
      cases later with
      | nil =>
          rw [List.map_singleton, List.intercalate_singleton] at enough ⊢
          have fits : text.length < fuel := by omega
          refine (readAlternatives_last (readItems_alternative text (.inr rfl) fits) ?_).trans ?_
          · rw [splitToken_plain (by decide)]
            simp
          · rw [List.reverse_cons]
            rfl
      | cons next later =>
          have joined : List.intercalate ['|'] ((text :: next :: later).map Text.escaped) =
              Text.escaped text ++
                '|' :: List.intercalate ['|'] ((next :: later).map Text.escaped) := by
            simp
          rw [joined, List.length_append, List.length_cons] at enough
          have fits : text.length < fuel := by omega
          rw [joined, List.append_assoc, List.cons_append]
          refine (readAlternatives_bar (readItems_alternative text (.inl rfl) fits)
            (splitToken_plain (by decide)) (append_close_ne_backslash _)).trans ?_
          rw [ih (by simp) (by omega), List.reverse_cons, List.append_assoc]
          rfl

end Reading

/-! The pattern as a whole. -/

theorem hiddenFault?_all {template : Bool} {groups : Nat → Width} {patterns : List Pattern}
    (sound : ∀ pattern ∈ patterns, hiddenFault? template groups pattern = none) :
    hiddenFault? template groups (all patterns) = none := by
  induction patterns using all.induct with
  | case1 => rfl
  | case2 pattern => exact sound pattern List.mem_cons_self
  | case3 pattern later nonempty ih =>
      obtain ⟨own, onward⟩ := List.forall_mem_cons.mp sound
      rw [all, hiddenFault?, own, ih onward]
      · rfl
      · exact nonempty

theorem hiddenFault?_any {template : Bool} {groups : Nat → Width} {patterns : List Pattern}
    (sound : ∀ pattern ∈ patterns, hiddenFault? template groups pattern = none) :
    hiddenFault? template groups (any patterns) = none := by
  induction patterns using any.induct with
  | case1 => rfl
  | case2 pattern => exact sound pattern List.mem_cons_self
  | case3 pattern later nonempty ih =>
      obtain ⟨own, onward⟩ := List.forall_mem_cons.mp sound
      rw [any, hiddenFault?, own, ih onward]
      · rfl
      · exact nonempty

theorem parse_eq_ok [CharacterNames] {source : Text} {pattern : Pattern} (closed : source ≠ ['\\'])
    (read : (readAlternatives (3 * source.length + 3) {} true []).run
      { length := source.length, rest := source } =
        .ok (pattern, { length := source.length, rest := [] }))
    (sound : hiddenFault? false (fun _ => .zero) pattern = none) :
    parse source = .ok ⟨source, pattern⟩ := by
  have checked : (checkWhole pattern).run { length := source.length, rest := [] } =
      .ok ((), { length := source.length, rest := [] }) := by
    rw [checkWhole, bind_run (StateT.run_get _)]
    simp [Progress.widthOf, sound]
    rfl
  have whole : (readAll source).run { length := source.length, rest := source } =
      .ok (pattern, { length := source.length, rest := [] }) := by
    rw [readAll, bind_run (moveTo_run closed), bind_run read, bind_run checked]
    rfl
  rw [parse, whole]

end Pattern

end HardcodedText
