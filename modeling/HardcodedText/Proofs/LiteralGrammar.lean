import HardcodedText.Proofs.Balance
import HardcodedText.Proofs.Scanner.CodeSteps
import HardcodedText.Proofs.Scanner.Parentheses

/-!
The grammar of string literals. Between its quotes a literal has items: escapes, interpolations with
balanced braces, and plain characters at which neither an interpolation nor the closing quotes
begin. The scanner passes an item and is where it was before it, so it closes a literal exactly
where the grammar does.
-/

namespace HardcodedText

inductive ContentItem
  /-- A backslash and the character that it takes along. -/
  | escape (c : Char)
  | interpolation (code : Text)
  | plain (c : Char)
  deriving DecidableEq, Repr

namespace ContentItem

def text : ContentItem → Text
  | escape c => ['\\', c]
  | interpolation code => '$' :: '\x7b' :: (code ++ ['\x7d'])
  | plain c => [c]

def code : ContentItem → Text
  | interpolation code => code
  | _ => []

def Fits (quotes following : Text) : ContentItem → Prop
  | escape _ => True
  | interpolation code => Balanced '\x7b' '\x7d' code
  | plain c => c ≠ '\\' ∧ ¬ ['$', '\x7b'] <+: c :: following ∧ ¬ quotes <+: c :: following

instance (quotes following : Text) : (item : ContentItem) → Decidable (item.Fits quotes following)
  | escape _ => isTrue trivial
  | interpolation code => inferInstanceAs (Decidable (Balanced _ _ code))
  | plain _ => inferInstanceAs (Decidable (_ ∧ _ ∧ _))

end ContentItem

def contentText (items : List ContentItem) : Text :=
  items.flatMap ContentItem.text

theorem contentText_cons (item : ContentItem) (later : List ContentItem) :
    contentText (item :: later) = item.text ++ contentText later :=
  List.flatMap_cons

def ItemsFit (quotes rest : Text) : List ContentItem → Prop
  | [] => True
  | item :: later => item.Fits quotes (contentText later ++ rest) ∧ ItemsFit quotes rest later

instance decidableItemsFit (quotes rest : Text) :
    (items : List ContentItem) → Decidable (ItemsFit quotes rest items)
  | [] => isTrue trivial
  | _ :: later =>
      have := decidableItemsFit quotes rest later
      inferInstanceAs (Decidable (_ ∧ _))

/-- The text begins with a literal that has the content between the quotes. -/
def BeginsLiteral (quotes content text : Text) : Prop :=
  ∃ items rest, text = quotes ++ (content ++ (quotes ++ rest)) ∧ contentText items = content ∧
    ItemsFit quotes (quotes ++ rest) items

def openingQuotes (quote : Char) (text : Text) : Text :=
  if [quote, quote, quote] <+: text then [quote, quote, quote] else [quote]

theorem text_opening (quote : Char) (rest : Text) :
    (Delimiter.opening quote rest).text = openingQuotes quote (quote :: rest) := by
  by_cases tripled : [quote, quote] <+: rest
  · have begins : [quote, quote, quote] <+: quote :: rest :=
      List.cons_prefix_cons.mpr ⟨rfl, tripled⟩
    rw [openingQuotes, if_pos begins, Delimiter.opening, Delimiter.text,
      List.isPrefixOf_iff_prefix.mpr tripled]
    rfl
  · have single : ¬ [quote, quote, quote] <+: quote :: rest := by
      rw [List.cons_prefix_cons]
      exact fun begins => tripled begins.2
    have untripled : [quote, quote].isPrefixOf rest = false := by
      rwa [← Bool.not_eq_true, List.isPrefixOf_iff_prefix]
    rw [openingQuotes, if_neg single, Delimiter.opening, Delimiter.text, untripled]
    rfl

/-! Passing over the items of a literal. -/

def parenthesesOf (text : Text) : Text :=
  text.map fun c => if isParenthesis c then c else ' '

def ContentItem.marks : ContentItem → Text
  | .escape _ => [' ', ' ']
  | .interpolation code => ' ' :: ' ' :: (parenthesesOf code ++ [' '])
  | .plain _ => [' ']

namespace Cursor

/-- The cursor gets over the body to another one without closing anything, and `marks` are the
parentheses that count on the way. -/
structure Passes (cursor : Cursor) (index : Nat) (body rest marks : Text) (after : Cursor) :
    Prop where
  arrives : cursor.advance index body rest = after
  closings_eq : cursor.closings index (body ++ rest) = after.closings (index + body.length) rest
  counted_eq : cursor.counted index (body ++ rest) =
    marks ++ after.counted (index + body.length) rest

theorem Passes.append {cursor middle after : Cursor} {index : Nat}
    {body more rest marks others : Text}
    (first : cursor.Passes index body (more ++ rest) marks middle)
    (second : middle.Passes (index + body.length) more rest others after) :
    cursor.Passes index (body ++ more) rest (marks ++ others) after where
  arrives := by
    rw [advance_append, first.arrives, second.arrives]
  closings_eq := by
    rw [List.append_assoc, first.closings_eq, second.closings_eq, List.length_append, Nat.add_assoc]
  counted_eq := by
    rw [List.append_assoc, first.counted_eq, second.counted_eq, List.length_append, Nat.add_assoc,
      List.append_assoc]

theorem passes_nil (cursor : Cursor) (index : Nat) (rest : Text) :
    cursor.Passes index [] rest [] cursor :=
  ⟨rfl, rfl, rfl⟩

theorem passes_skipped (mode : Mode) (index : Nat) (consumed rest : Text) :
    (⟨mode, consumed.length⟩ : Cursor).Passes index consumed rest
      (List.replicate consumed.length ' ') ⟨mode, 0⟩ where
  arrives := advance_skip mode index consumed rest
  closings_eq := closings_skip mode index consumed rest
  counted_eq := by
    induction consumed generalizing index with
    | nil => rfl
    | cons c consumed ih =>
        have place : index + (c :: consumed).length = index + 1 + consumed.length := by
          rw [List.length_cons]
          omega
        rw [place, List.length_cons, List.replicate_succ, List.cons_append, List.cons_append,
          counted, ← ih (index + 1)]
        rfl

theorem passes_step {mode later : Mode} {event : Event} {index width : Nat} {c : Char}
    {rest : Text} (settled : mode.settle c = mode) (quiet : event.isClosing = false)
    (taken : mode.step index c rest = ⟨event, width + 1, later⟩) :
    (⟨mode, 0⟩ : Cursor).Passes index [c] rest
      [if mode.countsParentheses && isParenthesis c then c else ' '] ⟨later, width⟩ where
  arrives := by
    simp [advance, next, Mode.consume, settled, taken]
  closings_eq := by
    rw [List.singleton_append, closings_cons]
    simp [moments, next, Mode.consume, settled, Mode.settling_eq_nil settled, taken, Moment.ofStep,
      quiet]
  counted_eq := by
    rw [List.singleton_append, counted]
    simp [next, Mode.consume, settled, taken, counts]

def inLiteral (delimiter : Delimiter) (start : Nat) : Cursor :=
  ⟨.string delimiter start false, 0⟩

section Items

variable {delimiter : Delimiter} {start : Nat}

theorem step_backslash (escaped : Bool) (index : Nat) (rest : Text) :
    (Mode.string delimiter start escaped).step index '\\' rest =
      ⟨.none, 1, .string delimiter start !escaped⟩ := by
  simp [Mode.step, stepString]

theorem step_escaped (index : Nat) (c : Char) (rest : Text) :
    (Mode.string delimiter start true).step index c rest =
      ⟨.none, 1, .string delimiter start false⟩ := by
  by_cases again : c = '\\' <;> simp [Mode.step, stepString, again]

theorem step_plain {c : Char} {rest : Text}
    (fits : (ContentItem.plain c).Fits delimiter.text rest) (index : Nat) :
    (Mode.string delimiter start false).step index c rest =
      ⟨.none, 1, .string delimiter start false⟩ := by
  obtain ⟨noBackslash, noInterpolation, noQuotes⟩ := fits
  have quiet : ¬ (c = '$' ∧ rest.head? = some '\x7b') := by
    rw [ head?_eq_some_iff_prefix]
    rintro ⟨rfl, brace⟩
    exact noInterpolation (List.cons_prefix_cons.mpr ⟨rfl, brace⟩)
  simp [Mode.step, stepString, noBackslash, quiet, noQuotes]

theorem passes_escape (index : Nat) (c : Char) (rest : Text) :
    (inLiteral delimiter start).Passes index ['\\', c] rest [' ', ' ']
      (inLiteral delimiter start) :=
  (passes_step rfl rfl (step_backslash false index _)).append
    (passes_step rfl rfl (step_escaped (index + 1) c rest))

theorem passes_plain {index : Nat} {c : Char} {rest : Text}
    (fits : (ContentItem.plain c).Fits delimiter.text rest) :
    (inLiteral delimiter start).Passes index [c] rest [' '] (inLiteral delimiter start) :=
  passes_step rfl rfl (step_plain fits index)

/-- A character in an interpolation leads to the level that it leaves. -/
theorem passes_brace {level next : Nat} {c : Char}
    (levels : levelAfter '\x7b' '\x7d' level [c] = some next) (index : Nat) (rest : Text) :
    (⟨.interpolation delimiter start level, 0⟩ : Cursor).Passes index [c] rest (parenthesesOf [c])
      ⟨.interpolation delimiter start next, 0⟩ := by
  have step : (Mode.interpolation delimiter start level).step index c rest =
      ⟨.none, 1, .interpolation delimiter start next⟩ := by
    by_cases opens : c = '\x7b'
    · subst opens
      obtain rfl := Option.some_inj.mp levels
      rfl
    · by_cases closes : c = '\x7d'
      · subst closes
        cases level with
        | zero => simp [levelAfter_unopened] at levels
        | succ level =>
            obtain rfl := Option.some_inj.mp levels
            rfl
      · rw [levelAfter_other opens closes] at levels
        obtain rfl := Option.some_inj.mp levels
        simp [Mode.step, stepInterpolation, opens, closes]
  exact passes_step rfl rfl step

theorem passes_code {level last : Nat} {code : Text}
    (levels : levelAfter '\x7b' '\x7d' level code = some last) (index : Nat) (rest : Text) :
    (⟨.interpolation delimiter start level, 0⟩ : Cursor).Passes index code rest
      (parenthesesOf code) ⟨.interpolation delimiter start last, 0⟩ := by
  induction code generalizing level index with
  | nil =>
      obtain rfl : level = last := by simpa [levelAfter] using levels
      exact passes_nil _ index rest
  | cons c code ih =>
      rw [levelAfter_cons, Option.bind_eq_some_iff] at levels
      obtain ⟨next, first, later⟩ := levels
      exact (passes_brace first index _).append (ih later (index + 1))

theorem passes_interpolation_opening (index : Nat) (rest : Text) :
    (inLiteral delimiter start).Passes index ['$', '\x7b'] rest [' ', ' ']
      ⟨.interpolation delimiter start 0, 0⟩ := by
  have begins : (Mode.string delimiter start false).step index '$' (['\x7b'] ++ rest) =
      ⟨.none, 2, .interpolation delimiter start 0⟩ := by
    simp [Mode.step, stepString]
  exact (passes_step rfl rfl begins).append (passes_skipped _ _ ['\x7b'] rest)

theorem passes_interpolation {code : Text} (balanced : Balanced '\x7b' '\x7d' code) (index : Nat)
    (rest : Text) :
    (inLiteral delimiter start).Passes index (ContentItem.interpolation code).text rest
      (ContentItem.interpolation code).marks (inLiteral delimiter start) := by
  rw [balanced_iff (by decide)] at balanced
  have ends (place : Nat) : (Mode.interpolation delimiter start 0).step place '\x7d' rest =
      ⟨.none, 1, .string delimiter start false⟩ := rfl
  have inside : Passes ⟨.interpolation delimiter start 0, 0⟩ (index + 2) (code ++ ['\x7d']) rest
      (parenthesesOf code ++ [' ']) (inLiteral delimiter start) :=
    (passes_code balanced _ _).append (passes_step rfl rfl (ends _))
  exact (passes_interpolation_opening index _).append inside

theorem passes_item {item : ContentItem} {rest : Text} (fits : item.Fits delimiter.text rest)
    (index : Nat) :
    (inLiteral delimiter start).Passes index item.text rest item.marks
      (inLiteral delimiter start) := by
  cases item with
  | escape c => exact passes_escape index c rest
  | interpolation code => exact passes_interpolation fits index rest
  | plain c => exact passes_plain fits

/-- The items of a literal lead back to where they began. -/
theorem passes_items {items : List ContentItem} {rest : Text}
    (fit : ItemsFit delimiter.text rest items) (index : Nat) :
    (inLiteral delimiter start).Passes index (contentText items) rest
      (items.flatMap ContentItem.marks) (inLiteral delimiter start) := by
  induction items generalizing index with
  | nil => exact passes_nil _ index rest
  | cons item items ih => exact (passes_item fit.1 index).append (ih fit.2 _)

/-! What the scanner closes is spelled by items. -/

theorem exists_code_of_closing {level index : Nat} {text : Text}
    (closes : (⟨.interpolation delimiter start level, 0⟩ : Cursor).closings index text ≠ []) :
    ∃ code rest, text = code ++ '\x7d' :: rest ∧
      levelAfter '\x7b' '\x7d' level code = some 0 := by
  induction text generalizing level index with
  | nil => exact absurd (closings_nil _ index) closes
  | cons c text ih =>
      cases first : levelAfter '\x7b' '\x7d' level [c] with
      | none =>
          obtain ⟨rfl, rfl⟩ := levelAfter_singleton_eq_none first
          exact ⟨[], text, rfl, rfl⟩
      | some next =>
          rw [← List.singleton_append, (passes_brace first index text).closings_eq] at closes
          obtain ⟨code, rest, rfl, levels⟩ := ih closes
          exact ⟨c :: code, rest, rfl, by rw [levelAfter_cons, first, Option.bind_some, levels]⟩

/-- At a place where the literal is not closed, some item comes next. -/
theorem exists_item_of_closing {index : Nat} {text : Text} (open' : ¬ delimiter.text <+: text)
    (closes : (inLiteral delimiter start).closings index text ≠ []) :
    ∃ item : ContentItem, ∃ rest, text = item.text ++ rest ∧ item.Fits delimiter.text rest := by
  cases text with
  | nil => exact absurd (closings_nil _ index) closes
  | cons c text =>
      by_cases backslash : c = '\\'
      · subst backslash
        cases text with
        | nil =>
            have passed : (inLiteral delimiter start).Passes index ['\\'] [] [' ']
                ⟨.string delimiter start true, 0⟩ := passes_step rfl rfl rfl
            have silent := passed.closings_eq
            rw [closings_nil] at silent
            exact absurd silent closes
        | cons escaped rest => exact ⟨.escape escaped, rest, rfl, trivial⟩
      · by_cases interpolates : ['$', '\x7b'] <+: c :: text
        · obtain ⟨body, written⟩ := interpolates
          obtain ⟨rfl, rfl⟩ := List.cons_eq_cons.mp written
          have inside : (inLiteral delimiter start).closings index (['$', '\x7b'] ++ body) = _ :=
            (passes_interpolation_opening index body).closings_eq
          obtain ⟨code, rest, rfl, levels⟩ := exists_code_of_closing (inside ▸ closes)
          exact ⟨.interpolation code, rest, by simp [ContentItem.text],
            (balanced_iff (by decide) code).mpr levels⟩
        · exact ⟨.plain c, text, rfl, backslash, interpolates, open'⟩

theorem exists_items_of_closing (length : Nat) : ∀ (index : Nat) (text : Text),
    text.length = length → (inLiteral delimiter start).closings index text ≠ [] →
      ∃ items rest, text = contentText items ++ (delimiter.text ++ rest) ∧
        ItemsFit delimiter.text (delimiter.text ++ rest) items := by
  induction length using Nat.strongRecOn with
  | ind length ih =>
      intro index text size closes
      by_cases ends : delimiter.text <+: text
      · obtain ⟨rest, rfl⟩ := ends
        exact ⟨[], rest, rfl, trivial⟩
      · obtain ⟨item, following, rfl, fits⟩ := exists_item_of_closing ends closes
        have positive : 0 < item.text.length := by
          cases item <;> simp [ContentItem.text]
        rw [List.length_append] at size
        rw [(passes_item fits index).closings_eq] at closes
        obtain ⟨items, rest, rfl, fit⟩ := ih following.length (by omega) _ following rfl closes
        exact ⟨item :: items, rest, by simp [contentText], fits, fit⟩

/-! The quotes around the items. -/

theorem exists_text_cons (delimiter : Delimiter) :
    ∃ more, delimiter.text = delimiter.quote :: more := by
  cases tripled : delimiter.tripled <;> simp [Delimiter.text, tripled]

theorem step_closing_quotes (quoted : isQuote delimiter.quote = true) {more : Text}
    (written : delimiter.text = delimiter.quote :: more) (index : Nat) (rest : Text) :
    (Mode.string delimiter start false).step index delimiter.quote (more ++ rest) =
      ⟨.literalClose delimiter start, delimiter.text.length, .code⟩ := by
  have noBackslash : delimiter.quote ≠ '\\' := by
    intro backslash
    rw [backslash] at quoted
    exact absurd quoted (by decide)
  have noDollar : delimiter.quote ≠ '$' := by
    intro dollar
    rw [dollar] at quoted
    exact absurd quoted (by decide)
  have begins : delimiter.text <+: delimiter.quote :: (more ++ rest) := by
    rw [written]
    exact List.prefix_append (delimiter.quote :: more) rest
  simp [Mode.step, stepString, noBackslash, noDollar, begins, Delimiter.length_text]

theorem closings_of_quotes (quoted : isQuote delimiter.quote = true) (index : Nat) (rest : Text) :
    (inLiteral delimiter start).closings index (delimiter.text ++ rest) =
      ⟨index, .string delimiter start false, .literalClose delimiter start,
          index + delimiter.text.length, .code⟩ ::
        Cursor.code.closings (index + delimiter.text.length) rest := by
  obtain ⟨more, written⟩ := exists_text_cons delimiter
  have sound : (Mode.string delimiter start false).Sound := by
    intro enclosure inside
    obtain rfl := Option.some_inj.mp inside
    exact quoted
  have closes : (inLiteral delimiter start).Closes index (.literal delimiter start) [] rest
      (.string delimiter start false) :=
    closes_of_terminator sound rfl written (step_closing_quotes quoted written index rest)
  exact closes.closings_eq rest (Erases.refl rest)

end Items

theorem passes_opening {quote : Char} (quoted : isQuote quote = true) (index : Nat)
    {rest body : Text} (written : quote :: rest = (Delimiter.opening quote rest).text ++ body) :
    Cursor.code.Passes index (Delimiter.opening quote rest).text body
      (List.replicate (Delimiter.opening quote rest).text.length ' ')
      (inLiteral (Delimiter.opening quote rest) index) := by
  generalize opened : Delimiter.opening quote rest = delimiter at written ⊢
  obtain ⟨more, quotes⟩ := exists_text_cons delimiter
  rw [quotes, List.cons_append, List.cons_eq_cons] at written
  obtain ⟨rfl, rfl⟩ := written
  have noParenthesis : isParenthesis delimiter.quote = false := by
    by_contra parenthesis
    rw [Bool.not_eq_false, isParenthesis, Bool.or_eq_true, beq_iff_eq, beq_iff_eq] at parenthesis
    rcases parenthesis with same | same <;> rw [same] at quoted <;> exact absurd quoted (by decide)
  have step : Mode.code.step index delimiter.quote (more ++ body) =
      ⟨.literalOpen, more.length + 1, .string delimiter index false⟩ := by
    rw [← List.length_cons, ← quotes]
    simp [Mode.step, stepCode, quoted, opened, Delimiter.length_text]
  have first := passes_step rfl rfl step
  rw [noParenthesis, Bool.and_false, if_neg (by decide)] at first
  rw [quotes]
  exact first.append (passes_skipped _ _ more body)

end Cursor

/-- A literal of the grammar is the first one that the scanner finds. -/
theorem literalsFrom_of_beginsLiteral {quote : Char} (quoted : isQuote quote = true)
    {content rest : Text}
    (begins : BeginsLiteral (Delimiter.opening quote rest).text content (quote :: rest))
    (index : Nat) :
    ∃ more, literalsFrom index (quote :: rest) =
      ⟨Delimiter.opening quote rest, content, index,
          content.length + 2 * (Delimiter.opening quote rest).text.length⟩ ::
        literalsFrom (index + (content.length + 2 * (Delimiter.opening quote rest).text.length))
          more := by
  obtain ⟨items, more, written, rfl, fit⟩ := begins
  refine ⟨more, ?_⟩
  have listed := (Cursor.passes_opening quoted index written).closings_eq
  rw [← written, (Cursor.passes_items fit _).closings_eq, Cursor.closings_of_quotes quoted]
    at listed
  generalize Delimiter.opening quote rest = delimiter at written listed ⊢
  have shape : quote :: rest =
      (Enclosure.literal delimiter index).written (contentText items) ++ more := by
    rw [written]
    simp [Enclosure.written, Enclosure.opener, Enclosure.terminator]
  have width : ((Enclosure.literal delimiter index).written (contentText items)).length =
      (contentText items).length + 2 * delimiter.text.length := by
    simp only [Enclosure.written, Enclosure.opener, Enclosure.terminator, List.length_append]
    omega
  have place : index + delimiter.text.length + (contentText items).length +
      delimiter.text.length =
        index + ((Enclosure.literal delimiter index).written (contentText items)).length := by
    omega
  rw [shape, place, Nat.add_assoc, ← List.length_append] at listed
  have found : literalsFrom index
      ((Enclosure.literal delimiter index).written (contentText items) ++ more) = _ :=
    literalsFrom_of_closings rfl listed
  rw [shape, found, Enclosure.literal?, width]
  rfl

/-- The literals that begin at a quote in code are those of the grammar. -/
theorem mem_literalsFrom_iff {quote : Char} (quoted : isQuote quote = true) (index : Nat)
    (rest : Text) (literal : StringLiteral) :
    literal ∈ literalsFrom index (quote :: rest) ∧ literal.start = index ↔
      ∃ content, BeginsLiteral (openingQuotes quote (quote :: rest)) content (quote :: rest) ∧
        literal = ⟨Delimiter.opening quote rest, content, index,
          content.length + 2 * (openingQuotes quote (quote :: rest)).length⟩ := by
  rw [← text_opening]
  constructor
  · rintro ⟨member, begins⟩
    obtain ⟨body, written⟩ := Delimiter.opening_isPrefix quote rest
    have closes : Cursor.code.closings index (quote :: rest) ≠ [] := by
      intro silent
      rw [literalsFrom, silent] at member
      simp at member
    rw [← written, (Cursor.passes_opening quoted index written.symm).closings_eq] at closes
    obtain ⟨items, more, rfl, fit⟩ := Cursor.exists_items_of_closing _ _ body rfl closes
    have grammar : BeginsLiteral (Delimiter.opening quote rest).text (contentText items)
        (quote :: rest) := ⟨items, more, written.symm, rfl, fit⟩
    obtain ⟨tail, listed⟩ := literalsFrom_of_beginsLiteral quoted grammar index
    refine ⟨_, grammar, ?_⟩
    rw [listed, List.mem_cons] at member
    rcases member with same | later
    · exact same
    · have first := (literalsFrom_writtenIn _ _ literal later).first
      have positive := List.length_pos_iff.mpr (Delimiter.opening quote rest).text_ne_nil
      omega
  · rintro ⟨content, grammar, rfl⟩
    obtain ⟨tail, listed⟩ := literalsFrom_of_beginsLiteral quoted grammar index
    rw [listed]
    exact ⟨List.mem_cons_self, rfl⟩

/-- A place that a run reaches in code parts the literals of a text. -/
theorem literalsFrom_of_reached (index : Nat) (text : Text) : ∀ moment,
    moment ∈ Cursor.code.run index text → moment.before = .code →
    ∃ front back earlier, text = front ++ back ∧ moment.index = index + front.length ∧
      literalsFrom index text = earlier ++ literalsFrom moment.index back ∧
      ∀ literal ∈ earlier, literal.start < moment.index := by
  induction index, text using code_induction with
  | nil index =>
      intro moment member
      simp at member
  | plain index c rest _ step ih =>
      intro moment member inCode
      rw [Cursor.run_cons, List.mem_append, Cursor.next_code_plain step] at member
      rcases member with here | later
      · rw [(Cursor.moments_bounds here).1]
        exact ⟨[], c :: rest, [], rfl, rfl, rfl, by simp⟩
      · obtain ⟨front, back, earlier, rfl, place, listed, before⟩ := ih moment later inCode
        refine ⟨c :: front, back, earlier, rfl, ?_, ?_, before⟩
        · rw [List.length_cons]
          omega
        · rw [literalsFrom_plain step, listed]
  | closed index enclosure inner rest encloses ih =>
      intro moment member inCode
      rcases encloses.code_steps member inCode with ⟨here, -⟩ | later
      · rw [here]
        exact ⟨[], _, [], rfl, rfl, rfl, by simp⟩
      · obtain ⟨front, back, earlier, rfl, place, listed, before⟩ := ih moment later inCode
        refine ⟨enclosure.written inner ++ front, back,
          (enclosure.literal? inner).toList ++ earlier, by rw [List.append_assoc], ?_, ?_, ?_⟩
        · rw [List.length_append]
          omega
        · rw [literalsFrom_closed encloses, listed, List.append_assoc]
        · intro literal member
          rw [List.mem_append, Option.mem_toList] at member
          rcases member with found | member
          · have start := (Enclosure.literal?_writtenIn encloses found).2.1
            have positive := enclosure.length_written_pos inner
            omega
          · exact before literal member
  | unclosed index enclosure text _ left =>
      intro moment member inCode
      rw [(left.code_steps member inCode).1]
      exact ⟨[], text, [], rfl, rfl, rfl, by simp⟩

theorem mem_stringLiterals_iff_of_reached {text : Text} {offset : Nat}
    (reached : ∃ moment ∈ run text, moment.index = offset ∧ moment.before = .code)
    (literal : StringLiteral) :
    literal ∈ stringLiterals text ∧ literal.start = offset ↔
      literal ∈ literalsFrom offset (text.drop offset) ∧ literal.start = offset := by
  obtain ⟨moment, member, rfl, inCode⟩ := reached
  obtain ⟨front, back, earlier, rfl, place, listed, before⟩ :=
    literalsFrom_of_reached 0 text moment member inCode
  have dropped : (front ++ back).drop moment.index = back := by
    rw [place, Nat.zero_add, List.drop_left]
  rw [stringLiterals_eq, listed, dropped, List.mem_append]
  constructor
  · rintro ⟨found | found, start⟩
    · have earlier := before literal found
      omega
    · exact ⟨found, start⟩
  · rintro ⟨found, start⟩
    exact ⟨Or.inr found, start⟩

/-- At a quote that a run reaches in code the text has a literal if and only if the grammar has one
there; its content is the only one of the grammar. -/
theorem literal_at_iff_grammar {text : Text} {offset : Nat} {quote : Char}
    (reached : ∃ moment ∈ run text, moment.index = offset ∧ moment.before = .code)
    (read : text[offset]? = some quote) (quoted : isQuote quote = true) :
    ((∃ literal ∈ stringLiterals text, literal.start = offset) ↔
      ∃ content, BeginsLiteral (openingQuotes quote (text.drop offset)) content
        (text.drop offset)) ∧
    ∀ content, BeginsLiteral (openingQuotes quote (text.drop offset)) content
        (text.drop offset) →
      (∀ other, BeginsLiteral (openingQuotes quote (text.drop offset)) other
        (text.drop offset) → other = content) ∧
      ∀ literal ∈ stringLiterals text, literal.start = offset →
        literal.content = content ∧
        literal.delimiter.text = openingQuotes quote (text.drop offset) ∧
        literal.length =
          content.length + 2 * (openingQuotes quote (text.drop offset)).length := by
  have located := mem_stringLiterals_iff_of_reached reached
  obtain ⟨inside, rfl⟩ := List.getElem?_eq_some_iff.mp read
  rw [List.drop_eq_getElem_cons inside] at located ⊢
  generalize text[offset] = quote at quoted located ⊢
  generalize text.drop (offset + 1) = rest at located ⊢
  have grammar (literal : StringLiteral) :=
    (located literal).trans (mem_literalsFrom_iff quoted offset rest literal)
  have unique (content other : Text)
      (first : BeginsLiteral (openingQuotes quote (quote :: rest)) content (quote :: rest))
      (second : BeginsLiteral (openingQuotes quote (quote :: rest)) other (quote :: rest)) :
      other = content := by
    obtain ⟨_, listed⟩ := literalsFrom_of_beginsLiteral quoted (text_opening quote rest ▸ first) 0
    obtain ⟨_, again⟩ := literalsFrom_of_beginsLiteral quoted (text_opening quote rest ▸ second) 0
    rw [listed, List.cons_eq_cons] at again
    exact (congrArg StringLiteral.content again.1).symm
  refine ⟨⟨?_, ?_⟩, ?_⟩
  · rintro ⟨literal, member, start⟩
    obtain ⟨content, begins, -⟩ := (grammar literal).mp ⟨member, start⟩
    exact ⟨content, begins⟩
  · rintro ⟨content, begins⟩
    obtain ⟨member, start⟩ := (grammar _).mpr ⟨content, begins, rfl⟩
    exact ⟨_, member, start⟩
  · intro content begins
    refine ⟨fun other => unique content other begins, ?_⟩
    intro literal member start
    obtain ⟨other, again, rfl⟩ := (grammar literal).mp ⟨member, start⟩
    obtain rfl := unique content other begins again
    exact ⟨rfl, text_opening quote rest, rfl⟩

theorem literal_at_iff_grammar_interpolated :
    let text := "f('a\\'$\x7bg(\x7b1\x7d)\x7d');".toList
    let content := "a\\'$\x7bg(\x7b1\x7d)\x7d".toList
    (∃ moment ∈ run text, moment.index = 2 ∧ moment.before = .code) ∧ text[2]? = some '\'' ∧
    ∃ literal ∈ stringLiterals text, literal.start = 2 ∧ literal.content = content ∧
      literal.delimiter.text = ['\''] ∧ literal.length = 14 := by
  intro text content
  have reached : ∃ moment ∈ run text, moment.index = 2 ∧ moment.before = .code := by
    decide
  have read : text[2]? = some '\'' := by
    decide
  have begins : BeginsLiteral (openingQuotes '\'' (text.drop 2)) content (text.drop 2) :=
    ⟨[.plain 'a', .escape '\'', .interpolation "g(\x7b1\x7d)".toList], ");".toList, by decide⟩
  obtain ⟨found, described⟩ := literal_at_iff_grammar reached read (by decide)
  obtain ⟨literal, member, start⟩ := found.mpr ⟨content, begins⟩
  obtain ⟨same, quotes, length⟩ := (described content begins).2 literal member start
  exact ⟨reached, read, literal, member, start, same, quotes, length⟩

end HardcodedText
