import HardcodedText.CommandLine.Run
import HardcodedText.Proofs.Silencing

/-!
Classifying one literal and scanning a file. The command puts a literal into an argument list that
it writes itself, where scanning looks for a call, takes its argument list and reads the literals
there. The main statement says that both come to the same verdict for a call that consists of that
argument list.
-/

namespace HardcodedText

def OpensNothing (text : Text) : Prop :=
  ∀ c ∈ text, isQuote c = false ∧ c ≠ '/' ∧ c ≠ '('

theorem OpensNothing.ordinary {text : Text} (silent : OpensNothing text) : Ordinary text := by
  intro c member
  exact ⟨(silent c member).1, (silent c member).2.1⟩

theorem opensNothing_of_word {text : Text} (word : ∀ c ∈ text, isWordChar c = true) :
    OpensNothing text := by
  intro c member
  have none : ['\'', '"', '\x60', '/', '('].any isWordChar = false := by decide
  have excluded : ∀ other ∈ ['\'', '"', '\x60', '/', '('], c ≠ other := by
    rintro other listed rfl
    exact List.any_eq_false.mp none c listed (word c member)
  simpa [isQuote, and_assoc] using excluded

def literalArguments (label : Text) (quote : Char) (content : Text) : Text :=
  label ++ quote :: (content ++ [quote])

def callOf (widget argText : Text) : Text :=
  widget ++ '(' :: (argText ++ [')'])

theorem classifyContext_eq (content : Text) {param : Option Text}
    (word : ∀ name ∈ param, ∀ c ∈ name, isWordChar c = true) :
    ∃ label quote, OpensNothing label ∧ isQuote quote = true ∧
      CommandLine.classifyContext content param =
        ⟨content, literalArguments label quote content, label.length, 1⟩ := by
  have quoted : isQuote (if content.contains '\'' then '"' else '\'') = true := by
    split <;> decide
  have bare : ∃ label quote, OpensNothing label ∧ isQuote quote = true ∧
      CommandLine.classifyContext content none =
        ⟨content, literalArguments label quote content, label.length, 1⟩ :=
    ⟨[], _, by simp [OpensNothing], quoted, rfl⟩
  cases param with
  | none => exact bare
  | some name =>
      cases name with
      | nil => exact bare
      | cons c rest =>
          refine ⟨(c :: rest) ++ [':', ' '], _, ?_, quoted, ?_⟩
          · intro other member
            rcases List.mem_append.mp member with inName | inColon
            · exact opensNothing_of_word (word _ rfl) other inName
            · rcases List.mem_pair.mp inColon with rfl | rfl <;> decide
          · simp only [CommandLine.classifyContext, literalArguments, List.append_assoc,
              List.cons_append, List.isEmpty_cons, Bool.false_eq_true, if_false]

/-! The literal between its quotes. -/

theorem encloses_of_single {quote : Char} (quoted : isQuote quote = true) {content : Text}
    {literal : StringLiteral}
    (single : stringLiterals (quote :: (content ++ [quote])) = [literal])
    (same : literal.content = content) (index : Nat) :
    Encloses index (.literal ⟨quote, false⟩ index) content [')'] ∧
      literal.shift index = ⟨⟨quote, false⟩, content, index, content.length + 2⟩ := by
  have listed : literalsFrom index (quote :: (content ++ [quote])) = [literal.shift index] := by
    rw [literalsFrom_eq_shift, single]
    rfl
  obtain ⟨later, cut, -⟩ := literalsFrom_append_solitary solitary_closeParenthesis index
    (quote :: (content ++ [quote])) []
  rw [listed, List.cons_append] at cut
  rcases code_cases index quote (content ++ [quote] ++ [')']) with
    ⟨noQuote, -⟩ | ⟨enclosure, inner, rest, written, encloses⟩ | ⟨enclosure, left⟩
  · rw [quoted] at noQuote
    exact absurd noQuote (by decide)
  · rw [written, literalsFrom_closed encloses] at cut
    have start := encloses.start_eq
    cases enclosure with
    | literal delimiter first =>
        obtain rfl : first = index := start
        have found := (List.cons_eq_cons.mp cut).1
        obtain rfl : inner = content := by
          rw [← same]
          exact congrArg StringLiteral.content found
        have lengths := congrArg List.length written
        obtain ⟨opened, tripled⟩ := delimiter
        cases tripled with
        -- Three quotes on either side would not fit.
        | true =>
            simp only [Enclosure.written, Enclosure.opener, Enclosure.terminator, Delimiter.text,
              if_true, List.length_append, List.length_cons, List.length_nil] at lengths
            omega
        | false =>
            simp only [Enclosure.written, Enclosure.opener, Enclosure.terminator, Delimiter.text,
              Bool.false_eq_true, if_false, List.append_assoc, List.singleton_append] at written
            obtain ⟨rfl, tail⟩ := List.cons_eq_cons.mp written
            obtain ⟨-, rfl⟩ := List.cons_eq_cons.mp (List.append_cancel_left tail)
            refine ⟨encloses, ?_⟩
            rw [← found]
            simp [Enclosure.written, Enclosure.opener, Enclosure.terminator, Delimiter.text]
    | lineComment first =>
        obtain ⟨rfl, -⟩ := List.cons_eq_cons.mp written
        exact absurd quoted (by decide)
    | blockComment first =>
        obtain ⟨rfl, -⟩ := List.cons_eq_cons.mp written
        exact absurd quoted (by decide)
  · rw [literalsFrom_unclosed left] at cut
    simp at cut

structure LoneCall (widget label : Text) (quote : Char) (content : Text) : Prop where
  nonempty : widget ≠ []
  word : ∀ c ∈ widget, isWordChar c = true
  label_opens : OpensNothing label
  quoted : isQuote quote = true
  encloses : ∀ index, Encloses index (.literal ⟨quote, false⟩ index) content [')']
  literals_eq : stringLiterals (literalArguments label quote content) =
    [⟨⟨quote, false⟩, content, label.length, content.length + 2⟩]
  closed : extractBalanced ('(' :: (literalArguments label quote content ++ [')'])) 0 =
    some (literalArguments label quote content)

theorem loneCall_of_single {widget label content : Text} {quote : Char} {literal : StringLiteral}
    (nonempty : widget ≠ []) (word : ∀ c ∈ widget, isWordChar c = true)
    (opens : OpensNothing label) (quoted : isQuote quote = true)
    (single : stringLiterals (literalArguments label quote content) = [literal])
    (same : literal.content = content)
    (closed : extractBalanced ('(' :: (literalArguments label quote content ++ [')'])) 0 =
      some (literalArguments label quote content)) :
    LoneCall widget label quote content := by
  have moved := single
  rw [stringLiterals_eq, literalArguments, literalsFrom_ordinary opens.ordinary, Nat.zero_add,
    literalsFrom_eq_shift, List.map_eq_singleton_iff] at moved
  obtain ⟨bare, alone, rfl⟩ := moved
  refine ⟨nonempty, word, opens, quoted, ?_, ?_, closed⟩
  · intro index
    exact (encloses_of_single quoted alone same index).1
  · rw [single, (encloses_of_single quoted alone same label.length).2]

namespace LoneCall

variable {widget label content : Text} {quote : Char}

theorem callOf_eq (widget label content : Text) (quote : Char) (index : Nat) :
    callOf widget (literalArguments label quote content) =
      (widget ++ '(' :: label) ++
        ((Enclosure.literal ⟨quote, false⟩ index).written content ++ [')']) := by
  simp [callOf, literalArguments, Enclosure.written, Enclosure.opener, Enclosure.terminator,
    Delimiter.text]

theorem contextOf_eq {site : CallSite}
    (arguments : site.argText = literalArguments label quote content) :
    contextOf site ⟨⟨quote, false⟩, content, label.length, content.length + 2⟩ =
      ⟨content, literalArguments label quote content, label.length, 1⟩ := by
  rw [contextOf, arguments]
  rfl

variable (call : LoneCall widget label quote content)

include call

theorem ordinary_front : Ordinary (widget ++ '(' :: label) := by
  intro c member
  rw [List.mem_append, List.mem_cons] at member
  rcases member with inWidget | rfl | inLabel
  · exact (opensNothing_of_word call.word).ordinary c inWidget
  · decide
  · exact call.label_opens.ordinary c inLabel

theorem inertSpans_eq :
    inertSpans (callOf widget (literalArguments label quote content)) =
      [⟨widget.length + 1 + label.length,
        widget.length + 1 + label.length + (content.length + 2)⟩] := by
  have step (index : Nat) : Mode.code.step index ')' [] = ⟨.none, 1, .code⟩ :=
    step_code_ordinary (by decide) index []
  have front : 0 + (widget ++ '(' :: label).length = widget.length + 1 + label.length := by
    simp only [List.length_append, List.length_cons]
    omega
  rw [callOf_eq _ _ _ _ (widget.length + 1 + label.length), HardcodedText.inertSpans_eq,
    inertFrom_ordinary call.ordinary_front, front, inertFrom_closed (call.encloses _),
    inertFrom_plain (step _), inertFrom_nil]
  simp [Enclosure.written, Enclosure.opener, Enclosure.terminator, Delimiter.text]

theorem commentSpans_eq :
    commentSpans (callOf widget (literalArguments label quote content)) = [] := by
  have step (index : Nat) : Mode.code.step index ')' [] = ⟨.none, 1, .code⟩ :=
    step_code_ordinary (by decide) index []
  have here := call.encloses (0 + (widget ++ '(' :: label).length)
  obtain ⟨before, listed⟩ := here.closings_eq
  rw [HardcodedText.commentSpans_eq, callOf_eq _ _ _ _ (0 + (widget ++ '(' :: label).length),
    closings_ordinary call.ordinary_front, listed _ (Erases.refl _), closings_plain (step _),
    Cursor.closings_nil, advance_ordinary call.ordinary_front, here.advance_eq, Cursor.advance,
    List.append_nil, Cursor.next_code_plain (step _)]
  rfl

theorem stripComments_eq (markers : List Text) :
    stripComments (callOf widget (literalArguments label quote content)) markers =
      callOf widget (literalArguments label quote content) := by
  rw [HardcodedText.stripComments_eq, call.commentSpans_eq, List.filter_nil, blankOut_nil]

/-! The only call. -/

theorem parenthesis_eq {place : Nat}
    (parenthesis : (widget ++ '(' :: label)[place]? = some '(') : place = widget.length := by
  rcases Nat.lt_trichotomy place widget.length with before | same | after
  · rw [List.getElem?_append_left before] at parenthesis
    exact absurd rfl (opensNothing_of_word call.word _ (List.mem_of_getElem? parenthesis)).2.2
  · exact same
  · obtain ⟨further, rfl⟩ := Nat.exists_eq_add_of_lt after
    rw [List.getElem?_append_right (by omega), Nat.add_assoc, Nat.add_sub_cancel_left,
      List.getElem?_cons_succ] at parenthesis
    exact absurd rfl (call.label_opens _ (List.mem_of_getElem? parenthesis)).2.2

/-- Only the parenthesis behind the name opens an argument list. -/
theorem argText_eq {offset : Nat} {inside : Text}
    (arguments : ArgumentsAt (callOf widget (literalArguments label quote content)) offset
      inside) : inside = literalArguments label quote content := by
  have outside := arguments.outside _ (by
    rw [call.inertSpans_eq]
    exact List.mem_singleton_self _)
  have parenthesis := arguments.parenthesis
  have length : (widget ++ '(' :: label).length = widget.length + 1 + label.length := by
    simp only [List.length_append, List.length_cons]
    omega
  have width : ((Enclosure.literal ⟨quote, false⟩ 0).written content).length =
      content.length + 2 := by
    simp [Enclosure.written, Enclosure.opener, Enclosure.terminator, Delimiter.text]
  rw [callOf_eq _ _ _ _ 0] at parenthesis
  simp only [Span.contains, Bool.and_eq_false_iff, decide_eq_false_iff_not] at outside
  by_cases inFront : offset < (widget ++ '(' :: label).length
  · rw [List.getElem?_append_left inFront] at parenthesis
    obtain rfl := call.parenthesis_eq parenthesis
    have extracted := arguments.extracted
    rw [callOf, extractBalanced_append call.closed widget] at extracted
    exact (Option.some_inj.mp extracted).symm
  · rw [List.getElem?_append_right (by omega), List.getElem?_append_right (by omega),
      List.getElem?_singleton] at parenthesis
    split at parenthesis
    · exact absurd parenthesis (by decide)
    · simp at parenthesis

theorem readConstHead_eq_none (reader : NameReader) (previous : Option Char) (rest : Text) :
    readConstHead reader previous (widget ++ '(' :: rest) = none := by
  unfold readConstHead
  split
  next starts =>
    rw [Bool.and_eq_true, List.isPrefixOf_iff_prefix, prefix_append_cons_iff (by decide)] at starts
    have room : 5 ≤ widget.length := starts.1.length_le
    have none : ((widget ++ '(' :: rest).drop 5).takeWhile isBlank = [] := by
      rw [List.drop_append_of_le_length room]
      cases after : widget.drop 5 with
      | nil => rfl
      | cons c later =>
          have member : c ∈ widget.drop 5 := by
            rw [after]
            exact List.mem_cons_self
          rw [List.cons_append, List.takeWhile_cons,
            isBlank_of_isWordChar (call.word c (List.mem_of_mem_drop member))]
          rfl
    simp only [none]
    rfl
  next => rfl

theorem headAt_eq (rest : Text) :
    headAt (readKnownName widget) none (widget ++ '(' :: rest) =
      some ⟨0, widget, widget.length + 1⟩ := by
  have read : readKnownName widget none (widget ++ '(' :: rest) = some widget := by
    have starts := List.isPrefixOf_iff_prefix.mpr (List.prefix_append widget ('(' :: rest))
    obtain ⟨c, later, rfl⟩ := List.exists_cons_of_ne_nil call.nonempty
    rw [readKnownName, starts]
    simp [isBoundary, call.word c List.mem_cons_self]
  have bare : readHead (readKnownName widget) none (widget ++ '(' :: rest) =
      some ⟨0, widget, widget.length + 1⟩ := by
    rw [readHead, read, Option.bind_some, List.drop_left]
    rfl
  rw [headAt, call.readConstHead_eq_none, bare]
  rfl

theorem mem_callSites (tables : FilterTables) (params : List Text) :
    (⟨widget, literalArguments label quote content, widget.length + 1, true, params⟩ : CallSite) ∈
      callSites (callOf widget (literalArguments label quote content)) [⟨widget, params⟩] tables
        (SpanSet.ofSpans (inertSpans (callOf widget (literalArguments label quote content)))) := by
  have headed : (0, (⟨0, widget, widget.length + 1⟩ : CallHead)) ∈
      heads (readKnownName widget) (callOf widget (literalArguments label quote content)) := by
    have here := call.headAt_eq (literalArguments label quote content ++ [')'])
    obtain ⟨c, later, rfl⟩ := List.exists_cons_of_ne_nil call.nonempty
    rw [List.cons_append] at here
    rw [heads, callOf, List.cons_append]
    simp only [headsFrom, here]
    exact List.mem_cons_self
  have outside : (SpanSet.ofSpans (inertSpans (callOf widget
      (literalArguments label quote content)))).contains (0 : Nat) = false := by
    rw [SpanSet.contains_ofSpans (inertSpans_ordered _), call.inertSpans_eq]
    simp [Span.contains]
  have taken := extractBalanced_append call.closed widget
  refine List.mem_append_left _ (List.mem_flatMap.mpr ⟨_, List.mem_singleton_self _, ?_⟩)
  refine List.mem_filterMap.mpr ⟨_, headed, ?_⟩
  simp only [Nat.add_zero, outside, argumentsOf, Nat.zero_add, Nat.add_sub_cancel]
  rw [callOf, taken]
  rfl

theorem catalog_eq (params : List Text) :
    (CatalogSource.list [⟨widget, params⟩]).catalog = [⟨widget, params⟩] := by
  have trimmed : widget.trim = widget :=
    Text.trim_eq_self fun c member => isBlank_of_isWordChar (call.word c member)
  simp [CatalogSource.catalog, normalizeCatalog, normalizeFrom, trimmed, call.nonempty]

theorem not_silenced (unmarked : ∀ marker ∈ ignoreMarkers, marker.occursIn content = false)
    (number : Nat) :
    ¬ Silenced ((callOf widget (literalArguments label quote content)).splitOn '\n') number := by
  intro silenced
  obtain ⟨line, listed, marked⟩ := silenced.marked
  have occurs :
      lineMarker <:+: (widget ++ '(' :: label) ++ quote :: (content ++ quote :: [')']) := by
    have within := (Text.occursIn_iff.mp marked).trans (Text.infix_of_mem_splitOn listed)
    simpa [callOf, literalArguments] using within
  have absent : quote ∉ lineMarker := by
    intro member
    have quotes : lineMarker.any isQuote = false := by decide
    exact List.any_eq_false.mp quotes quote member call.quoted
  have slash : '/' ∈ lineMarker := by decide
  rcases infix_append_cons absent occurs with inFront | beyond
  · exact (call.ordinary_front '/' (inFront.subset slash)).2 rfl
  · rcases infix_append_cons absent beyond with inContent | inRest
    · have unlisted := unmarked lineMarker List.mem_cons_self
      rw [Text.occursIn_iff.mpr inContent] at unlisted
      exact absurd unlisted (by decide)
    · exact absurd (inRest.subset slash) (by decide)

/-- The literal is reported exactly if the filters keep it. -/
theorem findHardcoded_ne_nil_iff
    (unmarked : ∀ marker ∈ ignoreMarkers, marker.occursIn content = false)
    (tables : FilterTables) (params : List Text) :
    findHardcoded (callOf widget (literalArguments label quote content))
        (CatalogSource.list [⟨widget, params⟩]).catalog tables ≠ [] ↔
      (classify ⟨content, literalArguments label quote content, label.length, 1⟩ tables).keep =
        true := by
  rw [call.catalog_eq]
  constructor
  · intro some
    obtain ⟨found, reported⟩ := List.exists_mem_of_ne_nil _ some
    have candidate := (dedupe_sublist _).subset (mem_findHardcoded.mp reported).1
    rw [call.stripComments_eq] at candidate
    obtain ⟨site, called, literal, inside, kept, -⟩ := mem_candidates.mp candidate
    have ordinary : ∀ pattern ∈ [(⟨widget, params⟩ : WidgetPattern)], Ordinary pattern.widget := by
      intro pattern listed
      rw [List.mem_singleton.mp listed]
      exact (opensNothing_of_word call.word).ordinary
    obtain ⟨offset, -, arguments⟩ := CallSite.argumentsAt ordinary called
    have taken := call.argText_eq arguments
    rw [taken, call.literals_eq, List.mem_singleton] at inside
    rw [inside, contextOf_eq taken] at kept
    exact kept
  · intro kept
    have inside : ⟨⟨quote, false⟩, content, label.length, content.length + 2⟩ ∈
        stringLiterals (literalArguments label quote content) := by
      rw [call.literals_eq]
      exact List.mem_singleton_self _
    have listed := mem_candidates.mpr
      ⟨_, call.mem_callSites tables params, _, inside, kept, rfl⟩
    obtain ⟨found, remaining, -⟩ := exists_mem_dedupe listed
    rw [← call.stripComments_eq ignoreMarkers] at remaining
    exact List.ne_nil_of_mem (mem_findHardcoded.mpr ⟨remaining, call.not_silenced unmarked _⟩)

end LoneCall

theorem describeOutcome_plain {options : ClassifyOptions} (plain : options.asJson = false)
    (outcome : Classification) :
    CommandLine.describeOutcome options outcome = CommandLine.line "keep" ↔
      outcome.keep = true := by
  rw [CommandLine.describeOutcome, plain, if_neg (by decide)]
  constructor
  · intro said
    by_contra dropped
    rw [if_neg dropped] at said
    have first := congrArg List.head? said
    simp [CommandLine.line] at first
  · intro kept
    rw [if_pos kept]

/-- For a literal that stands alone in the argument list of a call, the command says that it is kept
exactly if scanning that call reports it, in plain output and in JSON. -/
theorem classify_agrees_with_scan [CharacterNames] {widget content : Text} {param : Option Text}
    {tables : FilterTables} (nonempty : widget ≠ []) (word : ∀ c ∈ widget, isWordChar c = true)
    (paramWord : ∀ name ∈ param, ∀ c ∈ name, isWordChar c = true)
    (unmarked : ∀ marker ∈ ignoreMarkers, marker.occursIn content = false)
    (single : ∃ literal,
      stringLiterals (CommandLine.classifyContext content param).argText = [literal] ∧
        literal.content = content)
    (closed : extractBalanced
        ('(' :: ((CommandLine.classifyContext content param).argText ++ [')'])) 0 =
      some (CommandLine.classifyContext content param).argText) (params : List Text) :
    let found := findHardcoded
      (callOf widget (CommandLine.classifyContext content param).argText)
      (CatalogSource.list [⟨widget, params⟩]).catalog tables
    ((classify (CommandLine.classifyContext content param) tables).keep = true ↔ found ≠ []) ∧
    ∀ (tree : FileTree) (options : ClassifyOptions) (config : Table Value),
      options.text = content → options.param = param →
      loadConfig tree (some options.root) options.config = .ok config →
      tablesFromSection (sectionOf config "filters") defaultTables = .ok tables →
      ∃ output, CommandLine.runClassify tree options = .ended 0 output [] tree ∧
        (options.asJson = false → (output = CommandLine.line "keep" ↔ found ≠ [])) ∧
        (options.asJson = true → ∃ step, output =
          (Report.object [("content", .string content), ("keep", .bool !found.isEmpty),
            ("step", Report.text step)]).compact ++ ['\n']) := by
  intro found
  obtain ⟨literal, alone, same⟩ := single
  obtain ⟨label, quote, opens, quoted, context⟩ := classifyContext_eq content paramWord
  have argText := congrArg LiteralContext.argText context
  simp only at argText
  rw [argText] at alone closed
  have call := loneCall_of_single nonempty word opens quoted alone same closed
  have agrees : (classify (CommandLine.classifyContext content param) tables).keep = true ↔
      found ≠ [] := by
    rw [context]
    simp only [found, argText]
    exact (call.findHardcoded_ne_nil_iff unmarked tables params).symm
  refine ⟨agrees, ?_⟩
  rintro tree options config rfl rfl loaded configured
  refine ⟨_, by simp only [CommandLine.runClassify, loaded, configured]; rfl, ?_, ?_⟩
  · intro plain
    rw [describeOutcome_plain plain, agrees]
  · intro json
    have keep : (classify (CommandLine.classifyContext options.text options.param) tables).keep =
        !found.isEmpty := by
      rw [Bool.eq_iff_iff, agrees]
      simp
    rw [CommandLine.describeOutcome, if_pos json, keep]
    exact ⟨_, rfl⟩

theorem classify_agrees_with_scan_labelled :
    let _ : CharacterNames := .latinAndGreek
    let content : Text := "Don't save it".toList
    let param : Option Text := some "label".toList
    let argText := (CommandLine.classifyContext content param).argText
    let tree : FileTree := ⟨.directory [], []⟩
    let options : ClassifyOptions := ⟨content, param, ⟨.relative, []⟩, none, false⟩
    argText = "label: \"Don't save it\"".toList ∧
      findHardcoded (callOf "Chip".toList argText)
        (CatalogSource.list [⟨"Chip".toList, []⟩]).catalog defaultTables ≠ [] ∧
      CommandLine.runClassify tree options = .ended 0 (CommandLine.line "keep") [] tree := by
  intro _ content param argText tree options
  have word : ∀ c ∈ "Chip".toList, isWordChar c = true :=
    List.all_eq_true.mp (by decide +kernel)
  have paramWord : ∀ name ∈ param, ∀ c ∈ name, isWordChar c = true := by
    intro name named
    obtain rfl := Option.some_inj.mp named
    exact List.all_eq_true.mp (by decide +kernel)
  have unmarked : ∀ marker ∈ ignoreMarkers, marker.occursIn content = false := by decide +kernel
  have written : argText = "label: \"Don't save it\"".toList := by decide +kernel
  have single : stringLiterals argText = [⟨⟨'"', false⟩, content, 7, 15⟩] := by
    rw [written]
    decide +kernel
  have closed : extractBalanced ('(' :: (argText ++ [')'])) 0 = some argText := by
    rw [written]
    decide +kernel
  have kept : (classify (CommandLine.classifyContext content param) defaultTables).keep = true := by
    decide +kernel
  obtain ⟨agrees, command⟩ := classify_agrees_with_scan (by decide) word paramWord unmarked
    ⟨_, single, rfl⟩ closed []
  have found := agrees.mp kept
  obtain ⟨output, ran, plain, -⟩ := command tree options [] rfl rfl rfl rfl
  refine ⟨written, found, ?_⟩
  rw [ran, (plain rfl).mpr found]

end HardcodedText
