import HardcodedText.Proofs.QuickFix.DocumentLines
import HardcodedText.QuickFix

/-!
The quick fixes that are offered for a diagnostic. A diagnostic counts the lines of the text and the
fixes are made from the lines of the document, so they fit the line of the diagnostic as long as the
document has no other line break up to its end.
-/

namespace HardcodedText

def Offered (actions : List CodeAction) (target : ActionTarget) (title : String)
    (edit : TextEdit) : Prop :=
  ∃ action ∈ actions, action.title = title ∧ target ∈ action.targets ∧ action.edit = edit

def aboveTitle : String := "Ignore this string (add comment on line above)"

def lineEndTitle : String := "Ignore this string (add comment at end of line)"

/-- The fixes offered for the target are made for this row: a marker above it, indented as the row
is, and a marker behind its last character that is not blank. -/
structure FixesFit (actions : List CodeAction) (target : ActionTarget) (row : Text) : Prop where
  above : ∀ edit, Offered actions target aboveTitle edit ↔
    edit = ⟨target.line, 0, indentation row ++ nextLineMarker ++ ['\n']⟩
  lineEnd : ∀ edit, Offered actions target lineEndTitle edit ↔
    edit = ⟨target.line, row.trimEnd.length, ' ' :: lineMarker⟩

theorem codeActions_eq {client : Client} {uri text : Text} {targets : List ActionTarget}
    {target : ActionTarget} (read : client.read uri = .ok text)
    (asked : target ∈ targets) (own : target.source = some diagnosticSource.toList) :
    ∃ shared, target ∈ shared ∧ codeActions client uri targets =
      .ok (shared.flatMap (lineActions text.documentLines) ++ fileActions text shared) := by
  let shared := targets.filter fun target => target.source == some diagnosticSource.toList
  have member : target ∈ shared := List.mem_filter.mpr ⟨asked, by rw [own, beq_self_eq_true]⟩
  have filled : shared.isEmpty = false := List.isEmpty_eq_false_iff_exists_mem.mpr ⟨target, member⟩
  refine ⟨shared, member, ?_⟩
  rw [codeActions, show List.isEmpty (targets.filter _) = false from filled, read]
  rfl

section Offers

variable {lines : List Text} {text : Text} {targets : List ActionTarget} {target : ActionTarget}
  {edit : TextEdit}

theorem targets_of_mem_lineActions {action : CodeAction}
    (member : action ∈ lineActions lines target) : action.targets = [target] := by
  rw [lineActions, List.mem_cons] at member
  rcases member with rfl | more
  · rfl
  · split at more
    · exact absurd more List.not_mem_nil
    · rw [List.mem_singleton.mp more]

theorem offered_iff (asked : target ∈ targets) {title : String}
    (single : title ≠ "Ignore ALL strings in this file") :
    Offered (targets.flatMap (lineActions lines) ++ fileActions text targets) target title edit ↔
      ∃ action ∈ lineActions lines target, action.title = title ∧ action.edit = edit := by
  constructor
  · rintro ⟨action, member, titled, meant, same⟩
    rcases List.mem_append.mp member with forLine | forFile
    · obtain ⟨other, -, inside⟩ := List.mem_flatMap.mp forLine
      rw [targets_of_mem_lineActions inside, List.mem_singleton] at meant
      exact ⟨action, meant ▸ inside, titled, same⟩
    · rw [fileActions] at forFile
      split at forFile
      · exact absurd forFile List.not_mem_nil
      · rw [List.mem_singleton.mp forFile] at titled
        exact absurd titled.symm single
  · rintro ⟨action, member, titled, same⟩
    refine ⟨action, ?_, titled, ?_, same⟩
    · exact List.mem_append_left _ (List.mem_flatMap.mpr ⟨target, asked, member⟩)
    · rw [targets_of_mem_lineActions member, List.mem_singleton]

theorem offered_above_iff (asked : target ∈ targets) :
    Offered (targets.flatMap (lineActions lines) ++ fileActions text targets) target aboveTitle
      edit ↔ edit = ignoreNextLineEdit lines target.line := by
  rw [offered_iff asked (by decide), lineActions]
  cases hasLineIgnore lines target.line <;> simp [aboveTitle, eq_comm]

theorem offered_lineEnd_iff (asked : target ∈ targets) :
    Offered (targets.flatMap (lineActions lines) ++ fileActions text targets) target lineEndTitle
      edit ↔ hasLineIgnore lines target.line = false ∧ edit = ignoreLineEdit lines target.line := by
  rw [offered_iff asked (by decide), lineActions]
  cases hasLineIgnore lines target.line <;> simp [lineEndTitle, eq_comm]

end Offers

theorem exists_quote_of_mem_findHardcoded {text : Text} {catalog : List WidgetPattern}
    {tables : FilterTables} {found : Match} (member : found ∈ findHardcoded text catalog tables) :
    ∃ row c, (text.splitOn '\n')[found.start.line]? = some row ∧ c ∈ row ∧ isQuote c = true := by
  have candidate := (dedupe_sublist _).subset (mem_findHardcoded.mp member).1
  obtain ⟨row, c, listed, stands, first⟩ := candidates_startsIn candidate
  obtain ⟨quote, head, isQuote⟩ := candidates_head candidate
  rw [head, Option.some_inj] at first
  exact ⟨row, c, listed, List.mem_of_getElem? stands, first ▸ isQuote⟩

theorem fixesFit_iff {text front row back : Text} {number : Nat}
    (line : RowAt text number front row back) (aligned : front.otherBreaks = 0)
    (heard : hasLineIgnore (text.splitOn '\n') number = false) {c : Char} (inRow : c ∈ row)
    (shown : isBlank c = false) {source : Option Text} {targets : List ActionTarget}
    (asked : ⟨number, source⟩ ∈ targets) :
    FixesFit (targets.flatMap (lineActions text.documentLines) ++ fileActions text targets)
        ⟨number, source⟩ row ↔
      ∀ c ∈ row.trimEnd, Text.isLineBreak c = false := by
  have read := line.lineAt_documentLines aligned
  have unmarked := line.hasLineIgnore_documentLines aligned heard
  constructor
  · intro fit c member
    have placed := (offered_lineEnd_iff asked).mp ((fit.lineEnd _).mpr rfl)
    rw [ignoreLineEdit, read, trimEnd_dropLineEnd] at placed
    have same : row.trimEnd.length = (row ++ back).firstLine.trimEnd.length :=
      congrArg TextEdit.character placed.2
    cases breaks : Text.isLineBreak c with
    | false => rfl
    | true =>
        have shorter := line.trimEnd_firstLine_shorter member breaks
        omega
  · intro whole
    have trimmed : (lineAt text.documentLines number).trimEnd = row.trimEnd := by
      rw [read, trimEnd_dropLineEnd, line.trimEnd_firstLine whole]
    constructor
    · intro edit
      rw [offered_above_iff asked, ignoreNextLineEdit,
        indentation_eq_of_trimEnd_eq trimmed inRow shown]
    · intro edit
      rw [offered_lineEnd_iff asked, unmarked, ignoreLineEdit, trimmed]
      exact and_iff_right rfl

/-- The fixes for a diagnostic are made from the document line with the number of its row. The row
begins as many document lines later as there are other line breaks above it. If there is none, the
fixes fit the row exactly if it has no other line break before the blanks at its end. -/
theorem fixes_fit_row_of_diagnostic (client : Client) (uri text : Text)
    (catalog : List WidgetPattern) (tables : FilterTables) (diagnostic : Diagnostic)
    (targets : List ActionTarget) (read : client.read uri = .ok text)
    (shown : diagnostic ∈ diagnosticsOf (findHardcoded text catalog tables))
    (asked : ⟨diagnostic.start.line, some diagnosticSource.toList⟩ ∈ targets) :
    let target : ActionTarget := ⟨diagnostic.start.line, some diagnosticSource.toList⟩
    ∃ actions front row back, codeActions client uri targets = .ok actions ∧
      RowAt text diagnostic.start.line front row back ∧
      (∀ edit, Offered actions target aboveTitle edit ↔
        edit = ignoreNextLineEdit text.documentLines diagnostic.start.line) ∧
      (∀ edit, Offered actions target lineEndTitle edit ↔
        hasLineIgnore text.documentLines diagnostic.start.line = false ∧
          edit = ignoreLineEdit text.documentLines diagnostic.start.line) ∧
      text.documentLines = front.documentLines ++ (row ++ back).documentLines ∧
      front.documentLines.length = diagnostic.start.line + front.otherBreaks ∧
      (front.otherBreaks = 0 →
        (FixesFit actions target row ↔ ∀ c ∈ row.trimEnd, Text.isLineBreak c = false)) := by
  intro target
  obtain ⟨found, member, rfl⟩ := List.mem_map.mp shown
  obtain ⟨row, c, listed, inRow, quote⟩ := exists_quote_of_mem_findHardcoded member
  obtain ⟨front, back, line⟩ := exists_rowAt listed
  obtain ⟨shared, own, answer⟩ := codeActions_eq read asked rfl
  refine ⟨_, front, row, back, answer, line, fun _ => offered_above_iff own,
    fun _ => offered_lineEnd_iff own, line.documentLines_eq, line.length_documentLines, ?_⟩
  intro aligned
  exact fixesFit_iff line aligned (hasLineIgnore_of_mem_findHardcoded member) inRow
    (isBlank_of_isQuote quote) own

theorem fixes_fit_row_of_diagnostic_carriage_return :
    let uri : Text := "file:///work/a.dart".toList
    let text : Text := "Column(children: [\r\n  Text('Save it'), \r\n])".toList
    let tree : FileTree := ⟨.directory [], []⟩
    let client : Client := { documents := [(uri, text)], reader := .ofTree tree, tree := tree }
    let catalog : List WidgetPattern := [⟨"Text".toList, []⟩]
    let diagnostic : Diagnostic :=
      { start := ⟨1, 7⟩, stop := ⟨1, 16⟩
        message := "Hardcoded string detected in Text. Consider using a translation." }
    let target : ActionTarget := ⟨1, some diagnosticSource.toList⟩
    let targets : List ActionTarget := [⟨0, none⟩, target]
    client.read uri = .ok text ∧
      diagnostic ∈ diagnosticsOf (findHardcoded text catalog defaultTables) ∧
      target ∈ targets ∧
      ∃ actions, codeActions client uri targets = .ok actions ∧
        Offered actions target aboveTitle ⟨1, 0, "  // translate-me-ignore-next-line\n".toList⟩ ∧
        Offered actions target lineEndTitle ⟨1, 18, " // translate-me-ignore".toList⟩ := by
  intro uri text tree client catalog diagnostic target targets
  have read : client.read uri = .ok text := by rfl
  have shown : diagnostic ∈ diagnosticsOf (findHardcoded text catalog defaultTables) := by
    decide +kernel
  have asked : target ∈ targets := by decide
  refine ⟨read, shown, asked, ?_⟩
  obtain ⟨actions, front, row, back, answer, line, -, -, -, -, fits⟩ :=
    fixes_fit_row_of_diagnostic client uri text catalog defaultTables diagnostic targets read
      shown asked
  have rowEq : row = "  Text('Save it'), \r".toList := by
    have listed := line.listed
    rw [show (text.splitOn '\n')[diagnostic.start.line]? = some "  Text('Save it'), \r".toList by
      decide +kernel] at listed
    exact (Option.some_inj.mp listed).symm
  have aligned : front.otherBreaks = 0 := by
    have upTo : ∀ size ≤ text.length, (text.take size).getLast? = some '\n' →
        Text.otherBreaks (text.take size) = 0 := by decide +kernel
    have taken : front = text.take front.length := by
      rw [line.text_eq, List.take_left]
    rcases line.begins with none | ⟨body, split⟩
    · rw [none]
      rfl
    · rw [taken]
      refine upTo front.length (line.room (Nat.zero_le _)) ?_
      rw [← taken, split, List.getLast?_concat]
  subst rowEq
  have whole : (Text.trimEnd "  Text('Save it'), \r".toList).all (!Text.isLineBreak ·) = true := by
    decide +kernel
  have fit := (fits aligned).mpr (by simpa only [List.all_eq_true, Bool.not_eq_true'] using whole)
  refine ⟨actions, answer, (fit.above _).mpr ?_, (fit.lineEnd _).mpr ?_⟩
  · decide +kernel
  · decide +kernel

/-- A form feed ends a line of the document but not of the text. The fixes for the row below it are
made from the empty rest of the line above: the marker for the end of the line goes before the row
and the other one is not indented. -/
theorem fixes_miss_row_below_form_feed :
    let uri : Text := "file:///work/a.dart".toList
    let text : Text := "Column(children: [\x0c\n  Text('Save it'),\n])\n".toList
    let tree : FileTree := ⟨.directory [], []⟩
    let client : Client := { documents := [(uri, text)], reader := .ofTree tree, tree := tree }
    let catalog : List WidgetPattern := [⟨"Text".toList, []⟩]
    let diagnostic : Diagnostic :=
      { start := ⟨1, 7⟩, stop := ⟨1, 16⟩
        message := "Hardcoded string detected in Text. Consider using a translation." }
    let target : ActionTarget := ⟨1, some diagnosticSource.toList⟩
    let row : Text := "  Text('Save it'),".toList
    diagnostic ∈ diagnosticsOf (findHardcoded text catalog defaultTables) ∧
      (text.splitOn '\n')[1]? = some row ∧ indentation row = "  ".toList ∧
      row.trimEnd.length = 18 ∧
      ∃ actions, codeActions client uri [target] = .ok actions ∧
        Offered actions target aboveTitle ⟨1, 0, "// translate-me-ignore-next-line\n".toList⟩ ∧
        Offered actions target lineEndTitle ⟨1, 0, " // translate-me-ignore".toList⟩ := by
  intro uri text tree client catalog diagnostic target row
  have shown : diagnostic ∈ diagnosticsOf (findHardcoded text catalog defaultTables) := by
    decide +kernel
  have read : client.read uri = .ok text := by rfl
  obtain ⟨shared, own, answer⟩ := codeActions_eq read (List.mem_singleton_self target) rfl
  refine ⟨shown, by decide +kernel, by decide +kernel, by decide +kernel, _, answer, ?_, ?_⟩
  · exact (offered_above_iff own).mpr (by decide +kernel)
  · exact (offered_lineEnd_iff own).mpr (by decide +kernel)

end HardcodedText
