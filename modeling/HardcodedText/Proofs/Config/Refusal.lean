import HardcodedText.CommandLine.Run
import HardcodedText.Proofs.Filter.Overrides
import HardcodedText.Session.Basic

/-!
Filter settings with a malformed pattern. The first pattern that cannot be used decides: if it is
malformed the settings are refused with its name, which ends a command with nothing written, while
an editor session goes on with the default tables and its other settings.
-/

namespace HardcodedText

theorem mem_patternList {value : Value} {pattern : Text} :
    pattern ∈ value.patternList ↔ pattern.trim ≠ [] ∧
      (value = .string pattern ∨ ∃ items, value = .list items ∧ .string pattern ∈ items) := by
  cases value with
  | string text =>
      rw [Value.patternList]
      by_cases blank : text.trim.isEmpty = true
      · rw [if_pos blank]
        simp only [List.not_mem_nil, false_iff, not_and]
        rintro some (same | ⟨items, list, -⟩)
        · obtain rfl := Value.string.inj same
          exact some (List.isEmpty_iff.mp blank)
        · simp at list
      · rw [if_neg blank, List.mem_singleton]
        constructor
        · rintro rfl
          exact ⟨fun empty => blank (List.isEmpty_iff.mpr empty), Or.inl rfl⟩
        · rintro ⟨-, same | ⟨items, list, -⟩⟩
          · exact (Value.string.inj same).symm
          · simp at list
  | list items =>
      rw [Value.patternList, List.mem_filterMap]
      constructor
      · rintro ⟨item, member, listed⟩
        cases item with
        | string text =>
            by_cases blank : text.trim.isEmpty = true
            · simp [blank] at listed
            · obtain rfl : text = pattern := by simpa [blank] using listed
              exact ⟨fun empty => blank (List.isEmpty_iff.mpr empty), Or.inr ⟨items, rfl, member⟩⟩
        | _ => simp at listed
      · rintro ⟨some, same | ⟨_, same, member⟩⟩
        · simp at same
        · obtain rfl := Value.list.inj same
          exact ⟨.string pattern, member, by simp [some]⟩
  | _ => simp [Value.patternList]

theorem Pattern.source_eq_of_parse [CharacterNames] {source : Text} {error : PatternError}
    (refused : Pattern.parse source = .error error) : error.source = source := by
  unfold Pattern.parse at refused
  split at refused
  · simp at refused
  · rw [← Except.error.inj refused]

theorem exists_firstRefused_iff [CharacterNames] {sources : List Text} :
    (∃ error, FirstRefused sources error) ↔
      ∃ source ∈ sources, ∃ error, Pattern.parse source = .error error := by
  constructor
  · rintro ⟨error, front, source, back, rfl, -, refused⟩
    exact ⟨source, by simp, error, refused⟩
  · intro refused
    simp only [← parseAll_eq_error_iff]
    induction sources with
    | nil => simp at refused
    | cons first later ih =>
        rw [parseAll]
        cases parsed : Pattern.parse first with
        | error error => exact ⟨error, rfl⟩
        | ok pattern =>
            have behind : ∃ source ∈ later, ∃ error, Pattern.parse source = .error error := by
              simpa [parsed] using refused
            obtain ⟨error, failed⟩ := ih behind
            exact ⟨error, by rw [failed]; rfl⟩

def Value.filterPatterns (settings : Value) : List Text :=
  (settings.get "translation_patterns").patternList

theorem filterPatterns_of_no_entries {settings : Value} (none : settings.hasEntries = false) :
    settings.filterPatterns = [] := by
  cases settings with
  | table entries =>
      obtain rfl : entries = [] := by simpa [Value.hasEntries] using none
      rfl
  | _ => rfl

theorem tablesFromSection_eq_error_iff [CharacterNames] {settings : Value} {base : FilterTables}
    {error : FilterError} :
    tablesFromSection settings base = .error error ↔
      ∃ refusal, FirstRefused settings.filterPatterns refusal ∧
        FilterError.ofPattern refusal = error := by
  rw [tablesFromSection]
  split
  next some =>
    have refused (refusal : PatternError) : FirstRefused settings.filterPatterns refusal ↔
        base.withOverrides (overridesOfSection settings) = .error refusal := by
      rw [FilterTables.withOverrides_eq_error_iff]
      rfl
    simp only [refused]
    cases base.withOverrides (overridesOfSection settings) <;> simp [Except.mapError]
  next none =>
    rw [filterPatterns_of_no_entries (by simpa using none)]
    simp [FirstRefused]

/-- The error for the first pattern that cannot be used, if that pattern is malformed. -/
theorem tablesFromSection_eq_configError_iff [CharacterNames] {settings : Value}
    {base : FilterTables}
    {error : ConfigError} :
    tablesFromSection settings base = .error (.config error) ↔
      ∃ front pattern back fault, settings.filterPatterns = front ++ pattern :: back ∧
        (∀ earlier ∈ front, ∃ parsed, Pattern.parse earlier = .ok parsed) ∧
        Pattern.parse pattern = .error fault ∧ fault.isMalformed = true ∧
        error = .invalidPattern pattern fault := by
  rw [tablesFromSection_eq_error_iff]
  constructor
  · rintro ⟨fault, ⟨front, pattern, back, split, accepted, refused⟩, same⟩
    rw [FilterError.ofPattern] at same
    split at same
    next malformed =>
      rw [Pattern.source_eq_of_parse refused] at same
      exact ⟨front, pattern, back, fault, split, accepted, refused, malformed,
        (FilterError.config.inj same).symm⟩
    next => simp at same
  · rintro ⟨front, pattern, back, fault, split, accepted, refused, malformed, rfl⟩
    refine ⟨fault, ⟨front, pattern, back, split, accepted, refused⟩, ?_⟩
    rw [FilterError.ofPattern, if_pos malformed, Pattern.source_eq_of_parse refused]

def Value.OnlyMalformed [CharacterNames] (settings : Value) : Prop :=
  ∀ pattern ∈ settings.filterPatterns, ∀ fault, Pattern.parse pattern = .error fault →
    fault.isMalformed = true

theorem exists_configError_iff [CharacterNames] {settings : Value} (only : settings.OnlyMalformed)
    (base : FilterTables) :
    (∃ error, tablesFromSection settings base = .error (.config error)) ↔
      ∃ pattern ∈ settings.filterPatterns, ∃ fault, Pattern.parse pattern = .error fault := by
  rw [← exists_firstRefused_iff]
  simp only [tablesFromSection_eq_configError_iff]
  constructor
  · rintro ⟨error, front, pattern, back, fault, split, accepted, refused, -, -⟩
    exact ⟨fault, front, pattern, back, split, accepted, refused⟩
  · rintro ⟨fault, front, pattern, back, split, accepted, refused⟩
    have member : pattern ∈ settings.filterPatterns := by simp [split]
    exact ⟨_, front, pattern, back, fault, split, accepted, refused,
      only pattern member fault refused, rfl⟩

end HardcodedText
