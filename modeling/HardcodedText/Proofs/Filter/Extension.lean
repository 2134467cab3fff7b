import HardcodedText.Proofs.Filter.Widening

/-!
Tables that list more. Configuration adds entries to the tables and takes none away, so a filter
that fires with the shorter tables fires with the longer ones. The prose filter, the only one that
keeps a literal, consults no table. So a literal that the longer tables keep is kept by the shorter
ones as well.
-/

namespace HardcodedText

theorem prefix_foldl {step : List Text → Text → List Text}
    (grows : ∀ names name, names <+: step names name) (names extra : List Text) :
    names <+: extra.foldl step names := by
  induction extra generalizing names with
  | nil => exact List.prefix_rfl
  | cons name later ih => exact (grows names name).trans (ih (step names name))

theorem prefix_addName (names : List Text) (name : Text) : names <+: addName names name := by
  rw [addName]
  split
  · exact List.prefix_rfl
  · exact List.prefix_append names [name]

theorem prefix_addCall (calls : List Text) (call : Text) : calls <+: addCall calls call := by
  rw [addCall]
  split
  · exact List.prefix_rfl
  · exact prefix_addName calls call

/-- The longer tables have every entry of the shorter ones. Of the technical calls more is needed,
since a list of calls that holds nothing but an empty name counts as no list at all. -/
structure FilterTables.Extends (longer shorter : FilterTables) : Prop where
  nonWidgetClasses : shorter.nonWidgetClasses ⊆ longer.nonWidgetClasses
  contextPatterns_eq : longer.contextPatterns = shorter.contextPatterns
  localizedPatterns : shorter.localizedPatterns ⊆ longer.localizedPatterns
  localizedSuffixes_eq : longer.localizedSuffixes = shorter.localizedSuffixes
  technicalParameters : shorter.technicalParameters ⊆ longer.technicalParameters
  technicalCalls : shorter.technicalCalls <+: longer.technicalCalls
  fieldNames : shorter.fieldNames ⊆ longer.fieldNames
  contextWindow_eq : longer.contextWindow = shorter.contextWindow

/-- Every list that can be extended begins with the entries that it has in the shorter tables, in
their order. -/
structure FilterTables.Continues (longer shorter : FilterTables) : Prop where
  nonWidgetClasses : shorter.nonWidgetClasses <+: longer.nonWidgetClasses
  contextPatterns_eq : longer.contextPatterns = shorter.contextPatterns
  localizedPatterns : shorter.localizedPatterns <+: longer.localizedPatterns
  localizedSuffixes_eq : longer.localizedSuffixes = shorter.localizedSuffixes
  technicalParameters : shorter.technicalParameters <+: longer.technicalParameters
  technicalCalls : shorter.technicalCalls <+: longer.technicalCalls
  fieldNames : shorter.fieldNames <+: longer.fieldNames
  contextWindow_eq : longer.contextWindow = shorter.contextWindow

theorem FilterTables.Continues.extends {longer shorter : FilterTables}
    (more : longer.Continues shorter) : longer.Extends shorter where
  nonWidgetClasses := more.nonWidgetClasses.subset
  contextPatterns_eq := more.contextPatterns_eq
  localizedPatterns := more.localizedPatterns.subset
  localizedSuffixes_eq := more.localizedSuffixes_eq
  technicalParameters := more.technicalParameters.subset
  technicalCalls := more.technicalCalls
  fieldNames := more.fieldNames.subset
  contextWindow_eq := more.contextWindow_eq

namespace FilterTables

variable {tables longer : FilterTables} {overrides : TableOverrides}

theorem withOverrides_eq_ok [CharacterNames]
    (succeeds : tables.withOverrides overrides = .ok longer) :
    ∃ patterns, parseAll overrides.localizedPatterns = .ok patterns ∧ longer = { tables with
      technicalParameters := addNames tables.technicalParameters overrides.technicalParameters
      localizedPatterns := tables.localizedPatterns ++ patterns
      nonWidgetClasses := addNames tables.nonWidgetClasses overrides.nonWidgetClasses
      technicalCalls := addCalls tables.technicalCalls overrides.technicalCalls
      fieldNames := addNames tables.fieldNames overrides.fieldNames } := by
  rw [withOverrides] at succeeds
  cases parsed : parseAll overrides.localizedPatterns with
  | error error => simp [parsed, Except.map] at succeeds
  | ok patterns =>
      rw [parsed] at succeeds
      exact ⟨patterns, rfl, (Except.ok.inj succeeds).symm⟩

theorem continues_of_withOverrides [CharacterNames]
    (succeeds : tables.withOverrides overrides = .ok longer) :
    longer.Continues tables := by
  obtain ⟨patterns, -, rfl⟩ := withOverrides_eq_ok succeeds
  exact {
    nonWidgetClasses := prefix_foldl prefix_addName _ _
    contextPatterns_eq := rfl
    localizedPatterns := List.prefix_append _ _
    localizedSuffixes_eq := rfl
    technicalParameters := prefix_foldl prefix_addName _ _
    technicalCalls := prefix_foldl prefix_addCall _ _
    fieldNames := prefix_foldl prefix_addName _ _
    contextWindow_eq := rfl }

theorem extends_of_withOverrides [CharacterNames]
    (succeeds : tables.withOverrides overrides = .ok longer) :
    longer.Extends tables :=
  (continues_of_withOverrides succeeds).extends

end FilterTables

theorem names_call_longer {calls longer : List Text} (front : calls <+: longer)
    (named : (calls.isEmpty || calls == [[]]) = false) :
    (longer.isEmpty || longer == [[]]) = false := by
  obtain ⟨more, rfl⟩ := front
  cases calls with
  | nil => simp at named
  | cons first later =>
      cases later with
      | nil =>
          have named : first ≠ [] := by simpa using named
          simp [named]
      | cons second later => simp

theorem endsInCall_longer {calls longer : List Text} (front : calls <+: longer)
    {before : Text} (ends : endsInCall calls before = true) : endsInCall longer before = true := by
  unfold endsInCall at ends ⊢
  split at ends
  next reversed trimmed =>
    simp only [Bool.and_eq_true, Bool.not_eq_true', List.any_eq_true] at ends ⊢
    obtain ⟨named, name, listed, found⟩ := ends
    exact ⟨names_call_longer front named, name, front.subset listed, found⟩
  next => simp at ends

theorem contains_of_subset {names longer : List Text} (subset : names ⊆ longer) {name : Text}
    (listed : names.contains name = true) : longer.contains name = true := by
  rw [List.contains_iff_mem] at listed ⊢
  exact subset listed

namespace FilterTables.Extends

variable {longer shorter : FilterTables} {context : LiteralContext}

theorem isLocalized (more : longer.Extends shorter)
    (localized : isLocalized context shorter = true) :
    HardcodedText.isLocalized context longer = true := by
  rw [HardcodedText.isLocalized, Bool.or_eq_true, List.any_eq_true] at localized ⊢
  rw [more.localizedSuffixes_eq]
  rcases localized with ⟨pattern, listed, found⟩ | chained
  · exact Or.inl ⟨pattern, more.localizedPatterns listed, found⟩
  · exact Or.inr chained

theorem isTechnicalArgument (more : longer.Extends shorter)
    (technical : isTechnicalArgument context shorter = true) :
    HardcodedText.isTechnicalArgument context longer = true := by
  simp only [HardcodedText.isTechnicalArgument, Bool.or_eq_true, Bool.and_eq_true,
    Option.any_eq_true] at technical ⊢
  rcases technical with ⟨call, follows⟩ | ⟨name, trailing, listed⟩
  · exact Or.inl ⟨endsInCall_longer more.technicalCalls call, follows⟩
  · exact Or.inr ⟨name, trailing, contains_of_subset more.technicalParameters listed⟩

theorem isIdentifier (more : longer.Extends shorter)
    (identifier : isIdentifier context shorter = true) :
    HardcodedText.isIdentifier context longer = true := by
  simp only [HardcodedText.isIdentifier, Bool.or_eq_true] at identifier ⊢
  rcases identifier with shape | listed
  · exact Or.inl shape
  · exact Or.inr (contains_of_subset more.fieldNames listed)

theorem fires (more : longer.Extends shorter) {filter : Filter}
    (found : filter.fires context shorter = true) : filter.fires context longer = true := by
  cases filter with
  | localized => exact more.isLocalized found
  | technicalArgument => exact more.isTechnicalArgument found
  | identifier => exact more.isIdentifier found
  | blank => exact found
  | symbolReference => exact found
  | technicalShape => exact found
  | prose => exact found
  | mask => exact found
  | interpolation => exact found

theorem keep (more : longer.Extends shorter) (kept : (classify context longer).keep = true) :
    (classify context shorter).keep = true :=
  keep_of_fires (fun _ found => more.fires found) rfl kept

end FilterTables.Extends

end HardcodedText
