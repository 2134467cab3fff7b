import HardcodedText.Proofs.Filter.Extension
import HardcodedText.Proofs.Filter.TechnicalCall

/-!
Extending tables. Entries are only added, behind those that are there, so two extensions one after
the other are one extension by the entries of both, and the first pattern that is refused is the
same. What the names of technical calls find depends on their set alone.
-/

namespace HardcodedText

def TableOverrides.followedBy (first second : TableOverrides) : TableOverrides where
  technicalParameters := first.technicalParameters ++ second.technicalParameters
  localizedPatterns := first.localizedPatterns ++ second.localizedPatterns
  nonWidgetClasses := first.nonWidgetClasses ++ second.nonWidgetClasses
  technicalCalls := first.technicalCalls ++ second.technicalCalls
  fieldNames := first.fieldNames ++ second.fieldNames

def FirstRefused [CharacterNames] (sources : List Text) (error : PatternError) : Prop :=
  ∃ front source back, sources = front ++ source :: back ∧
    (∀ earlier ∈ front, ∃ pattern, Pattern.parse earlier = .ok pattern) ∧
    Pattern.parse source = .error error

theorem parseAll_append [CharacterNames] (front back : List Text) :
    parseAll (front ++ back) =
      (parseAll front).bind fun patterns => (parseAll back).map (patterns ++ ·) := by
  induction front with
  | nil =>
      cases parsed : parseAll back <;> simp [parseAll, parsed, Except.bind, Except.map]
  | cons source later ih =>
      rw [List.cons_append, parseAll, parseAll, ih]
      cases Pattern.parse source with
      | error error => rfl
      | ok pattern =>
          cases parseAll later with
          | error error => rfl
          | ok patterns =>
              cases parseAll back with
              | error error => rfl
              | ok more => rfl

theorem firstRefused_cons_iff [CharacterNames] {source : Text} {later : List Text}
    {error : PatternError} :
    FirstRefused (source :: later) error ↔ Pattern.parse source = .error error ∨
      (∃ pattern, Pattern.parse source = .ok pattern) ∧ FirstRefused later error := by
  constructor
  · rintro ⟨front, refused, back, split, accepted, found⟩
    cases front with
    | nil =>
        obtain ⟨rfl, rfl⟩ := List.cons_eq_cons.mp split
        exact Or.inl found
    | cons first front =>
        obtain ⟨rfl, rfl⟩ := List.cons_eq_cons.mp split
        obtain ⟨here, accepted⟩ := List.forall_mem_cons.mp accepted
        exact Or.inr ⟨here, front, refused, back, rfl, accepted, found⟩
  · rintro (found | ⟨here, front, refused, back, rfl, accepted, found⟩)
    · exact ⟨[], source, later, rfl, by simp, found⟩
    · exact ⟨source :: front, refused, back, rfl, List.forall_mem_cons.mpr ⟨here, accepted⟩,
        found⟩

theorem parseAll_eq_error_iff [CharacterNames] {sources : List Text} {error : PatternError} :
    parseAll sources = .error error ↔ FirstRefused sources error := by
  induction sources with
  | nil => simp [parseAll, FirstRefused]
  | cons source later ih =>
      rw [parseAll, firstRefused_cons_iff, ← ih]
      cases Pattern.parse source with
      | error own => simp
      | ok pattern => cases parseAll later <;> simp [Except.map]

namespace FilterTables

variable {tables : FilterTables} {overrides : TableOverrides}

theorem withOverrides_eq_error_iff [CharacterNames] {error : PatternError} :
    tables.withOverrides overrides = .error error ↔
      FirstRefused overrides.localizedPatterns error := by
  rw [← parseAll_eq_error_iff, withOverrides]
  cases parseAll overrides.localizedPatterns <;> simp [Except.map]

theorem withOverrides_followedBy [CharacterNames] (tables : FilterTables)
    (first second : TableOverrides) :
    ((tables.withOverrides first).bind fun extended => extended.withOverrides second) =
      tables.withOverrides (first.followedBy second) := by
  simp only [withOverrides, TableOverrides.followedBy, parseAll_append]
  cases parseAll first.localizedPatterns with
  | error error => rfl
  | ok patterns =>
      cases parseAll second.localizedPatterns with
      | error error => rfl
      | ok more =>
          simp only [Except.map, Except.bind, addNames, addCalls, List.foldl_append,
            List.append_assoc]

end FilterTables

theorem addCalls_named {calls extra : List Text} (named : ∀ call ∈ calls, call ≠ []) :
    ∀ call ∈ addCalls calls extra, call ≠ [] := by
  induction extra generalizing calls with
  | nil => exact named
  | cons call later ih =>
      apply ih
      rw [addCall]
      split
      · exact named
      next shown =>
        intro other member
        rw [addName] at member
        split at member
        · exact named other member
        · rcases List.mem_append.mp member with listed | same
          · exact named other listed
          · rw [List.mem_singleton.mp same]
            simpa using shown

theorem FilterTables.named_of_withOverrides [CharacterNames] {tables longer : FilterTables}
    {overrides : TableOverrides} (succeeds : tables.withOverrides overrides = .ok longer)
    (named : ∀ call ∈ tables.technicalCalls, call ≠ []) :
    ∀ call ∈ longer.technicalCalls, call ≠ [] := by
  obtain ⟨patterns, -, rfl⟩ := withOverrides_eq_ok succeeds
  exact addCalls_named named

/-- Extending tables twice is extending them once by the entries of both, or fails with the error of
the first pattern that is refused. No entry is removed or moved. The written search for technical
calls finds the texts that end in one, and so does the look at the end of a text, whatever the order
and the repetition of the names. -/
theorem overrides_compose [CharacterNames] (tables : FilterTables) (first second : TableOverrides)
    (named : ∀ call ∈ tables.technicalCalls, call ≠ []) :
    ((tables.withOverrides first).bind fun extended => extended.withOverrides second) =
        tables.withOverrides (first.followedBy second) ∧
      (∀ error, tables.withOverrides (first.followedBy second) = .error error ↔
        FirstRefused (first.localizedPatterns ++ second.localizedPatterns) error) ∧
      ∀ longer, tables.withOverrides (first.followedBy second) = .ok longer →
        longer.Continues tables ∧
        ∃ search, Pattern.parse (technicalCallSource longer.technicalCalls) = .ok search ∧
          (∀ text, search.pattern.foundIn text = true ↔
            EndsInCall longer.technicalCalls text) ∧
          ∀ calls, (∀ call, call ∈ calls ↔ call ∈ longer.technicalCalls) →
            ∃ other, Pattern.parse (technicalCallSource calls) = .ok other ∧
              ∀ text, other.pattern.foundIn text = search.pattern.foundIn text ∧
                endsInCall calls text = search.pattern.foundIn text := by
  refine ⟨tables.withOverrides_followedBy first second,
    fun error => FilterTables.withOverrides_eq_error_iff, ?_⟩
  intro longer succeeds
  have shown : ∀ call ∈ longer.technicalCalls, call ≠ [] :=
    FilterTables.named_of_withOverrides succeeds named
  have found {calls : List Text} (same : ∀ call, call ∈ calls ↔ call ∈ longer.technicalCalls)
      (text : Text) : (calls ≠ [[]] ∧ EndsInCall calls text) ↔
        EndsInCall longer.technicalCalls text := by
    have notBlank : calls ≠ [[]] := by
      rintro rfl
      exact shown [] ((same []).mp List.mem_cons_self) rfl
    rw [and_iff_right notBlank, EndsInCall.congr same]
  refine ⟨FilterTables.continues_of_withOverrides succeeds, _,
    parse_technicalCallSource longer.technicalCalls, ?_, ?_⟩
  · intro text
    rw [foundIn_technicalCallPattern, found fun call => Iff.rfl]
  · intro calls same
    refine ⟨_, parse_technicalCallSource calls, ?_⟩
    intro text
    constructor
    · rw [Bool.eq_iff_iff, foundIn_technicalCallPattern, foundIn_technicalCallPattern, found same,
        found fun call => Iff.rfl]
    · rw [Bool.eq_iff_iff, endsInCall_iff, foundIn_technicalCallPattern, found same,
        found fun call => Iff.rfl]

theorem overrides_compose_over_defaults :
    let _ : CharacterNames := .latinAndGreek
    let first : TableOverrides :=
      { technicalCalls := ["Icon.named".toList, []], localizedPatterns := ["l10n".toList] }
    let second : TableOverrides := { technicalCalls := ["Key".toList, "named".toList] }
    let refused : TableOverrides := { localizedPatterns := ["tr[".toList, "[".toList] }
    (∀ call ∈ defaultTables.technicalCalls, call ≠ []) ∧
      ((defaultTables.withOverrides first).bind fun extended => extended.withOverrides refused) =
        .error ⟨.unterminatedSet, some 2, "tr[".toList⟩ ∧
      ∃ longer search,
        ((defaultTables.withOverrides first).bind fun extended => extended.withOverrides second) =
          .ok longer ∧
        longer.technicalCalls = defaultTechnicalCalls ++ ["Icon.named".toList, "named".toList] ∧
        Pattern.parse (technicalCallSource longer.technicalCalls) = .ok search ∧
        search.pattern.foundIn "Tab(icon: Icon.named (\n".toList = true ∧
        search.pattern.foundIn "Tab(icon: Icons.named (\n".toList = false := by
  intro _ first second refused
  let pattern : SourcePattern := ⟨"l10n".toList, .exactly "l10n"⟩
  have named : ∀ call ∈ defaultTables.technicalCalls, call ≠ [] := by decide +kernel
  refine ⟨named, ?_, ?_⟩
  · obtain ⟨composed, fails, -⟩ := overrides_compose defaultTables first refused named
    rw [composed, fails]
    refine ⟨["l10n".toList], "tr[".toList, ["[".toList], rfl, ?_, by decide +kernel⟩
    rw [List.forall_mem_singleton]
    exact ⟨pattern, by decide +kernel⟩
  · obtain ⟨composed, -, succeeds⟩ := overrides_compose defaultTables first second named
    have listed : parseAll (first.followedBy second).localizedPatterns = .ok [pattern] := by
      decide +kernel
    let longer : FilterTables := { defaultTables with
      localizedPatterns := defaultLocalizedPatterns ++ [pattern]
      technicalCalls := addCalls defaultTechnicalCalls (first.followedBy second).technicalCalls }
    have calls : longer.technicalCalls =
        defaultTechnicalCalls ++ ["Icon.named".toList, "named".toList] := by
      decide +kernel
    have together : defaultTables.withOverrides (first.followedBy second) = .ok longer := by
      rw [FilterTables.withOverrides, listed]
      rfl
    obtain ⟨-, search, parsed, -, alike⟩ := succeeds longer together
    obtain ⟨_, _, ends⟩ := alike longer.technicalCalls fun call => Iff.rfl
    refine ⟨longer, search, composed.trans together, calls, parsed, ?_, ?_⟩
    · rw [← (ends _).2, calls]
      decide +kernel
    · rw [← (ends _).2, calls]
      decide +kernel

end HardcodedText
