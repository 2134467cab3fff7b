import HardcodedText.Config.Settings
import HardcodedText.Proofs.Excerpt

/-!
The widget catalog of a configuration. A normalized catalog has distinct trimmed names, and
normalizing changes nothing in such a catalog. The main statement says what a section puts over a
normalized catalog: its parameters in place of those of the widgets that it names, and its other
entries at the end.
-/

namespace HardcodedText

structure IsNormalized (catalog : List WidgetPattern) : Prop where
  trimmed : ∀ pattern ∈ catalog, pattern.widget.trim = pattern.widget
  named : ∀ pattern ∈ catalog, pattern.widget ≠ []
  distinct : (catalog.map WidgetPattern.widget).Nodup

theorem normalizeFrom_eq_self {seen : List Text} {catalog : List WidgetPattern}
    (normalized : IsNormalized catalog) (fresh : ∀ pattern ∈ catalog, pattern.widget ∉ seen) :
    normalizeFrom seen catalog = catalog := by
  induction catalog generalizing seen with
  | nil => rfl
  | cons entry later ih =>
      obtain ⟨trimmed, named, distinct⟩ := normalized
      rw [List.forall_mem_cons] at trimmed named fresh
      rw [List.map_cons, List.nodup_cons] at distinct
      have still : ∀ pattern ∈ later, pattern.widget ∉ entry.widget :: seen := by
        intro pattern member
        rw [List.mem_cons, not_or]
        refine ⟨?_, fresh.2 pattern member⟩
        intro same
        exact distinct.1 (same ▸ List.mem_map_of_mem member)
      have rest := ih ⟨trimmed.2, named.2, distinct.2⟩ still
      simp only [normalizeFrom, trimmed.1, rest]
      rw [if_neg]
      simp only [Bool.or_eq_true, List.isEmpty_iff, List.contains_iff_mem, not_or]
      exact ⟨named.1, fresh.1⟩

theorem normalizeCatalog_eq_self {catalog : List WidgetPattern}
    (normalized : IsNormalized catalog) : normalizeCatalog catalog = catalog :=
  normalizeFrom_eq_self normalized fun _ _ => List.not_mem_nil

theorem nodup_normalizeFrom (seen : List Text) (entries : List WidgetPattern) :
    ((normalizeFrom seen entries).map WidgetPattern.widget).Nodup := by
  induction entries generalizing seen with
  | nil => exact List.nodup_nil
  | cons entry later ih =>
      simp only [normalizeFrom]
      split
      · exact ih seen
      · rw [List.map_cons, List.nodup_cons, mem_widgets_normalizeFrom]
        constructor
        · rintro ⟨-, fresh, -⟩
          exact fresh List.mem_cons_self
        · exact ih _

theorem isNormalized_normalizeCatalog (entries : List WidgetPattern) :
    IsNormalized (normalizeCatalog entries) where
  trimmed := by
    intro pattern member
    obtain ⟨entry, -, same⟩ := mem_normalizeFrom member
    rw [same, Text.trim_trim]
  named := by
    intro pattern member
    exact (mem_widgets_normalizeFrom.mp (List.mem_map_of_mem member)).1
  distinct := nodup_normalizeFrom [] entries

theorem CatalogSource.isNormalized (given : CatalogSource) : IsNormalized given.catalog := by
  cases given with
  | absent => exact isNormalized_normalizeCatalog []
  | table rows => exact isNormalized_normalizeCatalog _
  | list entries => exact isNormalized_normalizeCatalog entries

/-! Putting a table over a catalog. -/

theorem Table.get?_map {α β : Type} (value : α → β) (table : Table α) (key : Text) :
    Table.get? (table.map fun entry => (entry.1, value entry.2)) key =
      (table.get? key).map value := by
  induction table with
  | nil => rfl
  | cons entry later ih =>
      rw [List.map_cons, Table.get?, Table.get?, ih]
      split <;> rfl

def WidgetPattern.overriddenBy (overrides : Table (List Text)) (pattern : WidgetPattern) :
    WidgetPattern :=
  { pattern with params := (overrides.get? pattern.widget).getD pattern.params }

theorem overlay_eq {base : List WidgetPattern} (distinct : (base.map WidgetPattern.widget).Nodup)
    (overrides : Table (List Text)) :
    overlay overrides base =
      base.map (WidgetPattern.overriddenBy overrides) ++
        (overrides.filter fun entry => !(base.map WidgetPattern.widget).contains entry.1).map
          fun entry => ⟨entry.1, entry.2⟩ := by
  induction base generalizing overrides with
  | nil => simp [overlay]
  | cons pattern later ih =>
      rw [List.map_cons, List.nodup_cons] at distinct
      have other {next : WidgetPattern} (member : next ∈ later) : next.widget ≠ pattern.widget := by
        intro same
        exact distinct.1 (same ▸ List.mem_map_of_mem member)
      cases found : overrides.get? pattern.widget with
      | some params =>
          have kept : later.map (WidgetPattern.overriddenBy (overrides.erase pattern.widget)) =
              later.map (WidgetPattern.overriddenBy overrides) := by
            apply List.map_congr_left
            intro next member
            rw [WidgetPattern.overriddenBy, Table.get?_erase_of_ne (other member),
              WidgetPattern.overriddenBy]
          have left : (overrides.erase pattern.widget).filter
                (fun entry => !(later.map WidgetPattern.widget).contains entry.1) =
              overrides.filter fun entry =>
                !((pattern :: later).map WidgetPattern.widget).contains entry.1 := by
            rw [Table.erase, List.filter_filter]
            apply List.filter_congr
            intro entry _
            rw [List.map_cons, List.contains_cons, Bool.not_or, Bool.and_comm]
            rfl
          simp only [overlay, found, ih distinct.2, kept, left, List.map_cons, List.cons_append,
            WidgetPattern.overriddenBy, Option.getD_some]
      | none =>
          have left : overrides.filter
                (fun entry => !(later.map WidgetPattern.widget).contains entry.1) =
              overrides.filter fun entry =>
                !((pattern :: later).map WidgetPattern.widget).contains entry.1 := by
            apply List.filter_congr
            intro entry member
            have unnamed : entry.1 ≠ pattern.widget := by
              intro same
              obtain ⟨value, named⟩ := Table.mem_keys_iff.mp (List.mem_map_of_mem member)
              rw [same, found] at named
              simp at named
            simp [unnamed]
          simp only [overlay, found, ih distinct.2, left, List.map_cons, List.cons_append,
            WidgetPattern.overriddenBy, Option.getD_none]

theorem isNormalized_overlay {base : List WidgetPattern} (normalized : IsNormalized base)
    {overrides : Table (List Text)} (distinct : overrides.keys.Nodup)
    (trimmed : ∀ key ∈ overrides.keys, key ≠ [] ∧ key.trim = key) :
    IsNormalized (overlay overrides base) := by
  have inBase {pattern : WidgetPattern}
      (member : pattern ∈ base.map (WidgetPattern.overriddenBy overrides)) :
      ∃ own ∈ base, own.widget = pattern.widget := by
    obtain ⟨own, listed, rfl⟩ := List.mem_map.mp member
    exact ⟨own, listed, rfl⟩
  rw [overlay_eq normalized.distinct]
  constructor
  · intro pattern member
    rcases List.mem_append.mp member with replaced | added
    · obtain ⟨own, listed, same⟩ := inBase replaced
      rw [← same]
      exact normalized.trimmed own listed
    · obtain ⟨entry, listed, rfl⟩ := List.mem_map.mp added
      exact (trimmed _ (List.mem_map_of_mem (List.mem_filter.mp listed).1)).2
  · intro pattern member
    rcases List.mem_append.mp member with replaced | added
    · obtain ⟨own, listed, same⟩ := inBase replaced
      rw [← same]
      exact normalized.named own listed
    · obtain ⟨entry, listed, rfl⟩ := List.mem_map.mp added
      exact (trimmed _ (List.mem_map_of_mem (List.mem_filter.mp listed).1)).1
  · rw [List.map_append, List.map_map, List.map_map, List.nodup_append]
    refine ⟨normalized.distinct, distinct.sublist (List.filter_sublist.map _), ?_⟩
    rintro name inFront _ inBack rfl
    obtain ⟨entry, listed, same⟩ := List.mem_map.mp inBack
    have unlisted : entry.1 ∉ base.map WidgetPattern.widget := by
      simpa using (List.mem_filter.mp listed).2
    have named : entry.1 = name := same
    exact unlisted (named ▸ inFront)

theorem widgetOverrides_eq {entries : Table Value}
    (trimmed : ∀ key ∈ entries.keys, key ≠ [] ∧ key.trim = key) :
    widgetOverrides entries = entries.map fun entry => (entry.1, entry.2.nameList) := by
  rw [widgetOverrides, List.filter_eq_self.mpr]
  intro entry member
  obtain ⟨named, same⟩ := trimmed entry.1 (List.mem_map_of_mem member)
  simp [same, named]

theorem catalogFromSection_eq {entries : Table Value} {base : List WidgetPattern}
    (normalized : IsNormalized base) (distinct : entries.keys.Nodup)
    (trimmed : ∀ key ∈ entries.keys, key ≠ [] ∧ key.trim = key) :
    IsNormalized (overlay (widgetOverrides entries) base) ∧
      catalogFromSection (.table entries) base = overlay (widgetOverrides entries) base := by
  have keys : (widgetOverrides entries).keys = entries.keys := by
    rw [widgetOverrides_eq trimmed, Table.keys, List.map_map]
    rfl
  have result : IsNormalized (overlay (widgetOverrides entries) base) :=
    isNormalized_overlay normalized (keys ▸ distinct) (keys ▸ trimmed)
  refine ⟨result, ?_⟩
  rw [catalogFromSection]
  split
  · exact normalizeCatalog_eq_self result
  next none =>
    -- Without entries nothing is put over the base.
    obtain rfl : entries = [] := by simpa [Value.hasEntries] using none
    have kept : base.map (WidgetPattern.overriddenBy []) = base := List.map_id'' (fun _ => rfl) base
    rw [overlay_eq normalized.distinct]
    simp [widgetOverrides, kept]

/-- A section puts its parameters in place of those of the widgets that it names, leaves the others
as they are, and adds its other entries at the end in its own order. The names of the result are
distinct, and it is normalized. A table has one entry for each of its keys. -/
theorem section_overlays_catalog (given : CatalogSource) (entries : Table Value)
    (distinct : entries.keys.Nodup) (trimmed : ∀ key ∈ entries.keys, key ≠ [] ∧ key.trim = key) :
    let base := given.catalog
    let result := catalogFromSection (.table entries) base
    result =
        base.map (fun pattern => { pattern with
          params := ((entries.get? pattern.widget).map Value.nameList).getD pattern.params }) ++
        (entries.filter fun entry => !(base.map WidgetPattern.widget).contains entry.1).map
          (fun entry => ⟨entry.1, entry.2.nameList⟩) ∧
      (result.map WidgetPattern.widget).Nodup ∧
      normalizeCatalog result = result := by
  intro base result
  have normalized : IsNormalized base := given.isNormalized
  obtain ⟨overlaid, same⟩ := catalogFromSection_eq normalized distinct trimmed
  have merged : result = overlay (widgetOverrides entries) base := same
  rw [merged]
  refine ⟨?_, overlaid.distinct, normalizeCatalog_eq_self overlaid⟩
  rw [overlay_eq normalized.distinct, widgetOverrides_eq trimmed, List.filter_map, List.map_map]
  congr 1
  apply List.map_congr_left
  intro pattern _
  rw [WidgetPattern.overriddenBy, Table.get?_map]

theorem section_overlays_catalog_listed_and_new :
    let given : CatalogSource := .list [⟨" Text ".toList, ["data".toList]⟩,
      ⟨"Tab".toList, ["text".toList]⟩, ⟨"Text".toList, []⟩]
    let entries : Table Value := [("Banner".toList, .string "title, body,".toList),
      ("Tab".toList, .list [.string " label ".toList, .int 1])]
    entries.keys.Nodup ∧ (∀ key ∈ entries.keys, key ≠ [] ∧ key.trim = key) ∧
      normalizeCatalog (catalogFromSection (.table entries) given.catalog) =
        catalogFromSection (.table entries) given.catalog ∧
      catalogFromSection (.table entries) given.catalog =
        [⟨"Text".toList, ["data".toList]⟩, ⟨"Tab".toList, ["label".toList]⟩,
          ⟨"Banner".toList, ["title".toList, "body".toList]⟩] := by
  intro given entries
  have distinct : entries.keys.Nodup := by decide
  have trimmed : ∀ key ∈ entries.keys, key ≠ [] ∧ key.trim = key := by decide
  exact ⟨distinct, trimmed, (section_overlays_catalog given entries distinct trimmed).2.2,
    by decide +kernel⟩

end HardcodedText
