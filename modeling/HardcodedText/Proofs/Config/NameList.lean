import HardcodedText.Config.Settings
import HardcodedText.Proofs.Text

/-!
The names that a configuration lists. A list can be written as an array of texts or as one text with
commas: both list the same, and give the same settings. What is listed are names on their own, and a
list of such names lists exactly them.
-/

namespace HardcodedText

structure IsListedName (name : Text) : Prop where
  nonblank : ∃ c ∈ name, isBlank c = false
  trimmed : name.trim = name
  unseparated : ',' ∉ name

namespace Value

theorem mem_splitNames {name text : Text} :
    name ∈ splitNames text ↔ (∃ piece ∈ text.splitOn ',', Text.trim piece = name) ∧ name ≠ [] := by
  simp [splitNames]

theorem isListedName_of_mem_splitNames {name text : Text} (listed : name ∈ splitNames text) :
    IsListedName name := by
  obtain ⟨⟨piece, cut, rfl⟩, named⟩ := mem_splitNames.mp listed
  have trimmed := Text.trim_trim piece
  refine ⟨?_, trimmed, ?_⟩
  · by_contra! blank
    rw [Text.trim_eq_nil (by simpa using blank)] at trimmed
    exact named trimmed.symm
  · intro inside
    exact Text.not_mem_of_mem_splitOn cut (Text.mem_of_mem_trim inside)

theorem splitNames_of_not_mem {piece : Text} (absent : ',' ∉ piece) :
    splitNames piece = [piece.trim].filter fun name => !name.isEmpty := by
  rw [splitNames, List.splitOn_eq_singleton absent, List.map_singleton]

theorem splitNames_listed {name : Text} (listed : IsListedName name) :
    splitNames name = [name] := by
  obtain ⟨c, inside, -⟩ := listed.nonblank
  have some : name ≠ [] := List.ne_nil_of_mem inside
  rw [splitNames_of_not_mem listed.unseparated, listed.trimmed]
  simp [some]

theorem splitNames_append (front back : Text) :
    splitNames (front ++ ',' :: back) = splitNames front ++ splitNames back := by
  rw [splitNames, List.splitOn_append_cons_self, List.map_append, List.filter_append]
  rfl

theorem splitNames_intercalate (texts : List Text) :
    splitNames (List.intercalate [','] texts) = texts.flatMap splitNames := by
  induction texts with
  | nil => rfl
  | cons text later ih =>
      by_cases last : later = []
      · simp [last]
      · rw [List.intercalate_cons_of_ne_nil last, List.append_assoc, List.singleton_append,
          splitNames_append,
          ih, List.flatMap_cons]

theorem nameList_texts (texts : List Text) :
    (list (texts.map string)).nameList = texts.flatMap splitNames := by
  rw [nameList, List.flatMap_map]

theorem nameList_texts_eq_intercalate (texts : List Text) :
    (list (texts.map string)).nameList = (string (List.intercalate [','] texts)).nameList := by
  rw [nameList_texts, nameList, splitNames_intercalate]

theorem isListedName_of_mem_nameList {value : Value} {name : Text}
    (listed : name ∈ value.nameList) : IsListedName name := by
  cases value with
  | string text => exact isListedName_of_mem_splitNames listed
  | list items =>
      obtain ⟨item, -, inItem⟩ := List.mem_flatMap.mp listed
      cases item with
      | string text => exact isListedName_of_mem_splitNames inItem
      | _ => exact absurd inItem List.not_mem_nil
  | _ => exact absurd listed List.not_mem_nil

theorem nameList_listed {names : List Text} (listed : ∀ name ∈ names, IsListedName name) :
    (list (names.map string)).nameList = names := by
  rw [nameList_texts]
  induction names with
  | nil => rfl
  | cons name later ih =>
      rw [List.forall_mem_cons] at listed
      rw [List.flatMap_cons, splitNames_listed listed.1, ih listed.2, List.singleton_append]

theorem nameList_insert {item : Value} (noText : ∀ text, item ≠ string text)
    (front back : List Value) :
    (list (front ++ item :: back)).nameList = (list (front ++ back)).nameList := by
  rw [nameList, nameList, List.flatMap_append, List.flatMap_append, List.flatMap_cons]
  cases item with
  | string text => exact absurd rfl (noText text)
  | _ => rfl

theorem nameList_pieces {pieces : List Text} (absent : ∀ piece ∈ pieces, ',' ∉ piece) :
    (string (List.intercalate [','] pieces)).nameList =
      (pieces.map Text.trim).filter fun name => !name.isEmpty := by
  rw [nameList, splitNames_intercalate]
  induction pieces with
  | nil => rfl
  | cons piece later ih =>
      rw [List.forall_mem_cons] at absent
      rw [List.flatMap_cons, splitNames_of_not_mem absent.1, ih absent.2, ← List.filter_append,
        List.singleton_append, List.map_cons]

end Value

/-! Settings that differ in how one list is written. -/

namespace Table

variable {α β : Type} (table : Table α) (key : Text)

theorem put_ne_nil (value : α) : table.put key value ≠ [] := by
  cases table with
  | nil => simp [put]
  | cons entry later =>
      rw [put]
      split <;> simp

theorem map_put (change : α → β) (value : α) :
    (table.put key value).map (fun entry => (entry.1, change entry.2)) =
      Table.put (table.map fun entry => (entry.1, change entry.2)) key (change value) := by
  induction table with
  | nil => rfl
  | cons entry later ih =>
      rw [put, List.map_cons, put]
      split
      · rfl
      · rw [List.map_cons, ih]

end Table

section Respelled

variable {entries : Table Value} {key : Text} {value respelled : Value}

theorem Value.get_put_of_ne {name : String} (different : key ≠ name.toList) :
    (Value.table (entries.put key value)).get name = (Value.table entries).get name := by
  simp only [Value.get, Table.get?_put_of_ne different.symm]

theorem Value.nameList_get_put (same : value.nameList = respelled.nameList) (name : String) :
    ((Value.table (entries.put key value)).get name).nameList =
      ((Value.table (entries.put key respelled)).get name).nameList := by
  by_cases here : key = name.toList
  · simp only [Value.get, here, Table.get?_put_self, Option.getD_some, same]
  · rw [Value.get_put_of_ne here, Value.get_put_of_ne here]

theorem Value.hasEntries_put : (Value.table (entries.put key value)).hasEntries = true := by
  simp [Value.hasEntries, Table.put_ne_nil]

theorem scanConfig_put (same : value.nameList = respelled.nameList)
    (listed : key ≠ "include_tests".toList) :
    ScanConfig.ofSection (.table (entries.put key value)) =
      ScanConfig.ofSection (.table (entries.put key respelled)) := by
  simp only [ScanConfig.ofSection, extensionList, Value.nameList_get_put same,
    Value.get_put_of_ne listed]

theorem widgetOverrides_put (same : value.nameList = respelled.nameList) :
    widgetOverrides (entries.put key value) = widgetOverrides (entries.put key respelled) := by
  have names (table : Table Value) : widgetOverrides table =
      (table.map fun entry => (entry.1, entry.2.nameList)).filter
        fun entry => !entry.1.trim.isEmpty := by
    rw [List.filter_map]
    rfl
  rw [names, names, Table.map_put, Table.map_put, same]

theorem catalogFromSection_put (same : value.nameList = respelled.nameList)
    (base : List WidgetPattern) :
    catalogFromSection (.table (entries.put key value)) base =
      catalogFromSection (.table (entries.put key respelled)) base := by
  simp only [catalogFromSection, Value.hasEntries_put, Value.asTable, widgetOverrides_put same]

theorem tablesFromSection_put [CharacterNames] (same : value.nameList = respelled.nameList)
    (listed : key ≠ "translation_patterns".toList) (base : FilterTables) :
    tablesFromSection (.table (entries.put key value)) base =
      tablesFromSection (.table (entries.put key respelled)) base := by
  simp only [tablesFromSection, Value.hasEntries_put, overridesOfSection,
    Value.nameList_get_put same, Value.get_put_of_ne listed]

end Respelled

/-- An array of texts lists the same as the texts with commas between them, and gives the same
settings under every key that lists names: `include_tests` is a truth value, and the patterns of
`translation_patterns` have commas of their own. An item that is no text lists nothing. What is
listed are names on their own, and a list of them lists exactly them again. A text with commas lists
the pieces between them in their order, trimmed and without the blank ones. -/
theorem arrays_and_texts_list_alike [CharacterNames] :
    (∀ texts : List Text,
      let array : Value := .list (texts.map .string)
      let joined : Value := .string (List.intercalate [','] texts)
      array.nameList = joined.nameList ∧
      ∀ (entries : Table Value) (key : Text),
        (key ≠ "include_tests".toList →
          ScanConfig.ofSection (.table (entries.put key array)) =
            ScanConfig.ofSection (.table (entries.put key joined))) ∧
        (∀ base, catalogFromSection (.table (entries.put key array)) base =
          catalogFromSection (.table (entries.put key joined)) base) ∧
        (key ≠ "translation_patterns".toList → ∀ base,
          tablesFromSection (.table (entries.put key array)) base =
            tablesFromSection (.table (entries.put key joined)) base)) ∧
    (∀ front item back, (∀ text, item ≠ Value.string text) →
      (Value.list (front ++ item :: back)).nameList = (Value.list (front ++ back)).nameList) ∧
    (∀ value : Value, ∀ name ∈ value.nameList, IsListedName name) ∧
    (∀ value : Value, (Value.list (value.nameList.map .string)).nameList = value.nameList) ∧
    ∀ pieces : List Text, (∀ piece ∈ pieces, ',' ∉ piece) →
      (Value.string (List.intercalate [','] pieces)).nameList =
        (pieces.map Text.trim).filter fun name => !name.isEmpty := by
  refine ⟨?_, fun front item back noText => Value.nameList_insert noText front back,
    fun value name listed => Value.isListedName_of_mem_nameList listed, ?_,
    fun pieces absent => Value.nameList_pieces absent⟩
  · intro texts array joined
    have same : array.nameList = joined.nameList := Value.nameList_texts_eq_intercalate texts
    exact ⟨same, fun entries key => ⟨scanConfig_put same, catalogFromSection_put same,
      tablesFromSection_put same⟩⟩
  · intro value
    exact Value.nameList_listed fun name listed => Value.isListedName_of_mem_nameList listed

theorem arrays_and_texts_list_alike_with_blanks :
    let _ : CharacterNames := .latinAndGreek
    let array : Value := .list [.string "slug , sku".toList, .string " ".toList,
      .string ",\u2003id\n,".toList]
    let joined : Value := .string "slug , sku, ,,\u2003id\n,".toList
    let mixed : Value := .list [.string "slug".toList, .int 3, .string "sku".toList]
    let entries : Table Value := [("field_names".toList, .bool true),
      ("exclude".toList, .string "old".toList),
      ("translation_patterns".toList, .string "a,b".toList)]
    "exclude".toList ≠ "include_tests".toList ∧
      ScanConfig.ofSection (.table (entries.put "exclude".toList array)) =
        ScanConfig.ofSection (.table (entries.put "exclude".toList joined)) ∧
      "field_names".toList ≠ "translation_patterns".toList ∧
      tablesFromSection (.table (entries.put "field_names".toList array)) defaultTables =
        tablesFromSection (.table (entries.put "field_names".toList joined)) defaultTables ∧
      (∀ text, Value.int 3 ≠ .string text) ∧
      mixed.nameList = ["slug".toList, "sku".toList] ∧
      "id".toList ∈ array.nameList ∧ IsListedName "id".toList ∧
      (∀ piece ∈ [" a b ".toList, "\t".toList], ',' ∉ piece) ∧
      (Value.string " a b ,\t".toList).nameList = ["a b".toList] := by
  intro _ array joined mixed entries
  obtain ⟨alike, others, names, -, pieces⟩ := arrays_and_texts_list_alike
  obtain ⟨-, settings⟩ := alike ["slug , sku".toList, " ".toList, ",\u2003id\n,".toList]
  have scanned : "exclude".toList ≠ "include_tests".toList := by decide
  have filtered : "field_names".toList ≠ "translation_patterns".toList := by decide
  have number : ∀ text, Value.int 3 ≠ .string text := by simp
  have listed : "id".toList ∈ array.nameList := by decide +kernel
  have absent : ∀ piece ∈ [" a b ".toList, "\t".toList], ',' ∉ piece := by decide
  refine ⟨scanned, (settings entries _).1 scanned, filtered,
    (settings entries _).2.2 filtered defaultTables, number, ?_, listed, names array _ listed,
    absent, pieces _ absent⟩
  exact others [.string "slug".toList] (.int 3) [.string "sku".toList] number

end HardcodedText
