import HardcodedText.Text.Basic

/-!
Tables with text keys that keep the order in which keys were first put.
-/

namespace HardcodedText

abbrev Table (α : Type) := List (Text × α)

namespace Table

variable {α : Type}

def get? (table : Table α) (key : Text) : Option α :=
  match table with
  | [] => none
  | (name, value) :: later => if name == key then some value else get? later key

def contains (table : Table α) (key : Text) : Bool :=
  table.any fun entry => entry.1 == key

/-- Puts a value under a key, in the place of the key if it is there and at the end otherwise. -/
def put (table : Table α) (key : Text) (value : α) : Table α :=
  match table with
  | [] => [(key, value)]
  | (name, old) :: later =>
      if name == key then (key, value) :: later else (name, old) :: put later key value

def erase (table : Table α) (key : Text) : Table α :=
  table.filter fun entry => entry.1 != key

def keys (table : Table α) : List Text :=
  table.map Prod.fst

@[simp] theorem get?_put_self (table : Table α) (key : Text) (value : α) :
    (table.put key value).get? key = some value := by
  induction table with
  | nil => simp [put, get?]
  | cons entry later ih =>
      rw [put]
      split
      · simp [get?]
      next other => simpa [get?, other] using ih

theorem get?_put_of_ne {key other : Text} (different : other ≠ key) (table : Table α) (value : α) :
    (table.put key value).get? other = table.get? other := by
  induction table with
  | nil => simp [put, get?, different.symm]
  | cons entry later ih =>
      rw [put]
      split
      next same => simp [get?, different.symm, eq_of_beq same]
      next => simp only [get?, ih]

theorem put_eq_append {table : Table α} {key : Text} (absent : table.get? key = none) (value : α) :
    table.put key value = table ++ [(key, value)] := by
  induction table with
  | nil => rfl
  | cons entry later ih =>
      rw [get?] at absent
      split at absent
      next => simp at absent
      next other => rw [put, if_neg other, ih absent, List.cons_append]

@[simp] theorem get?_erase_self (table : Table α) (key : Text) :
    (table.erase key).get? key = none := by
  induction table with
  | nil => rfl
  | cons entry later ih =>
      rw [erase, List.filter_cons]
      split
      next other =>
        have different : entry.1 ≠ key := by simpa using other
        rw [get?, if_neg (by simpa using different)]
        exact ih
      next => exact ih

theorem get?_erase_of_ne {key other : Text} (different : other ≠ key) (table : Table α) :
    (table.erase key).get? other = table.get? other := by
  induction table with
  | nil => rfl
  | cons entry later ih =>
      rw [erase, List.filter_cons]
      split
      next => simp only [get?, ← ih]; rfl
      next same =>
        have same : entry.1 = key := by simpa using same
        rw [get?, if_neg (by simpa [same] using different.symm)]
        exact ih

theorem mem_of_get? {table : Table α} {key : Text} {value : α}
    (found : table.get? key = some value) : (key, value) ∈ table := by
  induction table with
  | nil => simp [get?] at found
  | cons entry later ih =>
      rw [get?] at found
      split at found
      next same =>
        rw [← eq_of_beq same, ← Option.some.inj found]
        exact List.mem_cons_self
      next => exact List.mem_cons_of_mem _ (ih found)

theorem mem_keys_iff {table : Table α} {key : Text} :
    key ∈ table.keys ↔ ∃ value, table.get? key = some value := by
  induction table with
  | nil => simp [keys, get?]
  | cons entry later ih =>
      rw [keys, List.map_cons, List.mem_cons]
      by_cases same : entry.1 = key
      · simp [get?, same]
      · rw [get?, if_neg (by simpa using same), ← ih]
        exact or_iff_right fun equal => same equal.symm

end Table

end HardcodedText
