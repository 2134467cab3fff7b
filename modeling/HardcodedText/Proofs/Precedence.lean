import HardcodedText.Proofs.Detection
import Mathlib.Data.List.Induction

/-!
First come, first kept. Of the items with one key the first is kept, where it stands, whatever comes
behind it. Matches of catalog widgets are found before those of other widgets, so the main statement
says two things: the laws of removing duplicates, and that the other widgets only add matches at new
places behind those that the catalog reports.
-/

namespace HardcodedText

section Dedupe

variable {α κ : Type} [BEq κ] [LawfulBEq κ] {key : α → κ}

theorem dedupeFrom_cons_seen {seen : List κ} {item : α} (old : key item ∈ seen)
    (later : List α) : dedupeFrom key seen (item :: later) = dedupeFrom key seen later := by
  simp only [dedupeFrom, List.contains_iff_mem, old, if_true]

theorem dedupeFrom_cons_fresh {seen : List κ} {item : α} (fresh : key item ∉ seen)
    (later : List α) :
    dedupeFrom key seen (item :: later) = item :: dedupeFrom key (key item :: seen) later := by
  simp only [dedupeFrom, List.contains_iff_mem, fresh, if_false]

/-- Keys that are seen beyond those listed only take items away. -/
theorem dedupeFrom_eq_filter {seen listed more : List κ}
    (union : ∀ k, k ∈ seen ↔ k ∈ listed ∨ k ∈ more) (items : List α) :
    dedupeFrom key seen items =
      (dedupeFrom key listed items).filter fun item => !more.contains (key item) := by
  induction items generalizing seen listed with
  | nil => rfl
  | cons item later ih =>
      by_cases old : key item ∈ listed
      · have known : key item ∈ seen := (union _).mpr (Or.inl old)
        rw [dedupeFrom_cons_seen known, dedupeFrom_cons_seen old, ih union]
      rw [dedupeFrom_cons_fresh old]
      by_cases extra : key item ∈ more
      · have known : key item ∈ seen := (union _).mpr (Or.inr extra)
        have same : ∀ k, k ∈ seen ↔ k ∈ key item :: listed ∨ k ∈ more := by
          intro k
          rw [union, List.mem_cons, or_assoc]
          constructor
          · exact Or.inr
          · rintro (rfl | either)
            · exact Or.inr extra
            · exact either
        rw [dedupeFrom_cons_seen known, List.filter_cons_of_neg (by simpa using extra), ih same]
      · have fresh : key item ∉ seen := by
          rw [union]
          exact not_or.mpr ⟨old, extra⟩
        have grown : ∀ k, k ∈ key item :: seen ↔ k ∈ key item :: listed ∨ k ∈ more := by
          intro k
          simp only [List.mem_cons, union, or_assoc]
        rw [dedupeFrom_cons_fresh fresh, List.filter_cons_of_pos (by simpa using extra), ih grown]

theorem dedupeFrom_cons_eq_filter (seen : List κ) (k : κ) (items : List α) :
    dedupeFrom key (k :: seen) items =
      (dedupeFrom key seen items).filter fun item => !(key item == k) := by
  have union : ∀ other, other ∈ k :: seen ↔ other ∈ seen ∨ other ∈ [k] := by
    intro other
    rw [List.mem_cons, List.mem_singleton, or_comm]
  rw [dedupeFrom_eq_filter union]
  simp only [List.contains_cons, List.contains_nil, Bool.or_false]

theorem dedupeFrom_append (seen : List κ) (front back : List α) :
    dedupeFrom key seen (front ++ back) =
      dedupeFrom key seen front ++
        (dedupeFrom key seen back).filter fun item => !(front.map key).contains (key item) := by
  induction front generalizing seen with
  | nil => simp [dedupeFrom]
  | cons item later ih =>
      rw [List.cons_append]
      by_cases old : key item ∈ seen
      · rw [dedupeFrom_cons_seen old, dedupeFrom_cons_seen old, ih]
        congr 1
        apply List.filter_congr
        intro other member
        have different : key other ≠ key item := fun same => key_not_mem_seen member (same ▸ old)
        simp [different]
      · rw [dedupeFrom_cons_fresh old, dedupeFrom_cons_fresh old, ih,
          dedupeFrom_cons_eq_filter seen (key item) back, List.filter_filter, List.cons_append]
        congr 2
        apply List.filter_congr
        intro other member
        rw [List.map_cons, List.contains_cons, Bool.not_or, Bool.and_comm]

theorem dedupeFrom_eq_self {seen : List κ} {items : List α}
    (distinct : items.Pairwise fun left right => key left ≠ key right)
    (fresh : ∀ item ∈ items, key item ∉ seen) : dedupeFrom key seen items = items := by
  induction items generalizing seen with
  | nil => rfl
  | cons item later ih =>
      obtain ⟨different, distinct⟩ := List.pairwise_cons.mp distinct
      have still : ∀ other ∈ later, key other ∉ key item :: seen := by
        intro other member listed
        rcases List.mem_cons.mp listed with same | listed
        · exact different other member same.symm
        · exact fresh other (List.mem_cons_of_mem _ member) listed
      rw [dedupeFrom_cons_fresh (fresh item List.mem_cons_self), ih distinct still]

/-- A test that depends on the key alone can be made before or after. -/
theorem filter_dedupeFrom {test : α → Bool}
    (keyed : ∀ left right, key left = key right → test left = test right) (seen : List κ)
    (items : List α) :
    (dedupeFrom key seen items).filter test = dedupeFrom key seen (items.filter test) := by
  induction items generalizing seen with
  | nil => rfl
  | cons item later ih =>
      by_cases passes : test item = true
      · rw [List.filter_cons_of_pos passes]
        by_cases old : key item ∈ seen
        · rw [dedupeFrom_cons_seen old, dedupeFrom_cons_seen old, ih]
        · rw [dedupeFrom_cons_fresh old, dedupeFrom_cons_fresh old,
            List.filter_cons_of_pos passes, ih]
      rw [List.filter_cons_of_neg passes]
      by_cases old : key item ∈ seen
      · rw [dedupeFrom_cons_seen old, ih]
      · rw [dedupeFrom_cons_fresh old, List.filter_cons_of_neg passes, ih,
          dedupeFrom_cons_eq_filter, List.filter_eq_self]
        -- No item that passes has the key of the one that does not.
        intro other member
        have passing : test other = true :=
          (List.mem_filter.mp ((dedupeFrom_sublist seen _).subset member)).2
        have different : key other ≠ key item := by
          intro same
          rw [keyed other item same] at passing
          exact passes passing
        simpa using different

def firstsBy (key : α → κ) (items : List α) : List α :=
  (items.zipIdx.filter fun (item, place) =>
    !((items.take place).map key).contains (key item)).map Prod.fst

omit [LawfulBEq κ] in
theorem firstsBy_concat (items : List α) (item : α) :
    firstsBy key (items ++ [item]) =
      firstsBy key items ++ if (items.map key).contains (key item) then [] else [item] := by
  have before : items.zipIdx.filter (fun (earlier, place) =>
        !(((items ++ [item]).take place).map key).contains (key earlier)) =
      items.zipIdx.filter fun (earlier, place) =>
        !((items.take place).map key).contains (key earlier) := by
    apply List.filter_congr
    rintro ⟨earlier, place⟩ member
    have inside := (List.getElem?_eq_some_iff.mp (List.mem_zipIdx_iff_getElem?.mp member)).1
    simp only [List.take_append_of_le_length (Nat.le_of_lt inside)]
  have here : (items ++ [item]).take (0 + items.length) = items := by simp
  rw [firstsBy, List.zipIdx_append, List.filter_append, List.map_append, before, firstsBy]
  simp only [List.zipIdx_singleton, List.filter_cons, List.filter_nil, here]
  cases (items.map key).contains (key item) with
  | false => rfl
  | true => rfl

theorem dedupeBy_eq_firstsBy (items : List α) : dedupeBy key items = firstsBy key items := by
  induction items using List.reverseRecOn with
  | nil => rfl
  | append_singleton items item ih =>
      have single : dedupeFrom key [] [item] = [item] := rfl
      rw [firstsBy_concat, ← ih, dedupeBy, dedupeFrom_append, dedupeBy, single]
      congr 1
      cases listed : (items.map key).contains (key item) with
      | false => rw [List.filter_cons_of_pos (by rw [listed]; rfl)]; rfl
      | true => rw [List.filter_cons_of_neg (by rw [listed]; decide)]; rfl

end Dedupe

/-! Matches of catalog widgets and of others. -/

def knownMatches (source : Text) (catalog : List WidgetPattern) (tables : FilterTables) :
    List Match :=
  (catalog.flatMap fun pattern =>
      knownCallSites source pattern (SpanSet.ofSpans (inertSpans source))).flatMap
    (matchesOfSite (LineIndex.ofText source) tables)

def customMatches (source : Text) (catalog : List WidgetPattern) (tables : FilterTables) :
    List Match :=
  (customCallSites source (catalog.map WidgetPattern.widget) tables
      (SpanSet.ofSpans (inertSpans source))).flatMap
    (matchesOfSite (LineIndex.ofText source) tables)

theorem candidates_eq_append (source : Text) (catalog : List WidgetPattern)
    (tables : FilterTables) :
    candidates source catalog tables =
      knownMatches source catalog tables ++ customMatches source catalog tables := by
  rw [candidates, callSites, List.flatMap_append, knownMatches, customMatches]

theorem dedupe_append (front back : List Match) :
    dedupe (front ++ back) =
      dedupe front ++
        (dedupe back).filter fun found => !(front.map Match.span).contains found.span :=
  dedupeFrom_append [] front back

theorem dedupe_dedupe (found : List Match) : dedupe (dedupe found) = dedupe found :=
  dedupeFrom_eq_self (dedupe_spans found) fun _ _ => List.not_mem_nil

theorem filterIgnored_dedupe (rules : List IgnoreRule) (found : List Match) :
    filterIgnored rules (dedupe found) = dedupe (filterIgnored rules found) := by
  apply filter_dedupeFrom
  intro left right same
  have start : left.start = right.start := (Prod.mk.inj same).1
  simp only [start]

/-- Removing duplicates keeps the first match of every span in its order, so that a second list adds
its matches at new spans only, doing it twice changes nothing, and ignored matches can be left out
before or after. So the report begins with the report on the catalog widgets alone; what other
widgets add comes behind it, at spans that no catalog widget has. -/
theorem known_matches_come_first (xs ys : List Match) (rules : List IgnoreRule) (text : Text)
    (catalog : List WidgetPattern) (tables : FilterTables) :
    dedupe (xs ++ ys) =
        dedupe xs ++ (dedupe ys).filter (fun found => !(xs.map Match.span).contains found.span) ∧
      dedupe xs = firstsBy Match.span xs ∧
      dedupe (dedupe xs) = dedupe xs ∧
      filterIgnored rules (dedupe xs) = dedupe (filterIgnored rules xs) ∧
      let source := stripComments text ignoreMarkers
      let known := knownMatches source catalog tables
      let others := customMatches source catalog tables
      findHardcoded text catalog tables =
        filterIgnored (ignoreRules text) (dedupe known) ++
          (filterIgnored (ignoreRules text) (dedupe others)).filter fun found =>
            !(known.map Match.span).contains found.span := by
  refine ⟨dedupe_append xs ys, dedupeBy_eq_firstsBy xs, dedupe_dedupe xs,
    filterIgnored_dedupe rules xs, ?_⟩
  intro source known others
  have split : candidates source catalog tables = known ++ others :=
    candidates_eq_append source catalog tables
  rw [findHardcoded, split, dedupe_append, filterIgnored, List.filter_append, List.filter_comm]
  rfl

end HardcodedText
