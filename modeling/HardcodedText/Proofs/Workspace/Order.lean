import HardcodedText.Proofs.Workspace.Walk
import Mathlib.Data.Char
import Mathlib.Data.List.Lex
import Mathlib.Data.List.Sort

/-!
The files that a scan of a directory visits. They are the source files below the directory that are
not ignored, each once, and in walking order: leaving out a directory whose name is excluded leaves
out the files with that name among the components of their directory, and no others.
-/

namespace HardcodedText

namespace Text

/-- Texts are compared by the codes of their characters. -/
theorem le_iff {left right : Text} : le left right = true ↔ left ≤ right := by
  rw [← not_lt]
  induction left generalizing right with
  | nil => simp [le]
  | cons a left ih =>
      cases right with
      | nil => simp [le]
      | cons b right =>
          have codes : a.toNat < b.toNat ↔ a < b := Iff.rfl
          rw [le, Bool.or_eq_true, Bool.and_eq_true, decide_eq_true_eq, beq_iff_eq, ih, codes,
            List.cons_lt_cons_iff, not_or, not_and, not_lt]
          constructor
          · rintro (less | ⟨rfl, behind⟩)
            · exact ⟨less.not_gt, fun same => absurd same.symm less.ne⟩
            · exact ⟨lt_irrefl a, fun _ => behind⟩
          · rintro ⟨notLess, behind⟩
            rcases (not_lt.mp notLess).lt_or_eq with less | rfl
            · exact Or.inl less
            · exact Or.inr ⟨rfl, behind rfl⟩

theorem sorted_eq_insertionSort (texts : List Text) :
    sorted texts = texts.insertionSort (· ≤ ·) := by
  have same : (fun left right => le left right = true) = fun left right : Text => left ≤ right := by
    funext left right
    exact propext le_iff
  rw [sorted, sortBy_eq_insertionSort]
  congr!

theorem pairwise_sorted {texts : List Text} (distinct : texts.Nodup) :
    (sorted texts).Pairwise (· < ·) := by
  rw [sorted_eq_insertionSort]
  have ordered := List.pairwise_insertionSort (· ≤ ·) texts
  have apart : (texts.insertionSort (· ≤ ·)).Nodup :=
    (List.perm_insertionSort _ texts).nodup_iff.mpr distinct
  exact ordered.imp₂ (fun left right le ne => lt_of_le_of_ne le ne) apart

end Text

theorem map_fst_sortNamed {α : Type} (entries : List (Text × α)) :
    (sortNamed entries).map Prod.fst = Text.sorted (entries.map Prod.fst) := by
  rw [sortNamed, Text.sorted, sortBy_eq_insertionSort, sortBy_eq_insertionSort]
  exact List.map_insertionSort _ _ _ _ fun _ _ _ _ => Iff.rfl

theorem pairwise_sortNamed {α : Type} {entries : List (Text × α)}
    (distinct : (entries.map Prod.fst).Nodup) :
    (sortNamed entries).Pairwise fun left right => left.1 < right.1 := by
  rw [← List.pairwise_map (R := (· < ·)), map_fst_sortNamed]
  exact Text.pairwise_sorted distinct

/-- Which of two files below a directory comes first, given by their components: the own files of a
directory by name, then the files of its subdirectories by the name of the subdirectory, and in the
same way within a subdirectory. -/
inductive WalksBefore : List Text → List Text → Prop
  | own {left right : Text} (less : left < right) : WalksBefore [left] [right]
  | ownFirst (file directory : Text) {rest : List Text} (deeper : rest ≠ []) :
      WalksBefore [file] (directory :: rest)
  | directories {left right : Text} {leftRest rightRest : List Text} (less : left < right)
      (leftDeeper : leftRest ≠ []) (rightDeeper : rightRest ≠ []) :
      WalksBefore (left :: leftRest) (right :: rightRest)
  | within (directory : Text) {left right : List Text} (before : WalksBefore left right) :
      WalksBefore (directory :: left) (directory :: right)

theorem WalksBefore.ne_nil {left right : List Text} (before : WalksBefore left right) :
    left ≠ [] ∧ right ≠ [] := by
  cases before <;> exact ⟨List.cons_ne_nil _ _, List.cons_ne_nil _ _⟩

theorem WalksBefore.asymm {left right : List Text} (before : WalksBefore left right) :
    ¬ WalksBefore right left := by
  induction before with
  | own less =>
      rintro (other | ⟨_, _, deeper⟩ | ⟨_, deeper⟩ | ⟨_, within⟩)
      · exact lt_asymm less other
      · exact deeper rfl
      · contradiction
      · exact within.ne_nil.1 rfl
  | ownFirst file directory deeper =>
      rintro (other | ⟨_, _, none⟩ | ⟨_, _, none⟩ | ⟨_, within⟩)
      · exact deeper rfl
      · exact none rfl
      · exact none rfl
      · exact within.ne_nil.2 rfl
  | directories less leftDeeper rightDeeper =>
      rintro (other | _ | other | within)
      · exact leftDeeper rfl
      · exact rightDeeper rfl
      · exact lt_asymm less other
      · exact lt_irrefl _ less
  | within directory before ih =>
      rintro (other | ⟨_, _, deeper⟩ | other | ⟨_, after⟩)
      · exact before.ne_nil.1 rfl
      · exact before.ne_nil.2 rfl
      · exact lt_irrefl _ other
      · exact ih after

namespace Node

inductive Distinct : Node → Prop
  | file (bytes : List UInt8) (accessible : Bool) : Distinct (file bytes accessible)
  | directory {entries : List (Text × Node)} (names : (entries.map Prod.fst).Nodup)
      (below : ∀ entry ∈ entries, Distinct entry.2) : Distinct (directory entries)

theorem distinct_file {bytes : List UInt8} {accessible : Bool} :
    (file bytes accessible).Distinct :=
  .file bytes accessible

theorem distinct_directory {entries : List (Text × Node)} :
    (directory entries).Distinct ↔
      (entries.map Prod.fst).Nodup ∧ ∀ entry ∈ entries, entry.2.Distinct := by
  constructor
  · rintro (_ | ⟨names, below⟩)
    exact ⟨names, below⟩
  · rintro ⟨names, below⟩
    exact .directory names below

/-- A walk visits files in walking order. -/
theorem pairwise_walk {enters : Text → Bool} {node : Node} (distinct : node.Distinct) :
    (node.walk enters).Pairwise WalksBefore := by
  induction distinct with
  | file bytes accessible => exact List.Pairwise.nil
  | @directory entries names below ih =>
      have own : (fileNames entries).Nodup := names.sublist (List.filter_sublist.map Prod.fst)
      have entered : ((walkEntries enters entries).map Prod.fst).Nodup := by
        rw [walkEntries_eq, List.map_map]
        exact names.sublist (List.filter_sublist.map Prod.fst)
      have deeper {entry : Text × List (List Text)} (member : entry ∈ walkEntries enters entries) :
          entry.2.Pairwise WalksBefore ∧ ∀ parts ∈ entry.2, parts ≠ [] := by
        rw [walkEntries_eq] at member
        obtain ⟨inner, present, rfl⟩ := List.mem_map.mp member
        exact ⟨ih inner (List.mem_filter.mp present).1, fun parts walked => (mem_walk.mp walked).1⟩
      rw [walk, List.pairwise_append, List.pairwise_map, List.pairwise_flatMap]
      refine ⟨(Text.pairwise_sorted own).imp WalksBefore.own, ⟨?_, ?_⟩, ?_⟩
      · intro entry member
        have ordered := (deeper (mem_sortNamed.mp member)).1
        exact List.pairwise_map.mpr (ordered.imp (WalksBefore.within entry.1))
      · refine (pairwise_sortNamed entered).imp_of_mem ?_
        intro left right leftMember rightMember less
        simp only [List.mem_map]
        rintro _ ⟨leftRest, leftWalked, rfl⟩ _ ⟨rightRest, rightWalked, rfl⟩
        exact .directories less ((deeper (mem_sortNamed.mp leftMember)).2 _ leftWalked)
          ((deeper (mem_sortNamed.mp rightMember)).2 _ rightWalked)
      · simp only [List.mem_map, List.mem_flatMap]
        rintro _ ⟨file, -, rfl⟩ _ ⟨entry, member, rest, walked, rfl⟩
        exact .ownFirst file entry.1 ((deeper (mem_sortNamed.mp member)).2 rest walked)

theorem distinct_of_descend {above : List Node} {here found : Node} {parts : List Text}
    (distinct : here.Distinct) (aboveDistinct : ∀ node ∈ above, node.Distinct)
    (reached : descend above here parts = .ok found) : found.Distinct := by
  refine of_descend ?_ distinct aboveDistinct reached
  exact fun entries holds => (distinct_directory.mp holds).2

end Node

/-- The names in a directory are names that files can have, and each stands for one entry. -/
structure FileTree.WellFormed (tree : FileTree) : Prop where
  proper : tree.root.isProper = true
  distinct : tree.root.Distinct

def Path.extend (path : Path) (parts : List Text) : Path :=
  { path with parts := path.parts ++ parts }

theorem Path.extend_injective (path : Path) : Function.Injective path.extend := by
  intro left right same
  exact List.append_cancel_left (congrArg Path.parts same)

theorem Path.hasNull_extend {path : Path} (usable : path.hasNull = false) {parts : List Text}
    (below : Node.Below parts) : (path.extend parts).hasNull = false := by
  rw [hasNull, List.any_eq_false] at usable ⊢
  intro name member
  rcases List.mem_append.mp member with above | under
  · exact usable name above
  · have named := below.2 name under
    simp only [isFileName, Bool.and_eq_true, Bool.not_eq_true'] at named
    rw [named.2]
    decide

theorem Path.relativeTo_append (base parts : List Text) :
    relativeTo base (base ++ parts) = some parts := by
  rw [relativeTo, if_pos (List.isPrefixOf_iff_prefix.mpr (List.prefix_append base parts)),
    List.drop_left]

namespace ScanConfig

variable {config : ScanConfig} {directory : Path}

theorem directoryParts_extend (currentDir : List Text) (usable : directory.hasNull = false)
    {parts : List Text} (below : Node.Below parts) :
    directoryParts currentDir (some directory) (directory.extend parts) = parts.dropLast := by
  have resolved : (directory.extend parts).resolve? currentDir =
      some (directory.resolve currentDir ++ parts) := by
    rw [Path.resolve?, Path.hasNull_extend usable below, if_neg (by decide), Path.extend,
      Path.resolve_below _ _ below]
  have root : directory.resolve? currentDir = some (directory.resolve currentDir) := by
    rw [Path.resolve?, usable, if_neg (by decide)]
  simp only [directoryParts, Option.bind_some, root, resolved, bind,
    List.dropLast_append_of_ne_nil below.1, Path.relativeTo_append, Option.getD_some]

/-- Below its root a path is ignored for the directories between the two and for its own name. -/
theorem isIgnoredPath_extend (currentDir : List Text) (usable : directory.hasNull = false)
    {parts : List Text} (below : Node.Below parts) :
    config.isIgnoredPath currentDir (some directory) (directory.extend parts) = false ↔
      (∀ name ∈ parts.dropLast, (!config.excludeDirs.contains name) = true) ∧
        config.isExcludedName (directory.extend parts) = false := by
  rw [isIgnoredPath, directoryParts_extend currentDir usable below, Bool.or_eq_false_iff,
    List.any_eq_false]
  simp only [Bool.not_eq_true, Bool.not_eq_true']

end ScanConfig

end HardcodedText
