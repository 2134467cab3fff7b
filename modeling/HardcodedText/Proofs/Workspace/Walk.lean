import HardcodedText.Proofs.Text
import HardcodedText.Proofs.Workspace.Uri
import HardcodedText.Workspace.Scan

/-!
The files that a scan visits lie below the place it is given, under names that files can have. So
two of them have two URIs.
-/

namespace HardcodedText

/-- A name that a file can have: not empty, neither of the two names that lead to a directory
itself or to the one above it, without slash and null. -/
def isFileName (name : Text) : Bool :=
  !name.isEmpty && name != ['.'] && name != ['.', '.'] && !name.contains '/' &&
    !name.contains '\x00'

theorem slash_not_mem {name : Text} (proper : isFileName name = true) : '/' ∉ name := by
  simp only [isFileName, Bool.and_eq_true, Bool.not_eq_true', List.contains_eq_mem,
    decide_eq_false_iff_not] at proper
  exact proper.1.2

theorem ne_above {name : Text} (proper : isFileName name = true) : name ≠ ['.', '.'] := by
  rintro rfl
  exact absurd proper (by decide)

namespace Node

mutual

def isProper : Node → Bool
  | file .. => true
  | directory entries => properEntries entries

def properEntries : List (Text × Node) → Bool
  | [] => true
  | (name, node) :: later => isFileName name && isProper node && properEntries later

end

theorem properEntries_iff {entries : List (Text × Node)} :
    properEntries entries = true ↔
      ∀ entry ∈ entries, isFileName entry.1 = true ∧ entry.2.isProper = true := by
  induction entries with
  | nil => simp [properEntries]
  | cons entry later ih => simp [properEntries, ih, and_assoc]

/-- A property that a directory hands down to its entries holds of every node that is found below
one that has it. -/
theorem of_descend {P : Node → Prop}
    (inherited : ∀ entries : List (Text × Node), P (directory entries) →
      ∀ entry ∈ entries, P entry.2)
    {above : List Node} {here found : Node} {parts : List Text} (holds : P here)
    (aboveHolds : ∀ node ∈ above, P node) (reached : descend above here parts = .ok found) :
    P found := by
  induction parts generalizing above here with
  | nil =>
      obtain rfl := Except.ok.inj reached
      exact holds
  | cons part later ih =>
      unfold descend at reached
      split at reached
      · split at reached
        next => simp at reached
        next entries =>
          refine ih ?_ (fun node member => aboveHolds node (List.mem_of_mem_tail member)) reached
          cases above with
          | nil => exact holds
          | cons parent rest => exact aboveHolds parent List.mem_cons_self
      · split at reached
        next next entered =>
          refine ih ?_ (List.forall_mem_cons.mpr ⟨holds, aboveHolds⟩) reached
          cases here with
          | file bytes accessible => simp [ entry?] at entered
          | directory entries =>
              simp only [ entry?] at entered
              split at entered
              next node got =>
                obtain rfl := Except.ok.inj entered
                exact inherited entries holds _ (Table.mem_of_get? got)
              next => simp at entered
        next => simp at reached

theorem mem_sortNamed {α : Type} {entry : Text × α} {entries : List (Text × α)} :
    entry ∈ sortNamed entries ↔ entry ∈ entries :=
  mem_sortBy

def Below (parts : List Text) : Prop :=
  parts ≠ [] ∧ ∀ name ∈ parts, isFileName name = true

variable {enters : Text → Bool}

mutual

theorem induct {P : Node → Prop} (leaf : ∀ bytes accessible, P (file bytes accessible))
    (inner : ∀ entries : List (Text × Node), (∀ entry ∈ entries, P entry.2) →
      P (directory entries)) : ∀ node, P node
  | file bytes accessible => leaf bytes accessible
  | directory entries => inner entries (inductEntries leaf inner entries)

theorem inductEntries {P : Node → Prop} (leaf : ∀ bytes accessible, P (file bytes accessible))
    (inner : ∀ entries : List (Text × Node), (∀ entry ∈ entries, P entry.2) →
      P (directory entries)) : ∀ entries : List (Text × Node), ∀ entry ∈ entries, P entry.2
  | [] => by simp
  | (name, node) :: later => by
      intro entry member
      rcases List.mem_cons.mp member with rfl | member
      · exact induct leaf inner node
      · exact inductEntries leaf inner later entry member

end

def HasFile (node : Node) (parts : List Text) : Prop :=
  ∃ bytes, (parts, bytes) ∈ node.files

theorem hasFile_file {bytes : List UInt8} {accessible : Bool} {parts : List Text} :
    (file bytes accessible).HasFile parts ↔ parts = [] := by
  simp [HasFile, files]

theorem hasFile_directory {entries : List (Text × Node)} {parts : List Text} :
    (directory entries).HasFile parts ↔
      ∃ entry ∈ entries, ∃ rest, parts = entry.1 :: rest ∧ entry.2.HasFile rest := by
  have each : filesOf entries = entries.flatMap fun entry =>
      entry.2.files.map fun file => (entry.1 :: file.1, file.2) := by
    induction entries with
    | nil => rfl
    | cons entry later ih => rw [filesOf, ih, List.flatMap_cons]
  rw [HasFile, files, each]
  simp only [List.mem_flatMap, List.mem_map, Prod.mk.injEq, HasFile]
  constructor
  · rintro ⟨bytes, entry, member, ⟨rest, content⟩, present, rfl, rfl⟩
    exact ⟨entry, member, rest, rfl, content, present⟩
  · rintro ⟨entry, member, rest, rfl, bytes, present⟩
    exact ⟨bytes, entry, member, (rest, bytes), present, rfl, rfl⟩

theorem walkEntries_eq (entries : List (Text × Node)) :
    walkEntries enters entries =
      (entries.filter fun entry => !entry.2.isFile && enters entry.1).map fun entry =>
        (entry.1, entry.2.walk enters) := by
  induction entries with
  | nil => rfl
  | cons entry later ih =>
      rw [walkEntries, List.filter_cons, ih]
      split <;> rfl

theorem mem_fileNames {entries : List (Text × Node)} {name : Text} :
    name ∈ fileNames entries ↔ ∃ entry ∈ entries, entry.2.isFile = true ∧ entry.1 = name := by
  simp only [fileNames, List.mem_map, List.mem_filter, and_assoc]

theorem mem_walk_directory {entries : List (Text × Node)} {parts : List Text} :
    parts ∈ (directory entries).walk enters ↔ ∃ entry ∈ entries,
      entry.2.isFile = true ∧ parts = [entry.1] ∨
      (entry.2.isFile = false ∧ enters entry.1 = true) ∧
        ∃ rest ∈ entry.2.walk enters, parts = entry.1 :: rest := by
  rw [walk, List.mem_append, walkEntries_eq]
  simp only [List.mem_map, mem_sorted, mem_fileNames, List.mem_flatMap, mem_sortNamed,
    List.mem_filter, Bool.and_eq_true, Bool.not_eq_true']
  constructor
  · rintro (⟨_, ⟨entry, member, isFile, rfl⟩, rfl⟩ |
      ⟨_, ⟨entry, ⟨member, entered⟩, rfl⟩, rest, walked, rfl⟩)
    · exact ⟨entry, member, Or.inl ⟨isFile, rfl⟩⟩
    · exact ⟨entry, member, Or.inr ⟨entered, rest, walked, rfl⟩⟩
  · rintro ⟨entry, member, ⟨isFile, rfl⟩ | ⟨entered, rest, walked, rfl⟩⟩
    · exact Or.inl ⟨_, ⟨entry, member, isFile, rfl⟩, rfl⟩
    · exact Or.inr ⟨_, ⟨entry, ⟨member, entered⟩, rfl⟩, rest, walked, rfl⟩

theorem hasFile_nil_iff {node : Node} : node.HasFile [] ↔ node.isFile = true := by
  cases node with
  | file bytes accessible => simp [hasFile_file, isFile]
  | directory entries => simp [hasFile_directory, isFile]

theorem HasFile.eq_nil {node : Node} {parts : List Text} (found : node.HasFile parts)
    (leaf : node.isFile = true) : parts = [] := by
  cases node with
  | file bytes accessible => exact hasFile_file.mp found
  | directory entries => simp [isFile] at leaf

/-- A walk visits the files that it reaches through directories whose names it enters. -/
theorem mem_walk {node : Node} {parts : List Text} :
    parts ∈ node.walk enters ↔
      parts ≠ [] ∧ node.HasFile parts ∧ ∀ name ∈ parts.dropLast, enters name = true := by
  induction node using induct generalizing parts with
  | leaf bytes =>
      rw [walk, hasFile_file]
      simp only [List.not_mem_nil, false_iff]
      rintro ⟨some, none, -⟩
      exact some none
  | inner entries ih =>
      rw [mem_walk_directory, hasFile_directory]
      constructor
      · rintro ⟨entry, member, ⟨leaf, rfl⟩ | ⟨⟨-, entered⟩, rest, walked, rfl⟩⟩
        · exact ⟨by simp, ⟨entry, member, [], rfl, hasFile_nil_iff.mpr leaf⟩, by simp⟩
        · obtain ⟨some, present, enteredBelow⟩ := (ih entry member).mp walked
          refine ⟨List.cons_ne_nil _ _, ⟨entry, member, rest, rfl, present⟩, ?_⟩
          rw [List.dropLast_cons_of_ne_nil some]
          exact List.forall_mem_cons.mpr ⟨entered, enteredBelow⟩
      · rintro ⟨-, ⟨entry, member, rest, rfl, present⟩, entered⟩
        refine ⟨entry, member, ?_⟩
        by_cases leaf : entry.2.isFile = true
        · exact Or.inl ⟨leaf, by rw [present.eq_nil leaf]⟩
        · have some : rest ≠ [] := by
            rintro rfl
            exact leaf (hasFile_nil_iff.mp present)
          rw [List.dropLast_cons_of_ne_nil some, List.forall_mem_cons] at entered
          have walked := (ih entry member).mpr ⟨some, present, entered.2⟩
          exact Or.inr ⟨⟨by simpa using leaf, entered.1⟩, rest, walked, rfl⟩

theorem isFileName_of_hasFile {node : Node} (proper : node.isProper = true) {parts : List Text}
    (found : node.HasFile parts) : ∀ name ∈ parts, isFileName name = true := by
  induction node using induct generalizing parts with
  | leaf bytes => simp [hasFile_file.mp found]
  | inner entries ih =>
      rw [isProper, properEntries_iff] at proper
      obtain ⟨entry, member, rest, rfl, present⟩ := hasFile_directory.mp found
      obtain ⟨named, properBelow⟩ := proper entry member
      exact List.forall_mem_cons.mpr ⟨named, ih entry member properBelow present⟩

theorem below_of_mem_walk {node : Node} (proper : node.isProper = true) {parts : List Text}
    (walked : parts ∈ node.walk enters) : Below parts :=
  have found := mem_walk.mp walked
  ⟨found.1, isFileName_of_hasFile proper found.2.1⟩

end Node

namespace Path

theorem follow_append (reversed front back : List Text) :
    follow reversed (front ++ back) = follow (follow reversed front).reverse back := by
  induction front generalizing reversed with
  | nil => simp [follow]
  | cons part front ih =>
      rw [List.cons_append, follow, follow]
      split
      · exact ih reversed.tail
      · exact ih (part :: reversed)

theorem follow_names {parts : List Text} (plain : ∀ part ∈ parts, part ≠ ['.', '.'])
    (reversed : List Text) : follow reversed parts = reversed.reverse ++ parts := by
  induction parts generalizing reversed with
  | nil => simp [follow]
  | cons part later ih =>
      have here : part ≠ ['.', '.'] := plain part List.mem_cons_self
      rw [follow, if_neg (by simpa using here),
        ih fun other member => plain other (List.mem_cons_of_mem _ member)]
      simp

theorem resolve_below (currentDir : List Text) (path : Path) {parts : List Text}
    (below : Node.Below parts) :
    resolve currentDir { path with parts := path.parts ++ parts } =
      path.resolve currentDir ++ parts := by
  have plain : ∀ part ∈ parts, part ≠ ['.', '.'] := fun part member =>
    ne_above (below.2 part member)
  simp only [resolve]
  split <;> rw [follow_append, follow_names plain, List.reverse_reverse]

end Path

namespace FileTree

variable {tree : FileTree} {path : Path} {node : Node}

theorem descend_of_find (found : tree.find path = .ok node) :
    path.hasNull = false ∧ ∃ parts, tree.root.descend [] parts = .ok node := by
  unfold find at found
  simp only at found
  split at found
  next => simp at found
  next usable =>
    split at found
    next => simp at found
    next => exact ⟨by simpa using usable, _, found⟩

theorem isProper_of_find (proper : tree.root.isProper = true) (found : tree.find path = .ok node) :
    node.isProper = true := by
  obtain ⟨-, parts, reached⟩ := descend_of_find found
  refine Node.of_descend (P := fun node => node.isProper = true) ?_ proper (by simp) reached
  intro entries holds entry member
  rw [Node.isProper, Node.properEntries_iff] at holds
  exact (holds entry member).2

end FileTree

theorem mem_sourcePaths {tree : FileTree} (proper : tree.root.isProper = true)
    {config : ScanConfig} {root : Option Path} {place : Path} {files : List Path}
    (visited : sourcePaths tree config root [place] = .ok files) :
    (∀ file ∈ files, file = place) ∨
      ∀ file ∈ files, ∃ parts, Node.Below parts ∧
        file = { place with parts := place.parts ++ parts } := by
  have expanded : expandPath tree config root place = .ok files := by
    cases found : expandPath tree config root place with
    | error error => simp [sourcePaths, found, bind, Except.bind] at visited
    | ok list => simpa [sourcePaths, found, bind, Except.bind] using visited
  unfold expandPath at expanded
  split at expanded
  next entries found =>
    refine Or.inr ?_
    obtain rfl := Except.ok.inj expanded
    have reached := FileTree.isProper_of_find proper found
    intro file member
    obtain ⟨parts, walked, rfl⟩ := List.mem_map.mp (List.mem_filter.mp member).1
    exact ⟨parts, Node.below_of_mem_walk reached walked, rfl⟩
  next => simp at expanded
  next =>
    refine Or.inl ?_
    obtain rfl := Except.ok.inj expanded
    intro file member
    split at member
    · simp at member
    · exact List.mem_singleton.mp member

theorem eq_of_uri_eq {tree : FileTree} (proper : tree.root.isProper = true)
    {config : ScanConfig} {root : Option Path} {place : Path} {files : List Path}
    (visited : sourcePaths tree config root [place] = .ok files) {left right : Path}
    (leftListed : left ∈ files) (rightListed : right ∈ files)
    (same : Uri.ofParts (left.resolve tree.currentDir) =
      Uri.ofParts (right.resolve tree.currentDir)) : left = right := by
  rcases mem_sourcePaths proper visited with single | below
  · rw [single left leftListed, single right rightListed]
  · obtain ⟨leftParts, leftBelow, rfl⟩ := below left leftListed
    obtain ⟨rightParts, rightBelow, rfl⟩ := below right rightListed
    rw [Path.resolve_below _ _ leftBelow, Path.resolve_below _ _ rightBelow] at same
    have parts : leftParts = rightParts :=
      Uri.ofParts_append_injective _ leftBelow.1 rightBelow.1
        (fun name member => slash_not_mem (leftBelow.2 name member))
        (fun name member => slash_not_mem (rightBelow.2 name member)) same
    rw [parts]

end HardcodedText
