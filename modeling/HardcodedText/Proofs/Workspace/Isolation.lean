import HardcodedText.Proofs.Workspace.Order

/-!
Scans of several paths. What a scan reports about a file depends on that file alone, so scanning two
lists of paths one behind the other gives the reports of both. A file that cannot be read is one
failure; only a given path that is too long to be looked up, or that no file can have, stops a scan.
-/

namespace HardcodedText

namespace Node

theorem entry?_ne_embeddedNull {node : Node} {name : Text} :
    node.entry? name ≠ .error .embeddedNull := by
  cases node with
  | file bytes accessible => simp [ entry?]
  | directory entries =>
      simp only [ entry?]
      split
      · simp
      · split <;> simp

theorem descend_ne_embeddedNull {above : List Node} {here : Node} {parts : List Text} :
    descend above here parts ≠ .error .embeddedNull := by
  induction parts generalizing above here with
  | nil => simp [descend]
  | cons part later ih =>
      unfold descend
      split
      · split
        · simp
        · exact ih
      · split
        · exact ih
        next fault failed =>
          intro same
          rw [Except.error.inj same] at failed
          exact entry?_ne_embeddedNull failed

end Node

namespace FileTree

variable {tree : FileTree} {detector : Detector} {path : Path}

theorem find_eq_embeddedNull_iff :
    tree.find path = .error .embeddedNull ↔ path.hasNull = true := by
  unfold find
  simp only
  split
  next null => simp [null]
  next usable =>
    refine iff_of_false ?_ usable
    split
    · simp
    · exact Node.descend_ne_embeddedNull

theorem readText_of_null (null : path.hasNull = true) :
    tree.readText path = .error (.file ⟨.embeddedNull, path⟩) := by
  rw [readText, readBytes, find_eq_embeddedNull_iff.mpr null]

theorem concernsFile_of_readText (usable : path.hasNull = false) {error : ReadError}
    (failed : tree.readText path = .error error) : error.concernsFile = true := by
  rw [readText, readBytes] at failed
  cases found : tree.find path with
  | error fault =>
      simp only [found, Except.error.injEq] at failed
      have other : fault ≠ .embeddedNull := by
        rintro rfl
        rw [find_eq_embeddedNull_iff.mp found] at usable
        exact absurd usable (by decide)
      simpa [← failed, ReadError.concernsFile] using other
  | ok node =>
      cases node with
      | directory entries =>
          simp only [found, Except.error.injEq] at failed
          rw [← failed]
          rfl
      | file bytes accessible =>
          cases accessible with
          | false =>
              simp only [found, Except.error.injEq] at failed
              rw [← failed]
              rfl
          | true =>
              simp only [found] at failed
              cases decoded : Utf8.readText bytes with
              | ok text => simp [decoded, Except.mapError] at failed
              | error undecodable =>
                  simp only [decoded, Except.mapError, Except.error.injEq] at failed
                  rw [← failed]
                  rfl

def fileScan? (tree : FileTree) (detector : Detector) (path : Path) : Option FileScan :=
  match tree.readText path with
  | .error _ => none
  | .ok text =>
      match findHardcoded text detector.catalog detector.tables with
      | [] => none
      | found => some ⟨path, found⟩

def readFailure? (tree : FileTree) (path : Path) : Option ReadFailure :=
  match tree.readText path with
  | .error error => some ⟨path, error⟩
  | .ok _ => none

theorem fileScan?_eq_some_iff {scan : FileScan} :
    tree.fileScan? detector path = some scan ↔ scan.path = path ∧ scan.found ≠ [] ∧
      ∃ text, tree.readText path = .ok text ∧
        scan.found = findHardcoded text detector.catalog detector.tables := by
  rw [fileScan?]
  split
  next error unread => simp [unread]
  next text read =>
    simp only [read, Except.ok.injEq, exists_eq_left']
    split
    next none =>
      refine iff_of_false (by simp) ?_
      rintro ⟨-, some, same⟩
      exact some (same.trans none)
    next found =>
      constructor
      · intro reported
        obtain rfl := Option.some.inj reported
        exact ⟨rfl, found, rfl⟩
      · rintro ⟨rfl, -, same⟩
        rw [← same]

theorem path_of_readFailure? {failure : ReadFailure}
    (reported : tree.readFailure? path = some failure) : failure.path = path := by
  rw [readFailure?] at reported
  split at reported
  · obtain rfl := Option.some.inj reported
    rfl
  · simp at reported

theorem isSome_readFailure? :
    (tree.readFailure? path).isSome = true ↔ ¬ (tree.readText path).isOk = true := by
  rw [readFailure?]
  cases tree.readText path <;> simp [Except.isOk, Except.toBool]

def tally (tree : FileTree) (detector : Detector) (files : List Path) : WorkspaceScan where
  files := files.filterMap (tree.fileScan? detector)
  failures := files.filterMap tree.readFailure?
  scanned := files.countP fun path => (tree.readText path).isOk

theorem tally_append (front back : List Path) :
    tree.tally detector (front ++ back) =
      (tree.tally detector front).append (tree.tally detector back) := by
  simp only [tally, WorkspaceScan.append, List.filterMap_append, List.countP_append]

theorem scanned_add_failures (files : List Path) :
    (tree.tally detector files).scanned + (tree.tally detector files).failures.length =
      files.length := by
  simp only [tally, List.length_filterMap_eq_countP]
  rw [List.length_eq_countP_add_countP fun path => (tree.readText path).isOk]
  congr 1
  apply List.countP_congr
  intro path _
  rw [isSome_readFailure?, decide_eq_true_eq]

theorem length_files_le_scanned (files : List Path) :
    (tree.tally detector files).files.length ≤ (tree.tally detector files).scanned := by
  simp only [tally, List.length_filterMap_eq_countP]
  apply List.countP_mono_left
  intro path _ found
  obtain ⟨scan, reported⟩ := Option.isSome_iff_exists.mp found
  obtain ⟨-, -, text, read, -⟩ := fileScan?_eq_some_iff.mp reported
  rw [read]
  rfl

/-- What happens to one file changes no report about another. -/
theorem tally_elsewhere {other : FileTree} {changed : Path}
    (same : ∀ file, file ≠ changed → other.readText file = tree.readText file)
    (files : List Path) :
    ((other.tally detector files).files.filter fun scan => scan.path ≠ changed) =
        (tree.tally detector files).files.filter (fun scan => scan.path ≠ changed) ∧
      ((other.tally detector files).failures.filter fun failure => failure.path ≠ changed) =
        (tree.tally detector files).failures.filter fun failure => failure.path ≠ changed := by
  simp only [tally, List.filter_filterMap]
  constructor
  · apply List.filterMap_congr
    intro file _
    by_cases own : file = changed
    · have silent (tree : FileTree) :
          (tree.fileScan? detector file).filter (fun scan => scan.path ≠ changed) = none := by
        rw [Option.filter_eq_none_iff]
        intro scan reported
        simpa using (fileScan?_eq_some_iff.mp reported).1.trans own
      rw [silent, silent]
    · rw [fileScan?, same file own]
      rfl
  · apply List.filterMap_congr
    intro file _
    by_cases own : file = changed
    · have silent (tree : FileTree) :
          (tree.readFailure? file).filter (fun failure => failure.path ≠ changed) = none := by
        rw [Option.filter_eq_none_iff]
        intro failure reported
        simpa using (path_of_readFailure? reported).trans own
      rw [silent, silent]
    · rw [readFailure?, same file own]
      rfl

end FileTree

theorem bind_eq_ok_iff {ε α β : Type} {first : Except ε α} {next : α → Except ε β} {result : β} :
    (first >>= next) = .ok result ↔ ∃ value, first = .ok value ∧ next value = .ok result := by
  cases first with
  | error error => simp [bind, Except.bind]
  | ok value => simp [bind, Except.bind]

theorem mapError_eq_ok_iff {ε ε' α : Type} {first : Except ε α} {change : ε → ε'} {result : α} :
    first.mapError change = .ok result ↔ first = .ok result := by
  cases first <;> simp [Except.mapError]

section Scan

variable {tree : FileTree} {detector : Detector} {config : ScanConfig} {root : Option Path}

theorem scanFile_eq_ok_iff {path : Path} {result : WorkspaceScan} :
    scanFile tree detector path = .ok result ↔
      path.hasNull = false ∧ result = tree.tally detector [path] := by
  by_cases null : path.hasNull = true
  · rw [scanFile, FileTree.readText_of_null null]
    simp [ReadError.concernsFile, null]
  · have usable : path.hasNull = false := by simpa using null
    rw [scanFile, FileTree.tally, List.filterMap_cons, List.filterMap_cons, List.countP_singleton,
      FileTree.fileScan?, FileTree.readFailure?]
    cases read : tree.readText path with
    | error error =>
        simp [FileTree.concernsFile_of_readText usable read, usable, eq_comm, Except.isOk,
          Except.toBool]
    | ok text =>
        simp only [scanText]
        cases findHardcoded text detector.catalog detector.tables <;>
          simp [usable, eq_comm, Except.isOk, Except.toBool]

theorem scanFiles_eq_ok_iff {files : List Path} {result : WorkspaceScan} :
    scanFiles tree detector files = .ok result ↔
      (∀ file ∈ files, file.hasNull = false) ∧ result = tree.tally detector files := by
  induction files generalizing result with
  | nil =>
      rw [scanFiles, Except.ok.injEq]
      simp only [List.not_mem_nil, false_implies, implies_true, true_and]
      exact eq_comm
  | cons file later ih =>
      rw [scanFiles, bind_eq_ok_iff, ← List.singleton_append, FileTree.tally_append,
        List.singleton_append, List.forall_mem_cons]
      simp only [bind_eq_ok_iff, scanFile_eq_ok_iff, ih, Except.ok.injEq]
      constructor
      · rintro ⟨first, ⟨usable, rfl⟩, others, ⟨usableLater, rfl⟩, rfl⟩
        exact ⟨⟨usable, usableLater⟩, rfl⟩
      · rintro ⟨⟨usable, usableLater⟩, rfl⟩
        exact ⟨_, ⟨usable, rfl⟩, _, ⟨usableLater, rfl⟩, rfl⟩

theorem scanPaths_eq_ok_iff {paths : List Path} {result : WorkspaceScan} :
    scanPaths tree config root detector paths = .ok result ↔
      ∃ files, sourcePaths tree config root paths = .ok files ∧
        (∀ file ∈ files, file.hasNull = false) ∧ result = tree.tally detector files := by
  rw [scanPaths, bind_eq_ok_iff]
  simp only [mapError_eq_ok_iff, scanFiles_eq_ok_iff]

theorem sourcePaths_cons_eq_ok_iff {path : Path} {later files : List Path} :
    sourcePaths tree config root (path :: later) = .ok files ↔
      ∃ own others, expandPath tree config root path = .ok own ∧
        sourcePaths tree config root later = .ok others ∧ files = own ++ others := by
  rw [sourcePaths, bind_eq_ok_iff]
  simp only [bind_eq_ok_iff, Except.ok.injEq]
  constructor
  · rintro ⟨own, expanded, others, visited, rfl⟩
    exact ⟨own, others, expanded, visited, rfl⟩
  · rintro ⟨own, others, expanded, visited, rfl⟩
    exact ⟨own, expanded, others, visited, rfl⟩

theorem sourcePaths_append {first second front back : List Path}
    (visited : sourcePaths tree config root first = .ok front)
    (visitedToo : sourcePaths tree config root second = .ok back) :
    sourcePaths tree config root (first ++ second) = .ok (front ++ back) := by
  induction first generalizing front with
  | nil =>
      obtain rfl := Except.ok.inj visited
      exact visitedToo
  | cons path later ih =>
      obtain ⟨own, others, expanded, visitedLater, rfl⟩ := sourcePaths_cons_eq_ok_iff.mp visited
      rw [List.cons_append, List.append_assoc]
      exact sourcePaths_cons_eq_ok_iff.mpr ⟨own, _, expanded, ih visitedLater, rfl⟩

/-- A given path lets a scan go on: it is not too long to be looked up, and it is one that a file
can have unless it is ignored. -/
def ScanConfig.Admits (config : ScanConfig) (tree : FileTree) (root : Option Path)
    (path : Path) : Prop :=
  tree.find path ≠ .error .nameTooLong ∧
    (path.hasNull = true → config.isIgnoredPath tree.currentDir root path = true)

theorem admits_iff (proper : tree.root.isProper = true) {path : Path} :
    config.Admits tree root path ↔ ∃ files, expandPath tree config root path = .ok files ∧
      ∀ file ∈ files, file.hasNull = false := by
  rw [ScanConfig.Admits, expandPath]
  split
  next entries found =>
    obtain ⟨usable, -⟩ := FileTree.descend_of_find found
    have named := FileTree.isProper_of_find proper found
    have admitted : (tree.find path ≠ .error .nameTooLong) ∧
        (path.hasNull = true → config.isIgnoredPath tree.currentDir root path = true) := by
      simp [found, usable]
    refine iff_of_true admitted ⟨_, rfl, ?_⟩
    intro file member
    obtain ⟨parts, walked, rfl⟩ := List.mem_map.mp (List.mem_filter.mp member).1
    exact Path.hasNull_extend usable (Node.below_of_mem_walk named walked)
  next tooLong => simp [tooLong]
  next _ notTooLong =>
    rw [and_iff_right notTooLong]
    cases config.isIgnoredPath tree.currentDir root path <;> simp

theorem exists_scanPaths_iff (proper : tree.root.isProper = true) {paths : List Path} :
    (∃ result, scanPaths tree config root detector paths = .ok result) ↔
      ∀ path ∈ paths, config.Admits tree root path := by
  have listed : (∃ result, scanPaths tree config root detector paths = .ok result) ↔
      ∃ files, sourcePaths tree config root paths = .ok files ∧
        ∀ file ∈ files, file.hasNull = false := by
    simp only [scanPaths_eq_ok_iff]
    constructor
    · rintro ⟨result, files, visited, usable, -⟩
      exact ⟨files, visited, usable⟩
    · rintro ⟨files, visited, usable⟩
      exact ⟨_, files, visited, usable, rfl⟩
  rw [listed]
  clear listed
  induction paths with
  | nil => simp [sourcePaths]
  | cons path later ih =>
      rw [List.forall_mem_cons, admits_iff proper]
      simp only [sourcePaths_cons_eq_ok_iff, ← ih]
      constructor
      · rintro ⟨_, ⟨own, others, expanded, visited, rfl⟩, usable⟩
        rw [List.forall_mem_append] at usable
        exact ⟨⟨own, expanded, usable.1⟩, others, visited, usable.2⟩
      · rintro ⟨⟨own, expanded, usable⟩, others, visited, usableLater⟩
        exact ⟨_, ⟨own, others, expanded, visited, rfl⟩,
          List.forall_mem_append.mpr ⟨usable, usableLater⟩⟩

theorem matchCount_eq (scan : WorkspaceScan) :
    scan.matchCount = (scan.files.flatMap FileScan.found).length := by
  have counted (files : List FileScan) (count : Nat) :
      files.foldl (fun count file => count + file.found.length) count =
        count + (files.flatMap FileScan.found).length := by
    induction files generalizing count with
    | nil => rfl
    | cons file later ih =>
        rw [List.foldl_cons, ih, List.flatMap_cons, List.length_append]
        omega
  rw [WorkspaceScan.matchCount, counted, Nat.zero_add]

/-- A scan returns exactly if no given path stops it. Then it reports on each visited file by
itself: the reports of two lists of paths are put one behind the other, every visited file is
counted once, as read or as failed, and what happens to one file changes no report about another.
The response shows the matches in the order of the files and counts them. -/
theorem scan_reports_each_file (tree : FileTree) (proper : tree.root.isProper = true)
    (config : ScanConfig) (root : Option Path) (detector : Detector) :
    (∀ paths, (∃ result, scanPaths tree config root detector paths = .ok result) ↔
      ∀ path ∈ paths, config.Admits tree root path) ∧
    (∀ first second front back, scanPaths tree config root detector first = .ok front →
      scanPaths tree config root detector second = .ok back →
        scanPaths tree config root detector (first ++ second) =
          .ok { files := front.files ++ back.files
                failures := front.failures ++ back.failures
                scanned := front.scanned + back.scanned }) ∧
    (∀ paths result, scanPaths tree config root detector paths = .ok result →
      (∃ files, sourcePaths tree config root paths = .ok files ∧
        result.scanned + result.failures.length = files.length ∧
        result.files = files.filterMap (tree.fileScan? detector) ∧
        result.failures = files.filterMap tree.readFailure?) ∧
      (∀ file ∈ result.files, file.found ≠ []) ∧
      ∀ shownRoot,
        let response := buildResponse tree.currentDir shownRoot result
        response.found = (result.files.flatMap fun file => file.found.map fun found =>
          ⟨displayPath tree.currentDir shownRoot file.path, found⟩) ∧
        response.stats.matchCount = result.matchCount ∧
        response.stats.failureCount = result.failures.length ∧
        response.stats.filesWithMatches = result.files.length ∧
        response.stats.filesScanned = result.scanned ∧
        result.files.length ≤ result.scanned) ∧
    ∀ (other : FileTree) (paths files : List Path) (changed : Path) (result after : WorkspaceScan),
      sourcePaths tree config root paths = .ok files →
      sourcePaths other config root paths = .ok files →
      (∀ file, file ≠ changed → other.readText file = tree.readText file) →
      scanPaths tree config root detector paths = .ok result →
      scanPaths other config root detector paths = .ok after →
        (after.files.filter fun scan => scan.path ≠ changed) =
            result.files.filter (fun scan => scan.path ≠ changed) ∧
          (after.failures.filter fun failure => failure.path ≠ changed) =
            result.failures.filter fun failure => failure.path ≠ changed := by
  refine ⟨fun paths => exists_scanPaths_iff proper, ?_, ?_, ?_⟩
  · intro first second front back firstScanned secondScanned
    obtain ⟨files, visited, usable, rfl⟩ := scanPaths_eq_ok_iff.mp firstScanned
    obtain ⟨more, visitedToo, usableToo, rfl⟩ := scanPaths_eq_ok_iff.mp secondScanned
    refine scanPaths_eq_ok_iff.mpr ⟨files ++ more, sourcePaths_append visited visitedToo, ?_, ?_⟩
    · exact List.forall_mem_append.mpr ⟨usable, usableToo⟩
    · rw [FileTree.tally_append]
      rfl
  · intro paths result scanned
    obtain ⟨files, visited, usable, rfl⟩ := scanPaths_eq_ok_iff.mp scanned
    refine ⟨⟨files, visited, FileTree.scanned_add_failures files, rfl, rfl⟩, ?_, ?_⟩
    · intro file member
      obtain ⟨path, -, reported⟩ := List.mem_filterMap.mp member
      exact (FileTree.fileScan?_eq_some_iff.mp reported).2.1
    · intro shownRoot response
      have shown : response.found.length =
          ((tree.tally detector files).files.flatMap FileScan.found).length := by
        simp only [response, buildResponse, List.length_flatMap, List.length_map]
      refine ⟨rfl, ?_, ?_, rfl, rfl, FileTree.length_files_le_scanned files⟩
      · rw [matchCount_eq, ← shown]
        rfl
      · simp only [response, buildResponse, List.length_map]
  · intro other paths files changed result after visited otherVisited same scanned otherScanned
    obtain ⟨_, listed, -, rfl⟩ := scanPaths_eq_ok_iff.mp scanned
    obtain ⟨_, otherListed, -, rfl⟩ := scanPaths_eq_ok_iff.mp otherScanned
    obtain rfl := Except.ok.inj (visited.symm.trans listed)
    obtain rfl := Except.ok.inj (otherVisited.symm.trans otherListed)
    exact FileTree.tally_elsewhere same files

end Scan

theorem scan_reports_each_file_beside_unreadable :
    let bytes (text : Text) : List UInt8 := text.map fun c => UInt8.ofNat c.toNat
    let tree : FileTree := ⟨.directory [("bad.dart".toList, .file [0xff, 0xfe]),
      ("good.dart".toList, .file (bytes "Text('Save it')".toList)),
      ("locked.dart".toList, .file (bytes "Text('Save it')".toList) false)], []⟩
    let pathOf (name : String) : Path := ⟨.relative, [name.toList]⟩
    let paths :=
      [pathOf "bad.dart", pathOf "good.dart", pathOf "locked.dart", pathOf "missing.dart"]
    tree.root.isProper = true ∧ (∀ path ∈ paths, ({} : ScanConfig).Admits tree none path) ∧
      ∃ result, scanPaths tree {} none {} paths = .ok result ∧
        result.files.map FileScan.path = [pathOf "good.dart"] ∧
        result.failures.map ReadFailure.path =
          [pathOf "bad.dart", pathOf "locked.dart", pathOf "missing.dart"] ∧
        result.scanned = 1 := by
  intro bytes tree pathOf paths
  have proper : tree.root.isProper = true := by decide
  have present {path : Path} {node : Node} (found : tree.find path = .ok node) :
      ({} : ScanConfig).Admits tree none path :=
    ⟨by simp [found], by simp [(FileTree.descend_of_find found).1]⟩
  have missing : tree.find (pathOf "missing.dart") = .error .notFound := by rfl
  have admitted : ∀ path ∈ paths, ({} : ScanConfig).Admits tree none path := by
    simp only [paths, List.forall_mem_cons]
    exact ⟨present rfl, present rfl, present rfl, ⟨by rw [missing]; simp, by decide⟩, by simp⟩
  obtain ⟨returns, -, reports, -⟩ := scan_reports_each_file tree proper {} none {}
  obtain ⟨result, scanned⟩ := (returns paths).mpr admitted
  obtain ⟨⟨files, visited, counted, found, failed⟩, -⟩ := reports paths result scanned
  have listed : sourcePaths tree {} none paths = .ok paths := by rfl
  obtain rfl : paths = files := Except.ok.inj (listed.symm.trans visited)
  have failures : result.failures.map ReadFailure.path =
      [pathOf "bad.dart", pathOf "locked.dart", pathOf "missing.dart"] := by
    rw [failed]
    decide +kernel
  refine ⟨proper, admitted, result, scanned, ?_, failures, ?_⟩
  · rw [found]
    decide +kernel
  · have lengths := congrArg List.length failures
    simp only [List.length_map, List.length_cons, List.length_nil] at lengths
    have total : paths.length = 4 := rfl
    omega

/-- A given path whose name is too long stops the scan, although its error is one of the file. -/
theorem long_name_stops_scan :
    let content : List UInt8 := "Text('Save it')".toList.map fun c => UInt8.ofNat c.toNat
    let tree : FileTree := ⟨.directory [("b.dart".toList, .file content)], []⟩
    let long : Path := ⟨.relative, [List.replicate 256 'a']⟩
    let short : Path := ⟨.relative, ["b.dart".toList]⟩
    ∃ error, tree.readText long = .error error ∧ error.concernsFile = true ∧
      scanPaths tree {} none {} [long, short] = .error error ∧
      (scanPaths tree {} none {} [short]).isOk = true := by
  intro content tree long short
  exact ⟨.file ⟨.nameTooLong, long⟩, by decide +kernel, by decide, by decide +kernel,
    by decide +kernel⟩

end HardcodedText
