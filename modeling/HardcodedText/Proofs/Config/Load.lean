import HardcodedText.CommandLine.Run
import HardcodedText.Proofs.Utf8
import HardcodedText.Proofs.Workspace.Isolation
import HardcodedText.Session.Basic

/-!
What a configuration file loads as. UTF-8 text loads as the table that it says, and as the empty
table if it is no document; a file that is not there, or that cannot be opened, is an empty table
too. Bytes that are no UTF-8 are an error, which nothing behind the loading takes back.
-/

namespace HardcodedText

theorem Utf8.readText_eq_ok_iff {bytes : List UInt8} {text : Text} :
    readText bytes = .ok text ↔
      ∃ written, bytes = encode written ∧ text = unifyLineEnds written := by
  simp only [readText, ← decode_eq_ok_iff]
  cases decode bytes with
  | error error => simp [Except.map]
  | ok written => simp [Except.map, eq_comm]

section Load

variable {tree : FileTree} {root configPath : Option Path} {bytes : List UInt8}

theorem loadConfig_eq_ok_iff (read : tree.readBytes (configPlace root configPath) = .ok bytes)
    {config : Table Value} :
    loadConfig tree root configPath = .ok config ↔ ∃ text, bytes = Utf8.encode text ∧
      config = (Toml.parse (Utf8.unifyLineEnds text)).getD [] := by
  simp only [loadConfig, FileTree.readText, read]
  cases decoded : Utf8.readText bytes with
  | ok text =>
      obtain ⟨written, rfl, rfl⟩ := Utf8.readText_eq_ok_iff.mp decoded
      simp only [Except.mapError, Except.ok.injEq]
      constructor
      · rintro rfl
        exact ⟨written, rfl, rfl⟩
      · rintro ⟨other, same, rfl⟩
        rw [Utf8.encode_injective same]
  | error error =>
      simp only [Except.mapError, reduceCtorEq, false_iff, not_exists, not_and]
      intro written same
      rw [Utf8.readText_eq_ok_iff.mpr ⟨written, same, rfl⟩] at decoded
      simp at decoded

theorem loadConfig_of_unreadable (usable : (configPlace root configPath).hasNull = false)
    (unreadable : ∀ bytes, tree.readBytes (configPlace root configPath) ≠ .ok bytes) :
    loadConfig tree root configPath = .ok [] := by
  cases read : tree.readBytes (configPlace root configPath) with
  | ok bytes => exact absurd read (unreadable bytes)
  | error error =>
      have failed : tree.readText (configPlace root configPath) = .error (.file error) := by
        rw [FileTree.readText, read]
      have ordinary := FileTree.concernsFile_of_readText usable failed
      have other : error.fault ≠ .embeddedNull := by
        simpa [ReadError.concernsFile] using ordinary
      rw [loadConfig, failed]
      simp only [if_neg other]

end Load

/-- Where there is no file to be read, the configuration is the empty table. A file loads exactly if
its bytes are UTF-8: as what the text says if it is a document, and as the empty table otherwise. If
it does not load, the error ends both commands with nothing written, and every request of an editor
for the settings of the project. -/
theorem loadConfig_returns_iff_utf8 [CharacterNames] (tree : FileTree)
    (root configPath : Option Path) :
    let place := configPlace root configPath
    (place.hasNull = false → (∀ bytes, tree.readBytes place ≠ .ok bytes) →
      loadConfig tree root configPath = .ok []) ∧
    (∀ bytes, tree.readBytes place = .ok bytes →
      (∀ config, loadConfig tree root configPath = .ok config ↔ ∃ text,
        bytes = Utf8.encode text ∧
          config = (Toml.parse (Utf8.unifyLineEnds text)).getD []) ∧
      ((∃ config, loadConfig tree root configPath = .ok config) ↔
        ∃ text, bytes = Utf8.encode text)) ∧
    ∀ error, loadConfig tree root configPath = .error error →
      (∀ options : ScanOptions, some options.root = root → options.config = configPath →
        CommandLine.runScan tree options = .aborted (.read error) tree) ∧
      (∀ options : ClassifyOptions, some options.root = root → options.config = configPath →
        CommandLine.runClassify tree options = .aborted (.read error) tree) ∧
      ∀ client session, client.tree = tree → client.root = root → configPath = none →
        projectSettings client session = (session, .error (.failed (.read error))) := by
  intro place
  refine ⟨loadConfig_of_unreadable, ?_, ?_⟩
  · intro bytes read
    refine ⟨fun config => loadConfig_eq_ok_iff read, ?_⟩
    simp only [loadConfig_eq_ok_iff read]
    constructor
    · rintro ⟨_, text, same, -⟩
      exact ⟨text, same⟩
    · rintro ⟨text, same⟩
      exact ⟨_, text, same, rfl⟩
  · intro error failed
    refine ⟨?_, ?_, ?_⟩
    · rintro options rfl rfl
      rw [CommandLine.runScan, failed]
    · rintro options rfl rfl
      rw [CommandLine.runClassify, failed]
    · rintro client session rfl rfl rfl
      rw [projectSettings, failed]

theorem loadConfig_returns_iff_utf8_malformed :
    let _ : CharacterNames := .latinAndGreek
    let here : Option Path := some ⟨.relative, []⟩
    let place := configPlace here none
    let malformed : Text := "# é\r\n[scan\r\n".toList
    let latin : List UInt8 := [0x23, 0x20, 0xe9]
    let treeOf (bytes : List UInt8) : FileTree :=
      ⟨.directory [("translate-me.toml".toList, .file bytes)], []⟩
    let empty : FileTree := ⟨.directory [], []⟩
    place.hasNull = false ∧ (∀ bytes, empty.readBytes place ≠ .ok bytes) ∧
      loadConfig empty here none = .ok [] ∧
      (treeOf (Utf8.encode malformed)).readBytes place = .ok (Utf8.encode malformed) ∧
      loadConfig (treeOf (Utf8.encode malformed)) here none = .ok [] ∧
      (treeOf latin).readBytes place = .ok latin ∧
      (¬ ∃ config, loadConfig (treeOf latin) here none = .ok config) ∧
      CommandLine.runScan (treeOf latin) {} =
        .aborted (.read (.decode ⟨0xe9, 2, 3, .unexpectedEnd⟩)) (treeOf latin) := by
  intro _ here place malformed latin treeOf empty
  have usable : place.hasNull = false := by decide
  have absent : ∀ bytes, empty.readBytes place ≠ .ok bytes := by
    intro bytes read
    have missing : empty.readBytes place = .error ⟨.notFound, place⟩ := by rfl
    rw [missing] at read
    simp at read
  have listed (bytes : List UInt8) : (treeOf bytes).readBytes place = .ok bytes := by rfl
  have refused : Toml.parse (Utf8.unifyLineEnds malformed) = none := by decide +kernel
  have undecodable : Utf8.decode latin = .error ⟨0xe9, 2, 3, .unexpectedEnd⟩ := by decide
  have fails : loadConfig (treeOf latin) here none =
      .error (.decode ⟨0xe9, 2, 3, .unexpectedEnd⟩) := by rfl
  obtain ⟨unread, -, -⟩ := loadConfig_returns_iff_utf8 empty here none
  obtain ⟨-, ofDocument, -⟩ :=
    loadConfig_returns_iff_utf8 (treeOf (Utf8.encode malformed)) here none
  obtain ⟨-, ofLatin, ends⟩ := loadConfig_returns_iff_utf8 (treeOf latin) here none
  refine ⟨usable, absent, unread usable absent, listed _, ?_, listed latin, ?_, ?_⟩
  · exact ((ofDocument _ (listed _)).1 []).mpr ⟨malformed, rfl, by rw [refused]; rfl⟩
  · rw [(ofLatin latin (listed latin)).2]
    rintro ⟨text, same⟩
    rw [Utf8.decode_eq_ok_iff.mpr same] at undecodable
    simp at undecodable
  · exact (ends _ fails).1 {} rfl rfl

/-- A configuration file of one byte that begins no character does not load. -/
theorem undecodable_configuration_fails :
    let tree : FileTree := ⟨.directory [("translate-me.toml".toList, .file [0xff])], []⟩
    tree.readBytes (configPlace none none) = .ok [0xff] ∧
      loadConfig tree none none = .error (.decode ⟨0xff, 0, 1, .invalidStart⟩) ∧
      ¬ ∃ config, loadConfig tree none none = .ok config := by
  intro tree
  have fails : loadConfig tree none none = .error (.decode ⟨0xff, 0, 1, .invalidStart⟩) := by rfl
  refine ⟨by rfl, fails, ?_⟩
  rintro ⟨config, loaded⟩
  rw [fails] at loaded
  simp at loaded

end HardcodedText
