/-
  StackCalc.Proofs.SavedSettings

  Settings that are written to a file are read back from it as they were, and nothing
  is remarked on them: every value has a text that stands for it in a document, and
  passes the check of its key.
-/

import StackCalc.Config.Settings
import StackCalc.Proofs.Documents
import StackCalc.Proofs.FileWrites

namespace StackCalc

open Toml

variable {settings : List (String × Setting.Value)}

/-! ## The text of settings -/

/-- The value of a setting in a document, if it has one. -/
def Setting.Value.stored? : Setting.Value → Option Toml.Value
  | truth b => some (.truth b)
  | integer n => some (.integer n)
  | real x => some (.real x)
  | absent => none

/-- Whether a value can be read back: an integer can if it is not too long. -/
def Setting.Value.IsReadable : Setting.Value → Prop
  | integer n => (Nat.toDigits 10 n.natAbs).length ≤ Text.digitLimit
  | _ => True

instance : DecidablePred Setting.Value.IsReadable
  | .integer n => inferInstanceAs (Decidable ((Nat.toDigits 10 n.natAbs).length ≤ Text.digitLimit))
  | .truth _ => .isTrue trivial
  | .real _ => .isTrue trivial
  | .absent => .isTrue trivial

/-- The entries of a document with settings. -/
def storedEntries (settings : List (String × Setting.Value)) :
    List (String × List Char × Toml.Value) :=
  settings.filterMap fun setting =>
    setting.2.stored?.map fun item => (setting.1, setting.2.written.toList, item)

theorem Setting.Value.spells {value : Setting.Value} {item : Toml.Value}
    (readable : value.IsReadable) (stored : value.stored? = some item) :
    Spells value.written.toList item := by
  cases value with
  | truth b =>
    cases stored
    cases b with
    | false => exact spells_false
    | true => exact spells_true
  | integer n =>
    cases stored
    exact spells_integer readable
  | real x =>
    cases stored
    have text : (Double.shortest x).toList = Double.shortestIn .plain x := String.toList_ofList
    exact text ▸ spells_shortest x
  | absent => cases stored

theorem toList_lines {lines : List String} (nonempty : lines ≠ []) :
    ("\n".intercalate lines ++ "\n").toList = lines.flatMap fun line => line.toList ++ ['\n'] := by
  induction lines with
  | nil => contradiction
  | cons line lines ih =>
    cases lines with
    | nil =>
      rw [String.intercalate_singleton, String.toList_append]
      simp
    | cons next lines =>
      have rest := ih (by simp)
      rw [String.intercalate_cons_cons, String.append_assoc, String.append_assoc,
        String.toList_append, String.toList_append, rest]
      simp

/-- A setting takes a line, if it has a value. -/
theorem settingsText_eq (settings : List (String × Setting.Value)) :
    settingsText settings = "\n".intercalate ((storedEntries settings).map fun entry =>
      entry.1 ++ " = " ++ String.ofList entry.2.1) ++ "\n" := by
  rw [settingsText, storedEntries, List.map_filterMap]
  congr 2
  refine List.filterMap_congr fun setting _ => ?_
  obtain ⟨key, value⟩ := setting
  cases value <;> simp [Setting.Value.stored?]

theorem settingsText_toList (nonempty : storedEntries settings ≠ []) :
    (settingsText settings).toList
      = (storedEntries settings).flatMap fun entry => entryLine entry.1 entry.2.1 := by
  rw [settingsText_eq, toList_lines (by simpa using nonempty), List.flatMap_map]
  congr 1
  funext entry
  simp [entryLine]

example : settingsText Config.default.settings =
    "\n".intercalate ["show_stack_level = true", "monochrome = false", "conversion_constant = 1.0",
      "tip_percentage = 0.15", "show_warnings = true", ""] := by
  decide +kernel

theorem keys_storedEntries (settings : List (String × Setting.Value)) :
    ((storedEntries settings).map (·.1)).Sublist (settings.map (·.1)) := by
  induction settings with
  | nil => exact .slnil
  | cons setting settings ih =>
    cases stored : setting.2.stored? with
    | none => simpa [storedEntries, stored] using ih.cons setting.1
    | some item => simpa [storedEntries, stored] using ih

theorem mem_storedEntries {entry : String × List Char × Toml.Value}
    (h : entry ∈ storedEntries settings) :
    ∃ value, (entry.1, value) ∈ settings ∧ value.stored? = some entry.2.2
      ∧ value.written.toList = entry.2.1 := by
  obtain ⟨⟨key, value⟩, found, stored⟩ := List.mem_filterMap.1 h
  obtain ⟨item, has, rfl⟩ := Option.map_eq_some_iff.1 stored
  exact ⟨value, found, has, rfl⟩

/-- The document of settings holds the values that they have. -/
theorem document_settings (bare : ∀ setting ∈ settings, IsBare setting.1)
    (readable : ∀ setting ∈ settings, setting.2.IsReadable)
    (distinct : (settings.map (·.1)).Nodup) :
    document (settingsText settings)
      = .ok (settings.filterMap fun setting => setting.2.stored?.map (setting.1, ·)) := by
  have items : (storedEntries settings).map (fun entry => (entry.1, entry.2.2))
      = settings.filterMap fun setting => setting.2.stored?.map (setting.1, ·) := by
    rw [storedEntries, List.map_filterMap]
    refine List.filterMap_congr fun setting _ => ?_
    cases setting.2.stored? <;> rfl
  rw [← items]
  by_cases empty : storedEntries settings = []
  · have text : settingsText settings = "\n" := by
      rw [settingsText_eq, empty]
      rfl
    rw [text, empty]
    rfl
  · refine document_entries (fun entry found => ?_) (fun entry found => ?_)
      (distinct.sublist (keys_storedEntries settings)) (settingsText_toList empty)
    · obtain ⟨value, found, -, -⟩ := mem_storedEntries found
      exact bare _ found
    · obtain ⟨value, found, stored, text⟩ := mem_storedEntries found
      exact text ▸ Setting.Value.spells (readable _ found) stored

theorem carriage_not_mem_settingsText (bare : ∀ setting ∈ settings, IsBare setting.1)
    (readable : ∀ setting ∈ settings, setting.2.IsReadable) :
    '\r' ∉ (settingsText settings).toList := by
  by_cases empty : storedEntries settings = []
  · rw [settingsText_eq, empty]
    decide
  · rw [settingsText_toList empty, List.mem_flatMap]
    rintro ⟨entry, found, carriage⟩
    obtain ⟨value, found, stored, text⟩ := mem_storedEntries found
    have spells := Setting.Value.spells (readable _ found) stored
    exact carriage_not_mem_entryLine (bare _ found) (text ▸ spells) carriage

/-! ## Reading settings back -/

theorem settings_bare (config : Config) : ∀ setting ∈ config.settings, IsBare setting.1 := by
  have named : (config.settings.map (·.1)).all fun key =>
      !key.toList.isEmpty && key.toList.all isBareKey := by
    change ["show_stack_level", "monochrome", "conversion_constant", "tip_percentage",
      "show_warnings", "precision"].all _
    decide
  intro setting found
  have bare := List.all_eq_true.1 named _ (List.mem_map_of_mem found)
  simpa [IsBare] using bare

theorem settings_readable {config : Config} (h : ∀ places ∈ config.precision, places ≤ 17) :
    ∀ setting ∈ config.settings, setting.2.IsReadable := by
  obtain ⟨levels, monochrome, constant, tip, warnings, precision⟩ := config
  simp only [Config.settings, List.forall_mem_cons]
  refine ⟨trivial, trivial, trivial, trivial, trivial, ?_, by simp⟩
  cases precision with
  | none => trivial
  | some places =>
    have bound : places ≤ 17 := h places rfl
    have short : (Nat.toDigits 10 places).length ≤ 2 :=
      (Nat.length_toDigits_le_iff (by decide) (by decide)).2 (by omega)
    exact short.trans (by decide)

theorem settings_distinct (config : Config) : (config.settings.map (·.1)).Nodup := by
  simp [Config.settings]

/-- Every setting passes the check of its key, and together they make up the configuration. -/
theorem readEntries_settings {config : Config} (h : ∀ places ∈ config.precision, places ≤ 17)
    (path : String) :
    readEntries path .default []
        (config.settings.filterMap fun setting => setting.2.stored?.map (setting.1, ·))
      = .ok (config, []) := by
  obtain ⟨levels, monochrome, constant, tip, warnings, precision⟩ := config
  cases precision with
  | none => rfl
  | some places =>
    have accepted : precisionEntry (.integer places)
        = .accepted fun config => { config with precision := some places } := by
      have bounds : 0 ≤ (places : Int) ∧ (places : Int) ≤ 17 := by
        have := h places rfl
        omega
      rw [precisionEntry, if_pos bounds]
      rfl
    change readEntries path _ [] [("precision", .integer places)] = _
    rw [readEntries, entryOf, accepted]
    rfl

/-- A configuration that is saved where a text can be written is loaded again as it was, and
    without a remark. -/
theorem loadSettings_saveSettings (config : Config) (files : Files) (path note : String)
    (precision : ∀ places ∈ config.precision, places ≤ 17)
    (writable : ∃ written, files.write (FilePath.normal path) "" = .ok written) :
    ∃ saved, saveSettings config.settings files (FilePath.normal path) = .ok saved ∧
      loadSettings saved (FilePath.normal path) note = .ok ⟨config, ""⟩ := by
  have bare := settings_bare config
  have readable := settings_readable precision
  obtain ⟨written, writes⟩ := writable
  obtain ⟨place, led, free⟩ := Files.place_of_write writes
  refine ⟨files.put place (settingsText config.settings), ?_, ?_⟩
  · rw [saveSettings, Files.write_eq led free]
  · have entries := document_settings bare readable (settings_distinct config)
    have text := Files.read_put led free (carriage_not_mem_settingsText bare readable)
    rw [loadSettings, Files.isFile_put led free, text]
    dsimp only
    rw [entries]
    dsimp only
    rw [Loaded.ofEntries, readEntries_settings precision]
    cases quiet : config.showWarnings <;> simp [Except.map, quiet]

theorem loadSettings_saveSettings_extremes :
    ∃ saved,
      saveSettings (Config.settings ⟨false, true, -0.0, Double.nan, true, some 17⟩) ⟨[]⟩
        (FilePath.normal "./comp.toml") = .ok saved ∧
      loadSettings saved (FilePath.normal "./comp.toml") ""
        = .ok ⟨⟨false, true, -0.0, Double.nan, true, some 17⟩, ""⟩ :=
  loadSettings_saveSettings _ _ _ _ (by simp) ⟨_, rfl⟩

end StackCalc
