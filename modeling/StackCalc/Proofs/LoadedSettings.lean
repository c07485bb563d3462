/-
  StackCalc.Proofs.LoadedSettings

  What is loaded from a file with settings.  Every key is read by itself: it has the value of the
  file if that has the type and the range of the key, and else its default (`Config.updated`), in
  whatever order the entries stand.  A key that is no setting and a value that does not suit its
  key give a remark, and the remarks are printed if the settings that come out say so.

  Two kinds of entries end the loading instead (`fault?`): an integer for a factor that is too
  large for a double, and a value that does not suit its key but is too long to be shown in the
  remark on it.
-/

import StackCalc.Config.Settings
import StackCalc.Proofs.DistinctKeys
import StackCalc.Proofs.NearestDoubles
import StackCalc.Proofs.SavedSettings

namespace StackCalc

open Toml

variable {key : String} {item : Toml.Value} {entries : Toml.Entries} {files : Files}
  {path note : String} {config : Config} {remarks : List String}

/-! ## Values of settings -/

/-- A truth value. -/
def truth? : Toml.Value → Option Bool
  | .truth b => some b
  | _ => none

/-- A number, as a double. -/
def number? : Toml.Value → Option Float
  | .real x => some x
  | .integer n => Double.ofInt? n
  | _ => none

/-- A number of places. -/
def places? : Toml.Value → Option Nat
  | .integer n => if 0 ≤ n ∧ n ≤ 17 then some n.toNat else none
  | _ => none

/-- The keys of the truth values. -/
def flagKeys : List String := ["show_stack_level", "monochrome", "show_warnings"]

/-- The keys of the factors. -/
def factorKeys : List String := ["conversion_constant", "tip_percentage"]

/-- The keys of all settings. -/
def settingKeys : List String := flagKeys ++ factorKeys ++ ["precision"]

/-- Whether a value has the type and the range of a key. -/
def suits (key : String) : Toml.Value → Bool
  | .truth _ => key ∈ flagKeys
  | .real _ => key ∈ factorKeys
  | .integer n => key ∈ factorKeys ∨ key = "precision" ∧ 0 ≤ n ∧ n ≤ 17
  | _ => false

/-- Whether a value is an integer without a double. -/
def exceeds : Toml.Value → Bool
  | .integer n => Double.overflow ≤ n.natAbs
  | _ => false

/-! ## What a table says -/

/-- The value that a table has for a key, if it can be read, and else the one from before. -/
def given {α : Type} (entries : Toml.Entries) (key : String) (read? : Toml.Value → Option α)
    (before : α) : α :=
  ((lookup key entries).bind read?).getD before

/-- A configuration with the values of a table. -/
def Config.updated (config : Config) (entries : Toml.Entries) : Config where
  showStackLevel := given entries "show_stack_level" truth? config.showStackLevel
  monochrome := given entries "monochrome" truth? config.monochrome
  conversionConstant := given entries "conversion_constant" number? config.conversionConstant
  tipPercentage := given entries "tip_percentage" number? config.tipPercentage
  showWarnings := given entries "show_warnings" truth? config.showWarnings
  precision := given entries "precision" (fun value => (places? value).map some) config.precision

theorem given_single {α : Type} (key name : String) (item : Toml.Value)
    (read? : Toml.Value → Option α) (before : α) :
    given [(key, item)] name read? before
      = if key = name then (read? item).getD before else before := by
  by_cases same : key = name
  · subst same
    rw [given, lookup_cons_self, if_pos rfl, Option.bind_some]
  · rw [given, lookup_cons_of_ne same, if_neg same]
    rfl

theorem given_cons {α : Type} (new : key ∉ entries.map (·.1)) (name : String)
    (read? : Toml.Value → Option α) (before : α) :
    given ((key, item) :: entries) name read? before
      = given entries name read? (given [(key, item)] name read? before) := by
  by_cases same : key = name
  · subst same
    rw [given, lookup_cons_self, given, lookup_new new, given_single, if_pos rfl, Option.bind_some,
      Option.bind_none, Option.getD_none]
  · rw [given, lookup_cons_of_ne same, given_single, if_neg same, given]

theorem updated_nil (config : Config) : config.updated [] = config := rfl

/-- The entries of a table may be taken one by one. -/
theorem updated_cons (new : key ∉ entries.map (·.1)) (config : Config) :
    config.updated ((key, item) :: entries) = (config.updated [(key, item)]).updated entries := by
  simp only [Config.updated, given_cons new]

/-- The order of the entries does not matter. -/
theorem updated_perm {other : Toml.Entries} (distinct : (entries.map (·.1)).Nodup)
    (perm : other.Perm entries) (config : Config) :
    config.updated other = config.updated entries := by
  simp only [Config.updated, given, lookup_perm distinct perm]

/-! ## Remarks and faults -/

/-- The remark on an entry. -/
def remark? (path : String) (entry : String × Toml.Value) : Option String :=
  if entry.1 ∉ settingKeys then some (unknownRemark path entry.1)
  else if suits entry.1 entry.2 then none
  else some (invalidRemark path entry.1 entry.2)

/-- What ends the loading at an entry. -/
def fault? (entry : String × Toml.Value) : Option Fault :=
  if entry.1 ∉ settingKeys then none
  else if suits entry.1 entry.2 then
    if entry.1 ∈ factorKeys ∧ exceeds entry.2 then some .settingTooLarge else none
  else if entry.2.isShowable then none
  else some (.longInteger none)

/-- What is done with an entry is what it counts for. -/
inductive Entry.Fits (key : String) (item : Toml.Value) : Entry → Prop where
  | accepted (known : key ∈ settingKeys) (suitable : suits key item = true)
      (converts : ¬(key ∈ factorKeys ∧ exceeds item = true)) :
      Fits key item (.accepted (·.updated [(key, item)]))
  | rejected (known : key ∈ settingKeys) (unsuitable : suits key item = false)
      (unread : ∀ config : Config, config.updated [(key, item)] = config) : Fits key item .rejected
  | unknown (unknown : key ∉ settingKeys)
      (unread : ∀ config : Config, config.updated [(key, item)] = config) : Fits key item .unknown
  | tooLarge (factor : key ∈ factorKeys) (suitable : suits key item = true)
      (large : exceeds item = true) : Fits key item .tooLarge

theorem updated_unknown (unknown : key ∉ settingKeys) (item : Toml.Value) (config : Config) :
    config.updated [(key, item)] = config := by
  simp only [settingKeys, flagKeys, factorKeys, List.cons_append, List.nil_append, List.mem_cons,
    List.not_mem_nil, or_false, not_or] at unknown
  obtain ⟨levels, monochrome, warnings, constant, tip, precision⟩ := unknown
  simp only [Config.updated, given_single, levels, monochrome, constant, tip, warnings, precision,
    if_false]

theorem suits_flag (known : key ∈ flagKeys) (item : Toml.Value) :
    suits key item = (truth? item).isSome := by
  have other : key ∉ factorKeys ∧ key ≠ "precision" := by
    simp only [flagKeys, List.mem_cons, List.not_mem_nil, or_false] at known
    rcases known with rfl | rfl | rfl <;> decide
  cases item <;> simp [suits, truth?, known, other]

theorem suits_factor (known : key ∈ factorKeys) (item : Toml.Value) :
    suits key item = ((number? item).isSome || exceeds item) := by
  have other : key ∉ flagKeys := by
    simp only [factorKeys, List.mem_cons, List.not_mem_nil, or_false] at known
    rcases known with rfl | rfl <;> decide
  cases item with
  | integer n =>
    have found := Double.ofInt?_eq_none_iff (i := n)
    cases convert : Double.ofInt? n <;> simp_all [suits, number?, exceeds]
  | _ => simp [suits, number?, exceeds, known, other]

theorem suits_precision (item : Toml.Value) : suits "precision" item = (places? item).isSome := by
  have other : "precision" ∉ flagKeys ∧ "precision" ∉ factorKeys := by decide
  cases item with
  | integer n => by_cases range : 0 ≤ n ∧ n ≤ 17 <;> simp [suits, places?, other, range]
  | _ => simp [suits, places?, other]

/-- A flag is set to a truth value, and to nothing else. -/
theorem flagEntry_fits {set : Bool → Config → Config} (known : key ∈ flagKeys)
    (updates : ∀ item config,
      config.updated [(key, item)] = (truth? item).elim config (set · config))
    (item : Toml.Value) : (flagEntry set item).Fits key item := by
  have setting : key ∈ settingKeys := List.mem_append_left _ (List.mem_append_left _ known)
  have suitable := suits_flag known item
  cases item with
  | truth b =>
    have sets : set b = (·.updated [(key, .truth b)]) :=
      funext fun config => (updates (.truth b) config).symm
    rw [flagEntry, sets]
    exact .accepted setting suitable (by simp [exceeds])
  | _ => exact .rejected setting suitable (updates _)

theorem factorEntry_eq : factorEntry = fun set value =>
    match value with
    | .real x => .accepted (set x)
    | .integer n => (Double.ofInt? n).elim .tooLarge fun x => .accepted (set x)
    | _ => .rejected := by
  -- Unfolded as a function: applied to an integer, its double would be evaluated.
  delta factorEntry
  obtain ⟨toDouble, same⟩ : ∃ toDouble, toDouble = Double.ofInt? := ⟨_, rfl⟩
  rw [← same]
  funext set value
  cases value with
  | integer n =>
    dsimp only
    cases toDouble n <;> rfl
  | _ => rfl

/-- A factor is set to a number that has a double. -/
theorem factorEntry_fits {set : Float → Config → Config} (known : key ∈ factorKeys)
    (updates : ∀ item config,
      config.updated [(key, item)] = (number? item).elim config (set · config))
    (item : Toml.Value) : (factorEntry set item).Fits key item := by
  have setting : key ∈ settingKeys := List.mem_append_left _ (List.mem_append_right _ known)
  have suitable := suits_factor known item
  rw [factorEntry_eq]
  cases item with
  | real x =>
    have sets : set x = (·.updated [(key, .real x)]) := by
      funext config
      rw [updates, number?, Option.elim_some]
    dsimp only
    rw [sets]
    exact .accepted setting (by simp [suitable, number?]) (by simp [exceeds])
  | integer n =>
    have large : exceeds (.integer n) = true ↔ Double.ofInt? n = none := by
      rw [Double.ofInt?_eq_none_iff, exceeds, decide_eq_true_iff]
    dsimp only
    cases convert : Double.ofInt? n with
    | none => exact .tooLarge known (by simp [suitable, large, convert]) (large.2 convert)
    | some x =>
      have sets : set x = (·.updated [(key, .integer n)]) := by
        funext config
        rw [updates, number?, convert, Option.elim_some]
      rw [Option.elim_some, sets]
      exact .accepted setting (by simp [suitable, number?, convert]) (by simp [large, convert])
  | _ => exact .rejected setting (by simp [suitable, number?, exceeds]) (updates _)

theorem precisionEntry_fits (item : Toml.Value) : (precisionEntry item).Fits "precision" item := by
  have setting : "precision" ∈ settingKeys := by decide
  have other : "precision" ∉ factorKeys := by decide
  have suitable := suits_precision item
  have updates : ∀ config : Config, config.updated [("precision", item)]
      = (places? item).elim config fun places => { config with precision := some places } := by
    intro config
    simp only [Config.updated, given_single, String.reduceEq, if_false, if_true]
    cases places? item <;> rfl
  cases item with
  | integer n =>
    rw [precisionEntry]
    by_cases range : 0 ≤ n ∧ n ≤ 17
    · have read : places? (.integer n) = some n.toNat := if_pos range
      have sets : (fun config : Config => { config with precision := some n.toNat })
          = (·.updated [("precision", .integer n)]) := by
        funext config
        rw [updates, read, Option.elim_some]
      rw [if_pos range, sets]
      exact .accepted setting (by rw [suitable, read, Option.isSome_some])
        fun factor => other factor.1
    · have read : places? (.integer n) = none := if_neg range
      rw [if_neg range]
      refine .rejected setting (by rw [suitable, read, Option.isSome_none]) fun config => ?_
      rw [updates, read, Option.elim_none]
  | _ => exact .rejected setting suitable updates

/-- What is done with an entry fits its key and its value, for every key by itself. -/
theorem entryOf_fits (key : String) (item : Toml.Value) : (entryOf key item).Fits key item := by
  unfold entryOf
  split
  case h_1 | h_2 | h_3 =>
    refine flagEntry_fits (by decide) (fun item config => ?_) item
    simp only [Config.updated, given_single, String.reduceEq, if_false, if_true]
    cases truth? item <;> rfl
  case h_4 | h_5 =>
    refine factorEntry_fits (by decide) (fun item config => ?_) item
    simp only [Config.updated, given_single, String.reduceEq, if_false, if_true]
    cases number? item <;> rfl
  case h_6 => exact precisionEntry_fits item
  case h_7 =>
    have unknown : key ∉ settingKeys := by
      simp only [settingKeys, flagKeys, factorKeys, List.cons_append, List.nil_append,
        List.mem_cons, List.not_mem_nil, or_false, not_or]
      refine ⟨?_, ?_, ?_, ?_, ?_, ?_⟩ <;> assumption
    exact .unknown unknown (updated_unknown unknown item)

/-! ## Tables -/

/-- An entry ends the loading, or updates the configuration and adds its remark. -/
theorem readEntries_cons (path : String) (config : Config) (remarks : List String) (key : String)
    (item : Toml.Value) (entries : Toml.Entries) :
    readEntries path config remarks ((key, item) :: entries) =
      match fault? (key, item) with
      | some fault => .error fault
      | none => readEntries path (config.updated [(key, item)])
          (remarks ++ (remark? path (key, item)).toList) entries := by
  have fits := entryOf_fits key item
  rw [readEntries]
  generalize entryOf key item = entry at fits
  cases fits with
  | accepted known suitable converts =>
    simp [fault?, remark?, known, suitable, converts]
  | rejected known unsuitable unread =>
    by_cases showable : item.isShowable <;>
      simp [fault?, remark?, known, unsuitable, unread, showable]
  | unknown unknown unread => simp [fault?, remark?, unknown, unread]
  | tooLarge factor suitable large =>
    have known : key ∈ settingKeys := List.mem_append_left _ (List.mem_append_right _ factor)
    simp [fault?, known, factor, suitable, large]

/-- The entries of a table update the configuration, unless one of them ends the loading. -/
theorem readEntries_eq (distinct : (entries.map (·.1)).Nodup) (path : String) (config : Config)
    (remarks : List String) :
    readEntries path config remarks entries =
      match entries.findSome? fault? with
      | some fault => .error fault
      | none => .ok (config.updated entries, remarks ++ entries.filterMap (remark? path)) := by
  -- on the entries that are left, none of which has the key of one before
  induction entries generalizing config remarks with
  | nil => simp [readEntries, updated_nil]
  | cons entry entries ih =>
    obtain ⟨key, item⟩ := entry
    obtain ⟨new, distinct⟩ := List.nodup_cons.1 distinct
    rw [readEntries_cons, List.findSome?_cons]
    cases fault? (key, item) with
    | some fault => rfl
    | none =>
      dsimp only
      rw [ih distinct, updated_cons new, List.filterMap_cons]
      cases remark? path (key, item) <;> simp

/-! ## Files -/

/-- What a file has to offer to a reader of settings. -/
inductive Offer where
  | missing
  | unread (reason : String)
  | corrupt
  | table (entries : Toml.Entries)

/-- What is offered at a path: nothing, a file that the system does not give out, a file that is
    no text or whose text is no document, or a document. -/
inductive Files.Offers (files : Files) (path : String) : Offer → Prop where
  | missing (absent : files.isFile path = .ok false) : Offers files path .missing
  | unread {trouble : FileTrouble} {reason : String} (present : files.isFile path = .ok true)
      (unread : files.read path = .error trouble) (told : trouble.reason? = some reason) :
      Offers files path (.unread reason)
  | undecodable {fault : Text.Utf8.Fault} (present : files.isFile path = .ok true)
      (undecodable : files.read path = .error (.undecodable fault)) : Offers files path .corrupt
  | malformed {source : String} (present : files.isFile path = .ok true)
      (text : files.read path = .ok source) (malformed : document source = .error .malformed) :
      Offers files path .corrupt
  | table {source : String} {entries : Toml.Entries} (present : files.isFile path = .ok true)
      (text : files.read path = .ok source) (read : document source = .ok entries) :
      Offers files path (.table entries)

/-- What is loaded from an offer. -/
def Offer.loaded (path note : String) : Offer → Except Fault Loaded
  | missing => .ok ⟨.default, ""⟩
  | unread reason => .ok ⟨.default, unreadRemark path reason⟩
  | corrupt => .ok ⟨.default, corruptRemark path note⟩
  | table entries =>
    match entries.findSome? fault? with
    | some fault => .error fault
    | none =>
      let config := Config.default.updated entries
      let remarks := entries.filterMap (remark? path)
      .ok ⟨config, if config.showWarnings then String.join (remarks.map warningLine) else ""⟩

theorem Files.Offers.distinct (offers : files.Offers path (.table entries)) :
    (entries.map (·.1)).Nodup := by
  cases offers with
  | table present text read => exact distinct_document read

theorem ofEntries_eq (distinct : (entries.map (·.1)).Nodup) (path note : String) :
    Loaded.ofEntries path entries = (Offer.table entries).loaded path note := by
  rw [Loaded.ofEntries, readEntries_eq distinct, Offer.loaded]
  cases entries.findSome? fault? <;> rfl

/-- A file that the system does not give out is remarked upon with what the system says. -/
theorem ofTrouble_of_reason {trouble : FileTrouble} {reason : String}
    (told : trouble.reason? = some reason) (path note : String) :
    Loaded.ofTrouble path note trouble = (Offer.unread reason).loaded path note := by
  unfold Loaded.ofTrouble
  split
  · cases told
  · rw [told]
    rfl

theorem loadSettings_eq {offer : Offer} (offers : files.Offers path offer) (note : String) :
    loadSettings files path note = offer.loaded path note := by
  cases offers with
  | missing absent => rw [loadSettings, absent]; rfl
  | unread present unread told =>
    rw [loadSettings, present, unread]
    exact ofTrouble_of_reason told path note
  | undecodable present undecodable => rw [loadSettings, present, undecodable]; rfl
  | malformed present text malformed =>
    rw [loadSettings, present, text]
    dsimp only
    rw [malformed]
    rfl
  | table present text read =>
    rw [loadSettings, present, text]
    dsimp only
    rw [read]
    exact ofEntries_eq (distinct_document read) path note

/-- The working directory with a file of settings. -/
def settingsFile (settings : List (String × Setting.Value)) : Files :=
  Files.put ⟨[]⟩ ["comp.toml"] (settingsText settings)

theorem settingsFile_offers (settings : List (String × Setting.Value))
    (bare : ∀ setting ∈ settings, IsBare setting.1)
    (readable : ∀ setting ∈ settings, setting.2.IsReadable)
    (distinct : (settings.map (·.1)).Nodup) :
    (settingsFile settings).Offers "comp.toml"
      (.table (settings.filterMap fun setting => setting.2.stored?.map (setting.1, ·))) := by
  have led : Files.resolve ⟨[]⟩ "comp.toml" = .ok ["comp.toml"] := by decide +kernel
  have free : Files.at? ⟨[]⟩ ["comp.toml"] ≠ some .directory := by decide +kernel
  have normal : FilePath.normal "comp.toml" = "comp.toml" := by decide +kernel
  have present := Files.isFile_put (normal.symm ▸ led) free (settingsText settings)
  rw [normal] at present
  exact .table present (Files.read_put led free (carriage_not_mem_settingsText bare readable))
    (document_settings bare readable distinct)

/-- A document is loaded if none of its entries ends the loading. -/
theorem loaded_table_iff (path note : String) (entries : Toml.Entries) :
    (∃ loaded, (Offer.table entries).loaded path note = .ok loaded)
      ↔ ∀ entry ∈ entries, fault? entry = none := by
  rw [← List.findSome?_eq_none_iff, Offer.loaded]
  cases entries.findSome? fault? <;> simp

/-- The settings that are loaded from a document. -/
theorem config_loaded (path note : String) (entries : Toml.Entries) :
    ((Offer.table entries).loaded path note).toOption.map (·.config) =
      if ∀ entry ∈ entries, fault? entry = none then some (Config.default.updated entries)
      else none := by
  simp only [← List.findSome?_eq_none_iff]
  rw [Offer.loaded]
  cases entries.findSome? fault? with
  | none => rfl
  | some fault => rfl

/-- Settings are loaded key by key.  A missing file gives the defaults, and so does one that cannot
    be read or is corrupt, with a remark.  A document gives every key its own value, in whatever
    order the entries stand, unless an entry ends the loading. -/
theorem settings_loaded_key_by_key (files : Files) (path note : String) (offer : Offer)
    (offers : files.Offers path offer) :
    loadSettings files path note = offer.loaded path note ∧
      ∀ entries, offer = .table entries →
        ((∃ loaded, loadSettings files path note = .ok loaded)
          ↔ ∀ entry ∈ entries, fault? entry = none) ∧
        ∀ (others : Files) (path' note' : String) (other : Toml.Entries),
          others.Offers path' (.table other) → other.Perm entries →
          (loadSettings others path' note').toOption.map (·.config)
            = (loadSettings files path note).toOption.map (·.config) := by
  refine ⟨loadSettings_eq offers note, ?_⟩
  rintro entries rfl
  rw [loadSettings_eq offers]
  refine ⟨loaded_table_iff path note entries, fun others path' note' other offers' perm => ?_⟩
  -- which entry ends the loading depends on the order, but not whether one does
  have same : (∀ entry ∈ other, fault? entry = none) ↔ ∀ entry ∈ entries, fault? entry = none :=
    forall_congr' fun entry => by rw [perm.mem_iff]
  rw [loadSettings_eq offers', config_loaded, config_loaded, updated_perm offers.distinct perm]
  simp only [same]

theorem settings_loaded_key_by_key_remarked :
    loadSettings
        (settingsFile
          [("precision", .integer 18), ("monochrome", .truth true), ("colour", .integer 7)])
        "comp.toml" ""
      = .ok ⟨{ Config.default with monochrome := true },
          warningLine (invalidRemark "comp.toml" "precision" (.integer 18))
            ++ warningLine (unknownRemark "comp.toml" "colour")⟩ := by
  have offers := settingsFile_offers
    [("precision", .integer 18), ("monochrome", .truth true), ("colour", .integer 7)]
    (by decide +kernel) (by decide +kernel) (by decide)
  rw [(settings_loaded_key_by_key _ "comp.toml" "" _ offers).1]
  decide +kernel

/-- The first power of ten without a double. -/
def oversized : Int := 10 ^ 309

theorem settings_not_always_loaded :
    ¬∀ (files : Files) (path note : String) (offer : Offer), files.Offers path offer →
      ∃ loaded, loadSettings files path note = .ok loaded := by
  intro always
  have offers := settingsFile_offers [("tip_percentage", .integer oversized)]
    (by decide +kernel) (by decide +kernel) (by decide)
  obtain ⟨loaded, h⟩ := always _ _ "" _ offers
  have fault : fault? ("tip_percentage", .integer oversized) = some .settingTooLarge := by
    decide +kernel
  rw [loadSettings_eq offers] at h
  have fine := (loaded_table_iff _ _ _).1 ⟨loaded, h⟩ _ List.mem_cons_self
  rw [fault] at fine
  cases fine

end StackCalc
