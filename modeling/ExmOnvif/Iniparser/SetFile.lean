/-
This file models the functions that change a file of settings and those that compare two of them,
and proves what they do to the settings of the file.

Each change reads the whole file, sets something in the dictionary and writes all of it back, so
that what can not be saved is lost. A setting of a section that is not there brings the section with
it; without this it would not be written.
-/

import ExmOnvif.Iniparser.SaveLoad

namespace ExmOnvif.Iniparser

open Library

/-! ### The functions -/

/-- `iniparser_getstring`. -/
def Dictionary.getstring (d : Dictionary) (key : Str) : Found := d.get (strlwc key)

/-- The section that `iniparser_setstr` finds in front of the first colon. -/
def entrySection (entry : Str) : Option Str :=
  if 58 ∈ entry.take 64 then some (entry.takeWhile (· ≠ 58)) else none

/-- `iniparser_setstr`. -/
def Dictionary.setstr (ini : Dictionary) (entry : Str) (val : Option Str) : Option Dictionary := do
  let ini ←
    match entrySection entry with
    | none => some ini
    | some sec =>
      match ini.getstring sec with
      | .null => none
      | .absent => ini.set (strlwc sec) val
      | .value _ => some ini
  ini.set (strlwc entry) val

/-- `save2para_file`, of the text of the file. The old value is copied to where a hundred bytes have
room. -/
def save2paraFile (text entry vstr : Str) : Option Str := do
  let ini ← iniparserLoad text
  let ini ←
    match ini.getstring entry with
    | .null => none
    | .absent => ini.setstr entry (some vstr)
    | .value none => ini.setstr entry (some vstr)
    | .value (some old) => if 100 ≤ old.length then none else ini.setstr entry (some vstr)
  return iniparserDumpIni ini

/-- A slot of the source in `ini_set_file`. The length of a value that is missing can not be
taken. -/
def setFileTurn (tgtini : Dictionary) (slot : Slot) : Option Dictionary :=
  match slot.key with
  | none => some tgtini
  | some key =>
    if 58 ∉ key then some tgtini
    else
      match tgtini.getstring key with
      | .null => none
      | .absent => tgtini.setstr key slot.val
      | .value none => tgtini.setstr key slot.val
      | .value (some old) =>
        match slot.val with
        | none => none
        | some val => if old ≠ val then tgtini.setstr key (some val) else some tgtini

/-- `ini_set_file`, of the texts of both files: the text of the target. -/
def iniSetFile (source target : Str) : Option Str := do
  let srcini ← iniparserLoad source
  let tgtini ← iniparserLoad target
  let tgtini ← srcini.slots.foldlM setFileTurn tgtini
  return iniparserDumpIni tgtini

/-- Whether a slot of the old file counts as a change in `ini_diff`. -/
def oldChanged (newini : Dictionary) (slot : Slot) : Option Bool :=
  match slot.key with
  | none => some false
  | some key =>
    if 58 ∉ key then some false
    else
      match newini.getstring key with
      | .null => none
      | .absent => some true
      | .value none => some true
      | .value (some new) => slot.val.map fun old => decide (new ≠ old)

/-- Whether a slot of the new file counts as a change. -/
def newChanged (oldini : Dictionary) (slot : Slot) : Option Bool :=
  match slot.key with
  | none => some false
  | some key =>
    if 58 ∉ key then some false
    else
      match oldini.getstring key with
      | .null => none
      | .absent => some true
      | .value none => some true
      | .value (some _) => some false

/-- The number of the slots that count. -/
def countChanges (changed : Slot → Option Bool) : List Slot → Option Nat
  | [] => some 0
  | slot :: slots => do
    let here ← changed slot
    let rest ← countChanges changed slots
    return here.toNat + rest

/-- `ini_diff`, of the texts of both files. -/
def iniDiff (old new : Str) : Option Int := do
  let oldini ← iniparserLoad old
  let newini ← iniparserLoad new
  let fromOld ← countChanges (oldChanged newini) oldini.slots
  let fromNew ← countChanges (newChanged oldini) newini.slots
  return if fromOld + fromNew ≠ 0 then 1 else 0

/-! ### Settings -/

/-- A setting that can be saved. -/
structure Setting where
  sec : Str
  name : Str
  text : Str
  secname : SectionName sec
  shortSec : sec.length < 64
  shortKey : (sec ++ 58 :: name).length ≤ asciilinesz
  entry : Entry name text
  hashed : dictionaryHash sec ≠ 0 ∧ dictionaryHash (sec ++ 58 :: name) ≠ 0

namespace Setting

variable (setting : Setting)

/-- The key of a setting. -/
def key : Str := setting.sec ++ 58 :: setting.name

/-- What setting it does to the settings. -/
def apply (map : Settings) : Settings :=
  Function.update
    (if map setting.sec = none
      then Function.update map setting.sec (some (some setting.text)) else map)
    setting.key (some (some setting.text))

theorem plain : 58 ∉ setting.sec := fun member => (setting.secname.low 58 member).2.2 rfl

theorem colon : 58 ∈ setting.key := List.mem_append_right _ List.mem_cons_self

theorem ne_key {sec : Str} (plain : 58 ∉ sec) : sec ≠ setting.key :=
    fun same => plain (same ▸ setting.colon)

/-- The key is in lower case already. -/
theorem strlwc_key : strlwc setting.key = setting.key ∧ strlwc setting.sec = setting.sec := by
  constructor
  · refine strlwc_low (fun byte member => ?_) setting.shortKey
    rcases List.mem_append.mp member with member | member
    · exact (setting.secname.low byte member).1.2.2
    · rcases List.mem_cons.mp member with rfl | member
      · decide
      · exact (setting.entry.named.low byte member).1.2.2
  · refine strlwc_low (fun byte member => (setting.secname.low byte member).1.2.2) ?_
    exact Nat.le_trans setting.secname.short (by decide)

theorem entrySection_key : entrySection setting.key = some setting.sec := by
  have short := setting.shortSec
  have inside : 58 ∈ setting.key.take 64 := by
    have front : setting.sec ++ [58] <+: setting.key := ⟨setting.name, by
      rw [key, List.append_assoc, List.singleton_append]⟩
    have taken : setting.sec ++ [58] <+: setting.key.take 64 := List.prefix_take_iff.mpr ⟨front, by
      rw [List.length_append, List.length_singleton]
      omega⟩
    exact taken.subset (List.mem_append_right _ (List.mem_singleton_self _))
  rw [entrySection, if_pos inside, key, takeWhile_mark setting.plain]

/-- What is set stays set. -/
theorem apply_ne_none {map : Settings} {key : Str} (set : map key ≠ none) :
    setting.apply map key ≠ none := by
  rw [apply, Function.update_apply]
  split
  · exact Option.some_ne_none _
  · split
    · rw [Function.update_apply]
      split
      · exact Option.some_ne_none _
      · exact set
    · exact set

theorem apply_sec (map : Settings) : setting.apply map setting.sec ≠ none := by
  rw [apply, Function.update_of_ne (setting.ne_key setting.plain)]
  split
  · rw [Function.update_self]
    exact Option.some_ne_none _
  · next set => exact set

theorem apply_colon (map : Settings) {key : Str} (colon : 58 ∈ key) :
    setting.apply map key = if key = setting.key then some (some setting.text) else map key := by
  have other : key ≠ setting.sec := fun same => setting.plain (same ▸ colon)
  rw [apply, Function.update_apply]
  split
  · rfl
  · split
    · exact Function.update_of_ne other _ _
    · rfl

theorem apply_plain (map : Settings) {sec : Str} (plain : 58 ∉ sec) :
    setting.apply map sec ≠ none ↔ map sec ≠ none ∨ sec = setting.sec := by
  constructor
  · intro set
    by_contra neither
    rw [not_or, not_not] at neither
    rw [apply, Function.update_of_ne (setting.ne_key plain)] at set
    split at set
    · rw [Function.update_of_ne neither.2] at set
      exact set neither.1
    · exact set neither.1
  · rintro (set | rfl)
    · exact setting.apply_ne_none set
    · exact setting.apply_sec map

/-- A setting that can be saved leaves the settings so. -/
theorem clean_apply {map : Settings} (clean : Clean map) : Clean (setting.apply map) := by
  intro key val found
  by_cases colon : 58 ∈ key
  · rw [if_pos colon]
    rw [setting.apply_colon map colon] at found
    split at found
    · next same =>
      cases found
      exact ⟨setting.sec, setting.name, setting.text, same, setting.plain,
        setting.apply_sec map, rfl, setting.entry⟩
    · have saved := clean key val found
      rw [if_pos colon] at saved
      obtain ⟨sec, name, text, split, plain, there, value, entry⟩ := saved
      exact ⟨sec, name, text, split, plain, setting.apply_ne_none there, value, entry⟩
  · rw [if_neg colon]
    have set : setting.apply map key ≠ none := by
      rw [found]
      exact Option.some_ne_none _
    rcases (setting.apply_plain map colon).mp set with known | rfl
    · obtain ⟨val, known⟩ := Option.ne_none_iff_exists'.mp known
      have saved := clean key val known
      rwa [if_neg colon] at saved
    · exact setting.secname

end Setting

theorem reloaded_ne_none {map : Settings} {key : Str} : reloaded map key ≠ none ↔
    map key ≠ none := by
  rw [reloaded, Ne, Option.map_eq_none_iff]

theorem reloaded_colon (map : Settings) {key : Str} (colon : 58 ∈ key) :
    reloaded map key = map key := by
  rw [reloaded]
  simp only [if_pos colon]
  exact Option.map_id'

theorem clean_reloaded {map : Settings} (clean : Clean map) : Clean (reloaded map) := by
  intro key val found
  obtain ⟨old, known, _⟩ := Option.map_eq_some_iff.mp found
  have saved := clean key old known
  by_cases colon : 58 ∈ key
  · rw [reloaded_colon map colon] at found
    rw [if_pos colon] at saved ⊢
    obtain ⟨sec, name, text, split, plain, there, value, entry⟩ := saved
    rw [known] at found
    exact ⟨sec, name, text, split, plain, reloaded_ne_none.mpr there,
      (Option.some.inj found).symm.trans value, entry⟩
  · rw [if_neg colon] at saved ⊢
    exact saved

/-! ### Files -/

section Files

variable {d : Dictionary} {key : Str} {text : Str}

/-- A key whose hash is not zero is found if it is there. -/
theorem Dictionary.Valid.get (valid : d.Valid) (hashed : dictionaryHash key ≠ 0) :
    d.get key = match d.lookup key with
      | some val => .value val
      | none => .absent :=
  (finds_getLoop valid.proper d.n).2 fun both => hashed both.1

theorem loadLine_valid {now : Str × Dictionary} (valid : now.2.Valid) (lin : Str) :
    ∃ next, loadLine now lin = some next ∧ next.2.Valid := by
  unfold loadLine iniparserAddEntry
  simp only
  split
  · exact ⟨now, rfl, valid⟩
  · split
    · next sec _ =>
      obtain ⟨after, done, valid', _⟩ := valid.set (strlwc sec) none
      exact ⟨_, by rw [done]; rfl, valid'⟩
    · split
      · exact ⟨now, rfl, valid⟩
      · next key behind _ =>
        split
        · exact ⟨now, rfl, valid⟩
        · next val _ =>
          obtain ⟨after, done, valid', _⟩ := valid.set (now.1 ++ 58 :: strlwc (strcrop key))
            (some (if val = [34, 34] ∨ val = [39, 39] then [] else strcrop val))
          exact ⟨_, by rw [done]; rfl, valid'⟩

/-- Every file is read. -/
theorem load_valid (text : Str) : ∃ d, iniparserLoad text = some d ∧ d.Valid := by
  have lines (lines : List Str) (now : Str × Dictionary) (valid : now.2.Valid) :
      ∃ after, lines.foldlM loadLine now = some after ∧ after.2.Valid := by
    induction lines generalizing now with
    | nil => exact ⟨now, rfl, valid⟩
    | cons lin lines inductionHypothesis =>
      obtain ⟨next, done, valid'⟩ := loadLine_valid valid lin
      obtain ⟨after, run, valid''⟩ := inductionHypothesis next valid'
      refine ⟨after, ?_, valid''⟩
      rw [List.foldlM_cons, done]
      exact run
  obtain ⟨after, run, valid⟩ :=
    lines (readLines (asciilinesz - 1) text.length text) ([], dictionaryNew 0)
    (valid_new 0).1
  exact ⟨after.2, by rw [iniparserLoad, run]; rfl, valid⟩

/-- What a file says of the settings. -/
def settingsOf (text : Str) : Settings :=
  match iniparserLoad text with
  | some d => d.lookup
  | none => fun _ => none

/-- What can be saved is what the file that is written says. -/
theorem settingsOf_dump (clean : Clean d.lookup) (valid : d.Valid) :
    settingsOf (iniparserDumpIni d) = reloaded d.lookup := by
  obtain ⟨after, load, _, lookup⟩ := load_dump clean valid
  rw [settingsOf, load]
  exact lookup

/-- Something is set in a dictionary. -/
theorem Dictionary.Valid.setstr (valid : d.Valid) (setting : Setting) :
    ∃ after, d.setstr setting.key (some setting.text) = some after ∧ after.Valid ∧
      after.lookup = setting.apply d.lookup := by
  obtain ⟨lowKey, lowSec⟩ := setting.strlwc_key
  unfold Dictionary.setstr Dictionary.getstring
  rw [setting.entrySection_key]
  simp only [lowKey, lowSec, valid.get setting.hashed.1, Option.bind_eq_bind]
  unfold Setting.apply
  cases found : d.lookup setting.sec with
  | none =>
    obtain ⟨middle, first, valid', lookup⟩ := valid.set setting.sec (some setting.text)
    obtain ⟨after, second, valid'', lookup'⟩ := valid'.set setting.key (some setting.text)
    refine ⟨after, ?_, valid'', ?_⟩
    · simp only [first, Option.bind_some, second]
    · rw [lookup', lookup, if_pos rfl]
  | some val =>
    obtain ⟨after, done, valid', lookup⟩ := valid.set setting.key (some setting.text)
    refine ⟨after, ?_, valid', ?_⟩
    · simp only [Option.bind_some, done]
    · rw [lookup, if_neg (Option.some_ne_none val)]

/-- Old values that have room where they are copied to. -/
def Short (map : Settings) : Prop := ∀ key old, map key = some (some old) → old.length < 100

/-- A file is changed. -/
theorem save2paraFile_setting (clean : Clean (settingsOf text)) (short : Short (settingsOf text))
    (setting : Setting) :
    ∃ after, save2paraFile text setting.key setting.text = some after ∧
      settingsOf after = reloaded (setting.apply (settingsOf text)) := by
  obtain ⟨ini, load, valid⟩ := load_valid text
  have content : settingsOf text = ini.lookup := by rw [settingsOf, load]
  rw [content] at clean short ⊢
  obtain ⟨after, set, valid', lookup⟩ := valid.setstr setting
  have clean' : Clean after.lookup := lookup ▸ setting.clean_apply clean
  refine ⟨iniparserDumpIni after, ?_, by rw [settingsOf_dump clean' valid', lookup]⟩
  have hashed : dictionaryHash setting.key ≠ 0 := setting.hashed.2
  unfold save2paraFile Dictionary.getstring
  rw [load]
  simp only [Option.bind_eq_bind, Option.bind_some, setting.strlwc_key.1, valid.get hashed]
  cases found : ini.lookup setting.key with
  | none =>
    simp only [set, Option.bind_some]
    rfl
  | some val =>
    cases val with
    | none =>
      simp only [set, Option.bind_some]
      rfl
    | some old =>
      have room : ¬100 ≤ old.length := Nat.not_le.mpr (short setting.key old found)
      simp only [if_neg room, set, Option.bind_some]
      rfl

/-- The settings after some of them were set. -/
def setSettings (map : Settings) (settings : List Setting) : Settings :=
  settings.foldl (fun map setting => Function.update map setting.key (some (some setting.text))) map

theorem setSettings_congr {map other : Settings} (settings : List Setting)
    (same : ∀ key, 58 ∈ key → map key = other key) :
    ∀ key, 58 ∈ key → setSettings map settings key = setSettings other settings key := by
  induction settings generalizing map other with
  | nil => exact same
  | cons setting settings inductionHypothesis =>
    refine inductionHypothesis fun key colon => ?_
    simp only [Function.update_apply, same key colon]

/-- Settings are saved one after the other. -/
theorem save_all (clean : Clean (settingsOf text)) (short : Short (settingsOf text))
    {settings : List Setting} (shorter : ∀ setting ∈ settings, setting.text.length < 100) :
    ∃ after, settings.foldlM
      (fun text setting => save2paraFile text setting.key setting.text) text =
        some after ∧ Clean (settingsOf after) ∧
      (∀ key, 58 ∈ key → settingsOf after key = setSettings (settingsOf text) settings key) ∧
      ∀ sec, 58 ∉ sec → (settingsOf after sec ≠ none ↔
        settingsOf text sec ≠ none ∨ ∃ setting ∈ settings, sec = setting.sec) := by
  induction settings generalizing text with
  | nil =>
    exact ⟨text, rfl, clean, fun _ _ => rfl, fun sec _ =>
      (or_iff_left fun ⟨_, member, _⟩ => List.not_mem_nil member).symm⟩
  | cons setting settings inductionHypothesis =>
    obtain ⟨first, others⟩ := List.forall_mem_cons.mp shorter
    obtain ⟨next, saved, content⟩ := save2paraFile_setting clean short setting
    have clean' : Clean (settingsOf next) := content ▸ clean_reloaded (setting.clean_apply clean)
    have colons : ∀ key, 58 ∈ key → settingsOf next key =
        if key = setting.key then some (some setting.text) else settingsOf text key := by
      intro key colon
      rw [content, reloaded_colon _ colon, setting.apply_colon _ colon]
    have short' : Short (settingsOf next) := by
      intro key old found
      by_cases colon : 58 ∈ key
      · rw [colons key colon] at found
        split at found
        · cases found
          exact first
        · exact short key old found
      · rw [content, reloaded] at found
        obtain ⟨val, _, missing⟩ := Option.map_eq_some_iff.mp found
        rw [if_neg colon] at missing
        cases missing
    obtain ⟨after, run, clean'', rest, sections⟩ := inductionHypothesis clean' short' others
    refine ⟨after, ?_, clean'', fun key colon => ?_, fun sec plain => ?_⟩
    · rw [List.foldlM_cons, saved]
      exact run
    · rw [rest key colon]
      refine setSettings_congr settings (fun other colon' => ?_) key colon
      simp only [colons other colon', Function.update_apply]
    · rw [sections sec plain, content, reloaded_ne_none, setting.apply_plain _ plain,
        List.exists_mem_cons_iff, or_assoc]

/-- An empty file has no settings. -/
theorem settingsOf_nil : settingsOf [] = fun _ => none := (valid_new 0).2

theorem empty_settings : Clean (settingsOf []) ∧ Short (settingsOf []) := by
  constructor
  · intro key val found
    rw [settingsOf_nil] at found
    cases found
  · intro key old found
    rw [settingsOf_nil] at found
    cases found

/-- The setting `net:port`, with two digits. -/
def portSetting (text : Str) (digits : text = [56, 48] ∨ text = [57, 48]) : Setting where
  sec := [110, 101, 116]
  name := [112, 111, 114, 116]
  text := text
  secname := ⟨by decide, by decide +kernel, by decide⟩
  shortSec := by decide
  shortKey := by decide
  entry := by
    have name : EntryName [112, 111, 114, 116] :=
      ⟨by decide +kernel, ⟨112, rfl, by decide⟩, ⟨116, rfl, by decide⟩⟩
    rcases digits with rfl | rfl
    · exact ⟨name, ⟨by decide +kernel, ⟨56, rfl, by decide⟩, ⟨48, rfl, by decide⟩⟩, by decide⟩
    · exact ⟨name, ⟨by decide +kernel, ⟨57, rfl, by decide⟩, ⟨48, rfl, by decide⟩⟩, by decide⟩
  hashed := by decide

/-- The setting `ntp:zone`. -/
def zoneSetting : Setting where
  sec := [110, 116, 112]
  name := [122, 111, 110, 101]
  text := [56]
  secname := ⟨by decide, by decide +kernel, by decide⟩
  shortSec := by decide
  shortKey := by decide
  entry := ⟨⟨by decide +kernel, ⟨122, rfl, by decide⟩, ⟨101, rfl, by decide⟩⟩,
    ⟨by decide +kernel, ⟨56, rfl, by decide⟩, ⟨56, rfl, by decide⟩⟩, by decide⟩
  hashed := by decide

/-- The setting `net:mask`. -/
def maskSetting : Setting where
  sec := [110, 101, 116]
  name := [109, 97, 115, 107]
  text := [50, 52]
  secname := ⟨by decide, by decide +kernel, by decide⟩
  shortSec := by decide
  shortKey := by decide
  entry := ⟨⟨by decide +kernel, ⟨109, rfl, by decide⟩, ⟨107, rfl, by decide⟩⟩,
    ⟨by decide +kernel, ⟨50, rfl, by decide⟩, ⟨52, rfl, by decide⟩⟩, by decide⟩
  hashed := by decide

/-- Settings that can all be set in another file. -/
def Settable (map : Settings) : Prop :=
  ∀ key, 58 ∈ key → ∀ val, map key = some val →
    ∃ setting : Setting, setting.key = key ∧ val = some setting.text

variable {slot : Slot} {slots : List Slot} {map : Settings}

/-- What was set last is one of the settings. -/
theorem setSettings_some {settings : List Setting} {val : Option Str}
    (set : setSettings (fun _ => none) settings key = some val) :
    ∃ setting ∈ settings, setting.key = key ∧ val = some setting.text := by
  induction settings using List.reverseRecOn with
  | nil => cases set
  | append_singleton settings setting inductionHypothesis =>
    rw [setSettings, List.foldl_append, List.foldl_cons, List.foldl_nil,
      Function.update_apply] at set
    split at set
    · next same =>
      exact ⟨setting, List.mem_append_right _ (List.mem_singleton_self _), same.symm,
        (Option.some.inj set).symm⟩
    · obtain ⟨earlier, member, found⟩ := inductionHypothesis set
      exact ⟨earlier, List.mem_append_left _ member, found⟩

/-- A file in which some settings were saved has these only. -/
theorem settings_file {settings : List Setting}
    (shorter : ∀ setting ∈ settings, setting.text.length < 100) :
    ∃ text, settings.foldlM (fun text setting => save2paraFile text setting.key setting.text) [] =
        some text ∧ Clean (settingsOf text) ∧ Settable (settingsOf text) ∧
      ∀ key, 58 ∈ key → settingsOf text key = setSettings (fun _ => none) settings key := by
  obtain ⟨clean, short⟩ := empty_settings
  obtain ⟨text, saved, clean', values, _⟩ := save_all clean short shorter
  rw [settingsOf_nil] at values
  refine ⟨text, saved, clean', fun key colon val found => ?_, values⟩
  rw [values key colon] at found
  obtain ⟨setting, _, settled⟩ := setSettings_some found
  exact ⟨setting, settled⟩

/-- A key of another file is found if it is there. -/
theorem Dictionary.Valid.getstring (valid : d.Valid)
    (findable : strlwc key = key ∧ dictionaryHash key ≠ 0) :
    d.getstring key = match d.lookup key with
      | some val => .value val
      | none => .absent := by
  rw [Dictionary.getstring, findable.1, valid.get findable.2]

theorem Setting.findable (setting : Setting) :
    strlwc setting.key = setting.key ∧ dictionaryHash setting.key ≠ 0 :=
  ⟨setting.strlwc_key.1, setting.hashed.2⟩

/-- A setting of the source has its value in the target then. -/
theorem setFileTurn_setting (valid : d.Valid) (clean : Clean d.lookup) (setting : Setting)
    (used : slot.key = some setting.key) (value : slot.val = some setting.text) :
    ∃ after, setFileTurn d slot = some after ∧ after.Valid ∧ Clean after.lookup ∧
      ∀ key, 58 ∈ key → after.lookup key =
        if key = setting.key then some (some setting.text) else d.lookup key := by
  obtain ⟨after, set, valid', lookup⟩ := valid.setstr setting
  have changed : after.Valid ∧ Clean after.lookup ∧ ∀ key, 58 ∈ key → after.lookup key =
      if key = setting.key then some (some setting.text) else d.lookup key := by
    rw [lookup]
    exact ⟨valid', setting.clean_apply clean, fun key colon => setting.apply_colon _ colon⟩
  unfold setFileTurn
  simp only [used, if_neg (not_not.mpr setting.colon), valid.getstring setting.findable, value]
  cases found : d.lookup setting.key with
  | none => exact ⟨after, set, changed⟩
  | some val =>
    cases val with
    | none => exact ⟨after, set, changed⟩
    | some old =>
      by_cases same : old = setting.text
      · simp only [if_neg (not_not.mpr same)]
        refine ⟨d, rfl, valid, clean, fun key _ => ?_⟩
        split
        · next this => rw [this, found, same]
        · rfl
      · simp only [if_pos same]
        exact ⟨after, set, changed⟩

/-- The settings of some slots are set in the target. -/
theorem setFile_slots (settable : Settable map)
    (known : ∀ slot ∈ slots, ∀ key, slot.key = some key →
      map key = some slot.val) (valid : d.Valid) (clean : Clean d.lookup) :
    ∃ after, slots.foldlM setFileTurn d = some after ∧ after.Valid ∧ Clean after.lookup ∧
      ∀ key, 58 ∈ key → after.lookup key = if key ∈ keys slots then map key else d.lookup key := by
  induction slots generalizing d with
  | nil => exact ⟨d, rfl, valid, clean, fun key _ => (if_neg List.not_mem_nil).symm⟩
  | cons slot slots inductionHypothesis =>
    obtain ⟨first, others⟩ := List.forall_mem_cons.mp known
    have skip (turn : setFileTurn d slot = some d)
      (elsewhere : ∀ key, 58 ∈ key → slot.key ≠ some key) :
        ∃ after, (slot :: slots).foldlM setFileTurn d = some after ∧ after.Valid ∧
          Clean after.lookup ∧
          ∀ key, 58 ∈ key → after.lookup key =
            if key ∈ keys (slot :: slots) then map key else d.lookup key := by
      obtain ⟨after, run, valid', clean', rest⟩ := inductionHypothesis others valid clean
      refine ⟨after, by rw [List.foldlM_cons, turn]; exact run, valid', clean', fun key colon => ?_⟩
      have same : key ∈ keys (slot :: slots) ↔ key ∈ keys slots := by
        rw [keys_cons, List.mem_append, Option.mem_toList, or_iff_right (elsewhere key colon)]
      rw [rest key colon]
      simp only [same]
    cases used : slot.key with
    | none =>
      refine skip ?_ fun key _ same => ?_
      · unfold setFileTurn
        rw [used]
      · rw [used] at same
        cases same
    | some key =>
      by_cases colon : 58 ∈ key
      · obtain ⟨setting, rfl, value⟩ := settable key colon slot.val (first key used)
        obtain ⟨next, turn, valid', clean', changed⟩ :=
          setFileTurn_setting valid clean setting used value
        obtain ⟨after, run, valid'', clean'', rest⟩ := inductionHypothesis others valid' clean'
        refine ⟨after, by rw [List.foldlM_cons, turn]; exact run, valid'', clean'',
          fun key colon => ?_⟩
        rw [rest key colon, changed key colon, keys_cons, used]
        by_cases later : key ∈ keys slots
        · rw [if_pos later, if_pos (List.mem_append_right _ later)]
        · rw [if_neg later]
          by_cases here : key = setting.key
          · rw [if_pos here, if_pos
              (List.mem_append_left _ (by rw [here]; exact List.mem_singleton_self _)),
              here, first _ used, value]
          · have absent : key ∉ (some setting.key).toList ++ keys slots := fun member =>
              (List.mem_append.mp member).elim (fun same => here (List.mem_singleton.mp same)) later
            rw [if_neg here, if_neg absent]
      · refine skip ?_ fun other colon' same => ?_
        · unfold setFileTurn
          simp only [used, if_pos colon]
        · rw [used] at same
          exact colon (Option.some.inj same ▸ colon')

/-- The changes that are counted. -/
theorem countChanges_eq {changed : Slot → Option Bool} {counts : Slot → Prop}
    (each : ∀ slot ∈ slots, ∃ here, changed slot = some here ∧ (here = true ↔ counts slot)) :
    ∃ count, countChanges changed slots = some count ∧
        (count = 0 ↔ ∀ slot ∈ slots, ¬counts slot) := by
  induction slots with
  | nil => exact ⟨0, rfl, iff_of_true rfl (List.forall_mem_nil _)⟩
  | cons slot slots inductionHypothesis =>
    obtain ⟨⟨here, first, meaning⟩, others⟩ := List.forall_mem_cons.mp each
    obtain ⟨count, rest, none⟩ := inductionHypothesis others
    refine ⟨here.toNat + count, by rw [countChanges, first, rest]; rfl, ?_⟩
    rw [List.forall_mem_cons, ← none, ← meaning, Nat.add_eq_zero_iff]
    cases here <;> simp

/-- Settings that are found by their keys and have values. -/
def Findable (map : Settings) : Prop :=
  ∀ key, 58 ∈ key → ∀ val, map key = some val →
    (strlwc key = key ∧ dictionaryHash key ≠ 0) ∧ ∃ text, val = some text

theorem Settable.findable (settable : Settable map) : Findable map := by
  intro key colon val found
  obtain ⟨setting, rfl, value⟩ := settable key colon val found
  exact ⟨setting.findable, setting.text, value⟩

/-- A slot of a file whose settings are found. -/
theorem Findable.of_slot (findable : Findable d.lookup) (valid : d.Valid) (member : slot ∈ d.slots)
    (used : slot.key = some key) (colon : 58 ∈ key) :
    (strlwc key = key ∧ dictionaryHash key ≠ 0) ∧
      ∃ text, slot.val = some text ∧ d.lookup key = some (some text) := by
  have found : d.lookup key = some slot.val := find_of_mem valid.distinct member used
  obtain ⟨low, text, value⟩ := findable key colon slot.val found
  exact ⟨low, text, value, found.trans (by rw [value])⟩

theorem oldChanged_slot {newini : Dictionary} (findable : Findable d.lookup) (valid : d.Valid)
    (valid' : newini.Valid) (member : slot ∈ d.slots) :
    ∃ here, oldChanged newini slot = some here ∧
      (here = true ↔ ∃ key, slot.key = some key ∧ 58 ∈ key ∧ newini.lookup key ≠ d.lookup key) := by
  unfold oldChanged
  cases used : slot.key with
  | none => exact ⟨false, rfl, iff_of_false Bool.false_ne_true fun ⟨_, same, _⟩ => by cases same⟩
  | some key =>
    by_cases colon : 58 ∈ key
    · obtain ⟨low, text, value, found⟩ := findable.of_slot valid member used colon
      have meaning (here : Bool) : (here = true ↔ newini.lookup key ≠ d.lookup key) →
          (here = true ↔ ∃ other, some key = some other ∧ 58 ∈ other ∧
            newini.lookup other ≠ d.lookup other) := by
        intro same
        rw [same]
        exact ⟨fun differs => ⟨_, rfl, colon, differs⟩, fun ⟨_, equal, _, differs⟩ => by
          cases equal
          exact differs⟩
      simp only [if_neg (not_not.mpr colon), valid'.getstring low, value]
      rcases other : newini.lookup key with _ | _ | new
      · refine ⟨true, rfl, meaning true (iff_of_true rfl ?_)⟩
        rw [other, found]
        exact (Option.some_ne_none _).symm
      · refine ⟨true, rfl, meaning true (iff_of_true rfl ?_)⟩
        rw [other, found]
        exact fun same => Option.some_ne_none _ (Option.some.inj same).symm
      · refine ⟨decide (new ≠ text), rfl, meaning _ ?_⟩
        rw [decide_eq_true_iff, other, found, Ne, Ne, Option.some.injEq, Option.some.injEq]
    · simp only [if_pos colon]
      refine ⟨false, rfl, iff_of_false Bool.false_ne_true fun ⟨_, same, colon', _⟩ => ?_⟩
      cases same
      exact colon colon'

theorem newChanged_slot {oldini : Dictionary} (findable : Findable d.lookup) (valid : d.Valid)
    (findable' : Findable oldini.lookup) (valid' : oldini.Valid) (member : slot ∈ d.slots) :
    ∃ here, newChanged oldini slot = some here ∧
      (here = true ↔ ∃ key, slot.key = some key ∧ 58 ∈ key ∧ oldini.lookup key = none) := by
  unfold newChanged
  cases used : slot.key with
  | none => exact ⟨false, rfl, iff_of_false Bool.false_ne_true fun ⟨_, same, _⟩ => by cases same⟩
  | some key =>
    by_cases colon : 58 ∈ key
    · obtain ⟨low, _⟩ := findable.of_slot valid member used colon
      simp only [if_neg (not_not.mpr colon), valid'.getstring low]
      cases other : oldini.lookup key with
      | none => exact ⟨true, rfl, iff_of_true rfl ⟨_, rfl, colon, other⟩⟩
      | some val =>
        obtain ⟨_, text, rfl⟩ := findable' key colon val other
        refine ⟨false, rfl, iff_of_false Bool.false_ne_true fun ⟨_, same, _, missing⟩ => ?_⟩
        cases same
        rw [other] at missing
        cases missing
    · simp only [if_pos colon]
      refine ⟨false, rfl, iff_of_false Bool.false_ne_true fun ⟨_, same, colon', _⟩ => ?_⟩
      cases same
      exact colon colon'

end Files

end ExmOnvif.Iniparser
