/-
Settings that are written one by one are loaded together.

Setting a key checks its value alone, and what is loaded are three files laid over each other.  Each
file holds accepted settings only, since each key was set with an accepted value, and accepted
settings laid over each other are accepted.

* `SettingsFiles.Held.set` — one more command leaves three files of accepted settings;
* `SettingsFiles.settings_load` — the settings of the files are always loaded, if no file's
  directories are made where another file belongs;
* `SettingsFiles.settings_blocked_by_directory` — if they are, loading fails.
-/
import Mathlib.Tactic.Common
import StyleImport.Proofs.Settings.Fields
import StyleImport.Proofs.Settings.Layers
import StyleImport.Proofs.Settings.SetKey
import StyleImport.Proofs.Yaml.Printable

namespace StyleImport

namespace SettingsFiles

variable {format : DocumentFormat} {schema : Schema} {d : Disk}

/-! ### Files of accepted settings -/

/-- What a file holds: nothing, if it is missing, or a map. -/
def Has (format : DocumentFormat) (d : Disk) (path : Text) (es : List (Scalar × Data)) : Prop :=
  (contents format d path = .ok .absent ∧ es = []) ∨
    contents format d path = .ok (.document (.map es))

namespace Has

variable {path : Text} {es : List (Scalar × Data)} (h : Has format d path es)

include h

theorem layer_eq : layer format d path = (.ok es, []) := by
  rcases h with ⟨h, rfl⟩ | h
  · rw [layer, h]
  · exact layer_of_map h

theorem updatable_eq : contents format d path >>= updatable = .ok es := by
  rcases h with ⟨h, rfl⟩ | h
  · rw [h]
    rfl
  · rw [h]
    rfl

theorem keysOnce (hkeys : format.KeysOnce) : (Data.map es).KeysOnce := by
  rcases h with ⟨-, rfl⟩ | h
  · exact .map List.nodup_nil (by simp)
  · exact keysOnce_of_contents hkeys h

end Has

/-- Accepted settings laid over each other are accepted. -/
theorem accepted_mergeLayers (hkeys : format.KeysOnce) (hlax : schema.Lax) {paths : List Text}
    (h : ∀ path ∈ paths, ∃ es, Has format d path es ∧ schema.AllAccepted es)
    {lower : List (Scalar × Data)} (hlower : schema.AllAccepted lower) :
    ∃ es, mergeLayers format d lower paths = (.ok es, []) ∧ schema.AllAccepted es := by
  induction paths generalizing lower with
  | nil => exact ⟨lower, rfl, hlower⟩
  | cons path paths ih =>
    obtain ⟨upper, hhas, hupper⟩ := h path List.mem_cons_self
    obtain ⟨es, hes, haccepted⟩ := ih (fun path hpath => h path (List.mem_cons_of_mem _ hpath))
      (hlower.merge hlax hupper (hhas.keysOnce hkeys))
    refine ⟨es, ?_, haccepted⟩
    rw [mergeLayers, hhas.layer_eq]
    dsimp only
    rw [hes]
    rfl

/-- The environment's word on separators is an accepted setting. -/
theorem accepted_withUnifying (hlax : schema.Lax) {es : List (Scalar × Data)}
    (h : schema.AllAccepted es) (environment : Environment) :
    schema.AllAccepted (withUnifying environment es) := by
  unfold withUnifying
  split
  · refine List.forall_mem_append.mpr ⟨h, fun e he => ?_⟩
    rw [List.mem_singleton.mp he]
    exact ⟨unifyingSetting, by decide, rfl, hlax.unifying false⟩
  · exact h

theorem check_of_accepted (hlax : schema.Lax) {es : List (Scalar × Data)}
    (h : schema.AllAccepted es) (environment : Environment) (cwd : Text) :
    ∃ settings, check schema environment cwd es = .ok settings := by
  obtain ⟨fields, hfields⟩ := h.passes hlax
  refine ⟨.ofFields cwd environment.root fields, ?_⟩
  unfold check
  split
  · rw [Settings.ofData, hfields]
    rfl
  · rename_i htexts
    refine absurd (List.all_eq_true.mpr fun e he => ?_) htexts
    obtain ⟨key, -, hkey, -⟩ := h e he
    rw [hkey]

/-- Files of accepted settings are loaded, whatever the environment says. -/
theorem settings_of_accepted (hkeys : format.KeysOnce) (hlax : schema.Lax) {files : SettingsFiles}
    (h : ∀ scope, ∃ es, Has format d (files.path scope) es ∧ schema.AllAccepted es)
    (environment : Environment) :
    ∃ settings, files.settings format schema d environment [] = (.ok settings, []) := by
  have hpaths : ∀ path ∈ Scope.all.map files.path,
      ∃ es, Has format d path es ∧ schema.AllAccepted es := by
    intro path hpath
    obtain ⟨scope, -, rfl⟩ := List.mem_map.mp hpath
    exact h scope
  obtain ⟨es, hmerged, haccepted⟩ := accepted_mergeLayers hkeys hlax hpaths (.nil schema)
  obtain ⟨settings, hsettings⟩ :=
    check_of_accepted hlax (accepted_withUnifying hlax haccepted environment) environment d.cwdPath
  refine ⟨settings, ?_⟩
  unfold SettingsFiles.settings merged
  rw [hmerged]
  exact congrArg (·, []) hsettings

/-! ### Keys set one after the other -/

/-- The files of all scopes are missing at `place`, and none of them is on the way to another. -/
structure Apart (files : SettingsFiles) (d : Disk) (base rest : Scope → List Text) : Prop where
  missing : ∀ scope, d.Missing (files.path scope) (base scope) (rest scope)
  apart : ∀ scope scope', base scope ++ rest scope <+: base scope' ++ rest scope' →
    base scope ++ rest scope = base scope' ++ rest scope'

/-- Bytes that mean a map of accepted settings. -/
def Holds (format : DocumentFormat) (schema : Schema) (bytes : List UInt8) : Prop :=
  ∃ es, (∀ path, Contents.ofBytes format path bytes = .ok (.document (.map es))) ∧
    schema.AllAccepted es

/-- What is written of accepted settings means accepted settings. -/
theorem holds_write (hkeys : format.KeysOnce) (hlax : schema.Lax) {es : List (Scalar × Data)}
    (h : schema.AllAccepted es) (hback : format.ReadsBack es) :
    Holds format schema (Utf8.encode (format.write es).text) := by
  obtain ⟨es', hes', hsame⟩ := Contents.ofBytes_write hback
  exact ⟨es', hes', h.reordered hlax hsame (Contents.keysOnce_of_ofBytes hkeys (hes' []))⟩

/-- The disk has grown from `d₀`, and each settings file is missing or holds accepted settings. -/
structure Held (format : DocumentFormat) (schema : Schema) (d₀ : Disk) (place : Scope → List Text)
    (d : Disk) : Prop where
  grown : d₀.Grown d
  holds : ∀ scope n, d.root.at? (place scope) = some n →
    ∃ bytes modified, n = .file bytes modified ∧ Holds format schema bytes

/-- Without links the names of absolute paths tell whether the files are apart. -/
theorem apart_of_isName {files : SettingsFiles} (hd : d.root.LinkFree) {base rest : Scope → List Text}
    (hwalk : ∀ scope, Path.isAbsolute (files.path scope) = true ∧
      Disk.walkNames (files.path scope) = base scope ++ rest scope)
    (hnames : ∀ scope, ∀ m ∈ base scope ++ rest scope,
      Path.IsName m ∧ (Utf8.encode m).length ≤ Disk.longestName)
    (hmissing : ∀ scope, (∃ n, d.root.at? (base scope) = some n) ∧
      d.root.at? (base scope ++ (rest scope).take 1) = none)
    (hapart : ∀ scope scope', base scope ++ rest scope <+: base scope' ++ rest scope' →
      base scope ++ rest scope = base scope' ++ rest scope') : files.Apart d base rest := by
  refine ⟨fun scope => ?_, hapart⟩
  obtain ⟨habsolute, hwalk⟩ := hwalk scope
  have hstart : d.start (files.path scope) = [] := if_pos habsolute
  have hmissing := Disk.missing_of_isName hd hwalk (fun m hm => (hnames scope m hm).1)
    (fun m hm => (hnames scope m hm).2) (hstart ▸ (hmissing scope).1) (hstart ▸ (hmissing scope).2)
  rwa [hstart] at hmissing

section Kept

variable {files : SettingsFiles} {d₀ : Disk} {base rest : Scope → List Text}
  (hapart : files.Apart d₀ base rest)
  (habsent : ∀ scope, contents format d₀ (files.path scope) = .ok .absent)

include hapart

theorem Apart.held : Held format schema d₀ (fun scope => base scope ++ rest scope) d₀ where
  grown := Disk.Grown.refl d₀
  holds scope n hn := by
    have hmissing := hapart.missing scope
    rw [hmissing.at?_eq_none (List.prefix_refl _) hmissing.rest_ne_nil] at hn
    cases hn

/-- Files at possible paths are found to be missing. -/
theorem Apart.absent
    (hlimit : ∀ scope, (Utf8.encode (files.path scope)).length < Disk.pathLimit) (scope : Scope) :
    contents format d₀ (files.path scope) = .ok .absent :=
  contents_eq_absent_iff.mpr ((hapart.missing scope).presentOrFail_of_none (Disk.Grown.refl d₀)
    (hlimit scope) ((hapart.missing scope).at?_eq_none (List.prefix_refl _)
      (hapart.missing scope).rest_ne_nil))

include habsent

/-- Each file can be loaded. -/
theorem Held.has (h : Held format schema d₀ (fun scope => base scope ++ rest scope) d)
    (scope : Scope) : ∃ es, Has format d (files.path scope) es ∧ schema.AllAccepted es := by
  have hmissing := hapart.missing scope
  have hnone := Schema.AllAccepted.nil schema
  have hpossible := Disk.possible_of_presentOrFail (contents_eq_absent_iff.mp (habsent scope))
  by_cases hnul : '\x00' ∈ files.path scope
  · exact ⟨[], .inl ⟨contents_eq_absent_iff.mpr (Disk.presentOrFail_of_nul hnul), rfl⟩, hnone⟩
  · have hlimit := hpossible.resolve_left hnul
    cases hn : d.root.at? (base scope ++ rest scope) with
    | none =>
      have hpresent := hmissing.presentOrFail_of_none h.grown hlimit hn
      exact ⟨[], .inl ⟨contents_eq_absent_iff.mpr hpresent, rfl⟩, hnone⟩
    | some n =>
      obtain ⟨bytes, modified, rfl, es, hes, haccepted⟩ := h.holds scope n hn
      have hlookup := hmissing.lookup_of_some h.grown hnul hlimit hn
      exact ⟨es, .inr ((contents_of_lookup hlookup).trans (hes _)), haccepted⟩

end Kept

/-- One more key is set. -/
theorem Held.set {files : SettingsFiles} {d₀ : Disk} {base rest : Scope → List Text}
    (hapart : files.Apart d₀ base rest) (hpaths : ∀ scope, Path.IsCollapsed (files.path scope))
    {s : Shell} (hkeys : s.format.KeysOnce) (hlax : s.schema.Lax)
    (habsent : ∀ scope, contents s.format d₀ (files.path scope) = .ok .absent) {words : List Text}
    (h : Held s.format s.schema d₀ (fun scope => base scope ++ rest scope) s.disk)
    (hset : s.SetsKey files words) :
    Held s.format s.schema d₀ (fun scope => base scope ++ rest scope) (s.afterSet words).disk := by
  rcases hset.cases hlax with hsame | ⟨key, hkey, value, hvalue, scope, hwrite, hback⟩
  · rw [hsame]
    exact h
  · obtain ⟨es, hes, d, hmake, hwritten, -⟩ := writeSetting_eq_ok_iff.mp hwrite
    obtain ⟨es', hhas, haccepted⟩ := Held.has hapart habsent h scope
    obtain rfl : es' = es := Except.ok.inj (hhas.updatable_eq.symm.trans hes)
    have hholds := holds_write hkeys hlax (haccepted.putBy hkey hvalue) (hback es' hes)
    obtain ⟨hgrown, hfile⟩ :=
      (hapart.missing scope).of_made h.grown (hpaths scope) hmake hwritten
    refine ⟨h.grown.trans hgrown.grown, fun scope' n hn => ?_⟩
    by_cases heq : base scope' ++ rest scope' = base scope ++ rest scope
    · rw [heq, hfile] at hn
      exact ⟨_, _, (Option.some.inj hn).symm, hholds⟩
    · refine h.holds scope' n ?_
      rw [← hgrown.same _ (fun hbefore => heq (hapart.apart _ _ hbefore))
        fun hbehind => heq (hapart.apart _ _ hbehind).symm]
      exact hn

/-- Whatever keys are set, each file is missing or holds accepted settings. -/
theorem held_of_keysSet {files : SettingsFiles} {s s' : Shell} (hkeys : s.format.KeysOnce)
    (hlax : s.schema.Lax) {base rest : Scope → List Text} (hapart : files.Apart s.disk base rest)
    (habsent : ∀ scope, contents s.format s.disk (files.path scope) = .ok .absent)
    (hpaths : ∀ scope, Path.IsCollapsed (files.path scope)) (h : s.KeysSet files s') :
    (s'.format = s.format ∧ s'.schema = s.schema) ∧
      Held s.format s.schema s.disk (fun scope => base scope ++ rest scope) s'.disk := by
  induction h with
  | none => exact ⟨⟨rfl, rfl⟩, hapart.held⟩
  | @more s' words _ hset ih =>
    obtain ⟨⟨hformat, hschema⟩, hheld⟩ := ih
    have hkeeps := s'.afterSet_keeps words
    rw [← hformat] at hkeys habsent
    rw [← hschema] at hlax
    rw [← hformat, ← hschema] at hheld ⊢
    exact ⟨⟨hkeeps.format, hkeeps.schema⟩, hheld.set hapart hpaths hkeys hlax habsent hset⟩

/-- **Settings written by commands are always loaded.**  Let documents be written and read in any
format whose maps have each key once, and be checked in any way that is lax.  Where the three
settings files are missing, and none of them is on the way to another one, let keys be set by
successful commands, as many as one likes and in any of the files, each value being read back as it
was written.  Then the settings of the three files laid over each other are accepted, and nothing is
said about them. -/
theorem settings_load (s : Shell) (hkeys : s.format.KeysOnce) (hlax : s.schema.Lax)
    (project : Option Text) {base rest : Scope → List Text}
    (hapart : (s.settingsFiles project).Apart s.disk base rest)
    (habsent : ∀ scope,
      contents s.format s.disk ((s.settingsFiles project).path scope) = .ok .absent)
    {s' : Shell} (h : s.KeysSet (s.settingsFiles project) s') (environment : Environment) :
    ∃ settings, (s.settingsFiles project).settings s.format s.schema s'.disk environment []
      = (.ok settings, []) := by
  obtain ⟨-, hheld⟩ := held_of_keysSet hkeys hlax hapart habsent (isCollapsed_usual _ _) h
  exact settings_of_accepted hkeys hlax (Held.has hapart habsent hheld) environment

/-- A declaration for all projects, with another one of the same module laid over it. -/
theorem settings_load_of_two_files :
    let s : Shell :=
      { environment := { home := ['/', 'h'] }, time := []
        disk := { top := [(['p'], .directory [])], cwd := [['p']] } }
    let main (file : Char) : Text :=
      ['\x7b', 'm', ':', ' ', '\x7b', 'm', 'a', 'i', 'n', ':', ' ', file, '\x7d', '\x7d']
    let s' := (s.afterSet ["--scope", "global", "modules", main 'x']).afterSet ["modules", main 'y']
    s.KeysSet (s.settingsFiles none) s' ∧
      ∃ settings, (s.settingsFiles none).settings Yaml.format Fields.ofData s'.disk {} []
        = (.ok settings, []) := by
  intro s main s'
  let directory : Text := ['.', 's', 't', 'y', 'l', 'e', 'p', 'a', 't', 'h']
  let shared : Text := ['s', 'e', 't', 't', 'i', 'n', 'g', 's', '.', 'y', 'a', 'm', 'l']
  let own : Text :=
    ['s', 'e', 't', 't', 'i', 'n', 'g', 's', '.', 'l', 'o', 'c', 'a', 'l', '.', 'y', 'a', 'm', 'l']
  let user : Text := Disk.pathOf [['h'], directory, shared]
  let project : Text := Disk.pathOf [['p'], directory, shared]
  let files := s.settingsFiles none
  have huser : files.path .user = user := by decide +kernel
  have hproject : files.path .project = project := by decide +kernel
  have hmachine : files.path .machine = Disk.pathOf [['p'], directory, own] := by decide +kernel
  have hfree : s.disk.root.LinkFree := .ofEntries fun e he => by
    rw [List.mem_singleton.mp he]
    exact .ofEntries (by simp)
  have hapart : files.Apart s.disk (fun scope => if scope = .user then [] else [['p']])
      (fun scope => if scope = .user then [['h'], directory, shared]
        else if scope = .project then [directory, shared] else [directory, own]) := by
    refine apart_of_isName hfree ?_ ?_ ?_ ?_
    · rintro (_ | _ | _)
      · rw [huser]
        exact ⟨rfl, rfl⟩
      · rw [hproject]
        exact ⟨rfl, rfl⟩
      · rw [hmachine]
        exact ⟨rfl, rfl⟩
    · rintro (_ | _ | _) <;> decide
    · rintro (_ | _ | _) <;> exact ⟨⟨_, rfl⟩, rfl⟩
    · rintro (_ | _ | _) (_ | _ | _) <;> decide
  have habsent : ∀ scope, contents Yaml.format s.disk (files.path scope) = .ok .absent :=
    hapart.absent (by rintro (_ | _ | _) <;> decide +kernel)
  -- The values are read, and read back.
  let declared (file : Char) : Data :=
    .map [(.text ['m'], .map [(.text ['m', 'a', 'i', 'n'], .text [file])])]
  have hvalue : ∀ file ∈ ['x', 'y'], Yaml.read (main file) = .ok (declared file) := by
    rw [List.forall_mem_cons, List.forall_mem_singleton]
    decide +kernel
  have hwritten : ∀ file ∈ ['x', 'y'], Yaml.read (Yaml.write [(.text "modules", declared file)])
      = .ok (.map [(.text "modules", declared file)]) := by
    rw [List.forall_mem_cons, List.forall_mem_singleton]
    decide +kernel
  have hback : ∀ file ∈ ['x', 'y'], Yaml.format.ReadsBack [(.text "modules", declared file)] :=
    fun file hfile => Yaml.readsBack_of_read rfl (hwritten file hfile) (Data.Reordered.refl _)
  -- What is written stays closed while the disks are computed.
  obtain ⟨bytes, hbytes⟩ : ∃ bytes : Char → List UInt8,
      ∀ file, Utf8.encode (Yaml.format.write [(.text "modules", declared file)]).text = bytes file :=
    ⟨_, fun _ => rfl⟩
  let made (file : Char) : Node :=
    .directory [(directory, .directory [(shared, .file (bytes file) 0)])]
  have hmade₁ : ∃ d, s.disk.makeDirectories (Path.parent (files.path .user)) = .ok d ∧
      d.writeText (files.path .user) (Yaml.format.write [(.text "modules", declared 'x')]).text
        = .ok { top := [(['p'], .directory []), (['h'], made 'x')], cwd := [['p']] } := by
    have hparent : Path.parent user = Disk.pathOf [['h'], directory] := by decide +kernel
    rw [huser]
    exact Disk.exists_made hparent (hbytes 'x') (by cbv) (by cbv)
  obtain ⟨hset₁, hdisk₁⟩ :
      s.SetsKey files ["--scope", "global", "modules", main 'x'] ∧ _ :=
    Shell.setsKey_of_made rfl (by decide) rfl (by decide) (Yaml.format_read (hvalue 'x' (by simp)))
      rfl rfl rfl (habsent .user) (hback 'x' (by simp)) hmade₁
  -- The shell in between stays closed as well.
  obtain ⟨s₁, hs₁⟩ : ∃ s₁, s.afterSet ["--scope", "global", "modules", main 'x'] = s₁ := ⟨_, rfl⟩
  have hkeeps₁ : s.Keeps s₁ := hs₁ ▸ s.afterSet_keeps _
  rw [hs₁] at hdisk₁
  have hfiles : s₁.settingsFiles none = files := by
    show SettingsFiles.usual (homeDirectory s₁.environment.home) s₁.disk.cwdPath = _
    rw [hdisk₁, hkeeps₁.environment]
    rfl
  have hformat : s₁.format = Yaml.format := hkeeps₁.format
  have hvalue₂ : s₁.format.read (main 'y') = .ok (declared 'y') := by
    rw [hformat]
    exact Yaml.format_read (hvalue 'y' (by simp))
  have hcomplaint₂ : s₁.complaint? "modules" (declared 'y') = none := by
    unfold Shell.complaint?
    rw [hkeeps₁.schema]
    rfl
  have hback₂ : s₁.format.ReadsBack [(.text "modules", declared 'y')] := by
    rw [hformat]
    exact hback 'y' (by simp)
  have habsent₂ : contents s₁.format s₁.disk (files.path .project) = .ok .absent := by
    rw [hproject, hdisk₁]
    exact contents_eq_absent_iff.mpr (by cbv)
  have hmade₂ : ∃ d, s₁.disk.makeDirectories (Path.parent (files.path .project)) = .ok d ∧
      d.writeText (files.path .project) (s₁.format.write [(.text "modules", declared 'y')]).text
        = .ok { top := [(['p'], made 'y'), (['h'], made 'x')], cwd := [['p']] } := by
    have hparent : Path.parent project = Disk.pathOf [['p'], directory] := by decide +kernel
    rw [hproject, hformat, hdisk₁]
    exact Disk.exists_made hparent (hbytes 'y') (by cbv) (by cbv)
  obtain ⟨hset₂, -⟩ : s₁.SetsKey files ["modules", main 'y'] ∧ _ :=
    Shell.setsKey_of_made rfl (by decide) rfl (by decide) hvalue₂ hcomplaint₂ rfl hfiles habsent₂
      hback₂ hmade₂
  have hset : s.KeysSet files s' := by
    have hfirst := Shell.KeysSet.none.more hset₁
    show s.KeysSet files ((s.afterSet _).afterSet _)
    rw [hs₁] at hfirst ⊢
    exact hfirst.more hset₂
  exact ⟨hset,
    settings_load s Yaml.keysOnce_format Fields.lax_ofData none hapart habsent hset {}⟩

/-- A directory that stands where a file belongs is there, and cannot be read. -/
theorem layer_of_directory {path : Text} {names : List Text}
    {entries : List (Text × Node)} (h : d.lookup path = .ok (names, .directory entries)) :
    layer format d path = (.error (.read (.system (.isDirectory path))), []) := by
  have hpresent : d.presentOrFail path = .ok true := by
    rw [Disk.presentOrFail, Disk.askOrFail, h]
  have hbytes : d.readBytes path = .error (.system (.isDirectory path)) := by
    rw [Disk.readBytes, h]
    rfl
  rw [layer, contents, hpresent]
  dsimp only
  rw [hbytes]

/-- Nothing is loaded if the project's file cannot be read. -/
theorem settings_of_layer_error {files : SettingsFiles}
    {es : List (Scalar × Data)} {e : Failure}
    (huser : layer format d (files.path .user) = (.ok es, []))
    (hproject : layer format d (files.path .project) = (.error e, [])) (environment : Environment)
    (overrides : List (Text × Data)) :
    files.settings format schema d environment overrides = (.error e, []) := by
  have hmerged : files.merged format d = (.error e, []) := by
    show mergeLayers format d []
      [files.path .user, files.path .project, files.path .machine] = _
    simp only [mergeLayers, huser, hproject]
    rfl
  rw [settings, hmerged]
  rfl

/-- The directories of one file may be made where another file belongs, and are found there instead
of it. -/
theorem settings_blocked_by_directory :
    let project : Text := Disk.pathOf [['p'],
      ['.', 's', 't', 'y', 'l', 'e', 'p', 'a', 't', 'h'],
      ['s', 'e', 't', 't', 'i', 'n', 'g', 's', '.', 'y', 'a', 'm', 'l']]
    let s : Shell :=
      { environment := { home := project }, time := []
        disk := { top := [(['p'], .directory [])], cwd := [['p']] } }
    let s' := s.afterSet ["--scope", "global", "enable_import_once", ['t', 'r', 'u', 'e']]
    (∀ scope, contents Yaml.format s.disk ((s.settingsFiles none).path scope) = .ok .absent) ∧
      s.KeysSet (s.settingsFiles none) s' ∧
      (s.settingsFiles none).settings Yaml.format Fields.ofData s'.disk s.environment []
        = (.error (.read (.system (.isDirectory project))), []) := by
  intro project s s'
  let directory : Text := ['.', 's', 't', 'y', 'l', 'e', 'p', 'a', 't', 'h']
  let shared : Text := ['s', 'e', 't', 't', 'i', 'n', 'g', 's', '.', 'y', 'a', 'm', 'l']
  let own : Text :=
    ['s', 'e', 't', 't', 'i', 'n', 'g', 's', '.', 'l', 'o', 'c', 'a', 'l', '.', 'y', 'a', 'm', 'l']
  let user : Text := Disk.pathOf [['p'], directory, shared, directory, shared]
  let files := s.settingsFiles none
  have huser : files.path .user = user := by decide +kernel
  have hproject : files.path .project = project := by decide +kernel
  have hmachine : files.path .machine = Disk.pathOf [['p'], directory, own] := by decide +kernel
  have habsent : ∀ scope, contents Yaml.format s.disk (files.path scope) = .ok .absent := by
    intro scope
    refine contents_eq_absent_iff.mpr ?_
    cases scope with
    | user =>
      rw [huser]
      cbv
    | project =>
      rw [hproject]
      cbv
    | machine =>
      rw [hmachine]
      cbv
  let es : List (Scalar × Data) := [(.text "enable_import_once", .boolean true)]
  have hread : Yaml.read (Yaml.write es) = .ok (.map es) := by decide +kernel
  have hback := Yaml.readsBack_of_read (by decide) hread (Data.Reordered.refl _)
  obtain ⟨bytes, hbytes⟩ : ∃ bytes, Utf8.encode (Yaml.format.write es).text = bytes := ⟨_, rfl⟩
  have hmade : ∃ d, s.disk.makeDirectories (Path.parent (files.path .user)) = .ok d ∧
      d.writeText (files.path .user) (Yaml.format.write es).text = .ok
        { top := [(['p'], .directory [(directory, .directory [(shared, .directory
            [(directory, .directory [(shared, .file bytes 0)])])])])], cwd := [['p']] } := by
    have hparent : Path.parent user = Disk.pathOf [['p'], directory, shared, directory] := by
      decide +kernel
    rw [huser]
    exact Disk.exists_made hparent hbytes (by cbv) (by cbv)
  have hvalue : Yaml.read ['t', 'r', 'u', 'e'] = .ok (.boolean true) := by decide +kernel
  obtain ⟨hset, hdisk⟩ :
      s.SetsKey files ["--scope", "global", "enable_import_once", ['t', 'r', 'u', 'e']] ∧ _ :=
    Shell.setsKey_of_made rfl (by decide) rfl (by decide) (Yaml.format_read hvalue) rfl rfl rfl
      (habsent .user) hback hmade
  refine ⟨habsent, Shell.KeysSet.none.more hset, ?_⟩
  have huserLayer : ∃ es', layer Yaml.format s'.disk (files.path .user) = (.ok es', []) := by
    have hlookup : s'.disk.lookup user
        = .ok ([['p'], directory, shared, directory, shared], .file bytes 0) := by
      rw [hdisk]
      cbv
    obtain ⟨es', hes', -⟩ := Contents.ofBytes_write hback
    rw [huser]
    exact ⟨es', layer_of_map ((contents_of_lookup hlookup).trans (hbytes ▸ hes' _))⟩
  have hprojectLayer : layer Yaml.format s'.disk (files.path .project)
      = (.error (.read (.system (.isDirectory project))), []) := by
    have hlookup : s'.disk.lookup project = .ok ([['p'], directory, shared],
        .directory [(directory, .directory [(shared, .file bytes 0)])]) := by
      rw [hdisk]
      cbv
    rw [hproject]
    exact layer_of_directory hlookup
  obtain ⟨_, huserLayer⟩ := huserLayer
  exact settings_of_layer_error huserLayer hprojectLayer _ _

end SettingsFiles

end StyleImport
