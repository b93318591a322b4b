/-
Keys set on the command line.

A command that sets a key reads a word as the key and another one as the document that is its value,
checks that this alone makes settings, and writes it to one settings file.

* `Shell.KeysSet` — what commands lead to that set keys one after the other;
* `Shell.SetsKey.cases` — what such a command does;
* `Shell.setsKey_of_made` — when a command is one.
-/
import StyleImport.Command.Run
import StyleImport.Proofs.Disk.Making
import StyleImport.Proofs.Outcome
import StyleImport.Proofs.Settings.Accepted
import StyleImport.Proofs.Settings.Contents

namespace StyleImport

/-- The scope that a command is given; unless it is given any, the project's. -/
def Given.scope? (g : Given) : Option Scope :=
  Scope.ofName? ((g.value? "--scope").getD Scope.project.name)

namespace SettingsFiles

/-- The usual files have collapsed paths. -/
theorem isCollapsed_usual (home project : Text) (scope : Scope) :
    Path.IsCollapsed ((usual home project).path scope) := by
  cases scope <;> exact ⟨_, _, fun n => Path.isKept_of_mem_names, rfl⟩

/-- A file is written: its directory is made, and its entries with the new one are put there, to
their end. -/
theorem writeSetting_eq_ok_iff {format : DocumentFormat} {disk disk' : Disk}
    {path key : Text} {value : Data} :
    writeSetting format disk path key value = (.ok (), disk') ↔
      ∃ es, contents format disk path >>= updatable = .ok es ∧
        ∃ d, disk.makeDirectories (Path.parent path) = .ok d ∧
          let written := format.write (Entries.putBy Scalar.sameKey (.text key) value es)
          d.writeText path written.text = .ok disk' ∧ written.failure = none := by
  constructor
  · intro h
    unfold writeSetting at h
    split at h
    · cases h
    · rename_i es hes
      split at h
      · cases h
      · rename_i d hmake
        dsimp only at h
        split at h
        · cases h
        · rename_i d' hwrite
          obtain ⟨hwhole, rfl⟩ := Prod.mk.inj h
          exact ⟨es, hes, d, Disk.makeDirectories_eq_ok_iff.mpr hmake, hwrite,
            Written.outcome_eq_ok_iff.mp hwhole⟩
  · rintro ⟨es, hes, d, hmake, hwrite, hwhole⟩
    rw [writeSetting, hes]
    dsimp only
    rw [Disk.makeDirectories_eq_ok_iff.mp hmake]
    dsimp only
    rw [hwrite]
    exact congrArg (·, disk') (Written.outcome_eq_ok_iff.mpr hwhole)

end SettingsFiles

namespace Shell

open SettingsFiles

/-- The shell after a key is set by the words behind the command's name. -/
def afterSet (s : Shell) (words : List Text) : Shell := (s.run ("config" :: "set" :: words)).2

/-- The entries that a file holds after a key is set in it. -/
def entriesAfter (s : Shell) (g : Given) (path : Text) : Except Failure (List (Scalar × Data)) := do
  let value ← (s.format.read (g.word 1)).mapError fun _ => .malformed
  let es ← updatable (← contents s.format s.disk path)
  return Entries.putBy Scalar.sameKey (.text (g.word 0)) value es

/-- A command that sets a key in one of the settings files and succeeds.  What it writes would be
read back as it is. -/
structure SetsKey (files : SettingsFiles) (s : Shell) (words : List Text) : Prop where
  succeeds : (s.run ("config" :: "set" :: words)).1.exit = 0
  files_eq : ∀ g, Given.read .configSet words = .ok g →
    s.settingsFiles (g.value? "--project-dir") = files
  readsBack : ∀ g scope es, Given.read .configSet words = .ok g → g.scope? = some scope →
    s.entriesAfter g (files.path scope) = .ok es → s.format.ReadsBack es

/-- The shells that commands lead to which set keys in settings files and succeed. -/
inductive KeysSet (files : SettingsFiles) (s : Shell) : Shell → Prop
  | none : KeysSet files s s
  | more {s' : Shell} {words : List Text} : KeysSet files s s' → SetsKey files s' words →
    KeysSet files s (s'.afterSet words)

theorem run_set (s : Shell) (words : List Text) :
    s.run ("config" :: "set" :: words) = s.runLeaf .configSet set words :=
  rfl

theorem read_of_given {s : Shell} {form : CommandForm} {words : List Text} {g : Given}
    (h : s.given form words = .ok g) : Given.read form words = .ok g := by
  unfold given at h
  split at h
  · cases h
  · rename_i g' hread
    rw [hread]
    split at h
    · cases h
    · split at h
      · cases h
      · cases h
      · exact congrArg Except.ok (Except.ok.inj h)

theorem set_eq_setKey {s : Shell} {g : Given} {value : Data} (hkey : g.word 0 ∈ Settings.names)
    (hvalue : s.format.read (g.word 1) = .ok value)
    (hcomplaint : s.complaint? (g.word 0) value = none) :
    s.set g = s.setKey g (g.word 0) value := by
  have hknown : ¬ (!Settings.names.contains (g.word 0)) = true := by simpa using hkey
  simp only [set, if_neg hknown, hvalue, hcomplaint]

/-- A key that is set is one of the settings, and its value is none to complain about. -/
theorem exists_of_exit_set {s : Shell} {g : Given} (h : (s.set g).1.exit = 0) :
    g.word 0 ∈ Settings.names ∧ ∃ value, s.format.read (g.word 1) = .ok value ∧
      s.complaint? (g.word 0) value = none := by
  by_cases hknown : (!Settings.names.contains (g.word 0)) = true
  · rw [set, if_pos hknown] at h
    cases h
  · refine ⟨by simpa using hknown, ?_⟩
    rcases hread : s.format.read (g.word 1) with e | value
    · simp only [set, if_neg hknown, hread] at h
      cases h
    · refine ⟨value, rfl, Option.eq_none_iff_forall_ne_some.mpr fun complaint hcomplaint => ?_⟩
      simp only [set, if_neg hknown, hread, hcomplaint] at h
      cases h

theorem exit_setKey {s : Shell} {g : Given} {key : Text} {value : Data}
    (h : (s.setKey g key value).1.exit = 0) : ∃ scope, g.scope? = some scope ∧
      writeSetting s.format s.disk ((s.settingsFiles (g.value? "--project-dir")).path scope) key
        value = (.ok (), (s.setKey g key value).2.disk) := by
  unfold setKey at h ⊢
  dsimp only at h ⊢
  split at h
  · cases h
  · rename_i disk hupdate
    unfold update at hupdate
    split at hupdate
    · cases hupdate
    · rename_i scope hscope
      exact ⟨scope, hscope, hupdate⟩

/-- Another disk, and other paths that were asked for or written to: all else is as it was. -/
structure Keeps (s s' : Shell) : Prop where
  format : s'.format = s.format
  schema : s'.schema = s.schema
  environment : s'.environment = s.environment

theorem setKey_keeps (s : Shell) (g : Given) (key : Text) (value : Data) :
    s.Keeps (s.setKey g key value).2 := by
  unfold setKey
  dsimp only
  split <;> exact ⟨rfl, rfl, rfl⟩

theorem afterSet_keeps (s : Shell) (words : List Text) : s.Keeps (s.afterSet words) := by
  have hself : s.Keeps s := ⟨rfl, rfl, rfl⟩
  unfold afterSet
  rw [run_set, runLeaf]
  split
  · exact hself
  · rename_i g _
    unfold set
    dsimp only
    split
    · exact hself
    · split
      · exact hself
      · split
        · exact hself
        · exact setKey_keeps s g _ _

theorem accepts_of_complaint? {s : Shell} (hlax : s.schema.Lax) {key : Text} {value : Data}
    (h : s.complaint? key value = none) : s.schema.Accepts key value := by
  unfold complaint? Settings.ofData at h
  cases hchecked : s.schema (.map [(.text key, value)]) with
  | ok fields => exact ⟨fields, hchecked⟩
  | error complaints =>
    rw [hchecked] at h
    cases complaints with
    | nil => exact absurd hchecked (hlax.speaks _)
    | cons c cs => cases h

theorem entriesAfter_eq {s : Shell} {g : Given} {path : Text} {value : Data}
    {es : List (Scalar × Data)} (hvalue : s.format.read (g.word 1) = .ok value)
    (hes : contents s.format s.disk path >>= updatable = .ok es) :
    s.entriesAfter g path = .ok (Entries.putBy Scalar.sameKey (.text (g.word 0)) value es) := by
  obtain ⟨c, hc, hes⟩ := bind_eq_ok hes
  rw [entriesAfter, hvalue, hc]
  show (updatable c >>= fun es => _) = _
  rw [hes]
  rfl

/-- A command that sets a key does nothing, if it only calls for help, or puts an accepted value
under a key of the settings in one of the files. -/
theorem SetsKey.cases {files : SettingsFiles} {s : Shell} {words : List Text}
    (h : SetsKey files s words) (hlax : s.schema.Lax) :
    s.afterSet words = s ∨
      ∃ key ∈ Settings.names, ∃ value, s.schema.Accepts key value ∧
        ∃ scope, writeSetting s.format s.disk (files.path scope) key value
            = (.ok (), (s.afterSet words).disk) ∧
          ∀ es, contents s.format s.disk (files.path scope) >>= updatable = .ok es →
            s.format.ReadsBack (Entries.putBy Scalar.sameKey (.text key) value es) := by
  have hexit := h.succeeds
  unfold afterSet
  rw [run_set] at hexit ⊢
  unfold runLeaf at hexit ⊢
  rcases hgiven : s.given .configSet words with outcome | g
  · exact .inl rfl
  · rw [hgiven] at hexit
    replace hexit : (s.set g).1.exit = 0 := hexit
    have hread := read_of_given hgiven
    obtain ⟨hkey, value, hvalue, hcomplaint⟩ := exists_of_exit_set hexit
    have hset := set_eq_setKey hkey hvalue hcomplaint
    obtain ⟨scope, hscope, hwrite⟩ := exit_setKey (hset ▸ hexit)
    rw [← hset, h.files_eq g hread] at hwrite
    refine .inr ⟨g.word 0, hkey, value, accepts_of_complaint? hlax hcomplaint, scope, hwrite,
      fun es hes => h.readsBack g scope _ hread hscope ?_⟩
    exact entriesAfter_eq hvalue hes

/-- A command that is understood sets a key in a file that is missing, if it can be made. -/
theorem setsKey_of_made {files : SettingsFiles} {s : Shell} {words : List Text} {g : Given}
    {value : Data} {scope : Scope} {disk : Disk}
    (hread : Given.read .configSet words = .ok g) (hhelp : g.has helpOption.name = false)
    (hcheck : g.check .configSet s.disk = .ok none) (hkey : g.word 0 ∈ Settings.names)
    (hvalue : s.format.read (g.word 1) = .ok value)
    (hcomplaint : s.complaint? (g.word 0) value = none) (hscope : g.scope? = some scope)
    (hfiles : s.settingsFiles (g.value? "--project-dir") = files)
    (habsent : contents s.format s.disk (files.path scope) = .ok .absent)
    (hback : s.format.ReadsBack [(.text (g.word 0), value)])
    (hmade : ∃ d, s.disk.makeDirectories (Path.parent (files.path scope)) = .ok d ∧
      d.writeText (files.path scope) (s.format.write [(.text (g.word 0), value)]).text = .ok disk) :
    SetsKey files s words ∧ (s.afterSet words).disk = disk := by
  have hes : contents s.format s.disk (files.path scope) >>= updatable = .ok [] := by
    rw [habsent]
    rfl
  obtain ⟨d, hmake, hwritten⟩ := hmade
  have hwrite := writeSetting_eq_ok_iff.mpr ⟨[], hes, d, hmake, hwritten, hback.whole⟩
  have hgiven : s.given .configSet words = .ok g := by
    unfold given
    rw [hread]
    dsimp only
    rw [hhelp, hcheck]
    rfl
  have hrun : s.run ("config" :: "set" :: words) = s.setKey g (g.word 0) value := by
    rw [run_set, runLeaf, hgiven]
    exact set_eq_setKey hkey hvalue hcomplaint
  have hupdate : files.update s.format s.disk ((g.value? "--scope").getD Scope.project.name)
      (g.word 0) value = (.ok (), disk) := by
    have hname : Scope.ofName? ((g.value? "--scope").getD Scope.project.name) = some scope := hscope
    rw [update, hname]
    exact hwrite
  subst hfiles
  have hsetKey : (s.setKey g (g.word 0) value).1.exit = 0 ∧
      (s.setKey g (g.word 0) value).2.disk = disk := by
    unfold setKey
    dsimp only
    rw [show (s.ask _).disk = s.disk from rfl, show (s.ask _).format = s.format from rfl, hupdate]
    exact ⟨rfl, rfl⟩
  rw [← hrun] at hsetKey
  obtain ⟨hexit, hdisk⟩ := hsetKey
  refine ⟨⟨hexit, fun g' hg' => ?_, fun g' scope' es' hg' hscope' hes' => ?_⟩, hdisk⟩
  · obtain rfl : g = g' := Except.ok.inj (hread.symm.trans hg')
    rfl
  · obtain rfl : g = g' := Except.ok.inj (hread.symm.trans hg')
    obtain rfl : scope = scope' := Option.some.inj (hscope.symm.trans hscope')
    obtain rfl := Except.ok.inj ((entriesAfter_eq hvalue hes).symm.trans hes')
    exact hback

end Shell

end StyleImport
