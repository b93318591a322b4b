/-
A setting is written, and nothing else changes.

Writing a setting reads one file, makes its directory and writes the file again.  Neither the other
files nor the other keys notice, unless a directory is made where another file belongs.  If anything
goes wrong before the file is opened, no file has changed; but opening it takes what it held, so a
writing that fails on the way leaves only what it wrote.

* `SettingsFiles.Clear`, `SettingsFiles.clear_of_isName` — a file whose directory is in no other
  file's way;
* `SettingsFiles.Clear.writeSetting_cases` — what an attempt to write a setting comes to;
* `SettingsFiles.update_framed` — what changes when a setting is written, and what does not;
* `SettingsFiles.update_in_the_way` — a directory made where another file belongs.
-/
import Mathlib.Tactic.Common
import StyleImport.Proofs.Data.Reordered
import StyleImport.Proofs.Disk.Leads
import StyleImport.Proofs.Settings.SetKey
import StyleImport.Proofs.Settings.Skipped
import StyleImport.Proofs.Yaml.Printable

namespace StyleImport

namespace SettingsFiles

open Data Entries

variable {files : SettingsFiles} {format : DocumentFormat} {d : Disk} {path key : Text}
  {value : Data} {spot : Scope → Disk.Spot}

/-! ### What a file held -/

/-- The entries of a settings file, if it holds a map. -/
def ownEntries (c : Except Failure Contents) : List (Scalar × Data) := (map? c).getD []

/-- The entries of a settings file that can be updated: it is missing, it holds something empty, or
it holds a map. -/
inductive Previously : Except Failure Contents → List (Scalar × Data) → Prop
  | absent : Previously (.ok .absent) []
  | empty {doc : Data} : doc.isTrue = false → Previously (.ok (.document doc)) []
  | map (es : List (Scalar × Data)) : Previously (.ok (.document (.map es))) es

theorem previously_of_updatable {c : Except Failure Contents} {es : List (Scalar × Data)}
    (h : c >>= updatable = .ok es) : Previously c es := by
  obtain ⟨held, rfl, hheld⟩ := bind_eq_ok h
  unfold updatable at hheld
  split at hheld
  · obtain rfl := Except.ok.inj hheld
    exact .absent
  · cases hheld
  · obtain rfl := Except.ok.inj hheld
    exact .map _
  · split at hheld
    · cases hheld
    · rename_i hfalse
      obtain rfl := Except.ok.inj hheld
      exact .empty (by simpa using hfalse)

namespace Previously

variable {c : Except Failure Contents} {es : List (Scalar × Data)} (h : Previously c es)

include h

theorem own_eq : ownEntries c = es := by
  cases h with
  | absent => rfl
  | map es => rfl
  | @empty doc hfalse =>
    cases doc with
    | map es =>
      cases es with
      | nil => rfl
      | cons e es => cases hfalse
    | list items => rfl
    | scalar s => cases s <;> rfl

theorem obstacle_eq : obstacle? c = none := by
  cases h with
  | absent => rfl
  | map es => rfl
  | @empty doc hfalse =>
    cases doc with
    | map es => rfl
    | list items | scalar s =>
      dsimp only [obstacle?]
      rw [hfalse]
      rfl

theorem warning_eq (path : Text) : warning? path c = none := by
  cases h <;> rfl

end Previously

/-- What a settings file holds is told by its bytes. -/
theorem contents_eq_bind :
    contents format d path = (d.bytes? path).mapError .read >>= contentsOf format path := by
  unfold contents Disk.bytes?
  rcases d.presentOrFail path with e | b
  · rfl
  · cases b with
    | false => rfl
    | true => rcases d.readBytes path with e | bytes <;> rfl

/-- The name of a file matters for what is said about it only. -/
theorem Previously.rename {path' : Text} {bytes : Option (List UInt8)} {es : List (Scalar × Data)}
    (h : Previously (contentsOf format path bytes) es) :
    Previously (contentsOf format path' bytes) es := by
  cases bytes with
  | none => exact h
  | some bytes =>
    unfold contentsOf Contents.ofBytes at h ⊢
    dsimp only at h ⊢
    cases hdecode : Utf8.decode bytes with
    | error f =>
      rw [hdecode] at h
      dsimp only at h
      split at h <;> cases h
    | ok t =>
      rw [hdecode] at h
      dsimp only at h ⊢
      cases hread : format.read (Utf8.translateNewlines t) with
      | error reason =>
        rw [hread] at h
        cases h
      | ok doc =>
        rw [hread] at h
        exact h

theorem keysOnce_own (hkeys : format.KeysOnce) (d : Disk) (path : Text) :
    (Data.map (ownEntries (contents format d path))).KeysOnce := by
  have hnil : (Data.map []).KeysOnce := .map List.nodup_nil (by simp)
  cases hc : contents format d path with
  | error e => exact hnil
  | ok held =>
    cases held with
    | absent => exact hnil
    | malformed reason => exact hnil
    | document doc =>
      cases doc with
      | map es => exact keysOnce_of_contents hkeys hc
      | list items => exact hnil
      | scalar s => cases s <;> exact hnil

/-! ### An attempt to write a setting -/

/-- Either the file cannot be read or updated and nothing happens, or its directory is made, as far
as it can be; then the file is opened, unless that fails, and written, as far as it can be. -/
theorem writeSetting_cases {outcome : Except Failure Unit} {d' : Disk}
    (h : writeSetting format d path key value = (outcome, d')) :
    (∃ e, outcome = .error e ∧ d' = d) ∨
      ∃ es, contents format d path >>= updatable = .ok es ∧
        ((∃ e, outcome = .error e ∧ d' = (d.tryDirectories (Path.parent path)).2) ∨
          let written := format.write (putBy Scalar.sameKey (.text key) value es)
          outcome = written.outcome ∧
            (d.tryDirectories (Path.parent path)).2.writeText path written.text = .ok d') := by
  unfold writeSetting at h
  split at h
  · rename_i e _
    cases h
    exact .inl ⟨e, rfl, rfl⟩
  · rename_i es hes
    refine .inr ⟨es, hes, ?_⟩
    split at h
    · rename_i e d₁ hmake
      cases h
      exact .inl ⟨_, rfl, by rw [hmake]⟩
    · rename_i d₁ hmake
      rw [hmake]
      dsimp only at h ⊢
      split at h
      · cases h
        exact .inl ⟨_, rfl, rfl⟩
      · rename_i d₂ hwrite
        cases h
        exact .inr ⟨rfl, hwrite⟩

/-- The files at the place of the chosen one hold a text, and the others the bytes they held. -/
structure Rewritten (files : SettingsFiles) (d d' : Disk) (spot : Scope → Disk.Spot) (scope : Scope)
    (t : Text) : Prop where
  self : ∀ s, spot s = spot scope → d'.bytes? (files.path s) = .ok (some (Utf8.encode t))
  other : ∀ s, spot s ≠ spot scope → d'.bytes? (files.path s) = d.bytes? (files.path s)

/-- The directory of one file may be made, and the path of each file still leads where it led: its
own path is not lost, no other file is missing on the way to it, and no other path is lost there. -/
structure Clear (files : SettingsFiles) (d : Disk) (spot : Scope → Disk.Spot) (scope : Scope) :
    Prop where
  cwd : ∃ n, d.root.at? d.cwd = some n
  collapsed : Path.IsCollapsed (files.path scope)
  nul : '\x00' ∈ files.path scope → '\x00' ∈ Path.parent (files.path scope)
  leads : ∀ s, d.Leads (files.path s) (spot s)
  not_lost : ∀ q, spot scope ≠ .lost q
  apart : ∀ s q q', spot s = .file q → spot scope = .file q' → q <+: q' → q ≠ q' →
    ∃ n, d.root.at? q = some n
  free : ∀ s q q', spot s = .lost q → spot scope = .file q' → ¬ q <+: q'

/-- Without links this is a matter of names: no other file is missing on the way to the one. -/
theorem clear_of_isName (hd : d.root.LinkFree) (hcwd : ∃ n, d.root.at? d.cwd = some n)
    (hpossible : ∀ s, '\x00' ∉ files.path s ∧ files.path s ≠ [] ∧
      (Utf8.encode (files.path s)).length < Disk.pathLimit)
    (hnames : ∀ s, ∀ m ∈ Disk.walkNames (files.path s),
      Path.IsName m ∧ (Utf8.encode m).length ≤ Disk.longestName)
    {place : Scope → List Text}
    (hplace : ∀ s, d.start (files.path s) ++ Disk.walkNames (files.path s) = place s)
    {scope : Scope} (hcollapsed : Path.IsCollapsed (files.path scope))
    (hapart : ∀ s, place s <+: place scope → place s ≠ place scope →
      ∃ n, d.root.at? (place s) = some n) :
    files.Clear d (fun s => .file (place s)) scope where
  cwd := hcwd
  collapsed := hcollapsed
  nul hnul := absurd hnul (hpossible scope).1
  leads s := by
    obtain ⟨hnul, hne, hlimit⟩ := hpossible s
    rw [← hplace s]
    exact Disk.leads_of_isName hd hcwd hnul hne hlimit (fun m hm => (hnames s m hm).1)
      fun m hm => (hnames s m hm).2
  not_lost q := nofun
  apart s q q' hq hq' hbefore hne := by
    obtain rfl := Disk.Spot.file.inj hq
    obtain rfl := Disk.Spot.file.inj hq'
    exact hapart s hbefore hne
  free s q q' := nofun

namespace Clear

variable {scope : Scope} (h : files.Clear d spot scope)

include h

/-- A file is read as before if nothing has changed at its place. -/
theorem bytes?_of_standing {d' : Disk} (hd : Disk.Grown d d') {s : Scope}
    (hkept : ∀ q, spot s = .file q ∨ spot s = .lost q → d'.standing q = d.standing q) :
    d'.bytes? (files.path s) = d.bytes? (files.path s) := by
  have hleads := h.leads s
  cases hs : spot s with
  | nowhere =>
    rw [hs] at hleads
    exact hleads.bytes?_of_nowhere h.cwd hd
  | lost q =>
    rw [hs] at hleads
    have hfree := hleads.standing_of_lost
    rw [hleads.bytes?_of_lost hd ((hkept q (.inr hs)).trans hfree),
      hleads.bytes?_of_lost (Disk.Grown.refl d) hfree]
  | file q =>
    rw [hs] at hleads
    rw [hleads.bytes?_of_file h.cwd hd, hleads.bytes?_of_file h.cwd (Disk.Grown.refl d),
      hkept q (.inl hs)]

/-- Making the directory of the file changes nothing at the places of the files. -/
theorem standing_of_opened {d₁ : Disk} (hd : Disk.Opened d d₁ (spot scope)) {s : Scope}
    {q : List Text} (hq : spot s = .file q ∨ spot s = .lost q) : d₁.standing q = d.standing q := by
  refine hd.kept q fun q' hq' hbefore hne => ?_
  rcases hq with hq | hq
  · exact h.apart s q q' hq hq' hbefore hne
  · exact absurd hbefore (h.free s q q' hq hq')

/-- At one place one file is read. -/
theorem bytes?_of_same {s : Scope} {q : List Text} (hs : spot s = .file q)
    (hq : spot scope = .file q) {held : Option (List UInt8)}
    (hbytes : d.bytes? (files.path scope) = .ok held) : d.bytes? (files.path s) = .ok held := by
  have hleads := h.leads scope
  have hleads' := h.leads s
  rw [hq] at hleads
  rw [hs] at hleads'
  rw [hleads.bytes?_of_file h.cwd (Disk.Grown.refl d)] at hbytes
  rw [hleads'.bytes?_of_file h.cwd (Disk.Grown.refl d)]
  rcases hstanding : d.standing q with _ | (_ | bytes)
  · rw [hstanding] at hbytes
    exact hbytes
  · rw [hstanding] at hbytes
    cases hbytes
  · rw [hstanding] at hbytes
    exact hbytes

/-- All files stay as they are, or one is opened that can be updated, and is written as far as it
can be. -/
theorem writeSetting_cases {outcome : Except Failure Unit} {d' : Disk}
    (hwrite : writeSetting format d (files.path scope) key value = (outcome, d')) :
    (∃ e, outcome = .error e ∧ ∀ s, d'.bytes? (files.path s) = d.bytes? (files.path s)) ∨
      ∃ es, (∀ s, spot s = spot scope → Previously (contents format d (files.path s)) es) ∧
        let written := format.write (putBy Scalar.sameKey (.text key) value es)
        outcome = written.outcome ∧ files.Rewritten d d' spot scope written.text := by
  rcases SettingsFiles.writeSetting_cases hwrite with ⟨e, rfl, rfl⟩ | ⟨es, hes, hrest⟩
  · exact .inl ⟨e, rfl, fun _ => rfl⟩
  · -- The file could be read, so its path is no obstacle to making its directory.
    obtain ⟨held, hbytes⟩ : ∃ held, d.bytes? (files.path scope) = .ok held := by
      rw [contents_eq_bind] at hes
      obtain ⟨c, hc, -⟩ := bind_eq_ok hes
      obtain ⟨held, hheld, -⟩ := bind_eq_ok hc
      exact ⟨held, eq_ok_of_mapError hheld⟩
    have hpresent : ∃ b, d.presentOrFail (files.path scope) = .ok b := by
      obtain ⟨b, hb, -⟩ := bind_eq_ok hbytes
      exact ⟨b, hb⟩
    have hopened := (h.leads scope).tryDirectories h.not_lost h.cwd h.collapsed h.nul hpresent
    rcases hrest with ⟨e, rfl, rfl⟩ | ⟨houtcome, hwritten⟩
    · refine .inl ⟨e, rfl, fun s => h.bytes?_of_standing hopened.grown fun q hq => ?_⟩
      exact h.standing_of_opened hopened hq
    · obtain ⟨q, hq, hgrown, hself, hother⟩ :=
        (h.leads scope).writeText h.not_lost h.cwd hopened.grown hbytes hwritten
      have hd' := hopened.grown.trans hgrown
      refine .inr ⟨es, fun s hs => ?_, houtcome, fun s hs => ?_, fun s hs => ?_⟩
      · have hprevious := previously_of_updatable hes
        rw [contents_eq_bind, hbytes] at hprevious
        rw [contents_eq_bind, h.bytes?_of_same (hs.trans hq) hq hbytes]
        exact hprevious.rename
      · have hleads := h.leads s
        rw [hs, hq] at hleads
        rw [hleads.bytes?_of_file h.cwd hd', hself]
        rfl
      · -- Another file is elsewhere, or its path is lost elsewhere.
        refine h.bytes?_of_standing hd' fun q' hq' => ?_
        have hne : q' ≠ q := by
          rintro rfl
          rcases hq' with hq' | hq'
          · exact hs (hq'.trans hq.symm)
          · exact h.free s q' q' hq' hq (List.prefix_refl q')
        rw [hother q' hne, h.standing_of_opened hopened hq']

end Clear

/-! ### What is loaded -/

/-- Files with the same obstacles and warnings are loaded alike, each with its own entries. -/
theorem mergeLayers_congr {d' : Disk} {scopes : List Scope}
    (hsame : ∀ s ∈ scopes,
      obstacle? (contents format d' (files.path s)) = obstacle? (contents format d (files.path s)) ∧
      warning? (files.path s) (contents format d' (files.path s))
        = warning? (files.path s) (contents format d (files.path s)))
    (lower lower' : List (Scalar × Data)) :
    (mergeLayers format d' lower' (scopes.map files.path)).2
        = (mergeLayers format d lower (scopes.map files.path)).2 ∧
      ((∃ e, (mergeLayers format d lower (scopes.map files.path)).1 = .error e ∧
          (mergeLayers format d' lower' (scopes.map files.path)).1 = .error e) ∨
        ((mergeLayers format d lower (scopes.map files.path)).1
            = .ok ((scopes.map fun s => ownEntries (contents format d (files.path s))).foldl
              mergeEntries lower) ∧
          (mergeLayers format d' lower' (scopes.map files.path)).1
            = .ok ((scopes.map fun s => ownEntries (contents format d' (files.path s))).foldl
              mergeEntries lower'))) := by
  induction scopes generalizing lower lower' with
  | nil => exact ⟨rfl, .inr ⟨rfl, rfl⟩⟩
  | cons s scopes ih =>
    obtain ⟨hobstacle, hwarning⟩ := hsame s List.mem_cons_self
    rw [List.map_cons]
    -- Either the first file ends both loadings, or it is laid over what is there.
    cases hs : obstacle? (contents format d (files.path s)) with
    | some e =>
      rw [mergeLayers, mergeLayers, layer_of_obstacle hs, layer_of_obstacle (hobstacle.trans hs)]
      exact ⟨rfl, .inl ⟨e, rfl, rfl⟩⟩
    | none =>
      rw [mergeLayers, mergeLayers, layer_of_no_obstacle hs,
        layer_of_no_obstacle (hobstacle.trans hs), hwarning]
      obtain ⟨hevents, hrest⟩ := ih (fun s' hs' => hsame s' (List.mem_cons_of_mem _ hs'))
        (mergeEntries lower (ownEntries (contents format d (files.path s))))
        (mergeEntries lower' (ownEntries (contents format d' (files.path s))))
      exact ⟨congrArg (_ ++ ·) hevents, hrest⟩

/-- What is loaded before and after a key was set: the same failure, or at every other key the same
value, and all in all the given maps laid over each other. -/
inductive Reloaded (key : Text) (maps : List (List (Scalar × Data))) :
    Except Failure (List (Scalar × Data)) → Except Failure (List (Scalar × Data)) → Prop
  | failed (e : Failure) : Reloaded key maps (.error e) (.error e)
  | loaded {before after : List (Scalar × Data)} :
    (∀ k : Scalar, k.key ≠ (Scalar.text key).key →
      Option.Rel Reordered (getBy? Scalar.sameKey k after) (getBy? Scalar.sameKey k before)) →
    (Data.map after).Reordered (.map (mergeAll maps)) → Reloaded key maps (.ok before) (.ok after)

/-- The value of a key in the maps of some scopes laid over each other. -/
theorem rel_mergeAll {k : Scalar} {own own' : Scope → List (Scalar × Data)} (scopes : List Scope)
    (h : ∀ s, (Data.map (own s)).KeysOnce ∧ (Data.map (own' s)).KeysOnce ∧
      Option.Rel Reordered (getBy? Scalar.sameKey k (own s)) (getBy? Scalar.sameKey k (own' s))) :
    Option.Rel Reordered (getBy? Scalar.sameKey k (mergeAll (scopes.map own)))
      (getBy? Scalar.sameKey k (mergeAll (scopes.map own'))) :=
  rel_foldl_mergeEntries (rel_refl _) (List.forall₂_map_left_iff.mpr <|
    List.forall₂_map_right_iff.mpr <| List.forall₂_same.mpr fun s _ => h s)

/-- Some files hold what they held but for one key, and the others what they held. -/
theorem reloaded_of_changed {d' : Disk} {es : List (Scalar × Data)} (hkeys : format.KeysOnce)
    (hvalue : value.KeysOnce) {changed : Scope → Prop} [DecidablePred changed]
    (hchanged : ∀ s, changed s → Previously (contents format d (files.path s)) es ∧
      ∃ es', contents format d' (files.path s) = .ok (.document (.map es')) ∧
        (Data.map es').Reordered (.map (putBy Scalar.sameKey (.text key) value es)))
    (hkept : ∀ s, ¬ changed s →
      contents format d' (files.path s) = contents format d (files.path s)) :
    (files.merged format d').2 = (files.merged format d).2 ∧
      Reloaded key (Scope.all.map fun s => if changed s then putBy Scalar.sameKey (.text key) value es
          else ownEntries (contents format d (files.path s)))
        (files.merged format d).1 (files.merged format d').1 := by
  have hsame : ∀ s ∈ Scope.all, obstacle? (contents format d' (files.path s))
        = obstacle? (contents format d (files.path s)) ∧
      warning? (files.path s) (contents format d' (files.path s))
        = warning? (files.path s) (contents format d (files.path s)) := by
    intro s _
    by_cases hs : changed s
    · obtain ⟨hprevious, es', hes', -⟩ := hchanged s hs
      rw [hes', hprevious.obstacle_eq, hprevious.warning_eq]
      exact ⟨rfl, rfl⟩
    · rw [hkept s hs]
      exact ⟨rfl, rfl⟩
  obtain ⟨hevents, ⟨e, hbefore, hafter⟩ | ⟨hbefore, hafter⟩⟩ := mergeLayers_congr hsame [] []
  · refine ⟨hevents, ?_⟩
    rw [merged, merged, hbefore, hafter]
    exact .failed e
  · refine ⟨hevents, ?_⟩
    rw [merged, merged, hbefore, hafter]
    refine .loaded (fun k hk => rel_mergeAll Scope.all fun s => ?_)
      (reordered_map_iff.mpr fun k => rel_mergeAll Scope.all fun s => ?_)
    · -- At another key the updated entries have the value of the previous ones.
      refine ⟨keysOnce_own hkeys d' _, keysOnce_own hkeys d _, ?_⟩
      by_cases hs : changed s
      · obtain ⟨hprevious, es', hes', hreordered⟩ := hchanged s hs
        rw [hprevious.own_eq, hes', ← getBy?_putBy_of_ne hk value es]
        exact reordered_map_iff.mp hreordered k
      · rw [hkept s hs]
        exact rel_refl _
    · -- The changed files hold the updated entries, up to their order.
      by_cases hs : changed s
      · obtain ⟨hprevious, es', hes', hreordered⟩ := hchanged s hs
        have hown := hprevious.own_eq ▸ keysOnce_own hkeys d (files.path s)
        rw [if_pos hs]
        refine ⟨keysOnce_own hkeys d' _, hown.putBy _ hvalue, ?_⟩
        rw [hes']
        exact reordered_map_iff.mp hreordered k
      · rw [if_neg hs, hkept s hs]
        exact ⟨keysOnce_own hkeys d _, keysOnce_own hkeys d _, rel_refl _⟩

/-- **A setting is written, and nothing else changes.**  Let a setting be written, in any format whose
maps have each key once, to the file of a scope whose directory is in no other file's way.

If that fails, every file holds the bytes it held, unless it is the writing itself that fails: then
the file has lost what it held for what was written until then, and the others hold the bytes they
held.  A map that is read back is written to its end, so its writing does not fail.

If it succeeds, the file was missing, empty or a map, and the other files hold the bytes they held.
Where the map that was written is read back, the file now holds what it held with the one key set,
there are the same warnings as before when all files are loaded, and either both times the same
failure or at every other key the same value, and at the key what the files laid over each other have
there. -/
theorem update_framed (hkeys : format.KeysOnce) (hvalue : value.KeysOnce) {name : Text}
    {outcome : Except Failure Unit} {d' : Disk}
    (h : ∀ scope, Scope.ofName? name = some scope → files.Clear d spot scope)
    (hupdate : files.update format d name key value = (outcome, d')) :
    (∀ e, outcome = .error e →
      (∀ s, d'.bytes? (files.path s) = d.bytes? (files.path s)) ∨
      ∃ scope es, Scope.ofName? name = some scope ∧
        Previously (contents format d (files.path scope)) es ∧
        let written := format.write (putBy Scalar.sameKey (.text key) value es)
        written.failure = some e ∧ files.Rewritten d d' spot scope written.text) ∧
    (outcome = .ok () → ∃ scope es, Scope.ofName? name = some scope ∧
      Previously (contents format d (files.path scope)) es ∧
      let updated := putBy Scalar.sameKey (.text key) value es
      files.Rewritten d d' spot scope (format.write updated).text ∧
      (format.ReadsBack updated →
        (∃ es', contents format d' (files.path scope) = .ok (.document (.map es')) ∧
          (Data.map es').Reordered (.map updated)) ∧
        (files.merged format d').2 = (files.merged format d).2 ∧
        Reloaded key (Scope.all.map fun s => if spot s = spot scope then updated
            else ownEntries (contents format d (files.path s)))
          (files.merged format d).1 (files.merged format d').1)) := by
  unfold update at hupdate
  split at hupdate
  · cases hupdate
    exact ⟨fun _ _ => .inl fun _ => rfl, nofun⟩
  · rename_i scope hscope
    rcases (h scope hscope).writeSetting_cases hupdate with
      ⟨e, rfl, hsame⟩ | ⟨es, hprevious, houtcome, hrewritten⟩
    · exact ⟨fun _ _ => .inl hsame, nofun⟩
    · refine ⟨fun e he => .inr ⟨scope, es, hscope, hprevious scope rfl, ?_, hrewritten⟩,
        fun _ => ⟨scope, es, hscope, hprevious scope rfl, hrewritten, fun hback => ?_⟩⟩
      · exact Written.outcome_eq_error_iff.mp (houtcome.symm.trans he)
      · -- The files at the place of the chosen one hold the updated entries.
        have hchanged : ∀ s, spot s = spot scope → ∃ es',
            contents format d' (files.path s) = .ok (.document (.map es')) ∧
              (Data.map es').Reordered (.map (putBy Scalar.sameKey (.text key) value es)) := by
          intro s hs
          obtain ⟨es', hes', hsame⟩ := Contents.ofBytes_write hback
          rw [contents_eq_bind, hrewritten.self s hs]
          exact ⟨es', hes' _, hsame⟩
        refine ⟨hchanged scope rfl, reloaded_of_changed hkeys hvalue
          (fun s hs => ⟨hprevious s hs, hchanged s hs⟩) fun s hs => ?_⟩
        rw [contents_eq_bind, contents_eq_bind, hrewritten.other s hs]

/-- A setting is written to a file that was missing. -/
theorem update_of_absent {name : Text} {scope : Scope} {d₁ d' : Disk}
    (hscope : Scope.ofName? name = some scope)
    (habsent : contents format d (files.path scope) = .ok .absent)
    (hmake : d.makeDirectories (Path.parent (files.path scope)) = .ok d₁)
    (hwrite : d₁.writeText (files.path scope) (format.write [(.text key, value)]).text = .ok d')
    (hback : format.ReadsBack [(.text key, value)]) :
    files.update format d name key value = (.ok (), d') := by
  have hes : contents format d (files.path scope) >>= updatable = .ok [] := by
    rw [habsent]
    rfl
  rw [update, hscope]
  exact writeSetting_eq_ok_iff.mpr ⟨[], hes, d₁, hmake, hwrite, hback.whole⟩

/-- A value for all projects is laid under that of the project, whose file stays as it is. -/
theorem update_framed_of_two_files :
    let directory : Text := ['.', 's', 't', 'y', 'l', 'e', 'p', 'a', 't', 'h']
    let shared : Text := ['s', 'e', 't', 't', 'i', 'n', 'g', 's', '.', 'y', 'a', 'm', 'l']
    let bytes : List UInt8 := [97, 58, 32, 123, 120, 58, 32, 49, 125, 10]
    let d : Disk :=
      { top := [(['p'], .directory [(directory, .directory [(shared, .file bytes 0)])])]
        cwd := [['p']] }
    let files := usual ['/', 'h'] ['/', 'p']
    let own : List (Scalar × Data) := [(.text ['a'], .map [(.text ['x'], .integer 1)])]
    let value : Data := .map [(.text ['y'], .integer 2)]
    ∃ d', files.update Yaml.format d "global" ['a'] value = (.ok (), d') ∧
      d'.bytes? (files.path .project) = .ok (some bytes) ∧
      Reloaded ['a'] [[(.text ['a'], value)], own, []]
        (files.merged Yaml.format d).1 (files.merged Yaml.format d').1 := by
  intro directory shared bytes d files own value
  let machine : Text :=
    ['s', 'e', 't', 't', 'i', 'n', 'g', 's', '.', 'l', 'o', 'c', 'a', 'l', '.', 'y', 'a', 'm', 'l']
  let place (s : Scope) : List Text :=
    if s = .user then [['h'], directory, shared]
    else if s = .project then [['p'], directory, shared] else [['p'], directory, machine]
  have hpath : ∀ s, files.path s = Disk.pathOf (place s) := by
    rintro (_ | _ | _) <;> decide +kernel
  have hfree : d.root.LinkFree := .ofEntries fun e he => by
    rw [List.mem_singleton.mp he]
    refine .ofEntries fun e he => ?_
    rw [List.mem_singleton.mp he]
    refine .ofEntries fun e he => ?_
    rw [List.mem_singleton.mp he]
    exact .file _ _
  have hcwd : ∃ n, d.root.at? d.cwd = some n := ⟨_, rfl⟩
  have hnotBefore : ∀ s, place s <+: place .user → place s = place .user := by
    rintro (_ | _ | _) <;> decide +kernel
  have hclear : files.Clear d (fun s => .file (place s)) .user := by
    refine clear_of_isName hfree hcwd ?_ ?_ ?_ ?_ ?_
    · rintro (_ | _ | _) <;> rw [hpath] <;> decide +kernel
    · rintro (_ | _ | _) <;> rw [hpath] <;> decide +kernel
    · rintro (_ | _ | _) <;> rw [hpath] <;> decide +kernel
    · exact isCollapsed_usual _ _ _
    · exact fun s hbefore hne => absurd (hnotBefore s hbefore) hne
  -- What is written is read back, and stays closed while the disks are computed.
  have hread : Yaml.read (Yaml.write [(.text ['a'], value)])
      = .ok (.map [(.text ['a'], value)]) := by decide +kernel
  have hback := Yaml.readsBack_of_read (by decide) hread (Data.Reordered.refl _)
  obtain ⟨written, hwritten⟩ : ∃ written,
      Utf8.encode (Yaml.format.write [(.text ['a'], value)]).text = written := ⟨_, rfl⟩
  have habsent : contents Yaml.format d (files.path .user) = .ok .absent := by
    rw [contents_eq_absent_iff, hpath]
    cbv
  have hown : contents Yaml.format d (files.path .project) = .ok (.document (.map own)) := by
    have hlookup : d.lookup (Disk.pathOf (place .project))
        = .ok (place .project, .file bytes 0) := by cbv
    have hdecode : Utf8.decode bytes = .ok "a: \x7bx: 1\x7d\n" := by decide +kernel
    rw [hpath, contents_of_lookup hlookup]
    exact Contents.ofBytes_of_read hdecode (Yaml.format_read (by decide +kernel))
  have hmachine : contents Yaml.format d (files.path .machine) = .ok .absent := by
    rw [contents_eq_absent_iff, hpath]
    cbv
  let project : Node := .directory [(directory, .directory [(shared, .file bytes 0)])]
  obtain ⟨d₁, hmake, hwrite⟩ : ∃ d₁, d.makeDirectories (Path.parent (files.path .user)) = .ok d₁ ∧
      d₁.writeText (files.path .user) (Yaml.format.write [(.text ['a'], value)]).text = .ok
        { top := [(['p'], project),
            (['h'], .directory [(directory, .directory [(shared, .file written 0)])])]
          cwd := [['p']] } := by
    have hparent : Path.parent (Disk.pathOf (place .user)) = Disk.pathOf [['h'], directory] := by
      decide +kernel
    rw [hpath]
    exact Disk.exists_made hparent hwritten (by cbv) (by cbv)
  have hupdate : files.update Yaml.format d "global" ['a'] value = (.ok (), _) :=
    update_of_absent rfl habsent hmake hwrite hback
  have hvalue : value.KeysOnce := .map (by decide) fun e he => by
    rw [List.mem_singleton.mp he]
    exact .scalar _
  have hclear : ∀ scope, Scope.ofName? "global" = some scope →
      files.Clear d (fun s => .file (place s)) scope := by
    intro scope hscope
    obtain rfl : .user = scope := Option.some.inj hscope
    exact hclear
  obtain ⟨scope, es, hscope, hprevious, hrewritten, hloaded⟩ :=
    (update_framed Yaml.keysOnce_format hvalue hclear hupdate).2 rfl
  obtain rfl : .user = scope := Option.some.inj hscope
  rw [habsent] at hprevious
  cases hprevious
  refine ⟨_, hupdate, ?_, ?_⟩
  · rw [hrewritten.other .project (by decide +kernel), hpath]
    cbv
  · obtain ⟨-, -, hreloaded⟩ := hloaded hback
    have hput : putBy Scalar.sameKey (.text ['a']) value [] = [(.text ['a'], value)] := rfl
    simpa [Scope.all, hown, hmachine, place, ownEntries, map?, hput] using hreloaded

/-- The directory of one file may be made where another file belongs, which was missing and cannot be
read any more. -/
theorem update_in_the_way :
    let directory : Text := ['.', 's', 't', 'y', 'l', 'e', 'p', 'a', 't', 'h']
    let shared : Text := ['s', 'e', 't', 't', 'i', 'n', 'g', 's', '.', 'y', 'a', 'm', 'l']
    let project : Text := Disk.pathOf [['p'], directory, shared]
    let d : Disk := { top := [(['p'], .directory [])], cwd := [['p']] }
    let files := usual project ['/', 'p']
    Yaml.format.ReadsBack [(.text ['a'], .boolean true)] ∧
      files.merged Yaml.format d = (.ok [], []) ∧
      ∃ d', files.update Yaml.format d "global" ['a'] (.boolean true) = (.ok (), d') ∧
        d.bytes? (files.path .project) = .ok none ∧
        d'.bytes? (files.path .project) = .error (.system (.isDirectory project)) ∧
        files.merged Yaml.format d' = (.error (.read (.system (.isDirectory project))), []) := by
  intro directory shared project d files
  let machine : Text :=
    ['s', 'e', 't', 't', 'i', 'n', 'g', 's', '.', 'l', 'o', 'c', 'a', 'l', '.', 'y', 'a', 'm', 'l']
  let place (s : Scope) : List Text :=
    if s = .user then [['p'], directory, shared, directory, shared]
    else if s = .project then [['p'], directory, shared] else [['p'], directory, machine]
  have hpath : ∀ s, files.path s = Disk.pathOf (place s) := by
    rintro (_ | _ | _) <;> decide +kernel
  let es : List (Scalar × Data) := [(.text ['a'], .boolean true)]
  have hread : Yaml.read (Yaml.write es) = .ok (.map es) := by decide +kernel
  have hback := Yaml.readsBack_of_read (by decide) hread (Data.Reordered.refl _)
  have habsent : ∀ s, contents Yaml.format d (files.path s) = .ok .absent := by
    intro s
    rw [contents_eq_absent_iff, hpath]
    cases s <;> cbv
  obtain ⟨written, hwritten⟩ : ∃ written, Utf8.encode (Yaml.format.write es).text = written :=
    ⟨_, rfl⟩
  let inner : Node := .directory [(directory, .directory [(shared, .file written 0)])]
  let d' : Disk :=
    { top := [(['p'], .directory [(directory, .directory [(shared, inner)])])], cwd := [['p']] }
  obtain ⟨d₁, hmake, hwrite⟩ : ∃ d₁, d.makeDirectories (Path.parent (files.path .user)) = .ok d₁ ∧
      d₁.writeText (files.path .user) (Yaml.format.write es).text = .ok d' := by
    have hparent : Path.parent (Disk.pathOf (place .user))
        = Disk.pathOf [['p'], directory, shared, directory] := by decide +kernel
    rw [hpath]
    exact Disk.exists_made hparent hwritten (by cbv) (by cbv)
  have hupdate : files.update Yaml.format d "global" ['a'] (.boolean true) = (.ok (), d') :=
    update_of_absent rfl (habsent .user) hmake hwrite hback
  have hblocked : d'.bytes? (files.path .project) = .error (.system (.isDirectory project)) := by
    rw [hpath]
    cbv
  have huser : d'.bytes? (files.path .user) = .ok (some written) := by
    rw [hpath]
    cbv
  refine ⟨hback, ?_, d', hupdate, ?_, hblocked, ?_⟩
  · exact mergeLayers_of_no_obstacle habsent (fun _ _ => rfl) []
  · rw [hpath]
    cbv
  · -- The user's file is laid down, and at the project's the loading ends.
    obtain ⟨es', hes', -⟩ := Contents.ofBytes_write hback
    have hloaded : contents Yaml.format d' (files.path .user) = .ok (.document (.map es')) := by
      rw [contents_eq_bind, huser, ← hwritten]
      exact hes' _
    have hfailed : contents Yaml.format d' (files.path .project)
        = .error (.read (.system (.isDirectory project))) := by
      rw [contents_eq_bind, hblocked]
      rfl
    rw [merged, show Scope.all = [.user] ++ .project :: [.machine] from rfl,
      mergeLayers_of_obstacle (fun _ => rfl) (by simp [hloaded, obstacle?])
        (by rw [hfailed]; rfl)]
    simp [hloaded, warning?]

end SettingsFiles

end StyleImport
