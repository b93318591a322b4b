/-
Settings files that are skipped.

A file that is missing, or is no document, leaves what was merged before as it is, and so does a
document that is nothing, false, zero or empty.  Two kinds of files do more harm than that: one whose
bytes are found to be no text before anything else is wrong with them, and one whose document is
something but no map.  The first such file ends the loading of all three.

* `SettingsFiles.merged_skips` — what is loaded, for any bytes in the files and any format;
* `SettingsFiles.list_stops_loading` — a list in one file takes the settings of the others along.
-/
import Mathlib.Tactic.Common
import StyleImport.Proofs.Settings.Layers

namespace StyleImport

namespace SettingsFiles

variable {format : DocumentFormat} {disk : Disk} {path : Text} {files : SettingsFiles}

/-! ### Bytes and what they come to -/

/-- What is at the path of a settings file: nothing, or a file of some bytes. -/
def Consists (disk : Disk) (path : Text) : Option (List UInt8) → Prop
  | none => disk.presentOrFail path = .ok false
  | some bytes => ∃ names modified, disk.lookup path = .ok (names, .file bytes modified)

/-- What a settings file of some bytes holds, or why it cannot be read. -/
def contentsOf (format : DocumentFormat) (path : Text) :
    Option (List UInt8) → Except Failure Contents
  | none => .ok .absent
  | some bytes => Contents.ofBytes format path bytes

/-- The map that a settings file holds, if it holds one: the empty document is an empty map. -/
def map? : Except Failure Contents → Option (List (Scalar × Data))
  | .ok (.document (.map es)) => some es
  | .ok (.document (.scalar .null)) => some []
  | _ => none

/-- The warning that a settings file is skipped. -/
def warning? (path : Text) : Except Failure Contents → Option Event
  | .ok (.malformed reason) => some (skipped path reason)
  | _ => none

/-- The failure that a settings file ends the loading with: its bytes are no text, or its document
is something but no map. -/
def obstacle? : Except Failure Contents → Option Failure
  | .error e => some e
  | .ok (.document (.map _)) => none
  | .ok (.document d) => if d.isTrue then some .notAMap else none
  | .ok _ => none

theorem Consists.contents_eq {bytes : Option (List UInt8)} (h : Consists disk path bytes) :
    contents format disk path = contentsOf format path bytes := by
  cases bytes with
  | none =>
    have hpresent : disk.presentOrFail path = .ok false := h
    rw [contents, hpresent]
    rfl
  | some bytes =>
    obtain ⟨names, modified, hlookup⟩ := h
    exact contents_of_lookup hlookup

/-! ### Layer by layer -/

theorem layer_of_obstacle {e : Failure} (h : obstacle? (contents format disk path) = some e) :
    layer format disk path = (.error e, []) := by
  unfold layer
  cases hcontents : contents format disk path with
  | error e' =>
    rw [hcontents] at h
    rw [Option.some.inj h]
  | ok held =>
    rw [hcontents] at h
    cases held with
    | absent => cases h
    | malformed reason => cases h
    | document d =>
      cases d with
      | map es => cases h
      | scalar s | list items =>
        -- It is something, since it would be passed over otherwise.
        dsimp only [obstacle?] at h
        dsimp only [entries]
        split at h
        · rw [if_pos ‹_›, Option.some.inj h]
        · cases h

theorem layer_of_no_obstacle (h : obstacle? (contents format disk path) = none) :
    layer format disk path
      = (.ok ((map? (contents format disk path)).getD []),
          (warning? path (contents format disk path)).toList) := by
  unfold layer
  cases hcontents : contents format disk path with
  | error e =>
    rw [hcontents] at h
    cases h
  | ok held =>
    rw [hcontents] at h
    cases held with
    | absent => rfl
    | malformed reason => rfl
    | document d =>
      cases d with
      | map es => rfl
      | list items =>
        cases items with
        | nil => rfl
        | cons d ds => cases h
      | scalar s =>
        dsimp only [obstacle?] at h
        dsimp only [entries]
        split at h
        · cases h
        · rw [if_neg ‹_›]
          cases s <;> rfl

section

variable {held : Scope → Except Failure Contents}
  (hheld : ∀ scope, contents format disk (files.path scope) = held scope)

include hheld

/-- Files that can be loaded are laid over what is there, in their order. -/
theorem mergeLayers_of_no_obstacle {scopes : List Scope}
    (h : ∀ scope ∈ scopes, obstacle? (held scope) = none) (lower : List (Scalar × Data)) :
    mergeLayers format disk lower (scopes.map files.path)
      = (.ok ((scopes.filterMap fun scope => map? (held scope)).foldl Data.mergeEntries lower),
          scopes.filterMap fun scope => warning? (files.path scope) (held scope)) := by
  induction scopes generalizing lower with
  | nil => rfl
  | cons scope scopes ih =>
    have hfirst : obstacle? (contents format disk (files.path scope)) = none := by
      rw [hheld]
      exact h scope List.mem_cons_self
    have hrest := ih fun scope' hscope' => h scope' (List.mem_cons_of_mem _ hscope')
    rw [List.map_cons, mergeLayers, layer_of_no_obstacle hfirst, hheld]
    dsimp only
    rw [hrest]
    -- A file without a map counts like an empty one, and a file without a warning adds none.
    cases hmap : map? (held scope) <;>
      cases hwarning : warning? (files.path scope) (held scope) <;>
      simp [hmap, hwarning, Data.mergeEntries]

/-- The first file that cannot be loaded ends the loading. -/
theorem mergeLayers_of_obstacle {before after : List Scope} {scope : Scope} {e : Failure}
    (hbefore : ∀ scope ∈ before, obstacle? (held scope) = none)
    (h : obstacle? (held scope) = some e) (lower : List (Scalar × Data)) :
    mergeLayers format disk lower ((before ++ scope :: after).map files.path)
      = (.error e, before.filterMap fun scope => warning? (files.path scope) (held scope)) := by
  induction before generalizing lower with
  | nil =>
    rw [List.nil_append, List.map_cons, mergeLayers, layer_of_obstacle ((hheld scope).symm ▸ h)]
    rfl
  | cons first before ih =>
    have hfirst : obstacle? (contents format disk (files.path first)) = none := by
      rw [hheld]
      exact hbefore first List.mem_cons_self
    have hrest := ih fun scope' hscope' => hbefore scope' (List.mem_cons_of_mem _ hscope')
    rw [List.cons_append, List.map_cons, mergeLayers, layer_of_no_obstacle hfirst, hheld]
    dsimp only
    rw [hrest]
    cases hwarning : warning? (files.path first) (held first) <;> simp [hwarning]

end

theorem obstacle_cases {bytes : Option (List UInt8)} {e : Failure}
    (h : obstacle? (contentsOf format path bytes) = some e) :
    e = .notAMap ∨ ∃ f, e = .read (.undecodable f) := by
  cases bytes with
  | none => cases h
  | some bytes =>
    simp only [contentsOf, Contents.ofBytes] at h
    cases hdecode : Utf8.decode bytes with
    | error f =>
      rw [hdecode] at h
      dsimp only at h
      split at h
      · cases h
      · exact .inr ⟨f, (Option.some.inj h).symm⟩
    | ok t =>
      left
      rw [hdecode] at h
      dsimp only at h
      split at h
      · rename_i d _
        cases d with
        | map es => cases h
        | scalar s | list items =>
          dsimp only [obstacle?] at h
          split at h
          · exact (Option.some.inj h).symm
          · cases h
      · cases h

/-- **A settings file that is no map is skipped, if its bytes are text and its document is nothing,
false, zero, empty or none at all.**  Let each of the three files be missing or have any bytes, and
let texts be read in any format.  If no file has bytes that turn out to be no text or a document that
is something but no map, the maps in the files are laid over each other in the order of the scopes,
and there is a warning for each file that is no document.  Otherwise the first file of that kind ends
the loading. -/
theorem merged_skips {bytes : Scope → Option (List UInt8)}
    (h : ∀ scope, Consists disk (files.path scope) (bytes scope)) :
    let held scope := contentsOf format (files.path scope) (bytes scope)
    ((∀ scope, obstacle? (held scope) = none) →
      files.merged format disk
        = (.ok (Data.mergeAll (Scope.all.filterMap fun scope => map? (held scope))),
            Scope.all.filterMap fun scope => warning? (files.path scope) (held scope))) ∧
    (∀ before scope after e, Scope.all = before ++ scope :: after →
      (∀ scope' ∈ before, obstacle? (held scope') = none) → obstacle? (held scope) = some e →
      (e = .notAMap ∨ ∃ f, e = .read (.undecodable f)) ∧
        files.merged format disk
          = (.error e,
              before.filterMap fun scope => warning? (files.path scope) (held scope))) := by
  intro held
  have hheld (scope : Scope) : contents format disk (files.path scope) = held scope :=
    (h scope).contents_eq
  constructor
  · intro hnone
    exact mergeLayers_of_no_obstacle hheld (fun scope _ => hnone scope) []
  · intro before scope after e hall hbefore hobstacle
    refine ⟨obstacle_cases hobstacle, ?_⟩
    unfold merged
    rw [hall]
    exact mergeLayers_of_obstacle hheld hbefore hobstacle []

/-! ### Two files -/

/-- A user's file with one setting, and a project's file of given bytes. -/
def twoFiles (bytes : List UInt8) : Disk where
  top := [(['u'], .file (Utf8.encode ['x', ':', ' ', '1', '\n']) 0), (['p'], .file bytes 0)]

/-- The paths of the two files, and of a third that is missing. -/
def twoPaths : SettingsFiles where
  path
    | .user => ['/', 'u']
    | .project => ['/', 'p']
    | .machine => ['/', 'm']

/-- What the three paths lead to. -/
def twoContents (bytes : List UInt8) : Scope → Option (List UInt8)
  | .user => some (Utf8.encode ['x', ':', ' ', '1', '\n'])
  | .project => some bytes
  | .machine => none

theorem consists_twoFiles (bytes : List UInt8) (scope : Scope) :
    Consists (twoFiles bytes) (twoPaths.path scope) (twoContents bytes scope) := by
  cases scope with
  | user => exact ⟨[['u']], 0, by cbv⟩
  | project => exact ⟨[['p']], 0, by cbv⟩
  | machine =>
    show (twoFiles bytes).presentOrFail ['/', 'm'] = .ok false
    cbv

theorem contentsOf_document {t : Text} {d : Data}
    (hread : Yaml.read (Utf8.translateNewlines t) = .ok d) :
    contentsOf Yaml.format path (some (Utf8.encode t)) = .ok (.document d) :=
  Contents.ofBytes_of_read (Utf8.decode_encode t) (Yaml.format_read hread)

theorem contentsOf_user (bytes : List UInt8) :
    contentsOf Yaml.format (twoPaths.path .user) (twoContents bytes .user)
      = .ok (.document (.map [(.text ['x'], .integer 1)])) :=
  contentsOf_document (t := ['x', ':', ' ', '1', '\n']) (by decide +kernel)

theorem obstacle_user (bytes : List UInt8) : ∀ scope ∈ [Scope.user],
    obstacle? (contentsOf Yaml.format (twoPaths.path scope) (twoContents bytes scope)) = none := by
  intro scope hscope
  rw [List.mem_singleton.mp hscope, contentsOf_user]
  rfl

theorem contentsOf_control :
    contentsOf Yaml.format (twoPaths.path .project) (twoContents [1] .project)
      = .ok (.malformed ((Yaml.Defect.unprintable (Char.ofNat 1) 0).message ['/', 'p'])) := by
  have hdecode : Utf8.decode [1] = .ok [Char.ofNat 1] := by decide +kernel
  have hread : Yaml.read (Utf8.translateNewlines [Char.ofNat 1])
      = .error (.unprintable (Char.ofNat 1) 0) := by decide +kernel
  show Contents.ofBytes Yaml.format ['/', 'p'] [1] = _
  simp only [Contents.ofBytes, hdecode, Yaml.format, hread, Except.mapError]

theorem contentsOf_list :
    contentsOf Yaml.format (twoPaths.path .project)
        (twoContents (Utf8.encode ['-', ' ', 'a', '\n']) .project)
      = .ok (.document (.list [.text ['a']])) :=
  contentsOf_document (t := ['-', ' ', 'a', '\n']) (by decide +kernel)

/-- Where the project's file holds a control character, the user's setting is loaded all the same;
a list in the project's file ends the loading. -/
theorem merged_of_twoFiles :
    twoPaths.merged Yaml.format (twoFiles [1])
      = (.ok [(.text ['x'], .integer 1)], [skipped ['/', 'p']
          ((Yaml.Defect.unprintable (Char.ofNat 1) 0).message ['/', 'p'])]) ∧
    twoPaths.merged Yaml.format (twoFiles (Utf8.encode ['-', ' ', 'a', '\n']))
      = (.error .notAMap, []) := by
  constructor
  · have hnone : ∀ scope, obstacle?
        (contentsOf Yaml.format (twoPaths.path scope) (twoContents [1] scope)) = none := by
      intro scope
      cases scope with
      | user =>
        rw [contentsOf_user]
        rfl
      | project =>
        rw [contentsOf_control]
        rfl
      | machine => rfl
    have h := (merged_skips (consists_twoFiles [1])).1 hnone
    simp only [Scope.all, List.filterMap_cons, List.filterMap_nil, contentsOf_user,
      contentsOf_control] at h
    exact h
  · have h := ((merged_skips (consists_twoFiles _)).2 [.user] .project [.machine] .notAMap rfl
      (obstacle_user _) (congrArg obstacle? contentsOf_list)).2
    simp only [List.filterMap_cons, List.filterMap_nil, contentsOf_user] at h
    exact h

/-- A list in the project's file takes the user's setting along, and so does a byte that is no
text. -/
theorem list_stops_loading :
    (Scope.all.filterMap fun scope => map? (contentsOf Yaml.format (twoPaths.path scope)
        (twoContents (Utf8.encode ['-', ' ', 'a', '\n']) scope)))
      = [[(.text ['x'], .integer 1)]] ∧
    (∀ scope, Consists (twoFiles (Utf8.encode ['-', ' ', 'a', '\n'])) (twoPaths.path scope)
      (twoContents (Utf8.encode ['-', ' ', 'a', '\n']) scope)) ∧
    twoPaths.merged Yaml.format (twoFiles (Utf8.encode ['-', ' ', 'a', '\n']))
      = (.error .notAMap, []) ∧
    twoPaths.merged Yaml.format (twoFiles [0xff])
      = (.error (.read (.undecodable ⟨0xff, 0, 1, .invalidStart⟩)), []) := by
  have hmerged {bytes : List UInt8} {e : Failure}
      (h : obstacle? (contentsOf Yaml.format (twoPaths.path .project)
        (twoContents bytes .project)) = some e) :
      twoPaths.merged Yaml.format (twoFiles bytes) = (.error e, []) := by
    have hheld (scope : Scope) :
        contents Yaml.format (twoFiles bytes) (twoPaths.path scope)
          = contentsOf Yaml.format (twoPaths.path scope) (twoContents bytes scope) :=
      (consists_twoFiles bytes scope).contents_eq
    have hmerge := @mergeLayers_of_obstacle _ _ _ _ hheld _ [.machine] _ _ (obstacle_user bytes) h []
    simp only [List.filterMap_cons, List.filterMap_nil, contentsOf_user] at hmerge
    exact hmerge
  refine ⟨?_, consists_twoFiles _, hmerged (congrArg obstacle? contentsOf_list), hmerged ?_⟩
  · simp only [Scope.all, List.filterMap_cons, List.filterMap_nil, contentsOf_user, contentsOf_list]
    rfl
  · have hdecode : Utf8.decode [0xff] = .error ⟨0xff, 0, 1, .invalidStart⟩ := by decide +kernel
    show obstacle? (Contents.ofBytes Yaml.format ['/', 'p'] [0xff]) = _
    simp only [Contents.ofBytes, hdecode]
    rfl

end SettingsFiles

end StyleImport
