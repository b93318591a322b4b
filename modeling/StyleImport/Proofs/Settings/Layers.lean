/-
Settings files laid over each other.

* `SettingsFiles.merged_of_contents` — three files that hold maps are merged in the order of their
  scopes;
* `SettingsFiles.most_specific_counts` — at every path the most specific file that has a value
  counts.
-/
import StyleImport.Proofs.Disk.Walk
import StyleImport.Proofs.Settings.Contents
import StyleImport.Proofs.Yaml.KeysOnce

namespace StyleImport

namespace SettingsFiles

open Data

variable {files : SettingsFiles} {disk : Disk}

theorem layer_of_map {format : DocumentFormat} {path : Text} {es : List (Scalar × Data)}
    (h : contents format disk path = .ok (.document (.map es))) :
    layer format disk path = (.ok es, []) := by
  rw [layer, h]
  rfl

theorem merged_of_contents {format : DocumentFormat} {user project machine : List (Scalar × Data)}
    (huser : contents format disk (files.path .user) = .ok (.document (.map user)))
    (hproject : contents format disk (files.path .project) = .ok (.document (.map project)))
    (hmachine : contents format disk (files.path .machine) = .ok (.document (.map machine))) :
    files.merged format disk = (.ok (mergeAll [user, project, machine]), []) := by
  show mergeLayers format disk [] [files.path .user, files.path .project, files.path .machine] = _
  simp only [mergeLayers, layer_of_map huser, layer_of_map hproject, layer_of_map hmachine]
  rfl

/-- **The most specific scope counts, at every depth.**  Entries with other ones laid over them are
as `Data.LaidOver` says: at each path the upper value counts, unless both are maps, which are merged
again, and where the upper entries have nothing and nothing is in the way, the lower ones count.
When the three settings files hold maps, in any format whose maps have each key once,

* they are laid over each other in the order of their scopes, and nothing is said about it;
* every value of the machine's file that is no map is what is there in the end;
* so is every such value of the project's file that the machine's file has nothing for and does not
  cut off.

Documents are nested as deep as one likes; that a machine can follow them only so deep is left out
of account. -/
theorem most_specific_counts :
    (∀ lower upper : List (Scalar × Data), (Data.map upper).KeysOnce →
      LaidOver (.map lower) (.map upper) (.map (mergeEntries lower upper))) ∧
    ∀ (format : DocumentFormat), format.KeysOnce →
      ∀ (files : SettingsFiles) (disk : Disk) (user project machine : List (Scalar × Data)),
      contents format disk (files.path .user) = .ok (.document (.map user)) →
      contents format disk (files.path .project) = .ok (.document (.map project)) →
      contents format disk (files.path .machine) = .ok (.document (.map machine)) →
      let merged := mergeEntries (mergeEntries user project) machine
      files.merged format disk = (.ok merged, []) ∧
      (∀ path v, (Data.map machine).at? path = some v → v.isMap = false →
        (Data.map merged).at? path = some v) ∧
      ∀ path v, (Data.map project).at? path = some v → v.isMap = false →
        (Data.map machine).at? path = none → ¬ (Data.map machine).Cuts path →
        (Data.map merged).at? path = some v := by
  refine ⟨fun lower upper h => laidOver_mergeEntries h lower, ?_⟩
  intro format hkeys files disk user project machine huser hproject hmachine merged
  have hover : LaidOver (.map (mergeEntries user project)) (.map machine) (.map merged) :=
    laidOver_mergeEntries (keysOnce_of_contents hkeys hmachine) _
  have hbelow : LaidOver (.map user) (.map project) (.map (mergeEntries user project)) :=
    laidOver_mergeEntries (keysOnce_of_contents hkeys hproject) _
  refine ⟨?_, hover.leaf, fun path v hv hmap hnone hcuts => ?_⟩
  · rw [merged_of_contents huser hproject hmachine]
    show (Except.ok (mergeEntries (mergeEntries (mergeEntries [] user) project) machine), _) = _
    rw [mergeEntries_of_new (keysOnce_of_contents hkeys huser) fun _ _ => rfl, List.nil_append]
  · rw [hover.beneath path hnone hcuts]
    exact hbelow.leaf path v hv hmap

/-- A value under a map, and a map under another one. -/
theorem most_specific_counts_of_three_files :
    let a : Scalar := .text ['a']
    let x : Scalar := .text ['x']
    let y : Scalar := .text ['y']
    let file := fun t : Text => Node.file (Utf8.encode t) 0
    let disk : Disk :=
      { top := [(['u'], file ['a', ':', ' ', '1', '\n']),
          (['p'], file ['a', ':', ' ', '\x7b', 'x', ':', ' ', '2', '\x7d', '\n']),
          (['m'], file ['a', ':', ' ', '\x7b', 'y', ':', ' ', '3', '\x7d', '\n'])] }
    let files : SettingsFiles :=
      { path := fun | .user => ['/', 'u'] | .project => ['/', 'p'] | .machine => ['/', 'm'] }
    let merged : List (Scalar × Data) := [(a, .map [(x, .integer 2), (y, .integer 3)])]
    (Data.map [(a, .integer 1)]).LaidOver (.map [(a, .map [(x, .integer 2)])])
        (.map [(a, .map [(x, .integer 2)])]) ∧
      files.merged Yaml.format disk = (.ok merged, []) ∧
      (Data.map merged).at? [a, x] = some (.integer 2) ∧
      (Data.map merged).at? [a, y] = some (.integer 3) := by
  intro a x y file disk files merged
  have hfree : disk.root.LinkFree := .ofEntries fun e he => by
    rw [List.mem_cons, List.mem_cons, List.mem_singleton] at he
    rcases he with rfl | rfl | rfl <;> exact .file _ _
  have hlookup : ∀ scope n, disk.root.at? (Disk.walkNames (files.path scope)) = some n →
      disk.lookup (files.path scope) = .ok (Disk.walkNames (files.path scope), n) := by
    rintro (_ | _ | _) n hn
    all_goals
      refine Disk.lookup_of_isName hfree ?_ ?_ ?_ ?_ ?_ hn <;> decide
  have hcontents {scope : Scope} {t : Text} {d : Data}
      (hnode : disk.root.at? (Disk.walkNames (files.path scope)) = some (file t))
      (hread : Yaml.read (Utf8.translateNewlines t) = .ok d) :
      contents Yaml.format disk (files.path scope) = .ok (.document d) :=
    (contents_of_lookup (hlookup scope _ hnode)).trans
      (Contents.ofBytes_of_read (Utf8.decode_encode t) (Yaml.format_read hread))
  have huser : contents Yaml.format disk (files.path .user)
      = .ok (.document (.map [(a, .integer 1)])) := hcontents rfl (by decide +kernel)
  have hproject : contents Yaml.format disk (files.path .project)
      = .ok (.document (.map [(a, .map [(x, .integer 2)])])) := hcontents rfl (by decide +kernel)
  have hmachine : contents Yaml.format disk (files.path .machine)
      = .ok (.document (.map [(a, .map [(y, .integer 3)])])) := hcontents rfl (by decide +kernel)
  obtain ⟨hmerged, hleaf, hbeneath⟩ :=
    most_specific_counts.2 Yaml.format Yaml.keysOnce_format files disk _ _ _ huser hproject hmachine
  refine ⟨?_, hmerged, ?_, hleaf [a, y] _ (by decide) rfl⟩
  · exact most_specific_counts.1 [(a, .integer 1)] [(a, .map [(x, .integer 2)])]
      (keysOnce_of_contents Yaml.keysOnce_format hproject)
  · refine hbeneath [a, x] _ (by decide) rfl (by decide) ?_
    -- On the way are the machine's map and the map in it.
    rintro ⟨front, v, hfront, hne, hv, hmap⟩
    rcases List.prefix_concat_iff.mp (show front <+: [a] ++ [x] from hfront) with hwhole | hfront
    · exact hne hwhole
    · rcases List.prefix_concat_iff.mp (show front <+: [] ++ [a] from hfront) with rfl | hfront
      · obtain rfl := Option.some.inj hv
        cases hmap
      · obtain rfl := List.prefix_nil.mp hfront
        obtain rfl := Option.some.inj hv
        cases hmap

end SettingsFiles

end StyleImport
