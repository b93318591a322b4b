/-
The search for an installed module.

The directories of a path are searched from the longest one on, up to the one where the search stops.
What is found there is the first hit in a list of directories, the metadata file of the module being
looked up in each of them.

* `Path.exists_front_of_prefix` — a way to a place comes through all of its ancestors;
* `Registry.findInstalled_eq`, `Registry.find?_searched_prefixes` — the search, as the first hit in a
  list of directories;
* `Registry.isFileOrFail_metadataPath` — whether a directory has the module.
-/
import Mathlib.Data.List.Infix
import StyleImport.Proofs.Disk.Arrival
import StyleImport.Proofs.Module.Failures

namespace StyleImport

/-! ### Ways and ancestors -/

/-- A way from somewhere else to a place behind `q` comes through `q`. -/
theorem Path.exists_front_of_prefix {place names q : List Text} (hplace : ¬ q <+: place)
    (hq : q <+: Path.moveAll place names) :
    ∃ front back, names = front ++ back ∧ front ≠ [] ∧ Path.moveAll place front = q := by
  induction names generalizing place with
  | nil => exact absurd hq hplace
  | cons n ns ih =>
    by_cases hnext : q <+: Path.move place n
    · -- Only a step down can get behind `q`, and it gets no further than there.
      refine ⟨[n], ns, rfl, by simp, ?_⟩
      show Path.move place n = q
      unfold Path.move at hnext ⊢
      split
      · rw [if_pos ‹_›] at hnext
        exact absurd hnext hplace
      · rw [if_neg ‹_›] at hnext
        split
        · rw [if_pos ‹_›] at hnext
          exact absurd (hnext.trans (List.dropLast_prefix place)) hplace
        · rw [if_neg ‹_›] at hnext
          exact ((List.prefix_concat_iff.mp hnext).resolve_right hplace).symm
    · obtain ⟨front, back, rfl, -, hfront⟩ := ih hnext hq
      exact ⟨n :: front, back, rfl, by simp, hfront⟩

namespace Registry

/-! ### The search -/

/-- The directories of a list up to the one where the search stops. -/
def searched (stopAt : Option Text) : List Text → List Text
  | [] => []
  | dir :: dirs => dir :: if stopAt = some dir then [] else searched stopAt dirs

theorem findInstalled_eq {d : Disk} {stopAt : Option Text} {name : Text} {dirs : List Text}
    {holds : Text → Bool}
    (h : ∀ dir ∈ dirs, d.isFileOrFail (metadataPath name dir) = .ok (holds dir)) :
    findInstalled d stopAt name dirs
      = .ok (((searched stopAt dirs).find? holds).map (metadataPath name)) := by
  induction dirs with
  | nil => rfl
  | cons dir dirs ih =>
    rw [findInstalled, h dir List.mem_cons_self, searched, List.find?_cons]
    cases holds dir with
    | true => rfl
    | false =>
      dsimp only
      split
      · rfl
      · exact ih fun dir' hdir' => h dir' (List.mem_cons_of_mem _ hdir')

variable {stopAt : Option Text} {a : Text} {names : List Text}

theorem mem_prefixes {k : Nat} {dir : Text} (h : dir ∈ Path.prefixes a names k) :
    ∃ j ≤ k, dir = Path.ofNames a (names.take j) := by
  induction k with
  | zero => exact ⟨0, Nat.le_refl 0, List.mem_singleton.mp h⟩
  | succ k ih =>
    rcases List.mem_cons.mp h with hdir | h
    · exact ⟨k + 1, Nat.le_refl _, hdir⟩
    · obtain ⟨j, hj, hdir⟩ := ih h
      exact ⟨j, by omega, hdir⟩

/-- A prefix is searched if the search does not stop at a longer one. -/
theorem mem_searched_prefixes {k : Nat} {dir : Text}
    (h : dir ∈ searched stopAt (Path.prefixes a names k)) :
    ∃ j ≤ k, dir = Path.ofNames a (names.take j) ∧
      ∀ i, j < i → i ≤ k → stopAt ≠ some (Path.ofNames a (names.take i)) := by
  induction k with
  | zero =>
    have hdir : dir = Path.ofNames a [] := by simpa [Path.prefixes, searched] using h
    exact ⟨0, Nat.le_refl 0, hdir, fun i hlt hle => absurd hle (by omega)⟩
  | succ k ih =>
    rw [Path.prefixes, searched] at h
    rcases List.mem_cons.mp h with rfl | h
    · exact ⟨k + 1, Nat.le_refl _, rfl, fun i hlt hle => absurd hle (by omega)⟩
    · split at h
      · cases h
      · rename_i hstop
        obtain ⟨j, hj, hdir, hlonger⟩ := ih h
        refine ⟨j, by omega, hdir, fun i hlt hle => ?_⟩
        by_cases hi : i = k + 1
        · exact hi ▸ hstop
        · exact hlonger i hlt (by omega)

/-- The first hit is the longest of the prefixes that are searched. -/
theorem find?_searched_prefixes (holds : Text → Bool) (k : Nat) :
    match (searched stopAt (Path.prefixes a names k)).find? holds with
    | none => ∀ j ≤ k, (∀ i, j < i → i ≤ k → stopAt ≠ some (Path.ofNames a (names.take i))) →
        holds (Path.ofNames a (names.take j)) = false
    | some dir => ∃ j ≤ k, dir = Path.ofNames a (names.take j) ∧ holds dir = true ∧
        ∀ i, j < i → i ≤ k → holds (Path.ofNames a (names.take i)) = false := by
  induction k with
  | zero =>
    rw [Path.prefixes, searched, List.find?_cons]
    cases hholds : holds (Path.ofNames a []) with
    | true => exact ⟨0, Nat.le_refl 0, rfl, hholds, fun i hlt hle => absurd hle (by omega)⟩
    | false =>
      have hnil : (if stopAt = some (Path.ofNames a []) then [] else searched stopAt [])
          = ([] : List Text) := by split <;> rfl
      rw [hnil]
      intro j hj _
      obtain rfl : j = 0 := by omega
      exact hholds
  | succ k ih =>
    rw [Path.prefixes, searched, List.find?_cons]
    cases hholds : holds (Path.ofNames a (names.take (k + 1))) with
    | true =>
      exact ⟨k + 1, Nat.le_refl _, rfl, hholds, fun i hlt hle => absurd hle (by omega)⟩
    | false =>
      have hlast {i : Nat} (hi : i = k + 1) : holds (Path.ofNames a (names.take i)) = false :=
        hi ▸ hholds
      dsimp only
      by_cases hstop : stopAt = some (Path.ofNames a (names.take (k + 1)))
      · rw [if_pos hstop]
        intro j hj hlonger
        refine hlast (Nat.le_antisymm hj (Nat.not_lt.mp fun hlt => ?_))
        exact hlonger (k + 1) hlt (Nat.le_refl _) hstop
      · rw [if_neg hstop]
        cases hfind : (searched stopAt (Path.prefixes a names k)).find? holds with
        | none =>
          rw [hfind] at ih
          intro j hj hlonger
          by_cases hj' : j = k + 1
          · exact hlast hj'
          · exact ih j (by omega) fun i hlt hle => hlonger i hlt (by omega)
        | some dir =>
          rw [hfind] at ih
          obtain ⟨j, hj, hdir, hfound, hlonger⟩ := ih
          refine ⟨j, by omega, hdir, hfound, fun i hlt hle => ?_⟩
          by_cases hi : i = k + 1
          · exact hlast hi
          · exact hlonger i hlt (by omega)

/-! ### Metadata -/

/-- The names that lead from a directory to the metadata of a module that is installed there. -/
def metadataNames (name : Text) : List Text :=
  installedName :: (Text.pieces '/' name ++ [metadataName])

/-- Whether a module's metadata is a file below the directory at a place. -/
def hasModule (d : Disk) (name : Text) (place : List Text) : Bool :=
  (d.root.at? (place ++ metadataNames name)).any Node.isFile

/-- Names of modules whose segments can be the names of directories. -/
def IsModuleName (name : Text) : Prop :=
  ∀ m ∈ Text.pieces '/' name, Path.IsName m ∧ (Utf8.encode m).length ≤ Disk.longestName

section Metadata

variable {name : Text} (hname : IsModuleName name)

include hname

theorem isName_metadataNames : ∀ m ∈ metadataNames name,
    Path.IsName m ∧ (Utf8.encode m).length ≤ Disk.longestName := by
  intro m hm
  rcases List.mem_cons.mp hm with rfl | hm
  · decide
  · rcases List.mem_append.mp hm with hm | hm
    · exact hname m hm
    · rw [List.mem_singleton.mp hm]
      decide

theorem isKept_append {ns ms : List Text} (hns : ∀ n ∈ ns, Path.IsKept n)
    (hms : ms ⊆ metadataNames name) : ∀ n ∈ ns ++ ms, Path.IsKept n := by
  intro n hn
  rcases List.mem_append.mp hn with hn | hn
  · exact hns n hn
  · exact (isName_metadataNames hname n (hms hn)).1.isKept

/-- The path of metadata goes on from that of the directory. -/
theorem metadataPath_ofNames {p : Text} (hp : Path.isAbsolute p = true) {ns : List Text}
    (hns : ∀ n ∈ ns, Path.IsKept n) :
    metadataPath name (Path.ofNames (Path.anchor p) ns)
      = Path.ofNames (Path.anchor p) (ns ++ metadataNames name) := by
  have hpieces : Path.names name = Text.pieces '/' name := by
    refine List.filter_eq_self.mpr fun m hm => ?_
    obtain ⟨hproper, -⟩ := hname m hm
    simp [hproper.ne_nil, hproper.ne_here]
  have hrelative : Path.isAbsolute name = false := by
    cases name with
    | nil => rfl
    | cons c cs =>
      by_contra habsolute
      obtain rfl : c = '/' := by
        by_contra hc
        simp [Path.isAbsolute, hc] at habsolute
      exact (hname [] (by simp [Text.pieces])).1.ne_nil rfl
  have hinstalled : Path.names installedName = [installedName] := by decide
  have hmetadata : Path.names metadataName = [metadataName] := by decide
  rw [metadataPath, Path.append_ofNames hp hns (by decide), hinstalled,
    Path.append_ofNames hp (isKept_append hname hns (by simp [metadataNames])) hrelative, hpieces,
    Path.append_ofNames hp ?_ (by decide), hmetadata]
  · simp [metadataNames]
  · rw [List.append_assoc]
    exact isKept_append hname hns fun m hm => List.mem_append_left [metadataName] hm

/-- The path of metadata is longer than that of the directory, and than that of metadata further
up. -/
theorem length_le_metadataPath {p : Text} (hp : Path.isAbsolute p = true) {ns : List Text}
    (hns : ∀ n ∈ ns, Path.IsKept n) :
    let length (q : Text) : Nat := (Utf8.encode q).length
    length (Path.ofNames (Path.anchor p) ns)
        ≤ length (metadataPath name (Path.ofNames (Path.anchor p) ns)) ∧
      ∀ front, front <+: ns → length (metadataPath name (Path.ofNames (Path.anchor p) front))
        ≤ length (metadataPath name (Path.ofNames (Path.anchor p) ns)) := by
  intro length
  rw [metadataPath_ofNames hname hp hns]
  refine ⟨Utf8.length_encode_le (Path.ofNames_sublist hp (List.sublist_append_left _ _)),
    fun front hfront => ?_⟩
  rw [metadataPath_ofNames hname hp fun m hm => hns m (hfront.subset hm)]
  exact Utf8.length_encode_le
    (Path.ofNames_sublist hp (hfront.sublist.append (List.Sublist.refl _)))

/-- Whether there is metadata behind a directory that a path comes through. -/
theorem isFileOrFail_metadataPath {d : Disk} (hd : d.root.LinkFree) (hpossible : d.Possible)
    {p : Text} (hp : Path.isAbsolute p = true) {front place : List Text}
    (hfront : ∀ n ∈ front, Path.IsKept n) (hnul : ∀ n ∈ front, ¬ Text.HasNul n)
    (hsteps : ∀ more, d.Steps ⟨Disk.linkLimit, [], front ++ more⟩ ⟨Disk.linkLimit, place, more⟩)
    (hlimit : (Utf8.encode (metadataPath name (Path.ofNames (Path.anchor p) front))).length
      < Disk.pathLimit) :
    d.isFileOrFail (metadataPath name (Path.ofNames (Path.anchor p) front))
      = .ok (hasModule d name place) := by
  have hnames := isName_metadataNames hname
  have hkept := isKept_append hname hfront (List.Subset.refl _)
  rw [metadataPath_ofNames hname hp hfront] at hlimit ⊢
  have habsolute : Path.isAbsolute (Path.ofNames (Path.anchor p) (front ++ metadataNames name))
      = true := by rw [Path.isAbsolute_ofNames hkept, hp]
  by_cases hpath :
      '\x00' ∈ Path.ofNames (Path.anchor p) (front ++ metadataNames name)
  · -- The character is in the module's name, and in no name on the disk.
    rw [Disk.isFileOrFail_of_nul hpath, hasModule]
    cases hnode : d.root.at? (place ++ metadataNames name) with
    | none => rfl
    | some n =>
      exfalso
      rcases Path.mem_ofNames hp hpath with hc | ⟨m, hm, hc⟩
      · exact absurd hc (by decide)
      · rcases List.mem_append.mp hm with hm | hm
        · exact hnul m hm hc
        · exact hpossible.not_hasNul hnode m (List.mem_append_right _ hm) hc
  · have hwalk := Disk.walkNames_ofNames hkept (by simp [metadataNames]) p
    exact Disk.isFileOrFail_of_steps hd hpath habsolute hlimit (hwalk ▸ hsteps _) hnames

end Metadata

end Registry

end StyleImport
