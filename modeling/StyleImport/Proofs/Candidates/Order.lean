/-
The order of candidates over several locations.

Candidates are added one after the other and a path keeps the place where it was added first.  So the
candidates below several locations are those below each of them, one list after the other, with every
later copy of a path left out.

* `eraseDups_append_congr` — copies may be left out of the parts of a list or of the whole;
* `Candidates.paths_addAll`, `NameForm.paths_candidates` — the candidates as a list without copies;
* `NameForm.isAbsolute_of_mem_variants` — an absolute name is spelled by absolute paths alone;
* `NameForm.candidates_in_order` — the candidates below locations, one location after the other.
-/
import Mathlib.Data.Finset.Card
import Mathlib.Data.List.Basic
import StyleImport.Proofs.Candidates.Location

namespace StyleImport

/-! ### Lists without later copies -/

section EraseDups

variable {α β : Type} [BEq α] [LawfulBEq α]

theorem eraseDups_filter (p : α → Bool) :
    ∀ l : List α, (l.filter p).eraseDups = l.eraseDups.filter p
  | [] => by simp
  | a :: as => by
    have hshorter : (as.filter fun b => !b == a).length < as.length + 1 :=
      Nat.lt_succ_of_le (List.length_filter_le _ _)
    have ih := eraseDups_filter p (as.filter fun b => !b == a)
    by_cases ha : p a = true
    · rw [List.filter_cons_of_pos ha, List.eraseDups_cons, List.eraseDups_cons,
        List.filter_cons_of_pos ha, ← ih, List.filter_comm]
    · -- What passes is no copy of `a` in any case.
      have hsame : as.filter p = (as.filter fun b => !b == a).filter p := by
        rw [List.filter_filter]
        refine List.filter_congr fun b _ => ?_
        by_cases hb : b = a <;> simp [hb, ha]
      rw [List.filter_cons_of_neg ha, List.eraseDups_cons, List.filter_cons_of_neg ha, ← ih, hsame]
termination_by l => l.length

theorem nodup_eraseDups : ∀ l : List α, l.eraseDups.Nodup
  | [] => by simp
  | a :: as => by
    have hshorter : (as.filter fun b => !b == a).length < as.length + 1 :=
      Nat.lt_succ_of_le (List.length_filter_le _ _)
    rw [List.eraseDups_cons, List.nodup_cons]
    exact ⟨by simp, nodup_eraseDups _⟩
termination_by l => l.length

theorem eraseDups_of_nodup {l : List α} (h : l.Nodup) : l.eraseDups = l := by
  induction l with
  | nil => rfl
  | cons a as ih =>
    rw [List.nodup_cons] at h
    have hfilter : (as.filter fun b => !b == a) = as := by
      rw [List.filter_eq_self]
      intro b hb
      have hne : b ≠ a := fun hba => h.1 (hba ▸ hb)
      simpa using hne
    rw [List.eraseDups_cons, hfilter, ih h.2]

/-- Of what is behind a list, only what the list has not is left. -/
theorem eraseDups_append_eq (xs ys : List α) :
    (xs ++ ys).eraseDups = xs.eraseDups ++ ys.eraseDups.filter fun y => !xs.contains y := by
  rw [List.eraseDups_append, ← eraseDups_filter]
  rfl

/-- Copies of what is in front make no difference. -/
theorem eraseDups_append_of_subset {xs ys : List α} (h : ys ⊆ xs) :
    (xs ++ ys).eraseDups = xs.eraseDups := by
  have hnone : (ys.eraseDups.filter fun y => !xs.contains y) = [] := by
    rw [List.filter_eq_nil_iff]
    intro y hy
    simpa using h (List.mem_eraseDups.mp hy)
  rw [eraseDups_append_eq, hnone, List.append_nil]

/-- Copies may be left out of the parts of a list before they are left out of the whole. -/
theorem eraseDups_append_congr {xs xs' ys ys' : List α} (hx : xs.eraseDups = xs'.eraseDups)
    (hy : ys.eraseDups = ys'.eraseDups) : (xs ++ ys).eraseDups = (xs' ++ ys').eraseDups := by
  have hmem : ∀ y, y ∈ xs ↔ y ∈ xs' := by
    intro y
    rw [← List.mem_eraseDups, hx, List.mem_eraseDups]
  rw [eraseDups_append_eq, eraseDups_append_eq, hx, hy]
  congr 1
  refine List.filter_congr fun y _ => ?_
  rw [Bool.eq_iff_iff]
  simp [hmem]

theorem eraseDups_flatMap (f : β → List α) (l : List β) :
    (l.flatMap fun b => (f b).eraseDups).eraseDups = (l.flatMap f).eraseDups := by
  induction l with
  | nil => rfl
  | cons b bs ih =>
    exact eraseDups_append_congr (eraseDups_of_nodup (nodup_eraseDups (f b))) ih

end EraseDups

/-! ### Candidates without copies -/

namespace Candidates

/-- What is added comes behind what is there, without copies. -/
theorem paths_addAll (cwd : Text) (cs : Candidates) (ps : List Text) :
    (cs.addAll cwd ps).paths = (cs.paths ++ ps.map (Path.absolute cwd)).eraseDups := by
  induction ps generalizing cs with
  | nil => simpa [addAll] using (eraseDups_of_nodup cs.nodup).symm
  | cons p ps ih =>
    have hadd : (cs.add cwd p).paths.eraseDups
        = (cs.paths ++ [Path.absolute cwd p]).eraseDups := by
      rw [paths_add]
      split
      · rename_i hp
        exact (eraseDups_append_of_subset (by simpa using hp)).symm
      · rfl
    have hstep : cs.addAll cwd (p :: ps) = (cs.add cwd p).addAll cwd ps := rfl
    rw [hstep, ih, eraseDups_append_congr hadd rfl, List.append_assoc]
    rfl

end Candidates

namespace NameForm

/-- The candidates are the spellings below each location, without copies. -/
theorem paths_candidates (n : NameForm) (cwd : Text) (locations : List Text) :
    (n.candidates cwd locations).paths
      = ((locations.flatMap n.below).map (Path.absolute cwd)).eraseDups := by
  have hall : n.candidates cwd locations = Candidates.empty.addAll cwd (locations.flatMap n.below) :=
    List.foldl_flatMap.symm
  rw [hall, Candidates.paths_addAll]
  rfl

/-- Candidates of locations and of more locations are put together without copies. -/
theorem paths_candidates_append (n : NameForm) (cwd : Text) (locations more : List Text) :
    (n.candidates cwd (locations ++ more)).paths
      = ((n.candidates cwd locations).paths ++ (n.candidates cwd more).paths).eraseDups := by
  simp only [paths_candidates, List.flatMap_append, List.map_append]
  exact eraseDups_append_congr (eraseDups_of_nodup (nodup_eraseDups _)).symm
    (eraseDups_of_nodup (nodup_eraseDups _)).symm

theorem paths_candidates_flatMap (n : NameForm) (cwd : Text) (locations : List Text) :
    (n.candidates cwd locations).paths
      = (locations.flatMap fun location => (n.candidates cwd [location]).paths).eraseDups := by
  simp only [paths_candidates, List.map_flatMap, List.flatMap_singleton]
  exact (eraseDups_flatMap (fun location => (n.below location).map (Path.absolute cwd)) _).symm

/-! ### Absolute names -/

theorem isAbsolute_inDirectory {d : Text} (h : Path.isAbsolute d = true) (f : Text) :
    Path.isAbsolute (inDirectory d f) = true := by
  obtain ⟨cs, rfl⟩ := Path.eq_cons_of_isAbsolute h
  unfold inDirectory
  rw [if_neg (List.cons_ne_nil _ _)]
  split <;> rfl

theorem directory_eq (unified : Bool) (extensions : List Text) (name : Text) :
    (of unified extensions name).directory
      = if ((Text.cutLast '/' (Uri.pathOf unified name)).getD ([], Uri.pathOf unified name)).1 = []
          && Path.isAbsolute (Uri.pathOf unified name) then ['/']
        else ((Text.cutLast '/' (Uri.pathOf unified name)).getD
          ([], Uri.pathOf unified name)).1 := by
  rw [← name_of unified extensions name]
  rfl

/-- A directory in front of the last name starts where the name starts. -/
theorem isAbsolute_directory_of (unified : Bool) (extensions : List Text) (name : Text) :
    Path.isAbsolute (of unified extensions name).directory
      = Path.isAbsolute (Uri.pathOf unified name) := by
  rw [directory_eq]
  generalize Uri.pathOf unified name = p
  rcases hcut : Text.cutLast '/' p with _ | ⟨before, after⟩
  · cases hp : Path.isAbsolute p <;> simp [Path.isAbsolute]
  · rw [Option.getD_some, Text.eq_of_cutLast hcut]
    by_cases hbefore : before = []
    · rw [hbefore]
      rfl
    · rw [if_neg (by simp [hbefore]), Path.isAbsolute_append_of_ne_nil hbefore]

/-- An absolute name is spelled by absolute paths alone. -/
theorem isAbsolute_of_mem_variants {unified : Bool} {extensions : List Text} {name v : Text}
    (h : Path.isAbsolute (Uri.pathOf unified name) = true)
    (hv : v ∈ (of unified extensions name).variants) : Path.isAbsolute v = true := by
  have hdirectory := (isAbsolute_directory_of unified extensions name).trans h
  rw [← name_of unified extensions name] at h
  generalize of unified extensions name = n at h hdirectory hv
  have hpartial : ∀ es, ∀ v ∈ n.partials es, Path.isAbsolute v = true := by
    intro es v hv
    unfold partials at hv
    split at hv
    · simp at hv
    · obtain ⟨e, -, rfl⟩ := List.mem_map.mp hv
      exact isAbsolute_inDirectory hdirectory _
  unfold variants at hv
  split at hv
  · rename_i hnil
    simp [hnil, Path.isAbsolute] at h
  · split at hv
    · rcases List.mem_cons.mp hv with rfl | hv
      · exact h
      · exact hpartial _ v hv
    · simp only [List.cons_append, List.mem_cons, List.mem_append, List.mem_map] at hv
      rcases hv with rfl | (⟨e, -, rfl⟩ | hv) | ⟨f, -, rfl⟩
      · exact h
      · exact Path.isAbsolute_append_of_isAbsolute h e
      · exact hpartial _ v hv
      · exact isAbsolute_inDirectory h f

/-- Below every location an absolute name is spelled alike. -/
theorem below_of_isAbsolute {unified : Bool} {extensions : List Text} {name : Text}
    (h : Path.isAbsolute (Uri.pathOf unified name) = true) (location : Text) :
    (of unified extensions name).below location = (of unified extensions name).variants := by
  rw [below]
  conv_rhs => rw [← List.map_id (of unified extensions name).variants]
  refine List.map_congr_left fun v hv => ?_
  rw [place, if_pos (isAbsolute_of_mem_variants h hv)]
  rfl

/-! ### One location after the other -/

/-- A location that was added before adds nothing. -/
theorem paths_candidates_of_subset (n : NameForm) (cwd : Text) {locations more : List Text}
    (h : ∀ location ∈ more, ∃ earlier ∈ locations, n.below location = n.below earlier) :
    (n.candidates cwd (locations ++ more)).paths = (n.candidates cwd locations).paths := by
  rw [paths_candidates, paths_candidates, List.flatMap_append, List.map_append]
  refine eraseDups_append_of_subset ?_
  intro c hc
  obtain ⟨p, hp, rfl⟩ := List.mem_map.mp hc
  obtain ⟨location, hlocation, hp⟩ := List.mem_flatMap.mp hp
  obtain ⟨earlier, hearlier, hbelow⟩ := h location hlocation
  exact List.mem_map_of_mem (List.mem_flatMap.mpr ⟨earlier, hearlier, hbelow ▸ hp⟩)

/-- Candidates are absolute paths in normal form. -/
theorem normal_of_mem_candidates (n : NameForm) {cwd : Text}
    (hcwd : Path.isAbsolute cwd = true) {locations : List Text} {c : Text}
    (h : c ∈ (n.candidates cwd locations).paths) :
    Path.isAbsolute c = true ∧ Path.normalize c = c := by
  rw [paths_candidates] at h
  obtain ⟨p, -, rfl⟩ := List.mem_map.mp (List.mem_eraseDups.mp h)
  refine ⟨Path.isAbsolute_absolute hcwd p, ?_⟩
  rw [Path.absolute, Path.normalize_normalize]

/-- **Candidates come in the order of their locations.**  Those below several locations are those
below each of them alone, one list after the other, without later copies.  So

* more locations only add candidates behind those that are there, and none if they were added
  before;
* candidates are absolute and in normal form and no two of them are equal; a path is among them if
  its normal form is, and there are as many of them as there are such forms;
* below any locations an absolute name has the candidates that it has below a single one. -/
theorem candidates_in_order {cwd : Text} (hcwd : Path.isAbsolute cwd = true) (unified : Bool)
    (extensions : List Text) (name : Text) (locations : List Text) :
    let candidates := (of unified extensions name).candidates cwd
    (candidates locations).paths
        = (locations.flatMap fun location => (candidates [location]).paths).eraseDups ∧
      (∀ more, (candidates locations).paths <+: (candidates (locations ++ more)).paths) ∧
      (∀ location ∈ locations,
        (candidates (locations ++ [location])).paths = (candidates locations).paths) ∧
      (∀ c ∈ (candidates locations).paths, Path.isAbsolute c = true ∧ Path.normalize c = c) ∧
      (candidates locations).paths.Nodup ∧
      (∀ p, (candidates locations).contains cwd p = true ↔
        Path.absolute cwd p ∈ (candidates locations).paths) ∧
      (candidates locations).paths.toFinset.card = (candidates locations).paths.length ∧
      (Path.isAbsolute (Uri.pathOf unified name) = true → locations ≠ [] → ∀ location,
        (candidates locations).paths = (candidates [location]).paths) := by
  intro candidates
  refine ⟨paths_candidates_flatMap _ cwd locations, fun more => ?_, fun location hlocation => ?_,
    fun c => normal_of_mem_candidates _ hcwd, (candidates locations).nodup,
    fun p => List.contains_iff_mem, List.toFinset_card_of_nodup (candidates locations).nodup,
    fun habsolute hne location => ?_⟩
  · have happend := paths_candidates_append (of unified extensions name) cwd locations more
    rw [eraseDups_append_eq, eraseDups_of_nodup (candidates locations).nodup] at happend
    exact ⟨_, happend.symm⟩
  · refine paths_candidates_of_subset _ cwd fun other hother => ⟨location, hlocation, ?_⟩
    rw [List.mem_singleton.mp hother]
  · obtain ⟨first, rest, rfl⟩ := List.exists_cons_of_ne_nil hne
    have hbelow : ∀ location, (of unified extensions name).below location
        = (of unified extensions name).variants := below_of_isAbsolute habsolute
    have hsingle : (candidates [first]).paths = (candidates [location]).paths := by
      simp only [candidates, paths_candidates, List.flatMap_singleton, hbelow]
    rw [← hsingle, ← List.singleton_append]
    refine paths_candidates_of_subset _ cwd fun other _ => ⟨first, List.mem_singleton_self _, ?_⟩
    rw [hbelow, hbelow]

/-- Two directories with one parent have the same candidates for a name in it, so the first of them
has all candidates; an absolute name has its own below any of them. -/
theorem candidates_in_order_of_siblings :
    let locations : List Text := [['/', 'a', '/', 'b'], ['d']]
    let up := (of true [['.', 'c']] ['.', '.', '/', 'x']).candidates ['/', 'a']
    let root := (of true [['.', 'c']] ['/', 'x', '.', 'c']).candidates ['/', 'a']
    Path.isAbsolute ['/', 'a'] = true ∧
      (up locations).paths = [['/', 'a', '/', 'x'], ['/', 'a', '/', 'x', '.', 'c'],
        ['/', 'a', '/', '_', 'x', '.', 'c'],
        ['/', 'a', '/', 'x', '/', '_', 'i', 'n', 'd', 'e', 'x', '.', 'c'],
        ['/', 'a', '/', 'x', '/', 'i', 'n', 'd', 'e', 'x', '.', 'c']] ∧
      (up (locations ++ [['d']])).paths = (up locations).paths ∧
      Path.isAbsolute (Uri.pathOf true ['/', 'x', '.', 'c']) = true ∧
      (root locations).paths = (root [['/']]).paths := by
  intro locations up root
  have hcwd : Path.isAbsolute ['/', 'a'] = true := by decide
  have hroot : Path.isAbsolute (Uri.pathOf true ['/', 'x', '.', 'c']) = true := by decide
  have hup := candidates_in_order hcwd true [['.', 'c']] ['.', '.', '/', 'x'] locations
  have habsolute := candidates_in_order hcwd true [['.', 'c']] ['/', 'x', '.', 'c'] locations
  exact ⟨hcwd, hup.1.trans (by decide +kernel), hup.2.2.1 ['d'] (by decide), hroot,
    habsolute.2.2.2.2.2.2.2 hroot (by decide) ['/']⟩

end NameForm

end StyleImport
