/-
Collapsed paths seen from the root.

A path from the root keeps every `..` of the path that it comes from, and the working directory
stands in front of a relative one.  What is appended to it follows its names.

* `Path.names_fromRoot` — the names of a path from the root;
* `Path.components_absolute_eq` — the place that they lead to;
* `Path.append_ofNames` — a path appended to one from the root;
* `Path.ofNames_sublist` — more names make a longer path.
-/
import Mathlib.Data.List.Flatten
import StyleImport.Proofs.Path.Collapsed

namespace StyleImport

/-- A longer text has more bytes. -/
theorem Utf8.length_encode_le {s t : Text} (h : s.Sublist t) :
    (Utf8.encode s).length ≤ (Utf8.encode t).length :=
  (h.flatMap String.utf8EncodeChar).length_le

/-- More names make a longer text. -/
theorem Text.joinWith_sublist {ms ns : List Text} (h : ms.Sublist ns) :
    (Text.joinWith ['/'] ms).Sublist (Text.joinWith ['/'] ns) := by
  induction h with
  | slnil => exact List.Sublist.refl _
  | @cons ms ns n h ih =>
    by_cases hns : ns = []
    · subst hns
      rw [List.sublist_nil.mp h]
      exact List.nil_sublist _
    · rw [Text.joinWith_cons n hns]
      exact (ih.cons _).trans (List.sublist_append_right _ _)
  | @cons_cons ms ns n h ih =>
    by_cases hms : ms = []
    · subst hms
      rw [Text.joinWith_singleton]
      by_cases hns : ns = []
      · simp [hns, Text.joinWith_singleton]
      · rw [Text.joinWith_cons n hns]
        exact List.sublist_append_left _ _
    · have hns : ns ≠ [] := fun hns => hms (List.sublist_nil.mp (hns ▸ h))
      rw [Text.joinWith_cons n hms, Text.joinWith_cons n hns]
      exact (List.Sublist.refl n).append (ih.cons_cons '/')

namespace Path

/-- Dots lead nowhere. -/
theorem moveAll_names (place : List Text) (p : Text) :
    moveAll place (names p) = moveAll place (components p) := by
  rw [names_eq_filter]
  generalize components p = ns
  induction ns generalizing place with
  | nil => rfl
  | cons n ns ih =>
    by_cases hhere : n = here
    · subst hhere
      simpa using ih place
    · simpa [hhere] using ih (move place n)

section OfNames

variable {p : Text} (hp : isAbsolute p = true)

include hp

theorem anchor_ne_nil : anchor p ≠ [] := by
  rcases anchor_cases p with ⟨hrel, -⟩ | ⟨-, ha | ha⟩
  · rw [hp] at hrel
    cases hrel
  · simp [ha]
  · simp [ha]

theorem ofNames_of_isAbsolute (ns : List Text) :
    ofNames (anchor p) ns = anchor p ++ Text.joinWith ['/'] ns := by
  unfold ofNames
  split
  · rename_i hnil
    exact absurd (List.append_eq_nil_iff.mp hnil).1 (anchor_ne_nil hp)
  · rfl

/-- More names make a longer path. -/
theorem ofNames_sublist {ms ns : List Text} (h : ms.Sublist ns) :
    (ofNames (anchor p) ms).Sublist (ofNames (anchor p) ns) := by
  rw [ofNames_of_isAbsolute hp, ofNames_of_isAbsolute hp]
  exact (List.Sublist.refl _).append (Text.joinWith_sublist h)

theorem mem_ofNames {ns : List Text} {c : Char} (h : c ∈ ofNames (anchor p) ns) :
    c = '/' ∨ ∃ n ∈ ns, c ∈ n := by
  rw [ofNames_of_isAbsolute hp] at h
  rcases List.mem_append.mp h with h | h
  · left
    rcases anchor_cases p with ⟨_, ha⟩ | ⟨_, ha | ha⟩
    · simp [ha] at h
    · simpa [ha] using h
    · simpa [ha] using h
  · exact mem_joinWith h

/-- The names of a relative path follow those of the path that it is appended to. -/
theorem append_ofNames {ns : List Text} (hns : ∀ n ∈ ns, IsKept n) {q : Text}
    (hq : isAbsolute q = false) :
    append (ofNames (anchor p) ns) q = ofNames (anchor p) (ns ++ names q) := by
  have habsolute : isAbsolute (ofNames (anchor p) ns) = true := by
    rw [isAbsolute_ofNames hns, hp]
  have hnames : names (join (ofNames (anchor p) ns) q) = ns ++ names q := by
    rw [names_eq_filter, components_join hq, List.filter_append, ← names_eq_filter,
      ← names_eq_filter, names_ofNames hns]
  rw [append, collapse, anchor_join habsolute hq, anchor_ofNames hns, hnames]

/-- The normal form of a path of names spells the place that they lead to. -/
theorem components_normalize_ofNames {ns : List Text} (hns : ∀ n ∈ ns, IsKept n) :
    components (normalize (ofNames (anchor p) ns)) = moveAll [] ns := by
  have habsolute : isAbsolute (ofNames (anchor p) ns) = true := by
    rw [isAbsolute_ofNames hns, hp]
  rw [components_normalize habsolute, ← moveAll_names, names_ofNames hns]

end OfNames

section FromRoot

variable {cwd : List Text} (p : Text)

theorem fromRoot_eq : fromRoot (Disk.pathOf cwd) p
    = collapse (if isAbsolute p then p else join (Disk.pathOf cwd) p) := by
  unfold fromRoot append
  split <;> rfl

theorem isAbsolute_fromRoot : isAbsolute (fromRoot (Disk.pathOf cwd) p) = true := by
  rw [fromRoot_eq, collapse, isAbsolute_ofNames fun n => isKept_of_mem_names]
  split
  · assumption
  · rename_i hp
    rw [Bool.not_eq_true] at hp
    rcases join_cases (Disk.pathOf cwd) hp with ⟨-, hjoin⟩ | hjoin <;> rw [hjoin] <;> rfl

theorem names_fromRoot (hcwd : ∀ n ∈ cwd, IsName n) :
    names (fromRoot (Disk.pathOf cwd) p) = (if isAbsolute p then [] else cwd) ++ names p := by
  rw [fromRoot_eq, collapse, names_ofNames fun n => isKept_of_mem_names]
  split
  · rfl
  · rename_i hp
    rw [Bool.not_eq_true] at hp
    rw [names_eq_filter, components_join hp, List.filter_append, ← names_eq_filter,
      ← names_eq_filter, names_eq_filter (Disk.pathOf cwd), components_pathOf hcwd,
      List.filter_eq_self.mpr fun n hn => decide_eq_true (hcwd n hn).ne_here]

/-- A path leads to where it leads from the root. -/
theorem components_absolute_eq (hcwd : ∀ n ∈ cwd, IsName n) :
    components (absolute (Disk.pathOf cwd) p) = moveAll [] (names (fromRoot (Disk.pathOf cwd) p)) := by
  have hself : moveAll [] cwd = cwd := by rw [moveAll_of_isName hcwd, List.nil_append]
  rw [names_fromRoot p hcwd, moveAll_append, moveAll_names, components_absolute rfl,
    components_pathOf hcwd, hself]
  split
  · rfl
  · rw [hself]

/-- A path from the root is collapsed. -/
theorem fromRoot_eq_ofNames : fromRoot (Disk.pathOf cwd) p
    = ofNames (anchor (fromRoot (Disk.pathOf cwd) p)) (names (fromRoot (Disk.pathOf cwd) p)) := by
  have hkept : ∀ q : Text, ∀ n ∈ names q, IsKept n := fun q n => isKept_of_mem_names
  rw [fromRoot_eq, collapse, anchor_ofNames (hkept _), names_ofNames (hkept _)]

end FromRoot

end Path

end StyleImport
