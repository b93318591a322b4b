/-
Collapsed paths and their parents.

The slashes in front of a collapsed path and its names determine it, and a walk along it takes these
names.  Its parent has all of them but the last one.

* `Path.parent_ofNames`, `Path.IsFront.parent` — the parent of a path of names;
* `Disk.walkNames_ofNames` — a walk along a path of names.
-/
import StyleImport.Path.Collapsed
import StyleImport.Proofs.Path.Directory

namespace StyleImport

namespace Path

/-- A name that collapsing keeps; it may be the one of the parent. -/
structure IsKept (n : Text) : Prop where
  ne_nil : n ≠ []
  ne_here : n ≠ here
  no_slash : '/' ∉ n

theorem IsName.isKept {n : Text} (h : IsName n) : IsKept n :=
  ⟨h.ne_nil, h.ne_here, h.no_slash⟩

theorem IsKept.isName {n : Text} (h : IsKept n) (hup : n ≠ up) : IsName n :=
  ⟨h.ne_nil, h.ne_here, hup, h.no_slash⟩

theorem isKept_of_mem_names {p n : Text} (h : n ∈ names p) : IsKept n := by
  obtain ⟨hpiece, hne⟩ := List.mem_filter.mp h
  simp only [Bool.and_eq_true, decide_eq_true_eq] at hne
  exact ⟨hne.1, hne.2, no_slash_of_mem_pieces p n hpiece⟩

section OfNames

variable {ns : List Text} (h : ∀ n ∈ ns, IsKept n) (p : Text)

include h

theorem head?_joinWith_of_isKept : (Text.joinWith ['/'] ns).head? ≠ some '/' :=
  head?_joinWith_ne (fun n hn => (h n hn).ne_nil) fun n hn => (h n hn).no_slash

theorem joinWith_ne_nil (hne : ns ≠ []) : Text.joinWith ['/'] ns ≠ [] := by
  obtain ⟨n, ns, rfl⟩ := List.exists_cons_of_ne_nil hne
  have hn : n ≠ [] := (h n List.mem_cons_self).ne_nil
  cases ns <;> simp [Text.joinWith, List.intercalate, hn]

theorem ofNames_eq_append (hne : ns ≠ []) (anchor : Text) :
    ofNames anchor ns = anchor ++ Text.joinWith ['/'] ns := by
  unfold ofNames
  split
  · rename_i hnil
    exact absurd (List.append_eq_nil_iff.mp hnil).2 (joinWith_ne_nil h hne)
  · rfl

theorem anchor_ofNames : anchor (ofNames (anchor p) ns) = anchor p := by
  cases hns : ns with
  | nil => rcases anchor_cases p with ⟨_, ha⟩ | ⟨_, ha | ha⟩ <;> rw [ha] <;> rfl
  | cons n ns' =>
    rw [← hns, ofNames_eq_append h (by simp [hns])]
    exact anchor_append (head?_joinWith_of_isKept h) p

theorem isAbsolute_ofNames : isAbsolute (ofNames (anchor p) ns) = isAbsolute p := by
  cases hns : ns with
  | nil => rcases anchor_cases p with ⟨hp, ha⟩ | ⟨hp, ha | ha⟩ <;> rw [ha, hp] <;> rfl
  | cons n ns' =>
    rw [← hns, ofNames_eq_append h (by simp [hns])]
    exact isAbsolute_append (head?_joinWith_of_isKept h) p

theorem components_ofNames (hne : ns ≠ []) : components (ofNames (anchor p) ns) = ns := by
  rw [ofNames_eq_append h hne]
  exact components_anchor_append (fun n hn => (h n hn).ne_nil) (fun n hn => (h n hn).no_slash) p

theorem names_ofNames : names (ofNames (anchor p) ns) = ns := by
  cases hns : ns with
  | nil => rcases anchor_cases p with ⟨_, ha⟩ | ⟨_, ha | ha⟩ <;> rw [ha] <;> rfl
  | cons n ns' =>
    rw [← hns, names_eq_filter, components_ofNames h p (by simp [hns]), List.filter_eq_self]
    exact fun n hn => decide_eq_true (h n hn).ne_here

theorem parent_ofNames : parent (ofNames (anchor p) ns) = ofNames (anchor p) ns.dropLast := by
  rw [parent, anchor_ofNames h p, names_ofNames h p]

end OfNames

/-- The slashes of a path followed by names that are kept. -/
def IsCollapsed (q : Text) : Prop :=
  ∃ p ns, (∀ n ∈ ns, IsKept n) ∧ q = ofNames (anchor p) ns

/-- A collapsed path of the first of some names. -/
def IsFront (a : Text) (ns : List Text) (q : Text) : Prop :=
  ∃ front, front <+: ns ∧ q = ofNames a front

theorem IsFront.parent {p q : Text} {ns : List Text} (h : IsFront (anchor p) ns q)
    (hns : ∀ n ∈ ns, IsKept n) : IsFront (anchor p) ns (Path.parent q) := by
  obtain ⟨front, hfront, rfl⟩ := h
  exact ⟨front.dropLast, (List.dropLast_prefix front).trans hfront,
    parent_ofNames (fun n hn => hns n (hfront.subset hn)) p⟩

end Path

namespace Disk

/-- Without names a walk only checks that it starts in a directory. -/
theorem walkNames_ofNames_nil (p : Text) :
    walkNames (Path.ofNames (Path.anchor p) []) = [Path.here] := by
  rcases Path.anchor_cases p with ⟨_, ha⟩ | ⟨_, ha | ha⟩ <;> rw [ha] <;> rfl

theorem walkNames_ofNames {ns : List Text} (h : ∀ n ∈ ns, Path.IsKept n) (hne : ns ≠ [])
    (p : Text) : walkNames (Path.ofNames (Path.anchor p) ns) = ns := by
  obtain ⟨front, n, hsplit⟩ := (List.eq_nil_or_concat ns).resolve_left hne
  rw [List.concat_eq_append] at hsplit
  have hn : Path.IsKept n := h n (by simp [hsplit])
  have hend : (Path.ofNames (Path.anchor p) ns).getLast? = n.getLast? := by
    have hsome : n.getLast?.isSome = true := by simpa using hn.ne_nil
    rw [Path.ofNames_eq_append h hne, hsplit]
    by_cases hfront : front = []
    · subst hfront
      rw [List.nil_append, Text.joinWith_singleton, List.getLast?_append, Option.or_of_isSome hsome]
    · rw [Text.joinWith_concat n hfront, ← List.append_assoc, List.getLast?_append,
        List.getLast?_cons_of_ne_nil hn.ne_nil, Option.or_of_isSome hsome]
  have hslash : n.getLast? ≠ some '/' := fun h => hn.no_slash (List.mem_of_getLast? h)
  rw [walkNames, hend, if_neg hslash, Path.components_ofNames h p hne, List.append_nil]

end Disk

end StyleImport
