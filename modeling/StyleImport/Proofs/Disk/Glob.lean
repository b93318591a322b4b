/-
How looking up and listing can fail.

An impossible character in a path is a failure of its own, apart from the errors of the file
system.  A pattern never fails for another reason: what cannot be listed has no names.

* `Disk.lookup_eq_nul`, `Disk.readText_eq_nul` — a path fails so only if the character is in it;
* `Disk.at?_of_lookup` — what a path leads to stands in the tree;
* `Disk.expand_eq_error` — a pattern below a directory fails only for the character in one of the
  two, if it is in no name of the tree.
-/
import Mathlib.Tactic.Common
import StyleImport.Disk.Glob
import StyleImport.Proofs.Disk.Walk
import StyleImport.Proofs.Outcome

namespace StyleImport

/-- Whether the character that no path may hold is in a text. -/
def Text.HasNul (t : Text) : Prop := '\x00' ∈ t

instance (t : Text) : Decidable (Text.HasNul t) := inferInstanceAs (Decidable ('\x00' ∈ t))

namespace Node

/-- Whether the names in a tree are possible: the impossible character is in none of them. -/
def NamesPossible (n : Node) : Prop :=
  ∀ place es, n.at? place = some (.directory es) → ∀ e ∈ es, ¬ Text.HasNul e.1

theorem namesPossible_file (bytes : List UInt8) (modified : Int) :
    (Node.file bytes modified).NamesPossible := by
  intro place es h
  cases place <;> simp [at?] at h

/-- The names in a directory are possible if its own and those further in are. -/
theorem namesPossible_directory {es : List (Text × Node)}
    (h : ∀ e ∈ es, ¬ Text.HasNul e.1 ∧ e.2.NamesPossible) : (Node.directory es).NamesPossible := by
  intro place es' hplace
  cases place with
  | nil =>
    obtain rfl : es = es' := by simpa using hplace
    exact fun e he => (h e he).1
  | cons name place =>
    rw [at?] at hplace
    split at hplace
    · rename_i child hchild
      exact (h _ (Entries.mem_of_get? hchild)).2 place es' hplace
    · cases hplace

end Node

namespace Disk

variable {d : Disk}

/-- Whether the names of a tree are possible: the impossible character is in none of them. -/
def Possible (d : Disk) : Prop :=
  ∀ place es, d.root.at? place = some (.directory es) → ∀ e ∈ es, ¬ Text.HasNul e.1

/-! ### Paths -/

theorem place_eq_nul {p : Text} {follow : Bool} (h : d.place p follow = .error .nulInPath) :
    Text.HasNul p := by
  unfold place at h
  split at h
  · rename_i hnul
    exact List.contains_iff_mem.mp hnul
  · split at h
    · cases h
    · split at h
      · cases h
      · obtain ⟨o, -, ho⟩ := eq_error_of_mapError h
        cases ho

theorem lookup_eq_nul {p : Text} {follow : Bool} (h : d.lookup p follow = .error .nulInPath) :
    Text.HasNul p := by
  rcases bind_eq_error h with h | ⟨⟨names, _ | n⟩, -, h⟩
  · exact place_eq_nul h
  · cases h
  · cases h

theorem readText_eq_nul {p : Text} (h : d.readText p = .error .nulInPath) : Text.HasNul p := by
  rcases bind_eq_error h with h | ⟨bytes, -, h⟩
  · rcases bind_eq_error h with h | ⟨⟨names, n⟩, -, h⟩
    · exact lookup_eq_nul h
    · cases n <;> cases h
  · split at h <;> cases h

theorem list_eq_nul {p : Text} (h : d.list p = .error .nulInPath) : Text.HasNul p := by
  rcases bind_eq_error h with h | ⟨⟨names, n⟩, -, h⟩
  · exact lookup_eq_nul h
  · cases n <;> cases h

/-- A walk ends at a place and what stands there. -/
theorem at?_of_walk {p : Text} {follow : Bool} {links : Nat} {at_ names there : List Text}
    {n : Node} (h : walk d p follow links at_ names = .ok ⟨there, some n⟩) :
    d.root.at? there = some n := by
  induction links, at_, names using walk.induct d follow with
  | case1 links at_ =>
    rw [walk, Except.ok.injEq, Place.mk.injEq] at h
    exact h.1 ▸ h.2
  | case2 links at_ names es hes ih =>
    rw [walk_here hes] at h
    exact ih h
  | case3 links at_ names es hes _ ih =>
    rw [walk_up hes] at h
    exact ih h
  | case7 links at_ name names es hes hhere hup hlong target hlink hend =>
    -- The link itself is what stands there.
    rw [walk, hes] at h
    simp only [hhere, hup, hlong, hlink, hend, if_false, if_true, Except.ok.injEq,
      Place.mk.injEq] at h
    rw [← h.1, ← h.2, Node.at?_concat, hes]
    exact hlink
  | case10 at_ name names es hes hhere hup hlong target hlink hend links hne ih =>
    -- The walk goes on along the target of a link.
    rw [walk, hes] at h
    simp only [hhere, hup, hlong, hlink, hend, hne, if_false] at h
    exact ih h
  | case11 links at_ name names es hes hhere hup hlong m hm hget ih =>
    rw [walk, hes] at h
    simp only [hhere, hup, hlong, hget, if_false] at h
    exact ih h
  | case4 links at_ name names es hes hhere hup hlong =>
    simp [walk, hes, hhere, hup, hlong] at h
  | case5 links at_ name es hes hhere hup hlong hget
  | case6 links at_ name names es hes hhere hup hlong hget hne =>
    rw [walk, hes] at h
    simp_all only [if_false, if_true, reduceCtorEq, Except.ok.injEq, Place.mk.injEq, and_false]
  | case8 at_ name names es hes hhere hup hlong target hlink hend
  | case9 at_ name names es hes hhere hup hlong hend links hlink =>
    rw [walk, hes] at h
    simp only [hhere, hup, hlong, hlink, hend, if_false, if_true, reduceCtorEq] at h
  | case12 links at_ name names hdir =>
    rw [walk_of_not_directory hdir] at h
    simp at h

theorem at?_of_lookup {p : Text} {follow : Bool} {names : List Text} {n : Node}
    (h : d.lookup p follow = .ok (names, n)) : d.root.at? names = some n :=
  at?_of_walk (place_eq_ok.mp (lookup_eq_ok.mp h)).2.2.2

/-- The names that lead to something are possible. -/
theorem Possible.not_hasNul (hd : d.Possible) {names : List Text} {n : Node}
    (h : d.root.at? names = some n) : ∀ m ∈ names, ¬ Text.HasNul m := by
  intro m hm
  obtain ⟨front, back, rfl⟩ := List.append_of_mem hm
  have hsplit : front ++ m :: back = (front ++ [m]) ++ back := by simp
  rw [hsplit, Node.at?_append] at h
  obtain ⟨k, hk, -⟩ := Option.bind_eq_some_iff.mp h
  rw [Node.at?_concat] at hk
  split at hk
  · rename_i es hes
    exact hd front es hes _ (Entries.mem_of_get? hk)
  · cases hk

/-- The names in a listed directory are possible. -/
theorem not_hasNul_of_list {p : Text} {es : List (Text × Node)} (hd : d.Possible)
    (h : d.list p = .ok es) : ∀ e ∈ es, ¬ Text.HasNul e.1 := by
  obtain ⟨⟨names, n⟩, hlookup, h⟩ := bind_eq_ok h
  cases n with
  | directory es' =>
    obtain rfl : es' = es := Except.ok.inj h
    exact hd names es' (at?_of_lookup hlookup)
  | file | link => cases h

/-! ### Where the impossible character comes from -/

theorem hasNul_of_join {p q : Text} (h : Text.HasNul (Path.join p q)) :
    Text.HasNul p ∨ Text.HasNul q := by
  unfold Text.HasNul at *
  unfold Path.join at h
  split at h
  · exact .inr h
  · split at h
    · exact List.mem_append.mp h
    · simpa [show '\x00' ≠ '/' by decide] using h

theorem hasNul_of_below {p q : Text} (h : Text.HasNul (below p q)) :
    Text.HasNul p ∨ Text.HasNul q := by
  unfold below at h
  split at h
  · exact .inr h
  · split at h
    · exact .inl h
    · exact hasNul_of_join h

theorem hasNul_of_splitLast {p dir name : Text} (h : Path.splitLast p = (dir, name)) :
    (Text.HasNul dir → Text.HasNul p) ∧ (Text.HasNul name → Text.HasNul p) := by
  unfold Path.splitLast at h
  rcases hcut : Text.cutLast '/' p with _ | ⟨before, last⟩
  · rw [hcut, Prod.mk.injEq] at h
    rw [← h.1, ← h.2]
    exact ⟨fun hnul => absurd hnul List.not_mem_nil, id⟩
  · rw [hcut] at h
    dsimp only at h
    rw [Prod.mk.injEq] at h
    have hsplit : p = (before ++ ['/']) ++ last := by
      rw [Text.eq_of_cutLast hcut, List.append_assoc, List.singleton_append]
    rw [← h.1, ← h.2, hsplit]
    refine ⟨fun hnul => List.mem_append_left _ ?_, fun hnul => List.mem_append_right _ hnul⟩
    split at hnul
    · exact hnul
    · obtain ⟨rest, hrest, -⟩ := Text.dropEndWhile_append (· = '/') (before ++ ['/'])
      rw [hrest]
      exact List.mem_append_left _ hnul

/-! ### Patterns -/

theorem namesIn_eq_error {dir : Text} {only : Bool} {e : ReadFailure}
    (h : d.namesIn dir only = .error e) : e = .nulInPath ∧ Text.HasNul dir := by
  unfold namesIn at h
  dsimp only at h
  split at h
  · cases h
  · rename_i hlist
    refine ⟨(Except.error.inj h).symm, ?_⟩
    have hnul := list_eq_nul hlist
    -- The empty directory is listed as the dot, in which the character is not.
    split at hnul
    · exact absurd hnul (by unfold Text.HasNul; decide)
    · exact hnul
  · cases h

theorem not_hasNul_of_namesIn (hd : d.Possible) {dir : Text} {only : Bool} {names : List Text}
    (h : d.namesIn dir only = .ok names) : ∀ n ∈ names, ¬ Text.HasNul n := by
  unfold namesIn at h
  dsimp only at h
  split at h
  · rename_i es hlist
    rw [Except.ok.injEq] at h
    intro n hn
    have hmem : n ∈ es.map (·.1) := by
      rw [← h] at hn
      split at hn
      · exact (List.mem_filter.mp hn).1
      · exact hn
    obtain ⟨e, he, rfl⟩ := List.mem_map.mp hmem
    exact not_hasNul_of_list hd hlist e he
  · cases h
  · rw [← Except.ok.inj h]
    simp

theorem namesMatching_eq_error {dir pattern : Text} {only : Bool} {e : ReadFailure}
    (h : d.namesMatching dir pattern only = .error e) : e = .nulInPath ∧ Text.HasNul dir :=
  namesIn_eq_error (eq_error_of_map h)

theorem not_hasNul_of_namesMatching (hd : d.Possible) {dir pattern : Text} {only : Bool}
    {names : List Text} (h : d.namesMatching dir pattern only = .ok names) :
    ∀ n ∈ names, ¬ Text.HasNul n := by
  obtain ⟨all, hall, rfl⟩ := eq_ok_of_map h
  intro n hn
  exact not_hasNul_of_namesIn hd hall n (List.mem_filter.mp hn).1

theorem eq_of_mem_plainName {dir name n : Text} (h : n ∈ d.plainName dir name) : n = name := by
  unfold plainName at h
  split_ifs at h <;> first | exact List.mem_singleton.mp h | cases h

/-- The paths in one directory that the last name of a pattern describes. -/
def expandLast (d : Disk) (base name : Text) (only : Bool) (dir : Text) :
    Except ReadFailure (List Text) :=
  (if Pattern.hasMagic name then d.namesMatching (below base dir) name only
    else .ok (d.plainName (below base dir) name)).bind fun names => .ok (names.map (Path.join dir))

theorem expandLast_eq_error {base name dir : Text} {only : Bool} {e : ReadFailure}
    (h : d.expandLast base name only dir = .error e) :
    e = .nulInPath ∧ Text.HasNul (below base dir) := by
  rcases bind_eq_error h with h | ⟨names, -, h⟩
  · split at h
    · exact namesMatching_eq_error h
    · cases h
  · cases h

theorem hasNul_of_mem_expandLast (hd : d.Possible) {base name dir : Text} {only : Bool}
    {ps : List Text} (h : d.expandLast base name only dir = .ok ps) {q : Text} (hq : q ∈ ps)
    (hnul : Text.HasNul q) : Text.HasNul dir ∨ Text.HasNul name := by
  obtain ⟨names, hnames, h⟩ := bind_eq_ok h
  rw [← Except.ok.inj h] at hq
  obtain ⟨n, hn, rfl⟩ := List.mem_map.mp hq
  refine (hasNul_of_join hnul).imp_right fun hnul => ?_
  split at hnames
  · exact absurd hnul (not_hasNul_of_namesMatching hd hnames n hn)
  · rw [← Except.ok.inj hnames] at hn
    exact eq_of_mem_plainName hn ▸ hnul

/-- The paths in several directories that the last name of a pattern describes. -/
def expandEach (d : Disk) (base name : Text) (only : Bool) (dirs : List Text) :
    Except ReadFailure (List Text) :=
  (dirs.mapM (d.expandLast base name only)).bind fun found => .ok found.flatten

theorem expandEach_eq_error {base name : Text} {only : Bool} {dirs : List Text} {e : ReadFailure}
    (h : d.expandEach base name only dirs = .error e) :
    e = .nulInPath ∧ ∃ dir ∈ dirs, Text.HasNul (below base dir) := by
  rcases bind_eq_error h with h | ⟨found, -, h⟩
  · obtain ⟨dir, hmem, h⟩ := mapM_eq_error h
    obtain ⟨he, hnul⟩ := expandLast_eq_error h
    exact ⟨he, dir, hmem, hnul⟩
  · cases h

theorem hasNul_of_mem_expandEach (hd : d.Possible) {base name : Text} {only : Bool}
    {dirs ps : List Text} (h : d.expandEach base name only dirs = .ok ps) {q : Text} (hq : q ∈ ps)
    (hnul : Text.HasNul q) : (∃ dir ∈ dirs, Text.HasNul dir) ∨ Text.HasNul name := by
  obtain ⟨found, hfound, h⟩ := bind_eq_ok h
  rw [← Except.ok.inj h] at hq
  obtain ⟨qs, hqs, hq⟩ := List.mem_flatten.mp hq
  obtain ⟨dir, hdir, hqs⟩ := exists_of_mapM_eq_ok hfound qs hqs
  exact (hasNul_of_mem_expandLast hd hqs hq hnul).imp_left fun hnul => ⟨dir, hdir, hnul⟩

/-- A plain path is the only one that it can describe. -/
theorem expand_of_plain (d : Disk) (base : Text) {p : Text} (only : Bool)
    (hmagic : Pattern.hasMagic p = false) :
    ∃ ps, d.expand base p only = .ok ps ∧ ∀ q ∈ ps, q = p := by
  rw [expand, hmagic]
  refine ⟨_, rfl, fun q hq => ?_⟩
  split_ifs at hq <;> first | exact List.mem_singleton.mp hq | cases hq

theorem expand_of_name {base p name : Text} {only : Bool}
    (hsplit : Path.splitLast p = ([], name)) (hmagic : Pattern.hasMagic p = true) :
    d.expand base p only = d.namesMatching base name only := by
  rw [expand, hsplit, hmagic]
  rfl

/-- A pattern with a directory is expanded in each of the directories that this describes. -/
theorem expand_of_directory {base p dir name : Text} {only : Bool}
    (hsplit : Path.splitLast p = (dir, name)) (hmagic : Pattern.hasMagic p = true)
    (hdir : dir ≠ []) :
    d.expand base p only
      = (if Pattern.hasMagic dir ∧ dir.length < p.length then d.expand base dir true
          else .ok [dir]).bind (d.expandEach base name only) := by
  -- Both are unfolded as functions, since what they are applied to is bound further in.
  have hlast : d.expandLast base name only = fun dir =>
      if Pattern.hasMagic name then
        (d.namesMatching (below base dir) name only).bind fun names =>
          .ok (names.map (Path.join dir))
      else .ok ((d.plainName (below base dir) name).map (Path.join dir)) := by
    funext dir
    unfold expandLast
    split <;> rfl
  have heach : d.expandEach base name only = fun dirs =>
      (dirs.mapM (d.expandLast base name only)).bind fun found => .ok found.flatten := rfl
  rw [expand, hsplit, heach, hlast]
  simp only [hmagic, hdir, Bool.not_true, Bool.false_eq_true, if_false]
  split <;> rfl

/-- In the names of a tree that are possible, the character comes from the pattern. -/
theorem hasNul_of_mem_expand (hd : d.Possible) {base p : Text} {only : Bool} {ps : List Text}
    (h : d.expand base p only = .ok ps) {q : Text} (hq : q ∈ ps) (hnul : Text.HasNul q) :
    Text.HasNul p := by
  induction p, only using expand.induct d base generalizing ps q with
  | case1 p only dir name hsplit hmagic =>
    obtain ⟨ps', hps', hall⟩ := expand_of_plain d base only ((Bool.not_eq_true' _).mp hmagic)
    obtain rfl : ps' = ps := Except.ok.inj (hps'.symm.trans h)
    exact hall q hq ▸ hnul
  | case2 p only name hmagic hsplit =>
    rw [expand_of_name hsplit (by simpa using hmagic)] at h
    exact absurd hnul (not_hasNul_of_namesMatching hd h q hq)
  | case3 p only dir name hsplit hmagic hdir hdeeper ih =>
    rw [expand_of_directory hsplit (by simpa using hmagic) hdir, if_pos hdeeper] at h
    obtain ⟨dirs, hdirs, h⟩ := bind_eq_ok h
    rcases hasNul_of_mem_expandEach hd h hq hnul with ⟨dir', hmem, hnul⟩ | hnul
    · exact (hasNul_of_splitLast hsplit).1 (ih hdirs hmem hnul)
    · exact (hasNul_of_splitLast hsplit).2 hnul
  | case4 p only dir name hsplit hmagic hdir hdeeper =>
    rw [expand_of_directory hsplit (by simpa using hmagic) hdir, if_neg hdeeper] at h
    rcases hasNul_of_mem_expandEach hd h hq hnul with ⟨dir', hmem, hnul⟩ | hnul
    · exact (hasNul_of_splitLast hsplit).1 (List.mem_singleton.mp hmem ▸ hnul)
    · exact (hasNul_of_splitLast hsplit).2 hnul

/-- A pattern fails only for an impossible character in it or in the base directory. -/
theorem expand_eq_error (hd : d.Possible) {base p : Text} {only : Bool} {e : ReadFailure}
    (h : d.expand base p only = .error e) :
    e = .nulInPath ∧ (Text.HasNul base ∨ Text.HasNul p) := by
  induction p, only using expand.induct d base with
  | case1 p only dir name hsplit hmagic =>
    obtain ⟨ps, hps, -⟩ := expand_of_plain d base only ((Bool.not_eq_true' _).mp hmagic)
    rw [hps] at h
    cases h
  | case2 p only name hmagic hsplit =>
    rw [expand_of_name hsplit (by simpa using hmagic)] at h
    exact (namesMatching_eq_error h).imp_right .inl
  | case3 p only dir name hsplit hmagic hdir hdeeper ih =>
    have hup := (hasNul_of_splitLast hsplit).1
    rw [expand_of_directory hsplit (by simpa using hmagic) hdir, if_pos hdeeper] at h
    rcases bind_eq_error h with h | ⟨dirs, hdirs, h⟩
    · exact (ih h).imp_right (Or.imp_right hup)
    · obtain ⟨he, dir', hmem, hnul⟩ := expandEach_eq_error h
      refine ⟨he, (hasNul_of_below hnul).imp_right fun hnul => ?_⟩
      exact hup (hasNul_of_mem_expand hd hdirs hmem hnul)
  | case4 p only dir name hsplit hmagic hdir hdeeper =>
    rw [expand_of_directory hsplit (by simpa using hmagic) hdir, if_neg hdeeper] at h
    obtain ⟨he, dir', hmem, hnul⟩ := expandEach_eq_error h
    refine ⟨he, (hasNul_of_below hnul).imp_right fun hnul => ?_⟩
    exact (hasNul_of_splitLast hsplit).1 (List.mem_singleton.mp hmem ▸ hnul)

theorem glob_eq_error (hd : d.Possible) {base p : Text} {e : ReadFailure}
    (h : d.glob base p = .error e) : e = .nulInPath ∧ (Text.HasNul base ∨ Text.HasNul p) := by
  unfold glob at h
  split at h
  · cases h
  · exact expand_eq_error hd (eq_error_of_map h)

end Disk

end StyleImport
