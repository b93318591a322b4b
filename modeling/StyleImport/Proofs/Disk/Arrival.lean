/-
Walks that arrive.

A walk that arrives comes through directories only, so that it can turn to other names at any place
on its way.  Without links these places are told by the names (`Path.moveAll`), and dots on the way
make no difference.

* `Disk.steps_of_walk` — the steps of a walk that arrives, with other names behind them;
* `Disk.lookup_fromRoot` — a path leads to the same when it is seen from the root;
* `Disk.isFileOrFail_of_steps` — whether names behind a place on the way lead to a file.
-/
import StyleImport.Proofs.Disk.Making
import StyleImport.Proofs.Path.FromRoot

namespace StyleImport

namespace Disk

variable {d : Disk} {p : Text} {follow : Bool} {links : Nat} {at_ names there : List Text} {n : Node}

theorem exists_of_walk (hd : d.root.LinkFree) (hne : ∀ m ∈ names, m ≠ [])
    (h : walk d p follow links at_ names = .ok ⟨there, some n⟩) :
    ∃ m, d.root.at? at_ = some m := by
  cases names with
  | nil =>
    rw [walk, Except.ok.injEq, Place.mk.injEq] at h
    exact ⟨n, h.2⟩
  | cons name names =>
    obtain ⟨⟨es, hes⟩, -⟩ := walk_cons_eq_ok hd (hne name List.mem_cons_self) h
    exact ⟨_, hes⟩

/-- One step of a walk that arrives, with other names behind it. -/
theorem step_of_walk (hd : d.root.LinkFree) {name : Text} (hne : ∀ m ∈ name :: names, m ≠ [])
    (h : walk d p follow links at_ (name :: names) = .ok ⟨there, some n⟩) (more : List Text) :
    d.Step ⟨links, at_, name :: more⟩ ⟨links, Path.move at_ name, more⟩ := by
  obtain ⟨⟨es, hes⟩, hrest, hshort⟩ := walk_cons_eq_ok hd (hne name List.mem_cons_self) h
  by_cases hhere : name = Path.here
  · subst hhere
    rw [Path.move_here]
    exact .here hes
  · by_cases hup : name = Path.up
    · subst hup
      rw [Path.move_up]
      exact .up hes
    · obtain ⟨m, hm⟩ := exists_of_walk hd (fun k hk => hne k (List.mem_cons_of_mem _ hk)) hrest
      rw [Path.move_of_ne at_ (hne name List.mem_cons_self) hhere hup] at hm ⊢
      refine .into hhere hup (hshort hhere hup) hm ?_
      rintro target rfl
      cases hd.of_at? hm

/-- A walk that arrives can turn to other names at any place that it comes through. -/
theorem steps_of_walk (hd : d.root.LinkFree) {front back : List Text}
    (hne : ∀ m ∈ front ++ back, m ≠ [])
    (h : walk d p follow links at_ (front ++ back) = .ok ⟨there, some n⟩) (more : List Text) :
    d.Steps ⟨links, at_, front ++ more⟩ ⟨links, Path.moveAll at_ front, more⟩ ∧
      walk d p follow links (Path.moveAll at_ front) back = .ok ⟨there, some n⟩ := by
  induction front generalizing at_ with
  | nil => exact ⟨.refl, h⟩
  | cons name front ih =>
    have hstep := step_of_walk hd hne h (front ++ more)
    have hrest := (walk_cons_eq_ok hd (hne name List.mem_cons_self) h).2.1
    obtain ⟨hsteps, hwalk⟩ := ih (fun m hm => hne m (List.mem_cons_of_mem _ hm)) hrest
    exact ⟨hsteps.head hstep, hwalk⟩

/-- Where a walk has more names to go, it is in a directory. -/
theorem directory_of_walk (hd : d.root.LinkFree) {front back : List Text}
    (hne : ∀ m ∈ front ++ back, m ≠ []) (hback : back ≠ [])
    (h : walk d p follow links at_ (front ++ back) = .ok ⟨there, some n⟩) :
    ∃ es, d.root.at? (Path.moveAll at_ front) = some (.directory es) := by
  obtain ⟨-, hrest⟩ := steps_of_walk hd hne h []
  obtain ⟨name, back, rfl⟩ := List.exists_cons_of_ne_nil hback
  exact (walk_cons_eq_ok hd (hne name (by simp)) hrest).1

/-- Dots make no difference for where a walk arrives. -/
theorem walk_filter_here (hd : d.root.LinkFree) (hne : ∀ m ∈ names, m ≠ [])
    (h : walk d p true links at_ names = .ok ⟨there, some n⟩) (q : Text) :
    walk d q true links at_ (names.filter (· ≠ Path.here)) = .ok ⟨there, some n⟩ := by
  induction names generalizing at_ with
  | nil =>
    rw [walk] at h
    rw [List.filter_nil, walk]
    exact h
  | cons name names ih =>
    have hrest := (walk_cons_eq_ok hd (hne name List.mem_cons_self) h).2.1
    have hgoes := ih (fun m hm => hne m (List.mem_cons_of_mem _ hm)) hrest
    by_cases hhere : name = Path.here
    · subst hhere
      rw [Path.move_here] at hgoes
      simpa using hgoes
    · have hstep := step_of_walk hd hne h (names.filter (· ≠ Path.here))
      rw [List.filter_cons_of_pos (by simpa using hhere), hstep.walk_eq q]
      exact hgoes

/-- A path leads to the same when it is seen from the root, unless it is too long then. -/
theorem lookup_fromRoot (hd : d.Settled) (h : d.lookup p = .ok (there, n))
    (hlimit : (Utf8.encode (Path.fromRoot d.cwdPath p)).length < pathLimit) :
    d.lookup (Path.fromRoot d.cwdPath p) = .ok (there, n) ∧
      walk d (Path.fromRoot d.cwdPath p) true linkLimit [] (Path.names (Path.fromRoot d.cwdPath p))
        = .ok ⟨there, some n⟩ := by
  obtain ⟨hnul, -, -, hwalk⟩ := place_eq_ok.mp (lookup_eq_ok.mp h)
  obtain ⟨⟨es, hes⟩, hcwdNul, hcwdShort⟩ := hd.cwd_possible
  have habsolute : Path.isAbsolute (Path.fromRoot d.cwdPath p) = true :=
    Path.isAbsolute_fromRoot p
  have hnames : Path.names (Path.fromRoot d.cwdPath p)
      = (if Path.isAbsolute p then [] else d.cwd) ++ Path.names p :=
    Path.names_fromRoot p hd.cwd_isName
  -- The walk goes down to where the path starts, and then along it without its dots.
  have hgoes : walk d (Path.fromRoot d.cwdPath p) true linkLimit []
      (Path.names (Path.fromRoot d.cwdPath p)) = .ok ⟨there, some n⟩ := by
    have hfilter := walk_filter_here hd.linkFree (walkNames_ne_nil p) hwalk
      (Path.fromRoot d.cwdPath p)
    have hdots : (walkNames p).filter (· ≠ Path.here) = Path.names p := by
      rw [walkNames, List.filter_append, ← Path.names_eq_filter]
      split <;> simp
    rw [hdots] at hfilter
    rw [hnames]
    split
    · rename_i hp
      rwa [if_pos hp] at hfilter
    · rename_i hp
      rw [if_neg hp] at hfilter
      have hcwd : d.root.at? ([] ++ d.cwd) = some (.directory es) := hes
      have hdown := steps_of_isName hd.linkFree linkLimit (Path.names p) hd.cwd_isName hcwdShort hcwd
      rw [hdown.walk_eq, List.nil_append]
      exact hfilter
  refine ⟨lookup_eq_ok.mpr (place_eq_ok.mpr ⟨?_, ?_, hlimit, ?_⟩), hgoes⟩
  · intro hmem
    rw [cwdPath, Path.fromRoot_eq_ofNames] at hmem
    rcases Path.mem_ofNames habsolute hmem with hc | ⟨m, hm, hc⟩
    · exact absurd hc (by decide)
    · have hm' : m ∈ (if Path.isAbsolute p then [] else d.cwd) ++ Path.names p := hnames ▸ hm
      rcases List.mem_append.mp hm' with hm' | hm'
      · split at hm'
        · cases hm'
        · rw [← Path.components_pathOf hd.cwd_isName] at hm'
          exact hcwdNul (Path.mem_of_mem_components hm' hc)
      · exact hnul (Path.mem_of_mem_components (Path.mem_components_of_mem_names hm') hc)
  · intro hnil
    rw [hnil] at habsolute
    cases habsolute
  · rw [if_pos habsolute]
    by_cases hempty : Path.names (Path.fromRoot d.cwdPath p) = []
    · -- Without names the path is the root, which a dot stands for.
      have hwalkNames : walkNames (Path.fromRoot d.cwdPath p) = [Path.here] := by
        rw [cwdPath, Path.fromRoot_eq_ofNames, ← cwdPath, hempty]
        exact walkNames_ofNames_nil _
      rw [hempty] at hgoes
      rw [hwalkNames, walk_here rfl]
      exact hgoes
    · have hwalkNames : walkNames (Path.fromRoot d.cwdPath p)
          = Path.names (Path.fromRoot d.cwdPath p) := by
        conv_lhs => rw [cwdPath, Path.fromRoot_eq_ofNames, ← cwdPath]
        exact walkNames_ofNames (fun m => Path.isKept_of_mem_names) hempty _
      rw [hwalkNames]
      exact hgoes

/-! ### Asking for a file behind a place -/

theorem isFileOrFail_of_nul (h : '\x00' ∈ p) : d.isFileOrFail p = .ok false := by
  have hplace : d.place p = .error .nulInPath := by
    rw [place, if_pos (List.contains_iff_mem.mpr h)]
  rw [isFileOrFail, askOrFail, lookup, hplace]
  rfl

/-- Behind a place that a path comes through, plain names tell whether it leads to a file. -/
theorem isFileOrFail_of_steps (hd : d.root.LinkFree) (hnul : '\x00' ∉ p)
    (habsolute : Path.isAbsolute p = true) (hlimit : (Utf8.encode p).length < pathLimit)
    {place rest : List Text} (hsteps : d.Steps ⟨linkLimit, [], walkNames p⟩ ⟨links, place, rest⟩)
    (hrest : ∀ m ∈ rest, Path.IsName m ∧ (Utf8.encode m).length ≤ longestName) :
    d.isFileOrFail p = .ok ((d.root.at? (place ++ rest)).any Node.isFile) := by
  have hnil : p ≠ [] := by
    rintro rfl
    cases habsolute
  have hplace : d.place p = (walk d p true links place rest).mapError .system := by
    rw [Disk.place, if_neg (by simpa using hnul), if_neg hnil, if_neg (Nat.not_le.mpr hlimit),
      if_pos habsolute, hsteps.walk_eq p]
  have hlinks : ∀ front, front <+: rest → front ≠ [] →
      ∀ target, d.root.at? (place ++ front) ≠ some (.link target) := by
    intro front _ _ target hlink
    cases hd.of_at? hlink
  rw [isFileOrFail, askOrFail, lookup, hplace]
  rcases walk_straight p true links (fun m hm => (hrest m hm).1) (fun m hm => (hrest m hm).2)
    hlinks with ⟨hnone, e, he, habsence⟩ | ⟨harrives, -⟩
  · rw [he, hnone]
    show (if e.isAbsence = true then _ else _) = _
    rw [if_pos habsence]
    rfl
  · rw [harrives]
    cases d.root.at? (place ++ rest) <;> rfl

end Disk

end StyleImport
