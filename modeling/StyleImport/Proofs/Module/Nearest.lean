/-
Which installed module is found.

The directories above a place are searched as its path spells them, the longest first.  Wherever the
path goes up, it comes through directories that are not above the place at all.  The true ancestors
are still searched in their order, since a way from the root to a place comes through each of them
for the last time before it does so for the next one.

* `Registry.Descent`, `Registry.exists_descent` — the way of a path down to a place;
* `Registry.nearest_installed` — the module in the nearest ancestor is found, unless the path comes
  through another directory that has one.
-/
import Mathlib.Tactic.Common
import StyleImport.Proofs.Module.Searched

namespace StyleImport

namespace Registry

/-! ### The directories of a place -/

/-- What the search from a place goes through: the fronts of the names `ns` of a path `p` from the
root, which lead to the directory at `start`. -/
structure Descent (d : Disk) (name context p : Text) (ns start : List Text) : Prop where
  searchPath_eq : searchPath d context = .ok (Path.prefixes (Path.anchor p) ns ns.length)
  isAbsolute : Path.isAbsolute p = true
  isKept : ∀ n ∈ ns, Path.IsKept n
  possible : ∀ n ∈ ns, ¬ Text.HasNul n
  leads : Path.moveAll [] ns = start
  steps : ∀ front, front <+: ns → ∀ more,
    d.Steps ⟨Disk.linkLimit, [], front ++ more⟩ ⟨Disk.linkLimit, Path.moveAll [] front, more⟩
  short : (Utf8.encode (metadataPath name (Path.ofNames (Path.anchor p) ns))).length
    < Disk.pathLimit

/-- A file is not reached by going up, so its directory is that of its path. -/
theorem exists_last_of_file {d : Disk} (hd : d.root.LinkFree) {q : Text} {names there : List Text}
    {n : Node} (hnames : ∀ m ∈ names, Path.IsKept m)
    (hwalk : Disk.walk d q true Disk.linkLimit [] names = .ok ⟨there, some n⟩)
    (hfile : n.isFile = true) : Path.moveAll [] names.dropLast = there.dropLast := by
  have hne : ∀ m ∈ names, m ≠ [] := fun m hm => (hnames m hm).ne_nil
  obtain ⟨hthere, hnode, -⟩ := Disk.place_of_walk hd hne hwalk
  rcases List.eq_nil_or_concat names with rfl | ⟨front, m, hsplit⟩
  · -- The root is no file.
    obtain rfl : there = [] := hthere
    rw [Node.at?_nil] at hnode
    rw [← Option.some.inj hnode] at hfile
    cases hfile
  · rw [List.concat_eq_append] at hsplit
    subst hsplit
    obtain ⟨es, hes⟩ := Disk.directory_of_walk hd hne (by simp) hwalk
    have hm : Path.IsKept m := hnames m (by simp)
    rw [Path.moveAll_append] at hthere
    have hup : m ≠ Path.up := by
      rintro rfl
      have hbehind : there = (Path.moveAll [] front).dropLast := by
        rw [hthere]
        exact Path.move_up _
      -- What is above a directory is a directory.
      obtain ⟨last, hlast⟩ := List.dropLast_prefix (Path.moveAll [] front)
      rw [← hlast, ← hbehind] at hes
      by_cases hnil : last = []
      · rw [hnil, List.append_nil, hnode] at hes
        rw [Option.some.inj hes] at hfile
        cases hfile
      · obtain ⟨es', hes'⟩ := Node.isDirectory_of_at?_append hnil hes
        rw [hnode] at hes'
        rw [Option.some.inj hes'] at hfile
        cases hfile
    have hbehind : there = Path.moveAll [] front ++ [m] := by
      rw [hthere]
      exact Path.move_of_ne _ hm.ne_nil hm.ne_here hup
    rw [hbehind, List.dropLast_concat, List.dropLast_concat]

theorem exists_descent {d : Disk} (hd : d.Settled) {name context : Text} (hname : IsModuleName name)
    {there : List Text} {n : Node} (hcontext : d.lookup context = .ok (there, n))
    (hlimit : (Utf8.encode (metadataPath name (Path.fromRoot d.cwdPath context))).length
      < Disk.pathLimit) :
    let place := Path.components (Path.absolute d.cwdPath context)
    ∃ ns, ns <+: Path.names (Path.fromRoot d.cwdPath context) ∧
      Descent d name context (Path.fromRoot d.cwdPath context) ns
        (if n.isFile then place.dropLast else place) := by
  intro place
  let p := Path.fromRoot d.cwdPath context
  have hp : Path.isAbsolute p = true := Path.isAbsolute_fromRoot context
  have hkept : ∀ m ∈ Path.names p, Path.IsKept m := fun m => Path.isKept_of_mem_names
  have hcollapsed : p = Path.ofNames (Path.anchor p) (Path.names p) :=
    Path.fromRoot_eq_ofNames context
  -- Every path that is asked for is shorter than that of metadata at the very end.
  obtain ⟨hlong, hlonger⟩ := length_le_metadataPath hname hp hkept
  rw [← hcollapsed] at hlong hlonger
  have hpath : (Utf8.encode p).length < Disk.pathLimit := Nat.lt_of_le_of_lt hlong hlimit
  obtain ⟨hlookup, hwalk⟩ := Disk.lookup_fromRoot hd hcontext hpath
  have hne : ∀ m ∈ Path.names p, m ≠ [] := fun m hm => (hkept m hm).ne_nil
  obtain ⟨hthere, -⟩ := Disk.place_of_walk hd.linkFree hne hwalk
  have hplace : there = place := hthere.trans (Path.components_absolute_eq context hd.cwd_isName).symm
  obtain ⟨hnul, -⟩ := Disk.place_eq_ok.mp (Disk.lookup_eq_ok.mp hlookup)
  have hpossible : ∀ m ∈ Path.names p, ¬ Text.HasNul m := fun m hm hc =>
    hnul (Path.mem_of_mem_components (Path.mem_components_of_mem_names hm) hc)
  have hsearch : searchPath d context = .ok (Path.ancestors (if n.isFile then Path.parent p else p)) := by
    simp only [searchPath, Disk.isFileOrFail_of_lookup hlookup]
    rfl
  have hsteps {ns : List Text} (hns : ns <+: Path.names p) (front : List Text) (hfront : front <+: ns)
      (more : List Text) : d.Steps ⟨Disk.linkLimit, [], front ++ more⟩
        ⟨Disk.linkLimit, Path.moveAll [] front, more⟩ := by
    obtain ⟨back, hback⟩ := hfront.trans hns
    rw [← hback] at hne hwalk
    exact (Disk.steps_of_walk hd.linkFree hne hwalk more).1
  have hancestors {ns : List Text} (hns : ns <+: Path.names p) :
      Path.ancestors (Path.ofNames (Path.anchor p) ns)
        = Path.prefixes (Path.anchor p) ns ns.length := by
    have hkeptFront : ∀ m ∈ ns, Path.IsKept m := fun m hm => hkept m (hns.subset hm)
    rw [Path.ancestors, Path.anchor_ofNames hkeptFront, Path.names_ofNames hkeptFront]
  have hdescent {ns start : List Text} (hns : ns <+: Path.names p)
      (hsearch : searchPath d context = .ok (Path.ancestors (Path.ofNames (Path.anchor p) ns)))
      (hleads : Path.moveAll [] ns = start) : Descent d name context p ns start :=
    ⟨hancestors hns ▸ hsearch, hp, fun m hm => hkept m (hns.subset hm),
      fun m hm => hpossible m (hns.subset hm), hleads, hsteps hns,
      Nat.lt_of_le_of_lt (hlonger ns hns) hlimit⟩
  cases hfile : n.isFile with
  | true =>
    rw [hfile, if_pos rfl, hcollapsed, Path.parent_ofNames hkept] at hsearch
    refine ⟨(Path.names p).dropLast, List.dropLast_prefix _,
      hdescent (List.dropLast_prefix _) hsearch ?_⟩
    rw [if_pos rfl, ← hplace]
    exact exists_last_of_file hd.linkFree hkept hwalk hfile
  | false =>
    rw [hfile, if_neg (by simp), hcollapsed] at hsearch
    refine ⟨Path.names p, List.prefix_rfl, hdescent List.prefix_rfl hsearch ?_⟩
    rw [if_neg (by simp), ← hplace]
    exact hthere.symm

theorem take_add_of_drop {ns front back : List Text} {k : Nat} (hk : k ≤ ns.length)
    (h : ns.drop k = front ++ back) :
    ns.take (k + front.length) = ns.take k ++ front ∧ k + front.length ≤ ns.length := by
  have hlength : ns.length - k = front.length + back.length := by
    rw [← List.length_drop, h, List.length_append]
  constructor
  · rw [List.take_add, h, List.take_left]
  · omega

namespace Descent

variable {d : Disk} {name context p : Text} {ns start : List Text}
  (h : Descent d name context p ns start)

include h

theorem place_eq {front : List Text} (hfront : front <+: ns) :
    Path.components (Path.normalize (Path.ofNames (Path.anchor p) front))
      = Path.moveAll [] front :=
  Path.components_normalize_ofNames h.isAbsolute fun m hm => h.isKept m (hfront.subset hm)

theorem isName_start : ∀ m ∈ start, Path.IsName m := by
  rw [← h.leads]
  exact Path.isName_of_mem_moveAll (by simp) fun m hm => (h.isKept m hm).no_slash

/-- The search finds the first directory on its way that has the module. -/
theorem metadataFrom_eq (hd : d.root.LinkFree) (hpossible : d.Possible) (hname : IsModuleName name)
    (stopAt : Option Text) :
    metadataFrom d stopAt name context
      = .ok (((searched stopAt (Path.prefixes (Path.anchor p) ns ns.length)).find? fun dir =>
          hasModule d name (Path.components (Path.normalize dir))).map (metadataPath name)) := by
  have hquestions : ∀ dir ∈ Path.prefixes (Path.anchor p) ns ns.length,
      d.isFileOrFail (metadataPath name dir)
        = .ok (hasModule d name (Path.components (Path.normalize dir))) := by
    intro dir hdir
    obtain ⟨j, -, rfl⟩ := mem_prefixes hdir
    have hfront : ns.take j <+: ns := List.take_prefix j ns
    have hkept : ∀ m ∈ ns.take j, Path.IsKept m := fun m hm => h.isKept m (hfront.subset hm)
    obtain ⟨-, hlonger⟩ := length_le_metadataPath hname h.isAbsolute h.isKept
    rw [h.place_eq hfront]
    exact isFileOrFail_metadataPath hname hd hpossible h.isAbsolute hkept
      (fun m hm => h.possible m (hfront.subset hm)) (h.steps _ hfront)
      (Nat.lt_of_le_of_lt (hlonger _ hfront) h.short)
  rw [metadataFrom, h.searchPath_eq]
  exact findInstalled_eq hquestions

/-- Behind a front that does not lead to an ancestor of the place or further down, there is one that
leads to it. -/
theorem exists_later_visit {q : List Text} (hq : q <+: start) {k : Nat} (hk : k ≤ ns.length)
    (hnot : ¬ q <+: Path.moveAll [] (ns.take k)) :
    ∃ j, k < j ∧ j ≤ ns.length ∧ Path.moveAll [] (ns.take j) = q := by
  have hrest : q <+: Path.moveAll (Path.moveAll [] (ns.take k)) (ns.drop k) := by
    rw [← Path.moveAll_append, List.take_append_drop, h.leads]
    exact hq
  obtain ⟨front, back, hdrop, hfront, hvisit⟩ := Path.exists_front_of_prefix hnot hrest
  obtain ⟨htake, hlength⟩ := take_add_of_drop hk hdrop
  have hlater : k < k + front.length :=
    Nat.lt_add_of_pos_right (List.length_pos_iff.mpr hfront)
  refine ⟨k + front.length, hlater, hlength, ?_⟩
  rw [htake, Path.moveAll_append, hvisit]

/-- Every ancestor down from the place where the search stops is searched. -/
theorem exists_visit {stopAt : Option Text} {stop q : List Text}
    (hstop : stopAt = none ∧ stop = [] ∨ stopAt = some (Path.ofNames (Path.anchor p) stop))
    (hbelow : stop <+: q) (hq : q <+: start) :
    ∃ j ≤ ns.length, Path.moveAll [] (ns.take j) = q ∧
      ∀ i, j < i → i ≤ ns.length →
        stopAt ≠ some (Path.ofNames (Path.anchor p) (ns.take i)) := by
  -- The search passes nothing between the place where it stops and the end of the path.
  obtain ⟨k, hk, hfirst, hfree⟩ : ∃ k ≤ ns.length, Path.moveAll [] (ns.take k) <+: q ∧
      ∀ i, k < i → i ≤ ns.length →
        stopAt ≠ some (Path.ofNames (Path.anchor p) (ns.take i)) := by
    by_cases hhit : ∃ i ≤ ns.length,
        stopAt = some (Path.ofNames (Path.anchor p) (ns.take i))
    · obtain ⟨k, hk, hsome⟩ := hhit
      have hproper : ∀ m ∈ stop, Path.IsName m := fun m hm =>
        h.isName_start m ((hbelow.trans hq).subset hm)
      have htake {i : Nat} (hi : stopAt = some (Path.ofNames (Path.anchor p) (ns.take i))) :
          ns.take i = stop := by
        rcases hstop with ⟨hnone, -⟩ | heq
        · rw [hnone] at hi
          cases hi
        · have hnames := congrArg Path.names (Option.some.inj (hi.symm.trans heq))
          rwa [Path.names_ofNames fun m hm => h.isKept m (List.mem_of_mem_take hm),
            Path.names_ofNames fun m hm => (hproper m hm).isKept] at hnames
      refine ⟨k, hk, ?_, fun i hlt hi heq => ?_⟩
      · rw [htake hsome, Path.moveAll_of_isName hproper, List.nil_append]
        exact hbelow
      · have hlength := congrArg List.length ((htake heq).trans (htake hsome).symm)
        rw [List.length_take, List.length_take] at hlength
        omega
    · refine ⟨0, Nat.zero_le _, List.nil_prefix, fun i _ hi heq => hhit ⟨i, hi, heq⟩⟩
  by_cases hthere : q <+: Path.moveAll [] (ns.take k)
  · refine ⟨k, hk, ?_, hfree⟩
    exact hfirst.eq_of_length_le hthere.length_le
  · obtain ⟨j, hlater, hj, hvisit⟩ := h.exists_later_visit hq hk hthere
    exact ⟨j, hj, hvisit, fun i hlt hi => hfree i (by omega) hi⟩

/-- Without a way up in the path, only ancestors down from the place where the search stops are
searched. -/
theorem names_of_mem_searched {stopAt : Option Text} {stop : List Text}
    (hstop : stopAt = none ∧ stop = [] ∨ stopAt = some (Path.ofNames (Path.anchor p) stop))
    (hbelow : stop <+: start) (hup : Path.up ∉ ns) {dir : Text}
    (hdir : dir ∈ searched stopAt (Path.prefixes (Path.anchor p) ns ns.length)) :
    Path.names dir = Path.components (Path.normalize dir) ∧
      stop <+: Path.names dir ∧ Path.names dir <+: start := by
  have hproper : ∀ m ∈ ns, Path.IsName m := fun m hm =>
    (h.isKept m hm).isName fun heq => hup (heq ▸ hm)
  have hstart : ns = start := by
    rw [← h.leads, Path.moveAll_of_isName hproper, List.nil_append]
  obtain ⟨j, hj, rfl, hlonger⟩ := mem_searched_prefixes hdir
  have hfront : ns.take j <+: ns := List.take_prefix j ns
  rw [h.place_eq hfront, Path.moveAll_of_isName fun m hm => hproper m (hfront.subset hm),
    List.nil_append, Path.names_ofNames fun m hm => h.isKept m (hfront.subset hm)]
  refine ⟨rfl, ?_, hstart ▸ hfront⟩
  have hstopTake : stop = ns.take stop.length := by
    rw [hstart]
    exact List.prefix_iff_eq_take.mp hbelow
  have hlength : stop.length ≤ ns.length := by
    rw [hstart]
    exact hbelow.length_le
  -- The search would have stopped before it came to a shorter front.
  have hle : stop.length ≤ j := by
    by_contra hlt
    rcases hstop with ⟨-, rfl⟩ | hsome
    · exact hlt (Nat.zero_le j)
    · exact hlonger stop.length (Nat.not_le.mp hlt) hlength (hstopTake ▸ hsome)
  rw [hstopTake]
  exact List.take_prefix_take_left hle

end Descent

/-- Whether the search for a module comes to a directory that has it and is no ancestor of the
place, or none that the search should get to. -/
def Strays (d : Disk) (stopAt : Option Text) (name context : Text) (stop start : List Text) : Prop :=
  ∃ dirs, searchPath d context = .ok dirs ∧ ∃ dir ∈ searched stopAt dirs,
    let place := Path.components (Path.normalize dir)
    hasModule d name place = true ∧ ¬ (stop <+: place ∧ place <+: start)

namespace Descent

variable {d : Disk} {name context p : Text} {ns start : List Text}
  (h : Descent d name context p ns start) {stopAt : Option Text} {stop : List Text}
  (hstop : stopAt = none ∧ stop = [] ∨ stopAt = some (Path.ofNames (Path.anchor p) stop))
  (hstrays : ¬ Strays d stopAt name context stop start)

include h hstrays

theorem on_line {dir : Text}
    (hfind : (searched stopAt (Path.prefixes (Path.anchor p) ns ns.length)).find? (fun dir =>
      hasModule d name (Path.components (Path.normalize dir))) = some dir) :
    let place := Path.components (Path.normalize dir)
    hasModule d name place = true ∧ stop <+: place ∧ place <+: start := by
  intro place
  have hholds : hasModule d name place = true := by simpa using List.find?_some hfind
  refine ⟨hholds, ?_⟩
  by_contra hoff
  exact hstrays ⟨_, h.searchPath_eq, dir, List.mem_of_find?_eq_some hfind, hholds, hoff⟩

include hstop

/-- The first hit is in the nearest ancestor that has the module. -/
theorem find?_eq_nearest {q : List Text} (hbelow : stop <+: q) (hq : q <+: start)
    (hmodule : hasModule d name q = true)
    (hnearest : ∀ q', q <+: q' → q' <+: start → hasModule d name q' = true → q' = q) :
    ∃ front, front <+: ns ∧ Path.moveAll [] front = q ∧
      (searched stopAt (Path.prefixes (Path.anchor p) ns ns.length)).find? (fun dir =>
        hasModule d name (Path.components (Path.normalize dir)))
          = some (Path.ofNames (Path.anchor p) front) := by
  have htake (i : Nat) : ns.take i <+: ns := List.take_prefix i ns
  have hspec := @find?_searched_prefixes stopAt (Path.anchor p) ns
    (fun dir => hasModule d name (Path.components (Path.normalize dir))) ns.length
  cases hfind : (searched stopAt (Path.prefixes (Path.anchor p) ns ns.length)).find? (fun dir =>
      hasModule d name (Path.components (Path.normalize dir))) with
  | none =>
    rw [hfind] at hspec
    obtain ⟨j, hj, hvisit, hfree⟩ := h.exists_visit hstop hbelow hq
    have hno := hspec j hj hfree
    rw [h.place_eq (htake j), hvisit, hmodule] at hno
    cases hno
  | some dir =>
    rw [hfind] at hspec
    obtain ⟨j, hj, rfl, -, hlonger⟩ := hspec
    obtain ⟨hholds, hstopPlace, hplace⟩ := h.on_line hstrays hfind
    rw [h.place_eq (htake j)] at hholds hplace
    refine ⟨ns.take j, htake j, ?_, rfl⟩
    rcases List.prefix_or_prefix_of_prefix hq hplace with hbehind | hbefore
    · exact hnearest _ hbehind hplace hholds
    · by_contra hne
      -- From an ancestor that is further up the way comes through the nearest one again.
      have hnot : ¬ q <+: Path.moveAll [] (ns.take j) := fun hbehind =>
        hne (hbefore.eq_of_length_le hbehind.length_le)
      obtain ⟨i, hlater, hi, hvisit⟩ := h.exists_later_visit hq hj hnot
      have hno := hlonger i hlater hi
      rw [h.place_eq (htake i), hvisit, hmodule] at hno
      cases hno

end Descent

/-- A file of metadata is where its path leads. -/
theorem Descent.lookup_file {d : Disk} {name context p : Text} {ns start : List Text}
    (h : Descent d name context p ns start) (hd : d.root.LinkFree) (hname : IsModuleName name)
    {front : List Text} (hfront : front <+: ns)
    (hfile : d.isFile (metadataPath name (Path.ofNames (Path.anchor p) front)) = true) :
    ∃ bytes modified, d.lookup (metadataPath name (Path.ofNames (Path.anchor p) front))
      = .ok (Path.moveAll [] front ++ metadataNames name, .file bytes modified) := by
  have hkept : ∀ m ∈ front, Path.IsKept m := fun m hm => h.isKept m (hfront.subset hm)
  have hnames := isName_metadataNames hname
  have hkept' := isKept_append hname hkept (List.Subset.refl _)
  rw [metadataPath_ofNames hname h.isAbsolute hkept] at hfile ⊢
  obtain ⟨names, n, hlookup, hn⟩ := Disk.isFile_iff.mp hfile
  obtain ⟨-, -, -, hwalk⟩ := Disk.place_eq_ok.mp (Disk.lookup_eq_ok.mp hlookup)
  obtain ⟨hthere, -⟩ := Disk.place_of_walk hd (Disk.walkNames_ne_nil _) hwalk
  rw [Path.isAbsolute_ofNames hkept', h.isAbsolute, if_pos rfl,
    Disk.walkNames_ofNames hkept' (by simp [metadataNames]), Path.moveAll_append,
    Path.moveAll_of_isName fun m hm => (hnames m hm).1] at hthere
  cases n with
  | file bytes modified => exact ⟨bytes, modified, hthere ▸ hlookup⟩
  | directory | link => cases hn

/-- **The nearest module is found.**  From a path that leads to a file or a directory, in a tree
without links, the module is found in the nearest ancestor of the place that has it, no further up
than the directory where the search stops, and nowhere if none of them has it.  A path that goes up
on its way must not come through any other directory that has the module.  One that does not go up
never gets to any other directory, and the file has the path of the ancestor in front. -/
theorem nearest_installed {d : Disk} (hd : d.Settled) (hpossible : d.Possible)
    {name context : Text} (hname : IsModuleName name) {there : List Text} {n : Node}
    (hcontext : d.lookup context = .ok (there, n))
    (hlimit : (Utf8.encode (metadataPath name (Path.fromRoot d.cwdPath context))).length
      < Disk.pathLimit)
    {stopAt : Option Text} {stop : List Text}
    (hstop : stopAt = none ∧ stop = [] ∨
      stopAt = some (Path.ofNames (Path.anchor (Path.fromRoot d.cwdPath context)) stop))
    (known : List (Text × ModuleRecord)) :
    let place := Path.components (Path.absolute d.cwdPath context)
    let start := if n.isFile then place.dropLast else place
    stop <+: start →
    (Path.up ∉ Path.components context → ∀ dirs, searchPath d context = .ok dirs →
      ∀ dir ∈ searched stopAt dirs, stop <+: Path.names dir ∧ Path.names dir <+: start) ∧
    ((Path.up ∈ Path.components context → ¬ Strays d stopAt name context stop start) →
      (∀ q, stop <+: q → q <+: start → hasModule d name q = true →
        (∀ q', q <+: q' → q' <+: start → hasModule d name q' = true → q' = q) →
        ∃ file, metadataFrom d stopAt name context = .ok (some file) ∧
          (Path.up ∉ Path.components context → file = metadataPath name
            (Path.ofNames (Path.anchor (Path.fromRoot d.cwdPath context)) q)) ∧
          ∃ bytes modified, d.lookup file = .ok (q ++ metadataNames name, .file bytes modified)) ∧
      ((∀ q, stop <+: q → q <+: start → hasModule d name q = false) →
        (lookupInstalled d stopAt known name context).1 = .ok none)) := by
  intro place start hbelow
  obtain ⟨ns, hns, h⟩ : ∃ ns, ns <+: Path.names (Path.fromRoot d.cwdPath context) ∧
      Descent d name context (Path.fromRoot d.cwdPath context) ns start :=
    exists_descent hd hname hcontext hlimit
  have hup (hno : Path.up ∉ Path.components context) : Path.up ∉ ns := by
    intro hmem
    have hmem' := hns.subset hmem
    rw [Disk.cwdPath, Path.names_fromRoot context hd.cwd_isName] at hmem'
    rcases List.mem_append.mp hmem' with hmem' | hmem'
    · split at hmem'
      · cases hmem'
      · exact (hd.cwd_isName _ hmem').ne_up rfl
    · exact hno (Path.mem_components_of_mem_names hmem')
  have honly (hno : Path.up ∉ Path.components context) {dirs : List Text}
      (hdirs : searchPath d context = .ok dirs) {dir : Text} (hdir : dir ∈ searched stopAt dirs) :
      Path.names dir = Path.components (Path.normalize dir) ∧
        stop <+: Path.names dir ∧ Path.names dir <+: start := by
    obtain rfl := Except.ok.inj (h.searchPath_eq.symm.trans hdirs)
    exact h.names_of_mem_searched hstop hbelow (hup hno) hdir
  refine ⟨fun hno dirs hdirs dir hdir => (honly hno hdirs hdir).2, fun hstrays => ?_⟩
  have hstrays : ¬ Strays d stopAt name context stop start := by
    by_cases hno : Path.up ∈ Path.components context
    · exact hstrays hno
    · rintro ⟨dirs, hdirs, dir, hdir, -, hoff⟩
      obtain ⟨hsame, hon⟩ := honly hno hdirs hdir
      rw [hsame] at hon
      exact hoff hon
  have hsearch := h.metadataFrom_eq hd.linkFree hpossible hname stopAt
  constructor
  · intro q hq hqstart hmodule hnearest
    obtain ⟨front, hfront, hvisit, hfind⟩ :=
      h.find?_eq_nearest hstop hstrays hq hqstart hmodule hnearest
    rw [hfind] at hsearch
    refine ⟨_, hsearch, fun hno => ?_, ?_⟩
    · have hproper : ∀ m ∈ front, Path.IsName m := fun m hm =>
        (h.isKept m (hfront.subset hm)).isName fun heq => hup hno (heq ▸ hfront.subset hm)
      rw [← hvisit, Path.moveAll_of_isName hproper, List.nil_append]
    · obtain hnone | ⟨file, hfile, hfound⟩ | ⟨p, -, hlong⟩ := metadataFrom_cases d stopAt name context
      · rw [hsearch] at hnone
        cases hnone
      · rw [hsearch] at hfound
        obtain rfl := Option.some.inj (Except.ok.inj hfound)
        rw [← hvisit]
        exact h.lookup_file hd.linkFree hname hfront hfile
      · rw [hsearch] at hlong
        cases hlong
  · intro hnone
    rw [fst_lookupInstalled, hsearch]
    cases hfind : (searched stopAt (Path.prefixes
        (Path.anchor (Path.fromRoot d.cwdPath context)) ns ns.length)).find? fun dir =>
          hasModule d name (Path.components (Path.normalize dir)) with
    | none => rfl
    | some dir =>
      obtain ⟨hholds, hplace⟩ := h.on_line hstrays hfind
      rw [hnone _ hplace.1 hplace.2] at hholds
      cases hholds

/-! ### Two spellings of one directory -/

/-- A directory with a module in it that is called `m`. -/
def installedModule : List (Text × Node) :=
  [(installedName, .directory [(['m'], .directory [(metadataName, .file [0x7b, 0x7d] 0)])])]

/-- A directory with two others in it; it holds `outer` besides, and the first of them `inner`. -/
def twoDirectories (outer inner : List (Text × Node)) : Disk where
  top := [(['a'], .directory ((['b'], .directory inner) :: (['c'], .directory []) :: outer))]

/-- The second directory. -/
def plainSpelling : Text := ['/', 'a', '/', 'c']

/-- The second directory, by way of the first one. -/
def spellingByWay : Text := ['/', 'a', '/', 'b', '/', '.', '.', '/', 'c']

/-- Both spellings lead to the second directory. -/
theorem lookup_spellings (outer inner : List (Text × Node)) :
    ∀ context ∈ [plainSpelling, spellingByWay],
      Path.components (Path.absolute (twoDirectories outer inner).cwdPath context) = [['a'], ['c']] ∧
        (twoDirectories outer inner).lookup context = .ok ([['a'], ['c']], .emptyDirectory) := by
  intro context hcontext
  rcases List.mem_cons.mp hcontext with rfl | hcontext
  · exact ⟨by rfl, by cbv⟩
  · rw [List.mem_singleton.mp hcontext]
    exact ⟨by rfl, by cbv⟩

theorem settled_twoDirectories : (twoDirectories installedModule []).Settled where
  linkFree := by
    have hmodule : (Node.directory [(['m'], .directory
        [(metadataName, .file [0x7b, 0x7d] 0)])]).LinkFree := by
      refine .ofEntries (List.forall_mem_singleton.mpr ?_)
      exact .ofEntries (List.forall_mem_singleton.mpr (.file _ _))
    refine .ofEntries (List.forall_mem_singleton.mpr (.ofEntries ?_))
    simp only [installedModule, List.forall_mem_cons]
    exact ⟨.ofEntries (by simp), .ofEntries (by simp), hmodule, by simp⟩
  cwd_isName := by simp [twoDirectories]
  cwd_isDirectory := by cbv

theorem possible_twoDirectories : (twoDirectories installedModule []).Possible := by
  have hempty : (Node.directory []).NamesPossible := Node.namesPossible_directory (by simp)
  have hmetadata : (Node.directory [(metadataName, .file [0x7b, 0x7d] 0)]).NamesPossible :=
    Node.namesPossible_directory
      (List.forall_mem_singleton.mpr ⟨by decide, Node.namesPossible_file _ _⟩)
  have hmodule : (Node.directory [(['m'], .directory
      [(metadataName, .file [0x7b, 0x7d] 0)])]).NamesPossible :=
    Node.namesPossible_directory (List.forall_mem_singleton.mpr ⟨by decide, hmetadata⟩)
  show (twoDirectories installedModule []).root.NamesPossible
  refine Node.namesPossible_directory (List.forall_mem_singleton.mpr ⟨by decide, ?_⟩)
  refine Node.namesPossible_directory ?_
  simp only [installedModule, List.forall_mem_cons]
  exact ⟨⟨by decide, hempty⟩, ⟨by decide, hempty⟩, ⟨by decide, hmodule⟩, by simp⟩

/-- By either way the module next to the two directories is found from the second one, and none is
found from the root. -/
theorem nearest_installed_of_spellings :
    let d := twoDirectories installedModule []
    (∀ context ∈ [plainSpelling, spellingByWay],
      ∃ file, metadataFrom d (some ['/', 'a']) ['m'] context = .ok (some file) ∧
        ∃ bytes modified, d.lookup file
          = .ok ([['a'], installedName, ['m'], metadataName], .file bytes modified)) ∧
    (lookupInstalled d none [] ['m'] ['/']).1 = .ok none := by
  intro d
  have hname : IsModuleName ['m'] := by
    unfold IsModuleName
    decide
  constructor
  · intro context hcontext
    obtain ⟨hplace, hlookup⟩ := lookup_spellings installedModule [] context hcontext
    have hcases : context = plainSpelling ∨ context = spellingByWay := by simpa using hcontext
    have hlimit : (Utf8.encode (metadataPath ['m'] (Path.fromRoot d.cwdPath context))).length
        < Disk.pathLimit := by
      rcases hcases with rfl | rfl <;> decide +kernel
    have hstop : some ['/', 'a']
        = some (Path.ofNames (Path.anchor (Path.fromRoot d.cwdPath context)) [['a']]) := by
      rcases hcases with rfl | rfl <;> decide
    have hstrays : Path.up ∈ Path.components context →
        ¬ Strays d (some ['/', 'a']) ['m'] context [['a']] [['a'], ['c']] := by
      intro hup
      rcases hcases with rfl | rfl
      · exact absurd hup (by decide)
      · rintro ⟨dirs, hdirs, dir, hdir, hmodule, hoff⟩
        have hsearch : searchPath d spellingByWay = .ok
            [spellingByWay, ['/', 'a', '/', 'b', '/', '.', '.'], ['/', 'a', '/', 'b'], ['/', 'a'],
              ['/']] := by cbv
        obtain rfl := Except.ok.inj (hsearch.symm.trans hdirs)
        have hon : ∀ dir ∈ searched (some ['/', 'a'])
            [spellingByWay, ['/', 'a', '/', 'b', '/', '.', '.'], ['/', 'a', '/', 'b'], ['/', 'a'],
              ['/']],
            hasModule d ['m'] (Path.components (Path.normalize dir)) = true →
              [['a']] <+: Path.components (Path.normalize dir) ∧
                Path.components (Path.normalize dir) <+: [['a'], ['c']] := by decide +kernel
        exact hoff (hon dir hdir hmodule)
    have hnearest : ∀ q ∈ [['a'], ['c']].inits, [['a']] <+: q → hasModule d ['m'] q = true →
        q = [['a']] := by decide
    have h := nearest_installed settled_twoDirectories possible_twoDirectories hname hlookup hlimit
      (.inr hstop) []
    rw [hplace] at h
    obtain ⟨-, hfound⟩ := h (by decide)
    obtain ⟨file, hfile, -, hleads⟩ := (hfound hstrays).1 [['a']] (by decide) (by decide)
      (by decide) fun q hq hstart => hnearest q ((List.mem_inits q _).mpr hstart) hq
    exact ⟨file, hfile, hleads⟩
  · have hlookup : d.lookup ['/'] = .ok ([], d.root) := by cbv
    have h := nearest_installed settled_twoDirectories possible_twoDirectories hname hlookup
      (by decide +kernel) (.inl ⟨rfl, rfl⟩) []
    have hnone : ∀ q ∈ [].inits, hasModule d ['m'] q = false := by decide
    obtain ⟨-, hfound⟩ := h (by decide)
    exact (hfound fun hup => absurd hup (by decide)).2 fun q _ hstart =>
      hnone q ((List.mem_inits q _).mpr hstart)

/-- A module of the first directory is found from the second one, spelled by way of the first. -/
theorem found_by_way :
    ∃ r, (lookupInstalled (twoDirectories [] installedModule) none [] ['m'] spellingByWay).1
      = .ok (some r) := by
  have hfile : metadataFrom (twoDirectories [] installedModule) none ['m'] spellingByWay
      = .ok (some (metadataPath ['m'] ['/', 'a', '/', 'b'])) := by cbv
  have hempty : (twoDirectories [] installedModule).lookup
      (metadataPath ['m'] ['/', 'a', '/', 'b'])
      = .ok ([['a'], ['b'], installedName, ['m'], metadataName], .file [0x7b, 0x7d] 0) := by cbv
  obtain ⟨events, hread⟩ := lookupInstalled_of_emptyMap hfile hempty
  exact ⟨_, congrArg Prod.fst hread⟩

/-- So is one above the directory where the search is to stop. -/
theorem found_above_stop :
    ∃ r, (lookupInstalled (twoDirectories installedModule []) (some plainSpelling) [] ['m']
      spellingByWay).1 = .ok (some r) := by
  have hfile : metadataFrom (twoDirectories installedModule []) (some plainSpelling) ['m']
      spellingByWay = .ok (some (metadataPath ['m'] ['/', 'a', '/', 'b', '/', '.', '.'])) := by cbv
  have hempty : (twoDirectories installedModule []).lookup
      (metadataPath ['m'] ['/', 'a', '/', 'b', '/', '.', '.'])
      = .ok ([['a'], installedName, ['m'], metadataName], .file [0x7b, 0x7d] 0) := by cbv
  obtain ⟨events, hread⟩ := lookupInstalled_of_emptyMap hfile hempty
  exact ⟨_, congrArg Prod.fst hread⟩

/-- From the second directory, spelled by way of the first one, a module of the first one is found,
and one above the directory where the search is to stop. -/
theorem stray_module :
    let d := twoDirectories [] installedModule
    let place : List Text := [['a'], ['c']]
    (∀ context ∈ [plainSpelling, spellingByWay],
      Path.components (Path.absolute d.cwdPath context) = place ∧
        d.lookup context = .ok (place, .emptyDirectory)) ∧
    (∀ q, q <+: place → hasModule d ['m'] q = false) ∧
    (lookupInstalled d none [] ['m'] plainSpelling).1 = .ok none ∧
    (∃ r, (lookupInstalled d none [] ['m'] spellingByWay).1 = .ok (some r)) ∧
    (∃ r, (lookupInstalled (twoDirectories installedModule []) (some plainSpelling) [] ['m']
      spellingByWay).1 = .ok (some r)) := by
  intro d place
  refine ⟨lookup_spellings [] installedModule, ?_, by cbv, ?_, ?_⟩
  · have hinits : ∀ q ∈ place.inits, hasModule d ['m'] q = false := by decide
    intro q hq
    exact hinits q ((List.mem_inits q place).mpr hq)
  · exact found_by_way
  · exact found_above_stop

end Registry

end StyleImport
