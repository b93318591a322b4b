/-
Walks through file trees without links.

Without links a walk goes where its names lead (`Path.moveAll`): nothing but the kind of the nodes
on its way decides how far it comes.

* `Disk.place_of_walk` — a walk that arrives arrives where its names lead;
* `Disk.walk_of_isName` — a walk along the names of a node arrives at it;
* `Disk.isFile_iff` — when a path leads to a file.
-/
import StyleImport.Proofs.Path.Directory

namespace StyleImport

namespace Node

/-- Trees without links. -/
inductive LinkFree : Node → Prop
  | file (bytes : List UInt8) (modified : Int) : LinkFree (.file bytes modified)
  | directory {es : List (Text × Node)} (h : ∀ name n, Entries.get? name es = some n → LinkFree n) :
    LinkFree (.directory es)

theorem LinkFree.ofEntries {es : List (Text × Node)} (h : ∀ e ∈ es, e.2.LinkFree) :
    (Node.directory es).LinkFree := by
  refine .directory fun name n hn => ?_
  induction es with
  | nil => simp [Entries.get?, Entries.getBy?] at hn
  | cons e es ih =>
    by_cases hname : e.1 = name
    · obtain rfl : e.2 = n := by simpa [Entries.get?, Entries.getBy?, hname] using hn
      exact h e List.mem_cons_self
    · have hrest : Entries.get? name es = some n := by
        simpa [Entries.get?, Entries.getBy?, hname] using hn
      exact ih (fun e he => h e (List.mem_cons_of_mem _ he)) hrest

theorem LinkFree.of_at? {n m : Node} (hn : n.LinkFree) {names : List Text}
    (h : n.at? names = some m) : m.LinkFree := by
  induction names generalizing n with
  | nil => exact Option.some.inj (n.at?_nil.symm.trans h) ▸ hn
  | cons name names ih =>
    cases hn with
    | file => simp [at?] at h
    | directory hes =>
      rw [at?] at h
      split at h
      · rename_i child hchild
        exact ih (hes name child hchild) h
      · simp at h

/-- Going on from a node. -/
theorem at?_append (n : Node) (names more : List Text) :
    n.at? (names ++ more) = (n.at? names).bind (·.at? more) := by
  induction names generalizing n with
  | nil => simp
  | cons name names ih =>
    cases n with
    | directory es =>
      simp only [List.cons_append, at?]
      split
      · exact ih _
      · rfl
    | file | link => rfl

/-- What stands behind one more name. -/
theorem at?_concat (n : Node) (names : List Text) (name : Text) :
    n.at? (names ++ [name]) = match n.at? names with
      | some (.directory es) => Entries.get? name es
      | _ => none := by
  rw [at?_append]
  rcases n.at? names with _ | (_ | es | _)
  · rfl
  · rfl
  · simp only [Option.bind_some, at?]
    split
    · rename_i child hchild
      exact hchild.symm
    · rename_i hnone
      exact hnone.symm
  · rfl

/-- Only directories have something behind them. -/
theorem isDirectory_of_at?_append {n : Node} {names more : List Text} {m : Node} (hmore : more ≠ [])
    (h : n.at? (names ++ more) = some m) : ∃ es, n.at? names = some (.directory es) := by
  rw [at?_append] at h
  obtain ⟨k, hk, hm⟩ := Option.bind_eq_some_iff.mp h
  obtain ⟨name, rest, rfl⟩ := List.exists_cons_of_ne_nil hmore
  cases k with
  | directory es => exact ⟨es, hk⟩
  | file | link => simp [at?] at hm

end Node

namespace Disk

/-! ### One step -/

section Step

variable {d : Disk} {p : Text} {follow : Bool} {links : Nat} {at_ names : List Text}
  {es : List (Text × Node)}

theorem walk_of_not_directory {name : Text} (h : ∀ es, d.root.at? at_ ≠ some (.directory es)) :
    walk d p follow links at_ (name :: names) = .error (.notDirectory p) := by
  rw [walk]
  split
  · rename_i es hes
    exact absurd hes (h es)
  · rfl

theorem walk_here (hes : d.root.at? at_ = some (.directory es)) :
    walk d p follow links at_ (Path.here :: names) = walk d p follow links at_ names := by
  rw [walk, hes]
  exact if_pos rfl

theorem walk_up (hes : d.root.at? at_ = some (.directory es)) :
    walk d p follow links at_ (Path.up :: names) = walk d p follow links at_.dropLast names := by
  rw [walk, hes]
  have hne : Path.up ≠ Path.here := by decide
  simp [hne]

/-- A step to a name in a tree without links: what stands there decides whether the walk goes on. -/
theorem walk_name (hd : d.root.LinkFree) (hes : d.root.at? at_ = some (.directory es)) {name : Text}
    (hhere : name ≠ Path.here) (hup : name ≠ Path.up) :
    walk d p follow links at_ (name :: names)
      = if longestName < (Utf8.encode name).length then .error (.nameTooLong p)
        else match d.root.at? (at_ ++ [name]) with
          | none => if names = [] then .ok ⟨at_ ++ [name], none⟩ else .error (.noEntry p)
          | some _ => walk d p follow links (at_ ++ [name]) names := by
  have hnext : d.root.at? (at_ ++ [name]) = Entries.get? name es := by
    rw [Node.at?_concat, hes]
  rw [walk, hes, hnext]
  simp only [hhere, hup, if_false]
  split
  · rfl
  · cases hget : Entries.get? name es with
    | none => rfl
    | some n =>
      have hn : n.LinkFree := hd.of_at? (hnext.trans hget)
      cases hn with
      | file | directory => rfl

/-- A step to something that stands there. -/
theorem walk_into (hd : d.root.LinkFree) {name : Text} (hhere : name ≠ Path.here)
    (hup : name ≠ Path.up) (hlong : (Utf8.encode name).length ≤ longestName) {n : Node}
    (hn : d.root.at? (at_ ++ [name]) = some n) :
    walk d p follow links at_ (name :: names) = walk d p follow links (at_ ++ [name]) names := by
  obtain ⟨es, hes⟩ := Node.isDirectory_of_at?_append (by simp) hn
  rw [walk_name hd hes hhere hup, if_neg (Nat.not_lt.mpr hlong), hn]

/-- A walk that arrives starts in a directory, and goes on from where its first name leads, which is
not too long. -/
theorem walk_cons_eq_ok (hd : d.root.LinkFree) {name : Text} (hne : name ≠ []) {there : List Text}
    {n : Node} (h : walk d p follow links at_ (name :: names) = .ok ⟨there, some n⟩) :
    (∃ es, d.root.at? at_ = some (.directory es)) ∧
      walk d p follow links (Path.move at_ name) names = .ok ⟨there, some n⟩ ∧
      (name ≠ Path.here → name ≠ Path.up → (Utf8.encode name).length ≤ longestName) := by
  by_cases hdir : ∃ es, d.root.at? at_ = some (.directory es)
  · obtain ⟨es, hes⟩ := hdir
    refine ⟨⟨es, hes⟩, ?_⟩
    by_cases hhere : name = Path.here
    · subst hhere
      rw [walk_here hes] at h
      exact ⟨by rw [Path.move_here]; exact h, fun hself => absurd rfl hself⟩
    · by_cases hup : name = Path.up
      · subst hup
        rw [walk_up hes] at h
        exact ⟨by rw [Path.move_up]; exact h, fun _ hself => absurd rfl hself⟩
      · rw [walk_name hd hes hhere hup] at h
        rw [Path.move_of_ne at_ hne hhere hup]
        split at h
        · cases h
        · rename_i hlong
          split at h
          · split at h <;> simp at h
          · exact ⟨h, fun _ _ => Nat.le_of_not_lt hlong⟩
  · rw [walk_of_not_directory fun es hes => hdir ⟨es, hes⟩] at h
    cases h

end Step

/-! ### Whole walks -/

/-- A walk that arrives arrives where its names lead.  None of them was too long, and it can only
stay where it is at the end if that is a directory. -/
theorem place_of_walk {d : Disk} (hd : d.root.LinkFree) {p : Text} {follow : Bool} {links : Nat}
    {at_ names : List Text} (hne : ∀ m ∈ names, m ≠ []) {there : List Text} {n : Node}
    (h : walk d p follow links at_ names = .ok ⟨there, some n⟩) :
    there = Path.moveAll at_ names ∧ d.root.at? there = some n ∧
      (∀ m ∈ names, m ≠ Path.here → m ≠ Path.up → (Utf8.encode m).length ≤ longestName) ∧
      (names.getLast? = some Path.here → n.isDirectory = true) := by
  induction names generalizing at_ with
  | nil =>
    rw [walk, Except.ok.injEq, Place.mk.injEq] at h
    exact ⟨h.1.symm, h.1 ▸ h.2, by simp, by simp⟩
  | cons name names ih =>
    obtain ⟨⟨es, hes⟩, hrest, hlen⟩ := walk_cons_eq_ok hd (hne name List.mem_cons_self) h
    obtain ⟨hthere, hnode, hlong, hlast⟩ := ih (fun m hm => hne m (List.mem_cons_of_mem _ hm)) hrest
    refine ⟨by rw [Path.moveAll_cons]; exact hthere, hnode, ?_, ?_⟩
    · intro m hm hhere hup
      rcases List.mem_cons.mp hm with rfl | hm
      · exact hlen hhere hup
      · exact hlong m hm hhere hup
    · intro hend
      cases names with
      | nil =>
        -- Only a dot is left, which stays in the directory that the walk starts in.
        obtain rfl : name = Path.here := Option.some.inj hend
        rw [Path.move_here, walk, Except.ok.injEq, Place.mk.injEq, hes, Option.some.injEq] at hrest
        exact hrest.2 ▸ rfl
      | cons m ms => exact hlast (by simpa using hend)

/-- A walk along the names of a node arrives at it. -/
theorem walk_of_isName {d : Disk} (hd : d.root.LinkFree) (p : Text) (follow : Bool) (links : Nat)
    {at_ names : List Text} (hnames : ∀ m ∈ names, Path.IsName m)
    (hlong : ∀ m ∈ names, (Utf8.encode m).length ≤ longestName) {n : Node}
    (h : d.root.at? (at_ ++ names) = some n) :
    walk d p follow links at_ names = .ok ⟨at_ ++ names, some n⟩ := by
  induction names generalizing at_ with
  | nil =>
    rw [List.append_nil] at h
    rw [walk, h, List.append_nil]
  | cons name names ih =>
    have hname : Path.IsName name := hnames name List.mem_cons_self
    have hsplit : at_ ++ name :: names = (at_ ++ [name]) ++ names := by simp
    rw [hsplit] at h ⊢
    have hnext : ∃ m, d.root.at? (at_ ++ [name]) = some m := by
      by_cases hnil : names = []
      · subst hnil
        exact ⟨n, by rw [← h, List.append_nil]⟩
      · obtain ⟨es', hes'⟩ := Node.isDirectory_of_at?_append hnil h
        exact ⟨_, hes'⟩
    obtain ⟨m, hm⟩ := hnext
    rw [walk_into hd hname.ne_here hname.ne_up (hlong name List.mem_cons_self) hm]
    exact ih (fun k hk => hnames k (List.mem_cons_of_mem _ hk))
      (fun k hk => hlong k (List.mem_cons_of_mem _ hk)) h

/-! ### Looking up paths -/

theorem place_eq_ok {d : Disk} {p : Text} {follow : Bool} {there : Place} :
    d.place p follow = .ok there ↔
      '\x00' ∉ p ∧ p ≠ [] ∧ (Utf8.encode p).length < pathLimit ∧
        walk d p follow linkLimit (if Path.isAbsolute p then [] else d.cwd) (walkNames p)
          = .ok there := by
  unfold place
  simp only [List.contains_iff_mem]
  split
  · simp_all
  · split
    · simp_all
    · split
      · rename_i hlimit
        simp [Nat.not_lt.mpr hlimit]
      · rename_i hnul hnil hlimit
        have hmap : ∀ r : Except OsError Place,
            r.mapError ReadFailure.system = .ok there ↔ r = .ok there := by
          intro r
          cases r <;> simp [Except.mapError]
        rw [hmap]
        simp [hnul, hnil, Nat.lt_of_not_le hlimit]

theorem lookup_eq_ok {d : Disk} {p : Text} {follow : Bool} {names : List Text} {n : Node} :
    d.lookup p follow = .ok (names, n) ↔ d.place p follow = .ok ⟨names, some n⟩ := by
  unfold lookup
  rcases d.place p follow with e | ⟨names', _ | n'⟩
  · simp [bind, Except.bind]
  · simp [bind, Except.bind, throw, throwThe, MonadExceptOf.throw]
  · simp [bind, Except.bind, pure, Except.pure]

theorem isFile_iff {d : Disk} {p : Text} :
    d.isFile p = true ↔ ∃ names n, d.lookup p = .ok (names, n) ∧ n.isFile = true := by
  unfold isFile node?
  rcases d.lookup p with e | ⟨names, n⟩ <;> simp [Except.toOption]

theorem isDirectory_iff {d : Disk} {p : Text} :
    d.isDirectory p = true ↔ ∃ names n, d.lookup p = .ok (names, n) ∧ n.isDirectory = true := by
  unfold isDirectory node?
  rcases d.lookup p with e | ⟨names, n⟩ <;> simp [Except.toOption]

theorem present_iff {d : Disk} {p : Text} :
    d.present p = true ↔ ∃ names n, d.lookup p = .ok (names, n) := by
  unfold present node?
  rcases d.lookup p with e | ⟨names, n⟩ <;> simp [Except.toOption]

theorem walkNames_ne_nil (p : Text) : ∀ m ∈ walkNames p, m ≠ [] := by
  intro m hm
  rcases List.mem_append.mp hm with hm | hm
  · simpa using (List.mem_filter.mp hm).2
  · split at hm
    · rw [List.mem_singleton] at hm
      exact hm ▸ by decide
    · simp at hm

/-- A walk along a path leads where the names of the path lead. -/
theorem moveAll_walkNames (place : List Text) (p : Text) :
    Path.moveAll place (walkNames p) = Path.moveAll place (Path.components p) := by
  rw [walkNames, Path.moveAll_append]
  split <;> simp

theorem walkNames_pathOf {names : List Text} (hnil : names ≠ []) (h : ∀ n ∈ names, Path.IsName n) :
    walkNames (pathOf names) = names := by
  obtain ⟨front, n, rfl⟩ := (List.eq_nil_or_concat names).resolve_left hnil
  rw [List.concat_eq_append] at h ⊢
  have hn : Path.IsName n := h n (by simp)
  have hend : (pathOf (front ++ [n])).getLast? = n.getLast? := by
    have hsome : n.getLast?.isSome = true := by simpa using hn.ne_nil
    by_cases hfront : front = []
    · subst hfront
      rw [pathOf, List.nil_append, Text.joinWith_singleton, List.getLast?_cons_of_ne_nil hn.ne_nil]
    · rw [pathOf, Text.joinWith_concat n hfront, ← List.cons_append, List.getLast?_append,
        List.getLast?_cons_of_ne_nil hn.ne_nil, Option.or_of_isSome hsome]
  have hslash : n.getLast? ≠ some '/' := fun h => hn.no_slash (List.mem_of_getLast? h)
  rw [walkNames, hend, if_neg hslash, Path.components_pathOf h, List.append_nil]

/-- A path of names proper leads to what stands there, if the path is possible at all. -/
theorem lookup_of_isName {d : Disk} (hd : d.root.LinkFree) {p : Text} (hnul : '\x00' ∉ p)
    (hnil : p ≠ []) (hlimit : (Utf8.encode p).length < pathLimit)
    (hnames : ∀ m ∈ walkNames p, Path.IsName m)
    (hlong : ∀ m ∈ walkNames p, (Utf8.encode m).length ≤ longestName) {n : Node}
    (h : d.root.at? ((if Path.isAbsolute p then [] else d.cwd) ++ walkNames p) = some n) :
    d.lookup p = .ok ((if Path.isAbsolute p then [] else d.cwd) ++ walkNames p, n) :=
  lookup_eq_ok.mpr (place_eq_ok.mpr
    ⟨hnul, hnil, hlimit, walk_of_isName hd p true linkLimit hnames hlong h⟩)

/-! ### The file that a path leads to -/

/-- A file tree without links, and a working directory that is one of its directories. -/
structure Settled (d : Disk) : Prop where
  linkFree : d.root.LinkFree
  cwd_isName : ∀ n ∈ d.cwd, Path.IsName n
  cwd_isDirectory : d.isDirectory d.cwdPath = true

namespace Settled

variable {d : Disk} (hd : d.Settled)

include hd

/-- The working directory is reached by its names; they are possible, and so is its path. -/
theorem cwd_possible : (∃ es, d.root.at? d.cwd = some (.directory es)) ∧ '\x00' ∉ d.cwdPath ∧
    ∀ n ∈ d.cwd, (Utf8.encode n).length ≤ longestName := by
  obtain ⟨there, n, hlookup, hn⟩ := isDirectory_iff.mp hd.cwd_isDirectory
  obtain ⟨hnul, -, -, hwalk⟩ := place_eq_ok.mp (lookup_eq_ok.mp hlookup)
  obtain ⟨hthere, hnode, hlong, -⟩ := place_of_walk hd.linkFree (walkNames_ne_nil _) hwalk
  have hcomponents : Path.components d.cwdPath = d.cwd := Path.components_pathOf hd.cwd_isName
  have hstart : Path.isAbsolute d.cwdPath = true := rfl
  rw [hstart, if_pos rfl, moveAll_walkNames, hcomponents, Path.moveAll_of_isName hd.cwd_isName,
    List.nil_append] at hthere
  refine ⟨?_, hnul, fun m hm => ?_⟩
  · rw [hthere] at hnode
    cases n with
    | directory es => exact ⟨es, hnode⟩
    | file | link => simp [Node.isDirectory] at hn
  · have hname : Path.IsName m := hd.cwd_isName m hm
    refine hlong m ?_ hname.ne_here hname.ne_up
    rw [walkNames, hcomponents]
    exact List.mem_append_left _ hm

/-- So are the directories that lead to it. -/
theorem isDirectory_of_prefix {front : List Text} (hfront : front <+: d.cwd) :
    ∃ es, d.root.at? front = some (.directory es) := by
  obtain ⟨⟨es, hes⟩, -, -⟩ := hd.cwd_possible
  obtain ⟨rest, hrest⟩ := hfront
  rw [← hrest] at hes
  by_cases hnil : rest = []
  · rw [hnil, List.append_nil] at hes
    exact ⟨es, hes⟩
  · exact Node.isDirectory_of_at?_append hnil hes

/-- What a relative path that never goes up and leads to a file says about its names. -/
theorem names_of_isFile {p : Text} (hrel : Path.isAbsolute p = false)
    (hup : Path.up ∉ Path.components p) (hfile : d.isFile p = true) :
    (∃ n, d.root.at? (d.cwd ++ Path.names p) = some n ∧ n.isFile = true) ∧
      '\x00' ∉ p ∧ (∀ m ∈ Path.names p, (Utf8.encode m).length ≤ longestName) ∧
      (walkNames p).getLast? ≠ some Path.here := by
  obtain ⟨there, n, hlookup, hn⟩ := isFile_iff.mp hfile
  obtain ⟨hnul, -, -, hwalk⟩ := place_eq_ok.mp (lookup_eq_ok.mp hlookup)
  rw [hrel, if_neg (by simp)] at hwalk
  obtain ⟨rfl, hnode, hlong, hlast⟩ := place_of_walk hd.linkFree (walkNames_ne_nil _) hwalk
  rw [moveAll_walkNames, Path.moveAll_of_no_up hup] at hnode
  refine ⟨⟨n, hnode, hn⟩, hnul, fun m hm => ?_, fun hhere => ?_⟩
  · have hname := Path.isName_of_mem_names hup hm
    exact hlong m (List.mem_append_left _ (Path.mem_components_of_mem_names hm)) hname.ne_here
      hname.ne_up
  · have hdir := hlast hhere
    cases n <;> simp [Node.isFile, Node.isDirectory] at hn hdir

/-- The file is found at its full path too, if that is not too long. -/
theorem isFile_absolute {p : Text} (hrel : Path.isAbsolute p = false)
    (hup : Path.up ∉ Path.components p) (hfile : d.isFile p = true)
    (hlimit : (Utf8.encode (Path.absolute d.cwdPath p)).length < pathLimit) :
    d.isFile (Path.absolute d.cwdPath p) = true := by
  obtain ⟨⟨n, hnode, hn⟩, hnul, hlong, -⟩ := hd.names_of_isFile hrel hup hfile
  obtain ⟨-, hcwdNul, hcwdLong⟩ := hd.cwd_possible
  have habs : Path.absolute d.cwdPath p = pathOf (d.cwd ++ Path.names p) :=
    Path.absolute_eq_pathOf hd.cwd_isName hrel hup
  rw [habs] at hlimit ⊢
  have hnames : ∀ m ∈ d.cwd ++ Path.names p, Path.IsName m := by
    intro m hm
    rcases List.mem_append.mp hm with hm | hm
    · exact hd.cwd_isName m hm
    · exact Path.isName_of_mem_names hup hm
  have hnil : d.cwd ++ Path.names p ≠ [] := by
    intro hnil
    rw [hnil, Node.at?_nil, Option.some.injEq] at hnode
    subst hnode
    simp [root, Node.isFile] at hn
  have hwalkNames : walkNames (pathOf (d.cwd ++ Path.names p)) = d.cwd ++ Path.names p :=
    walkNames_pathOf hnil hnames
  have hfound := lookup_of_isName hd.linkFree (p := pathOf (d.cwd ++ Path.names p)) (n := n)
    (fun hmem => ?_) (by simp [pathOf]) hlimit (by rw [hwalkNames]; exact hnames) (fun m hm => ?_)
    (by rw [hwalkNames]; exact hnode)
  · exact isFile_iff.mpr ⟨_, n, hfound, hn⟩
  · rcases Path.mem_pathOf hmem with hslash | ⟨m, hm, hmem⟩
    · exact absurd hslash (by decide)
    · rcases List.mem_append.mp hm with hm | hm
      · rw [← Path.components_pathOf hd.cwd_isName] at hm
        exact hcwdNul (Path.mem_of_mem_components hm hmem)
      · exact hnul (Path.mem_of_mem_components (Path.mem_components_of_mem_names hm) hmem)
  · rw [hwalkNames] at hm
    rcases List.mem_append.mp hm with hm | hm
    · exact hcwdLong m hm
    · exact hlong m hm

end Settled

end Disk

end StyleImport
