/-
Ends of walks, and which of them last.

A walk that follows links takes steps until it arrives or something stops it.  If that is not the
absence of a name, the walk ends in the same way for as long as the disk only grows.

* `Disk.exists_stop` — what can stop a walk;
* `Disk.Fixed`, `Disk.walk_grown` — ends that last;
* `Disk.fixed_front`, `Disk.fixed_parent` — walks along the first names of a path.
-/
import StyleImport.Proofs.Disk.Making

namespace StyleImport

namespace Disk

variable {d d' : Disk} {p : Text}

/-! ### What stops a walk -/

/-- A step ends at something. -/
theorem Step.reached {a b : Stage} (h : Step d a b) : ∃ n, d.root.at? b.at_ = some n := by
  cases h with
  | here hes => exact ⟨_, hes⟩
  | @up _ at_ _ _ hes =>
    by_cases hnil : at_ = []
    · subst hnil
      exact ⟨_, hes⟩
    · rw [← List.dropLast_concat_getLast hnil] at hes
      obtain ⟨es', hes'⟩ := Node.isDirectory_of_at?_append (by simp) hes
      exact ⟨_, hes'⟩
  | into _ _ _ hn _ => exact ⟨_, hn⟩
  | @link _ at_ _ _ target _ _ _ hn _ =>
    obtain ⟨es, hes⟩ := Node.isDirectory_of_at?_append (by simp) hn
    by_cases habsolute : Path.isAbsolute target = true
    · exact ⟨d.root, by simp [habsolute]⟩
    · exact ⟨_, by simpa [habsolute] using hes⟩

/-- What stands under a name of a directory. -/
theorem at?_eq_get? {at_ : List Text} {es : List (Text × Node)}
    (hes : d.root.at? at_ = some (.directory es)) (name : Text) :
    d.root.at? (at_ ++ [name]) = Entries.get? name es := by
  rw [Node.at?_concat, hes]

/-- In the directory that a walk has come to, the name ahead is free. -/
structure FreeAhead (d : Disk) (base : List Text) (name : Text) : Prop where
  directory : ∃ es, d.root.at? base = some (.directory es)
  free : d.root.at? (base ++ [name]) = none
  ne_here : name ≠ Path.here
  ne_up : name ≠ Path.up
  short : (Utf8.encode name).length ≤ longestName

/-- Where a walk that follows links takes no more step. -/
inductive Stops (d : Disk) : Stage → Prop
  | arrived {links : Nat} {at_ : List Text} {n : Node} :
    d.root.at? at_ = some n → Stops d ⟨links, at_, []⟩
  | free {links : Nat} {at_ names : List Text} {name : Text} :
    d.FreeAhead at_ name → Stops d ⟨links, at_, name :: names⟩
  | notDirectory {links : Nat} {at_ names : List Text} {name : Text} {n : Node} :
    d.root.at? at_ = some n → (∀ es, n ≠ .directory es) → Stops d ⟨links, at_, name :: names⟩
  | tooLong {links : Nat} {at_ names : List Text} {name : Text} {es : List (Text × Node)} :
    d.root.at? at_ = some (.directory es) → name ≠ Path.here → name ≠ Path.up →
    longestName < (Utf8.encode name).length → Stops d ⟨links, at_, name :: names⟩
  | tooManyLinks {at_ names : List Text} {name target : Text} :
    name ≠ Path.here → name ≠ Path.up → (Utf8.encode name).length ≤ longestName →
    d.root.at? (at_ ++ [name]) = some (.link target) → Stops d ⟨0, at_, name :: names⟩
  | emptyLink {links : Nat} {at_ names : List Text} {name : Text} :
    name ≠ Path.here → name ≠ Path.up → (Utf8.encode name).length ≤ longestName →
    d.root.at? (at_ ++ [name]) = some (.link []) → Stops d ⟨links + 1, at_, name :: names⟩

/-- A walk takes steps until it stops. -/
theorem exists_stop {links : Nat} {at_ names : List Text} (hat : ∃ n, d.root.at? at_ = some n) :
    ∃ b, d.Steps ⟨links, at_, names⟩ b ∧ d.Stops b := by
  have hgoes {a c : Stage} (hstep : Step d a c)
      (ih : (∃ n, d.root.at? c.at_ = some n) → ∃ b, d.Steps c b ∧ d.Stops b) :
      ∃ b, d.Steps a b ∧ d.Stops b := by
    obtain ⟨b, hsteps, hstops⟩ := ih hstep.reached
    exact ⟨b, hsteps.head hstep, hstops⟩
  induction links, at_, names using walk.induct d true with
  | case1 links at_ =>
    obtain ⟨n, hn⟩ := hat
    exact ⟨_, .refl, .arrived hn⟩
  | case2 links at_ names es hes ih => exact hgoes (.here hes) ih
  | case3 links at_ names es hes _ ih => exact hgoes (.up hes) ih
  | case4 links at_ name names es hes hhere hup hlong =>
    exact ⟨_, .refl, .tooLong hes hhere hup hlong⟩
  | case5 links at_ name es hes hhere hup hlong hget =>
    exact ⟨_, .refl, .free ⟨⟨es, hes⟩, at?_eq_get? hes name ▸ hget, hhere, hup, Nat.not_lt.mp hlong⟩⟩
  | case6 links at_ name names es hes hhere hup hlong hget _ =>
    exact ⟨_, .refl, .free ⟨⟨es, hes⟩, at?_eq_get? hes name ▸ hget, hhere, hup, Nat.not_lt.mp hlong⟩⟩
  | case7 links at_ name names es hes hhere hup hlong target hget hend => simp at hend
  | case8 at_ name names es hes hhere hup hlong target hget _ =>
    exact ⟨_, .refl, .tooManyLinks hhere hup (Nat.not_lt.mp hlong) (at?_eq_get? hes name ▸ hget)⟩
  | case9 at_ name names es hes hhere hup hlong _ links hget =>
    exact ⟨_, .refl, .emptyLink hhere hup (Nat.not_lt.mp hlong) (at?_eq_get? hes name ▸ hget)⟩
  | case10 at_ name names es hes hhere hup hlong target hget _ links htarget ih =>
    exact hgoes (.link hhere hup (Nat.not_lt.mp hlong) (at?_eq_get? hes name ▸ hget) htarget) ih
  | case11 links at_ name names es hes hhere hup hlong n hlink hget ih =>
    exact hgoes (.into hhere hup (Nat.not_lt.mp hlong) (at?_eq_get? hes name ▸ hget) hlink) ih
  | case12 links at_ name names hdir =>
    obtain ⟨n, hn⟩ := hat
    exact ⟨_, .refl, .notDirectory hn fun es hes => hdir es (hes ▸ hn)⟩

/-! ### Walks at a stop -/

theorem walk_of_free {links : Nat} {at_ names : List Text} {name : Text}
    (h : d.FreeAhead at_ name) :
    walk d p true links at_ (name :: names)
      = if names = [] then .ok ⟨at_ ++ [name], none⟩ else .error (.noEntry p) := by
  obtain ⟨es, hes⟩ := h.directory
  have hget : Entries.get? name es = none := at?_eq_get? hes name ▸ h.free
  simp only [walk, hes, h.ne_here, h.ne_up, Nat.not_lt.mpr h.short, hget, if_false]

theorem walk_of_long {follow : Bool} {links : Nat} {at_ names : List Text} {name : Text}
    {es : List (Text × Node)} (hes : d.root.at? at_ = some (.directory es))
    (hhere : name ≠ Path.here) (hup : name ≠ Path.up)
    (hlong : longestName < (Utf8.encode name).length) :
    walk d p follow links at_ (name :: names) = .error (.nameTooLong p) := by
  simp only [walk, hes, hhere, hup, hlong, if_false, if_true]

/-- No link may be followed any more. -/
theorem walk_of_last_link {at_ names : List Text} {name target : Text} (hhere : name ≠ Path.here)
    (hup : name ≠ Path.up) (hshort : (Utf8.encode name).length ≤ longestName)
    (hlink : d.root.at? (at_ ++ [name]) = some (.link target)) :
    walk d p true 0 at_ (name :: names) = .error (.tooManyLinks p) := by
  obtain ⟨es, hes⟩ := Node.isDirectory_of_at?_append (by simp) hlink
  have hget : Entries.get? name es = some (.link target) := at?_eq_get? hes name ▸ hlink
  simp only [walk, hes, hhere, hup, Nat.not_lt.mpr hshort, hget, if_false, Bool.not_true,
    Bool.and_false, Bool.false_eq_true]

theorem walk_of_empty_link {links : Nat} {at_ names : List Text} {name : Text}
    (hhere : name ≠ Path.here) (hup : name ≠ Path.up)
    (hshort : (Utf8.encode name).length ≤ longestName)
    (hlink : d.root.at? (at_ ++ [name]) = some (.link [])) :
    walk d p true (links + 1) at_ (name :: names) = .error (.noEntry p) := by
  obtain ⟨es, hes⟩ := Node.isDirectory_of_at?_append (by simp) hlink
  have hget : Entries.get? name es = some (.link []) := at?_eq_get? hes name ▸ hlink
  simp only [walk, hes, hhere, hup, Nat.not_lt.mpr hshort, hget, if_false, if_true, Bool.not_true,
    Bool.and_false, Bool.false_eq_true]

/-! ### Ends that last -/

/-- The walk has found something, or something other than an absence has stopped it. -/
inductive Fixed : Except OsError Place → Prop
  | arrived (place : List Text) (n : Node) : Fixed (.ok ⟨place, some n⟩)
  | refused {e : OsError} : e.code ≠ 2 → Fixed (.error e)

theorem not_fixed_of_none {place : List Text} : ¬ Fixed (.ok ⟨place, none⟩) := by
  intro h
  cases h

theorem not_fixed_noEntry {q : Text} : ¬ Fixed (.error (.noEntry q)) := by
  intro h
  cases h with
  | refused hcode => exact hcode rfl

theorem fixed_nameTooLong (q : Text) : Fixed (.error (.nameTooLong q)) :=
  .refused (show (36 : Int) ≠ 2 by decide)

theorem fixed_tooManyLinks (q : Text) : Fixed (.error (.tooManyLinks q)) :=
  .refused (show (40 : Int) ≠ 2 by decide)

theorem fixed_notDirectory (q : Text) : Fixed (.error (.notDirectory q)) :=
  .refused (show (20 : Int) ≠ 2 by decide)

/-- A walk with a fixed end goes the same way in a grown disk. -/
theorem walk_grown (hd : Grown d d') {links : Nat} {at_ names : List Text}
    (hat : ∃ n, d.root.at? at_ = some n) (h : Fixed (walk d p true links at_ names)) :
    walk d' p true links at_ names
      = (walk d p true links at_ names).map fun there =>
          ⟨there.names, d'.root.at? there.names⟩ := by
  obtain ⟨b, hsteps, hstops⟩ : ∃ b, d.Steps ⟨links, at_, names⟩ b ∧ d.Stops b := exists_stop hat
  have hwalk := hsteps.walk_eq p
  have hwalk' := (hsteps.grown hd).walk_eq p
  dsimp only at hwalk hwalk'
  rw [hwalk] at h
  rw [hwalk, hwalk']
  -- In the grown disk the walk takes the same steps, and the same stops it.
  cases hstops with
  | arrived _ =>
    rw [walk, walk]
    rfl
  | @notDirectory links at_ names name n hn hdir =>
    obtain ⟨n', hn', hkind⟩ := hd.stays hn
    have hdir' : ∀ es, d'.root.at? at_ ≠ some (.directory es) := by
      intro es hes
      rw [hn'] at hes
      cases hes
      cases hkind
      exact hdir _ rfl
    rw [walk_of_not_directory hdir', walk_of_not_directory (by simpa [hn] using hdir)]
    rfl
  | tooLong hes hhere hup hlong =>
    obtain ⟨es', hes'⟩ := hd.directory hes
    rw [walk_of_long hes hhere hup hlong, walk_of_long hes' hhere hup hlong]
    rfl
  | tooManyLinks hhere hup hshort hlink =>
    rw [walk_of_last_link hhere hup hshort hlink, walk_of_last_link hhere hup hshort (hd.link hlink)]
    rfl
  | free hahead =>
    rw [walk_of_free hahead] at h
    split at h
    · exact (not_fixed_of_none h).elim
    · exact (not_fixed_noEntry h).elim
  | emptyLink hhere hup hshort hlink =>
    rw [walk_of_empty_link hhere hup hshort hlink] at h
    exact (not_fixed_noEntry h).elim

/-- A walk has a fixed end, or it stops where the name ahead is free. -/
theorem fixed_or_free (hlinks : ∀ q, d.root.at? q ≠ some (.link [])) {links : Nat}
    {at_ : List Text} (hat : ∃ n, d.root.at? at_ = some n) (names : List Text) (p : Text) :
    Fixed (walk d p true links at_ names) ∨ ∃ links' base name rest,
      d.Steps ⟨links, at_, names⟩ ⟨links', base, name :: rest⟩ ∧ d.FreeAhead base name := by
  obtain ⟨b, hsteps, hstops⟩ : ∃ b, d.Steps ⟨links, at_, names⟩ b ∧ d.Stops b := exists_stop hat
  have hwalk := hsteps.walk_eq p
  dsimp only at hwalk
  rw [hwalk]
  cases hstops with
  | @arrived links at_ n hn =>
    rw [walk, hn]
    exact .inl (.arrived at_ n)
  | free hahead => exact .inr ⟨_, _, _, _, hsteps, hahead⟩
  | notDirectory hn hdir =>
    rw [walk_of_not_directory (by simpa [hn] using hdir)]
    exact .inl (fixed_notDirectory p)
  | tooLong hes hhere hup hlong =>
    rw [walk_of_long hes hhere hup hlong]
    exact .inl (fixed_nameTooLong p)
  | tooManyLinks hhere hup hshort hlink =>
    rw [walk_of_last_link hhere hup hshort hlink]
    exact .inl (fixed_tooManyLinks p)
  | emptyLink _ _ _ hlink => exact absurd hlink (hlinks _)

/-- If the end of a walk is fixed, so is the end of a walk along its first names. -/
theorem fixed_front {q : Text} {follow : Bool} {links : Nat} {at_ front more : List Text}
    (hat : ∃ n, d.root.at? at_ = some n) (hmore : more ≠ [])
    (h : Fixed (walk d p true links at_ (front ++ more))) :
    Fixed (walk d q follow links at_ front) := by
  induction links, at_, front using walk.induct d follow with
  | case1 links at_ =>
    obtain ⟨n, hn⟩ := hat
    rw [walk, hn]
    exact .arrived at_ n
  | case2 links at_ names es hes ih =>
    rw [List.cons_append, walk_here hes] at h
    rw [walk_here hes]
    exact ih hat h
  | case3 links at_ names es hes _ ih =>
    rw [List.cons_append, walk_up hes] at h
    rw [walk_up hes]
    have hstep : Step d ⟨links, at_, Path.up :: names⟩ _ := .up hes
    exact ih hstep.reached h
  | case10 at_ name names es hes hhere hup hlong target hget hend links htarget ih =>
    have hstep : Step d ⟨links + 1, at_, name :: (names ++ more)⟩ _ :=
      .link hhere hup (Nat.not_lt.mp hlong) (at?_eq_get? hes name ▸ hget) htarget
    have hwalk := hstep.walk_eq p
    rw [List.cons_append, hwalk] at h
    simp only [walk, hes, hhere, hup, hlong, hget, hend, htarget, if_false]
    exact ih hstep.reached (by simpa using h)
  | case11 links at_ name names es hes hhere hup hlong n hlink hget ih =>
    have hstep : Step d ⟨links, at_, name :: (names ++ more)⟩ _ :=
      .into hhere hup (Nat.not_lt.mp hlong) (at?_eq_get? hes name ▸ hget) hlink
    have hwalk := hstep.walk_eq p
    rw [List.cons_append, hwalk] at h
    simp only [walk, hes, hhere, hup, hlong, hget, if_false]
    exact ih hstep.reached h
  | case4 links at_ name names es hes hhere hup hlong =>
    simp only [walk, hes, hhere, hup, hlong, if_false, if_true]
    exact fixed_nameTooLong q
  | case7 links at_ name names es hes hhere hup hlong target hget hend =>
    simp only [walk, hes, hhere, hup, hlong, hget, hend, if_false, if_true]
    exact .arrived _ _
  | case8 at_ name names es hes hhere hup hlong target hget hend =>
    simp only [walk, hes, hhere, hup, hlong, hget, hend, if_false]
    exact fixed_tooManyLinks q
  | case12 links at_ name names hdir =>
    rw [walk_of_not_directory hdir]
    exact fixed_notDirectory q
  -- The whole walk would end with an absence.
  | case5 links at_ name es hes hhere hup hlong hget =>
    rw [List.cons_append, List.nil_append, walk, hes] at h
    simp only [hhere, hup, hlong, hget, hmore, if_false] at h
    exact (not_fixed_noEntry h).elim
  | case6 links at_ name names es hes hhere hup hlong hget hne =>
    have hne' : names ++ more ≠ [] := by simp [hne]
    rw [List.cons_append, walk, hes] at h
    simp only [hhere, hup, hlong, hget, hne', if_false] at h
    exact (not_fixed_noEntry h).elim
  | case9 at_ name names es hes hhere hup hlong hend links hget =>
    rw [List.cons_append, walk, hes] at h
    simp only [hhere, hup, hlong, hget, if_false, if_true, Bool.not_true, Bool.and_false,
      Bool.false_eq_true] at h
    exact (not_fixed_noEntry h).elim

theorem reached_start (hcwd : ∃ n, d.root.at? d.cwd = some n) (p : Text) :
    ∃ n, d.root.at? (d.start p) = some n := by
  unfold start
  split
  · exact ⟨d.root, Node.at?_nil _⟩
  · exact hcwd

/-- The directory of a path with a fixed end has one, too. -/
theorem fixed_parent (hcollapsed : Path.IsCollapsed p) (hcwd : ∃ n, d.root.at? d.cwd = some n)
    (h : Fixed (walk d p true linkLimit (d.start p) (walkNames p))) :
    Fixed (walk d (Path.parent p) false linkLimit (d.start (Path.parent p))
      (walkNames (Path.parent p))) := by
  obtain ⟨a, ns, hns, rfl⟩ := hcollapsed
  have hkept : ∀ n ∈ ns.dropLast, Path.IsKept n := fun n hn =>
    hns n ((List.dropLast_prefix ns).subset hn)
  have hstart : d.start (Path.ofNames (Path.anchor a) ns.dropLast)
      = d.start (Path.ofNames (Path.anchor a) ns) := by
    rw [start, start, Path.isAbsolute_ofNames hkept, Path.isAbsolute_ofNames hns]
  obtain ⟨n, hn⟩ := reached_start hcwd (Path.ofNames (Path.anchor a) ns)
  rw [Path.parent_ofNames hns, hstart]
  by_cases hnil : ns.dropLast = []
  · rw [hnil, walkNames_ofNames_nil]
    cases n with
    | directory es =>
      rw [walk_here hn, walk, hn]
      exact .arrived _ _
    | file | link =>
      rw [walk_of_not_directory (by simp [hn])]
      exact fixed_notDirectory _
  · have hns' : ns ≠ [] := by
      rintro rfl
      exact hnil rfl
    have hsplit : ns.dropLast ++ [ns.getLast hns'] = ns := List.dropLast_concat_getLast hns'
    rw [walkNames_ofNames hns hns'] at h
    rw [walkNames_ofNames hkept hnil]
    have hwhole : Fixed (walk d (Path.ofNames (Path.anchor a) ns) true linkLimit
        (d.start (Path.ofNames (Path.anchor a) ns)) (ns.dropLast ++ [ns.getLast hns'])) := by
      rw [hsplit]
      exact h
    exact fixed_front ⟨n, hn⟩ (by simp) hwhole

end Disk

end StyleImport
