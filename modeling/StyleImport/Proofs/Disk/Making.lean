/-
Files that are made where nothing was.

A path whose end is missing leads through what exists to some place; what is missing are plain names
behind it.  These names determine where the directories and the file are made that a write to the
path needs, whatever else has been made in the meantime, and nothing else changes.

* `Disk.Missing` — the place and the names;
* `Disk.Missing.lookup_of_some`, `Disk.Missing.presentOrFail_of_none` — what the path leads to in a
  disk that has grown;
* `Disk.Missing.of_made` — what making the directory and writing the file do.
-/
import StyleImport.Proofs.Disk.Growth
import StyleImport.Proofs.Path.Collapsed

namespace StyleImport

namespace Disk

/-! ### Walks that meet no link -/

/-- Plain names lead to what stands there, if they meet no link; if nothing does, the walk says so
or arrives in the directory where it would be. -/
theorem walk_straight {d : Disk} (p : Text) (follow : Bool) (links : Nat) {base names : List Text}
    (hnames : ∀ m ∈ names, Path.IsName m)
    (hshort : ∀ m ∈ names, (Utf8.encode m).length ≤ longestName)
    (hlinks : ∀ front, front <+: names → front ≠ [] →
      ∀ target, d.root.at? (base ++ front) ≠ some (.link target)) :
    (d.root.at? (base ++ names) = none ∧
      ∃ e, walk d p follow links base names = .error e ∧ e.isAbsence = true) ∨
    (walk d p follow links base names = .ok ⟨base ++ names, d.root.at? (base ++ names)⟩ ∧
      (names ≠ [] → ∃ es, d.root.at? (base ++ names).dropLast = some (.directory es))) := by
  induction names generalizing base with
  | nil =>
    rw [walk, List.append_nil]
    exact .inr ⟨rfl, fun hne => absurd rfl hne⟩
  | cons name names ih =>
    have hname : Path.IsName name := hnames name List.mem_cons_self
    have hlong := Nat.not_lt.mpr (hshort name List.mem_cons_self)
    have hsplit : base ++ name :: names = (base ++ [name]) ++ names := by simp
    have hlink : ∀ target, d.root.at? (base ++ [name]) ≠ some (.link target) :=
      hlinks [name] (by simp) (by simp)
    have hbehind : ∀ front, front <+: names → front ≠ [] →
        ∀ target, d.root.at? ((base ++ [name]) ++ front) ≠ some (.link target) := by
      intro front hfront _ target
      rw [List.append_assoc, List.singleton_append]
      exact hlinks (name :: front) (List.cons_prefix_cons.mpr ⟨rfl, hfront⟩) (by simp) target
    have hrest := ih (fun m hm => hnames m (List.mem_cons_of_mem _ hm))
      (fun m hm => hshort m (List.mem_cons_of_mem _ hm)) hbehind
    rw [← hsplit] at hrest
    by_cases hdir : ∃ es, d.root.at? base = some (.directory es)
    · obtain ⟨es, hes⟩ := hdir
      have hnext : d.root.at? (base ++ [name]) = Entries.get? name es := by
        rw [Node.at?_concat, hes]
      rw [hnext] at hlink
      rw [walk, hes]
      simp only [hname.ne_here, hname.ne_up, if_false, hlong]
      cases hget : Entries.get? name es with
      | none =>
        dsimp only
        rw [hsplit, Node.at?_append, hnext, hget]
        by_cases hnil : names = []
        · subst hnil
          rw [if_pos rfl, List.append_nil, List.dropLast_concat]
          exact .inr ⟨rfl, fun _ => ⟨es, hes⟩⟩
        · rw [if_neg hnil]
          exact .inl ⟨rfl, _, rfl, rfl⟩
      | some n =>
        have hparent : names = [] →
            ∃ es, d.root.at? (base ++ name :: names).dropLast = some (.directory es) := by
          rintro rfl
          rw [List.dropLast_concat]
          exact ⟨es, hes⟩
        have hgoes : ∀ target, n ≠ .link target := fun target hn => hlink target (hn ▸ hget)
        cases n with
        | link target => exact absurd rfl (hgoes target)
        | file | directory =>
          refine hrest.imp_right fun ⟨harrives, hdirectory⟩ => ⟨harrives, fun _ => ?_⟩
          by_cases hnil : names = []
          · exact hparent hnil
          · exact hdirectory hnil
    · rw [walk_of_not_directory fun es hes => hdir ⟨es, hes⟩]
      refine .inl ⟨?_, _, rfl, rfl⟩
      by_contra hsome
      obtain ⟨n, hn⟩ := Option.ne_none_iff_exists'.mp hsome
      exact hdir (Node.isDirectory_of_at?_append (by simp) hn)

/-- Links matter at the end of a walk alone, where there is something. -/
theorem walk_follow {d : Disk} {p : Text} {follow : Bool} {links : Nat} {at_ names there : List Text}
    (h : walk d p follow links at_ names = .ok ⟨there, none⟩) :
    walk d p true links at_ names = .ok ⟨there, none⟩ := by
  induction links, at_, names using walk.induct d follow with
  | case1 links at_ =>
    rw [walk] at h ⊢
    exact h
  | case2 links at_ names es hes ih =>
    rw [walk_here hes] at h ⊢
    exact ih h
  | case3 links at_ names es hes _ ih =>
    rw [walk_up hes] at h ⊢
    exact ih h
  | case5 links at_ name es hes hhere hup hlong hget =>
    rw [walk, hes] at h ⊢
    simpa only [hhere, hup, hlong, hget, if_false, if_true] using h
  | case10 at_ name names es hes hhere hup hlong target hget hend links htarget ih =>
    rw [walk, hes] at h ⊢
    simp only [hhere, hup, hlong, hget, hend, htarget, if_false, Bool.not_true, Bool.and_false,
      Bool.false_eq_true] at h ⊢
    exact ih h
  | case11 links at_ name names es hes hhere hup hlong n hlink hget ih =>
    rw [walk, hes] at h ⊢
    simp only [hhere, hup, hlong, hget, if_false] at h ⊢
    exact ih h
  | case4 links at_ name names es hes hhere hup hlong =>
    simp [walk, hes, hhere, hup, hlong] at h
  | case6 links at_ name names es hes hhere hup hlong hget hne =>
    simp [walk, hes, hhere, hup, hlong, hget, hne] at h
  | case7 links at_ name names es hes hhere hup hlong target hget hend
  | case8 at_ name names es hes hhere hup hlong target hget hend
  | case9 at_ name names es hes hhere hup hlong hend links hget =>
    rw [walk, hes] at h
    simp only [hhere, hup, hlong, hget, hend, if_false, if_true, reduceCtorEq, Except.ok.injEq,
      Place.mk.injEq, and_false] at h
  | case12 links at_ name names hdir =>
    rw [walk_of_not_directory hdir] at h
    cases h

/-! ### Paths that are found to be missing -/

theorem presentOrFail_of_nul {d : Disk} {p : Text} (h : '\x00' ∈ p) :
    d.presentOrFail p = .ok false := by
  have hplace : d.place p = .error .nulInPath := by
    rw [place, if_pos (List.contains_iff_mem.mpr h)]
  unfold presentOrFail askOrFail lookup
  rw [hplace]
  rfl

/-- A path that is too long is not found to be missing. -/
theorem possible_of_presentOrFail {d : Disk} {p : Text} (h : d.presentOrFail p = .ok false) :
    '\x00' ∈ p ∨ (Utf8.encode p).length < pathLimit := by
  by_contra hnot
  rw [not_or] at hnot
  obtain ⟨hnul, hlimit⟩ := hnot
  have hnil : p ≠ [] := by
    rintro rfl
    exact hlimit (by decide)
  have hplace : d.place p = .error (.system (.nameTooLong p)) := by
    rw [place, if_neg (by simpa using hnul), if_neg hnil, if_pos (Nat.not_lt.mp hlimit)]
  unfold presentOrFail askOrFail lookup at h
  rw [hplace] at h
  cases h

/-! ### Paths whose end is missing -/

/-- A step of a walk along the first names of a list is a step along all of them. -/
theorem Step.front {d : Disk} {a b : Stage} (h : Step d a b) {front more : List Text}
    (hsplit : front ++ more = a.names) :
    (front = [] ∧ ∃ n, d.root.at? a.at_ = some n) ∨
      ∃ back, back ++ more = b.names ∧ Step d { a with names := front } { b with names := back } := by
  obtain ⟨es, hes⟩ : ∃ es, d.root.at? a.at_ = some (.directory es) := by
    cases h with
    | here hes => exact ⟨_, hes⟩
    | up hes => exact ⟨_, hes⟩
    | into _ _ _ hn => exact Node.isDirectory_of_at?_append (by simp) hn
    | link _ _ _ hn => exact Node.isDirectory_of_at?_append (by simp) hn
  cases front with
  | nil => exact .inl ⟨rfl, _, hes⟩
  | cons name front =>
    right
    cases h with
    | here hes =>
      obtain ⟨rfl, hmore⟩ := List.cons.inj hsplit
      exact ⟨front, hmore, .here hes⟩
    | up hes =>
      obtain ⟨rfl, hmore⟩ := List.cons.inj hsplit
      exact ⟨front, hmore, .up hes⟩
    | into hhere hup hlong hn hlink =>
      obtain ⟨rfl, hmore⟩ := List.cons.inj hsplit
      exact ⟨front, hmore, .into hhere hup hlong hn hlink⟩
    | @link _ _ _ _ target hhere hup hlong hn htarget =>
      obtain ⟨rfl, hmore⟩ := List.cons.inj hsplit
      exact ⟨walkNames target ++ front, by simpa using hmore, .link hhere hup hlong hn htarget⟩

/-- The steps along the first names of a list are those along all of them, unless they end at
something earlier. -/
theorem Steps.front {d : Disk} {a b : Stage} (h : Steps d a b) {front more : List Text}
    (hsplit : front ++ more = a.names) :
    (∃ back, back ++ more = b.names ∧
      Steps d { a with names := front } { b with names := back }) ∨
    ∃ links at_, Steps d { a with names := front } ⟨links, at_, []⟩ ∧
      ∃ n, d.root.at? at_ = some n := by
  induction h using Relation.ReflTransGen.head_induction_on generalizing front with
  | refl => exact .inl ⟨front, hsplit, .refl⟩
  | @head a c hstep _ ih =>
    rcases hstep.front hsplit with ⟨rfl, hsome⟩ | ⟨middle, hmiddle, hfirst⟩
    · exact .inr ⟨a.links, a.at_, .refl, hsome⟩
    · rcases ih hmiddle with ⟨back, hback, hsteps⟩ | ⟨links, at_, hsteps, hsome⟩
      · exact .inl ⟨back, hback, hsteps.head hfirst⟩
      · exact .inr ⟨links, at_, hsteps.head hfirst, hsome⟩

/-- Where a walk along a path starts. -/
def start (d : Disk) (p : Text) : List Text := if Path.isAbsolute p then [] else d.cwd

/-- A path is found to be missing if the walk along it ends with an absence. -/
theorem presentOrFail_of_walk {d : Disk} {p : Text} (hlimit : (Utf8.encode p).length < pathLimit)
    (h : (∃ e, walk d p true linkLimit (d.start p) (walkNames p) = .error e ∧ e.isAbsence = true) ∨
      ∃ there, walk d p true linkLimit (d.start p) (walkNames p) = .ok ⟨there, none⟩) :
    d.presentOrFail p = .ok false := by
  by_cases hnul : '\x00' ∈ p
  · exact presentOrFail_of_nul hnul
  · unfold presentOrFail askOrFail lookup place
    rw [if_neg (by simpa using hnul)]
    by_cases hnil : p = []
    · rw [if_pos hnil]
      rfl
    · rw [if_neg hnil, if_neg (Nat.not_le.mpr hlimit), ← start]
      rcases h with ⟨e, hwalk, habsence⟩ | ⟨there, hwalk⟩
      · rw [hwalk]
        show (if e.isAbsence then Except.ok false else .error (ReadFailure.system e)) = _
        exact if_pos habsence
      · rw [hwalk]
        rfl

theorem start_of_grown {d d' : Disk} (hd : Grown d d') {p q : Text}
    (hq : Path.isAbsolute q = Path.isAbsolute p) : d'.start q = d.start p := by
  rw [start, start, hq, hd.cwd]

/-- What exists of the path `p` leads to the place `base`, and behind it the plain names `rest` are
missing. -/
structure Missing (d : Disk) (p : Text) (base rest : List Text) : Prop where
  steps : ∃ links, d.Steps ⟨linkLimit, d.start p, walkNames p⟩ ⟨links, base, rest⟩
  reached : ∃ n, d.root.at? base = some n
  missing : d.root.at? (base ++ rest.take 1) = none
  isName : ∀ m ∈ rest, Path.IsName m
  short : ∀ m ∈ rest, (Utf8.encode m).length ≤ longestName

/-- Names that lead to something in a tree without links are steps of a walk. -/
theorem steps_of_isName {d : Disk} (hd : d.root.LinkFree) (links : Nat) {at_ front : List Text}
    (more : List Text) (hnames : ∀ m ∈ front, Path.IsName m)
    (hshort : ∀ m ∈ front, (Utf8.encode m).length ≤ longestName) {n : Node}
    (h : d.root.at? (at_ ++ front) = some n) :
    d.Steps ⟨links, at_, front ++ more⟩ ⟨links, at_ ++ front, more⟩ := by
  induction front generalizing at_ with
  | nil =>
    rw [List.append_nil]
    exact .refl
  | cons name front ih =>
    have hname : Path.IsName name := hnames name List.mem_cons_self
    have hsplit : at_ ++ name :: front = (at_ ++ [name]) ++ front := by simp
    rw [hsplit] at h ⊢
    obtain ⟨m, hm⟩ : ∃ m, d.root.at? (at_ ++ [name]) = some m := by
      rw [Node.at?_append] at h
      obtain ⟨m, hm, -⟩ := Option.bind_eq_some_iff.mp h
      exact ⟨m, hm⟩
    have hlink : ∀ target, m ≠ .link target := by
      rintro target rfl
      cases hd.of_at? hm
    exact (ih (fun k hk => hnames k (List.mem_cons_of_mem _ hk))
      (fun k hk => hshort k (List.mem_cons_of_mem _ hk)) h).head
        (.into hname.ne_here hname.ne_up (hshort name List.mem_cons_self) hm hlink)

/-- Without links the names of a path tell what is missing. -/
theorem missing_of_isName {d : Disk} (hd : d.root.LinkFree) {p : Text} {front rest : List Text}
    (hwalk : walkNames p = front ++ rest) (hnames : ∀ m ∈ front ++ rest, Path.IsName m)
    (hshort : ∀ m ∈ front ++ rest, (Utf8.encode m).length ≤ longestName)
    (hreached : ∃ n, d.root.at? (d.start p ++ front) = some n)
    (hmissing : d.root.at? (d.start p ++ front ++ rest.take 1) = none) :
    d.Missing p (d.start p ++ front) rest := by
  obtain ⟨n, hn⟩ := hreached
  rw [List.forall_mem_append] at hnames hshort
  exact ⟨⟨linkLimit, hwalk ▸ steps_of_isName hd linkLimit rest hnames.1 hshort.1 hn⟩, ⟨n, hn⟩,
    hmissing, hnames.2, hshort.2⟩

namespace Missing

variable {d d' : Disk} {p : Text} {base rest : List Text} (h : d.Missing p base rest)
  (hd : Grown d d')

include h

theorem rest_ne_nil : rest ≠ [] := by
  rintro rfl
  obtain ⟨n, hn⟩ := h.reached
  have hmissing := h.missing
  rw [List.take_nil, List.append_nil, hn] at hmissing
  cases hmissing

theorem path_ne_nil : p ≠ [] := by
  rintro rfl
  obtain ⟨links, hsteps⟩ := h.steps
  rcases Relation.ReflTransGen.cases_head hsteps with heq | ⟨c, hstep, -⟩
  · exact h.rest_ne_nil (Stage.mk.inj heq).2.2.symm
  · cases hstep

/-- Nothing is behind the first missing name. -/
theorem at?_eq_none {front : List Text} (hfront : front <+: rest) (hne : front ≠ []) :
    d.root.at? (base ++ front) = none := by
  obtain ⟨name, front, rfl⟩ := List.exists_cons_of_ne_nil hne
  obtain ⟨more, rfl⟩ := hfront
  have hmissing : d.root.at? (base ++ [name]) = none := h.missing
  have hsplit : base ++ name :: front = (base ++ [name]) ++ front := by simp
  rw [hsplit, Node.at?_append, hmissing, Option.bind_none]

include hd

/-- So no links come there. -/
theorem not_link {front : List Text} (hfront : front <+: rest) (hne : front ≠ [])
    (target : Text) : d'.root.at? (base ++ front) ≠ some (.link target) := by
  intro hlink
  have hsome := hd.links hlink
  rw [h.at?_eq_none hfront hne] at hsome
  cases hsome

/-- A walk along the first names of the path ends at something that exists, or goes straight on from
the place where the missing names start. -/
theorem walk_front {q : Text} {front more : List Text} (hsplit : front ++ more = walkNames p) :
    (∃ at_ n, walk d' q true linkLimit (d.start p) front = .ok ⟨at_, some n⟩) ∨
    ∃ back links, back ++ more = rest ∧
      walk d' q true linkLimit (d.start p) front = walk d' q true links base back := by
  obtain ⟨links, hsteps⟩ := h.steps
  rcases hsteps.front hsplit with ⟨back, hback, hfront⟩ | ⟨links', at_, hfront, n, hn⟩
  · exact .inr ⟨back, links, hback, (hfront.grown hd).walk_eq q⟩
  · obtain ⟨n', hn', -⟩ := hd.stays hn
    refine .inl ⟨at_, n', ?_⟩
    rw [(hfront.grown hd).walk_eq q, walk, hn']

/-- A place where nothing is, and a path to it from the first names of `p`: it lies behind some of
the missing names. -/
theorem of_place_none {q : Text} {follow : Bool} {there more : List Text}
    (hq : Path.isAbsolute q = Path.isAbsolute p) (hnames : walkNames q ++ more = walkNames p)
    (hplace : d'.place q follow = .ok ⟨there, none⟩) :
    ∃ front, front ++ more = rest ∧ front ≠ [] ∧ there = base ++ front ∧
      d'.root.at? there = none ∧ ∃ es, d'.root.at? there.dropLast = some (.directory es) := by
  obtain ⟨-, -, -, hwalk⟩ := place_eq_ok.mp hplace
  replace hwalk := walk_follow hwalk
  rw [← start, start_of_grown hd hq] at hwalk
  rcases h.walk_front hd (q := q) hnames with ⟨at_, n, harrives⟩ | ⟨back, links, hback, hgoes⟩
  · rw [hwalk] at harrives
    cases harrives
  · have hbefore : back <+: rest := ⟨more, hback⟩
    have hne : back ≠ [] := by
      rintro rfl
      obtain ⟨n, hn⟩ := h.reached
      obtain ⟨n', hn', -⟩ := hd.stays hn
      rw [hgoes, walk, hn'] at hwalk
      cases hwalk
    rw [hgoes] at hwalk
    rcases walk_straight q true links (fun m hm => h.isName m (hbefore.subset hm))
      (fun m hm => h.short m (hbefore.subset hm))
      (fun front hfront => h.not_link hd (hfront.trans hbefore)) with
      ⟨-, e, herror, -⟩ | ⟨harrives, hparent⟩
    · rw [hwalk] at herror
      cases herror
    · rw [hwalk, Except.ok.injEq, Place.mk.injEq] at harrives
      obtain ⟨rfl, hnone⟩ := harrives
      exact ⟨back, hback, hne, rfl, hnone.symm, hparent hne⟩

/-- The whole path leads to what stands behind the missing names; if nothing does, it says so or
arrives in the directory where it would be. -/
theorem walk_path : ∃ links, walk d' p true linkLimit (d'.start p) (walkNames p)
    = walk d' p true links base rest := by
  obtain ⟨links, hsteps⟩ := h.steps
  have hstart : d'.start p = d.start p := start_of_grown hd rfl
  exact ⟨links, hstart ▸ (hsteps.grown hd).walk_eq p⟩

theorem walk_rest (links : Nat) :
    (d'.root.at? (base ++ rest) = none ∧
      ∃ e, walk d' p true links base rest = .error e ∧ e.isAbsence = true) ∨
    (walk d' p true links base rest = .ok ⟨base ++ rest, d'.root.at? (base ++ rest)⟩ ∧
      ∃ es, d'.root.at? (base ++ rest).dropLast = some (.directory es)) :=
  (walk_straight p true links h.isName h.short fun _ => h.not_link hd).imp_right
    fun ⟨harrives, hparent⟩ => ⟨harrives, hparent h.rest_ne_nil⟩

/-- Where a write to the path goes. -/
theorem of_place {there : Place} (hplace : d'.place p = .ok there) :
    there = ⟨base ++ rest, d'.root.at? (base ++ rest)⟩ ∧
      ∃ es, d'.root.at? (base ++ rest).dropLast = some (.directory es) := by
  obtain ⟨-, -, -, hwalk⟩ := place_eq_ok.mp hplace
  obtain ⟨links, hpath⟩ := h.walk_path hd
  replace hwalk := hpath.symm.trans hwalk
  rcases h.walk_rest hd links with ⟨-, e, herror, -⟩ | ⟨harrives, hparent⟩
  · rw [hwalk] at herror
    cases herror
  · rw [hwalk, Except.ok.injEq] at harrives
    exact ⟨harrives, hparent⟩

/-- What the path leads to when something stands behind the missing names. -/
theorem lookup_of_some (hnul : '\x00' ∉ p) (hlimit : (Utf8.encode p).length < pathLimit)
    {n : Node} (hn : d'.root.at? (base ++ rest) = some n) :
    d'.lookup p = .ok (base ++ rest, n) := by
  obtain ⟨links, hpath⟩ := h.walk_path hd
  refine lookup_eq_ok.mpr (place_eq_ok.mpr ⟨hnul, h.path_ne_nil, hlimit, hpath.trans ?_⟩)
  rcases h.walk_rest hd links with ⟨hnone, -⟩ | ⟨harrives, -⟩
  · rw [hn] at hnone
    cases hnone
  · rw [harrives, hn]

/-- A file that is missing is found to be so. -/
theorem presentOrFail_of_none (hlimit : (Utf8.encode p).length < pathLimit)
    (hnone : d'.root.at? (base ++ rest) = none) : d'.presentOrFail p = .ok false := by
  obtain ⟨links, hpath⟩ := h.walk_path hd
  refine presentOrFail_of_walk hlimit ?_
  rw [hpath]
  rcases h.walk_rest hd links with ⟨-, e, herror, habsence⟩ | ⟨harrives, -⟩
  · exact .inl ⟨e, herror, habsence⟩
  · exact .inr ⟨_, hnone ▸ harrives⟩

end Missing

/-! ### Directories and files that are made -/

theorem makeDirectory_eq_ok {d d' : Disk} {q : Text} (h : d.makeDirectory q = .ok d') :
    ∃ names, d.place q false = .ok ⟨names, none⟩ ∧ d' = d.put names .emptyDirectory := by
  unfold makeDirectory at h
  rcases hplace : d.place q false with e | ⟨names, _ | n⟩
  · rw [hplace] at h
    cases h
  · rw [hplace] at h
    exact ⟨names, rfl, (Except.ok.inj h).symm⟩
  · rw [hplace] at h
    cases h

/-- The directory that a path of no names starts in is not made. -/
theorem makeDirectory_ne_ok {d : Disk} {q : Text} (hq : walkNames q = [Path.here]) (d' : Disk) :
    d.makeDirectory q ≠ .ok d' := by
  intro h
  obtain ⟨names, hplace, -⟩ := makeDirectory_eq_ok h
  obtain ⟨-, -, -, hwalk⟩ := place_eq_ok.mp hplace
  rw [hq, ← start] at hwalk
  by_cases hdir : ∃ es, d.root.at? (d.start q) = some (.directory es)
  · obtain ⟨es, hes⟩ := hdir
    rw [walk_here hes, walk, hes] at hwalk
    cases hwalk
  · rw [walk_of_not_directory fun es hes => hdir ⟨es, hes⟩] at hwalk
    cases hwalk

theorem writeText_eq_ok {d d' : Disk} {p t : Text} (h : d.writeText p t = .ok d') :
    ∃ there, d.place p = .ok there ∧ (∀ es, there.node ≠ some (.directory es)) ∧
      d' = d.put there.names (.file (Utf8.encode t) 0) := by
  unfold writeText writeBytes at h
  rcases hplace : d.place p with e | ⟨names, _ | (_ | es | _)⟩
  · rw [hplace] at h
    cases h
  · rw [hplace] at h
    exact ⟨_, rfl, by simp, (Except.ok.inj h).symm⟩
  · rw [hplace] at h
    exact ⟨_, rfl, by simp, (Except.ok.inj h).symm⟩
  · rw [hplace] at h
    cases h
  · rw [hplace] at h
    exact ⟨_, rfl, by simp, (Except.ok.inj h).symm⟩

theorem makeMissing_eq_ok {d d' : Disk} {q : Text} (h : d.makeMissing q = .ok d') :
    d.makeDirectory q = .ok d' ∨ d' = d := by
  unfold makeMissing at h
  split at h
  · rename_i d'' hmade
    obtain rfl := Except.ok.inj h
    exact .inl hmade
  · split at h
    · exact .inr (Except.ok.inj h).symm
    · cases h
  · cases h

/-- What holds of a disk, and still does when a directory is made at a path or at a parent of it,
still does when all its parents are made, as many as can be. -/
theorem of_tryDirectory {P : Disk → Prop} {Q : Text → Prop}
    (hup : ∀ q, Q q → Q (Path.parent q))
    (hmake : ∀ d d' q, P d → Q q → d.makeDirectory q = .ok d' → P d') {tries : Nat} {d : Disk}
    {q : Text} (hd : P d) (hq : Q q) : P (d.tryDirectory tries q).2 := by
  have hmissing {d d' : Disk} {q : Text} (hd : P d) (hq : Q q) (h : d.makeMissing q = .ok d') :
      P d' := by
    rcases makeMissing_eq_ok h with hmade | rfl
    · exact hmake d d' q hd hq hmade
    · exact hd
  induction tries generalizing d q with
  | zero => exact hd
  | succ tries ih =>
    rw [tryDirectory]
    split
    · exact hmissing hd hq ‹_›
    · split
      · have hparents := ih hd (hup q hq)
        split
        · rename_i hfailed
          rw [hfailed] at hparents
          exact hparents
        · rename_i hmade
          rw [hmade] at hparents
          split
          · exact hmissing hparents hq ‹_›
          · exact hparents
      · exact hd
    · exact hd

theorem makeDirectories_eq_ok_iff {d d' : Disk} {p : Text} :
    d.makeDirectories p = .ok d' ↔ d.tryDirectories p = (.ok (), d') := by
  unfold makeDirectories
  rcases d.tryDirectories p with ⟨e | u, d''⟩
  · simp
  · simp

/-- A text is written to a path whose directory is made there and then, if its bytes are. -/
theorem exists_made {d made d' : Disk} {p dir t : Text} {bytes : List UInt8}
    (hparent : Path.parent p = dir) (hbytes : Utf8.encode t = bytes)
    (hmake : d.makeDirectories dir = .ok made) (hwrite : made.writeBytes p bytes = .ok d') :
    ∃ made, d.makeDirectories (Path.parent p) = .ok made ∧ made.writeText p t = .ok d' := by
  subst hparent hbytes
  exact ⟨made, hmake, hwrite⟩

/-- `d'` is `d` grown on the way to a place and there, but nowhere else. -/
structure GrownTo (d d' : Disk) (there : List Text) : Prop where
  grown : Grown d d'
  same : ∀ q, ¬ q <+: there → ¬ there <+: q → d'.root.at? q = d.root.at? q

namespace GrownTo

variable {d d' d'' : Disk} {there : List Text}

theorem refl (d : Disk) (there : List Text) : GrownTo d d there :=
  ⟨Grown.refl d, fun _ _ _ => rfl⟩

theorem trans (h : GrownTo d d' there) (h' : GrownTo d' d'' there) : GrownTo d d'' there :=
  ⟨h.grown.trans h'.grown, fun q hq hq' => (h'.same q hq hq').trans (h.same q hq hq')⟩

/-- A directory where nothing was. -/
theorem directory {front : List Text} (hfront : front <+: there)
    (hfits : d.Fits front .emptyDirectory) (hfree : d.root.at? front = none) :
    GrownTo d (d.put front .emptyDirectory) there := by
  refine ⟨Grown.put hfits, fun q hq hq' => ?_⟩
  rw [root_put d hfits.ne_nil]
  rcases prefix_cases front q with ⟨more, rfl⟩ | ⟨more, -, hbefore⟩ | ⟨hbehind, hbefore⟩
  · rw [Node.at?_insert_append, Node.at?_append, hfree]
    cases more with
    | nil => exact absurd (by simpa using hfront) hq
    | cons name more => rfl
  · exact absurd ((hbefore ▸ List.prefix_append q more).trans hfront) hq
  · exact Node.at?_insert_of_apart _ _ hbehind hbefore

/-- A file where nothing or a file was. -/
theorem file {bytes : List UInt8} (hfits : d.Fits there (.file bytes 0)) :
    GrownTo d (d.put there (.file bytes 0)) there := by
  refine ⟨Grown.put hfits, fun q hq hq' => ?_⟩
  rw [root_put d hfits.ne_nil]
  exact Node.at?_insert_of_apart _ _ hq' hq

end GrownTo

/-- A directory fits where nothing is. -/
theorem fits_directory {d : Disk} {names : List Text} (hne : names ≠ [])
    (hfree : d.root.at? names = none)
    (hparent : ∃ es, d.root.at? names.dropLast = some (.directory es)) :
    d.Fits names .emptyDirectory := by
  refine ⟨hne, hparent, fun old hold => ?_, fun q target => ?_⟩
  · rw [hfree] at hold
    cases hold
  · cases q <;> simp [Node.emptyDirectory, Node.at?, Entries.get?, Entries.getBy?]

/-- A file fits where nothing or a file is. -/
theorem fits_file {d : Disk} {names : List Text} (hne : names ≠ []) (bytes : List UInt8)
    (hfree : ∀ old, d.root.at? names = some old → old.isFile = true)
    (hparent : ∃ es, d.root.at? names.dropLast = some (.directory es)) :
    d.Fits names (.file bytes 0) := by
  refine ⟨hne, hparent, fun old hold => ⟨hfree old hold, rfl⟩, fun q target => ?_⟩
  cases q <;> simp [Node.at?]

namespace Missing

variable {d d' : Disk} {p : Text} {base rest : List Text} (h : d.Missing p base rest)
  (hd : Grown d d')

include h hd

theorem of_makeDirectory {d'' : Disk} {q : Text} {more : List Text}
    (hq : Path.isAbsolute q = Path.isAbsolute p) (hnames : walkNames q ++ more = walkNames p)
    (hmake : d'.makeDirectory q = .ok d'') :
    ∃ front, front ++ more = rest ∧ d'.Fits (base ++ front) .emptyDirectory ∧
      d'.root.at? (base ++ front) = none ∧ d'' = d'.put (base ++ front) .emptyDirectory := by
  obtain ⟨names, hplace, rfl⟩ := makeDirectory_eq_ok hmake
  obtain ⟨front, hfront, hne, rfl, hfree, hparent⟩ := h.of_place_none hd hq hnames hplace
  exact ⟨front, hfront, fits_directory (by simp [hne]) hfree hparent, hfree, rfl⟩

theorem of_writeText {d'' : Disk} {t : Text} (hwrite : d'.writeText p t = .ok d'') :
    d'.Fits (base ++ rest) (.file (Utf8.encode t) 0) ∧
      d'' = d'.put (base ++ rest) (.file (Utf8.encode t) 0) := by
  obtain ⟨there, hplace, hdirectory, rfl⟩ := writeText_eq_ok hwrite
  obtain ⟨rfl, hparent⟩ := h.of_place hd hplace
  refine ⟨fits_file (by simp [h.rest_ne_nil]) _ (fun old hold => ?_) hparent, rfl⟩
  cases old with
  | file => rfl
  | directory es => exact absurd hold (hdirectory es)
  | link target => exact absurd hold (h.not_link hd (List.prefix_refl rest) h.rest_ne_nil target)

/-- When the directory of the path is made, empty directories are put where nothing is, on the way
to the missing file.  What this preserves holds in the end, also if not all of them can be made. -/
theorem of_tryDirectories {P : Disk → Prop} (hcollapsed : Path.IsCollapsed p)
    (hput : ∀ d₁ front more, Grown d d₁ → P d₁ → front ++ more = rest → more ≠ [] →
      d₁.Fits (base ++ front) .emptyDirectory → d₁.root.at? (base ++ front) = none →
      P (d₁.put (base ++ front) .emptyDirectory)) (hP : P d') :
    Grown d (d'.tryDirectories (Path.parent p)).2 ∧
      P (d'.tryDirectories (Path.parent p)).2 := by
  obtain ⟨a, ns, hns, hp⟩ := hcollapsed
  have hkept : ∀ n ∈ ns.dropLast, Path.IsKept n := fun n hn =>
    hns n ((List.dropLast_prefix ns).subset hn)
  have hparent : Path.IsFront (Path.anchor a) ns.dropLast (Path.parent p) :=
    ⟨ns.dropLast, List.prefix_refl _, hp ▸ Path.parent_ofNames hns a⟩
  refine of_tryDirectory (P := fun d₁ => Grown d d₁ ∧ P d₁) (fun q hq => hq.parent hkept) ?_
    ⟨hd, hP⟩ hparent
  -- The paths at which directories are made have the first names of `p`, but not all of them.
  rintro d₁ d₂ q ⟨hd₁, hP₁⟩ ⟨front, hfront, rfl⟩ hmake
  by_cases hne : front = []
  · subst hne
    exact absurd hmake (makeDirectory_ne_ok (walkNames_ofNames_nil a) d₂)
  · obtain ⟨more, hmore⟩ := hfront
    have hfrontKept : ∀ n ∈ front, Path.IsKept n := fun n hn =>
      hkept n (hmore ▸ List.mem_append_left more hn)
    have hns' : ns ≠ [] := by
      rintro rfl
      exact hne (List.append_eq_nil_iff.mp hmore).1
    have hnames : walkNames (Path.ofNames (Path.anchor a) front) ++ (more ++ [ns.getLast hns'])
        = walkNames p := by
      rw [hp, walkNames_ofNames hfrontKept hne, walkNames_ofNames hns hns', ← List.append_assoc,
        hmore, List.dropLast_concat_getLast]
    have hsame : Path.isAbsolute (Path.ofNames (Path.anchor a) front) = Path.isAbsolute p := by
      rw [hp, Path.isAbsolute_ofNames hfrontKept, Path.isAbsolute_ofNames hns]
    obtain ⟨front', hfront', hfits, hfree, rfl⟩ := h.of_makeDirectory hd₁ hsame hnames hmake
    exact ⟨hd₁.trans (Grown.put hfits), hput d₁ front' _ hd₁ hP₁ hfront' (by simp) hfits hfree⟩

/-- A file is written to the path once its directory is made: it is there, and the disk has only
grown on the way to it. -/
theorem of_made {d'' d₃ : Disk} {t : Text} (hcollapsed : Path.IsCollapsed p)
    (hmake : d'.makeDirectories (Path.parent p) = .ok d'') (hwrite : d''.writeText p t = .ok d₃) :
    GrownTo d' d₃ (base ++ rest) ∧
      d₃.root.at? (base ++ rest) = some (.file (Utf8.encode t) 0) := by
  obtain ⟨hd'', hmade⟩ := h.of_tryDirectories hd (P := fun d'' => GrownTo d' d'' (base ++ rest))
    hcollapsed (fun d₁ front more _ hd₁ hfront _ hfits hfree => hd₁.trans <|
      GrownTo.directory ((List.prefix_append_right_inj base).mpr ⟨more, hfront⟩) hfits hfree)
    (GrownTo.refl d' _)
  rw [makeDirectories_eq_ok_iff.mp hmake] at hd'' hmade
  obtain ⟨hfits, rfl⟩ := h.of_writeText hd'' hwrite
  exact ⟨hmade.trans (GrownTo.file hfits), by rw [root_put _ hfits.ne_nil, Node.at?_insert_self]⟩

end Missing

end Disk

end StyleImport
