/-
What sandboxed queries depend on.

The sandbox looks at where a path ends, by its names alone, and the disk goes all the way there.  As
long as the way keeps to the roots and to the directories that lead to them or to the working
directory (`Sandbox.KeepsTo`), nothing outside of the roots matters for the answer.  A path that
leaves the roots and comes back is admitted just the same, and then the answer depends on whether
the directories outside are there.

* `QueryContext.sameFinding` — admitted paths that keep to the roots lead to the same;
* `Query.answer_confined` — so the queries about a file have the same answers.
-/
import StyleImport.Proofs.Disk.Agreement
import StyleImport.Proofs.Sandbox
import StyleImport.Query

namespace StyleImport

namespace Sandbox

/-- The names of a root. -/
def rootNames (cwd : List Text) (root : Text) : List Text :=
  Path.components (Path.absolute (Disk.pathOf cwd) root)

/-- Whether a path keeps to the roots: each place that it comes through before its end leads to the
working directory or to a root, or is in a root. -/
def KeepsTo (cwd : List Text) (roots : List Text) (p : Text) : Prop :=
  ∀ front, front <+: Path.components p → front ≠ Path.components p →
    let place := Path.moveAll (if Path.isAbsolute p then [] else cwd) front
    place <+: cwd ∨ ∃ root ∈ roots, place <+: rootNames cwd root ∨ rootNames cwd root <+: place

end Sandbox

namespace Sandbox

/-- An admitted path that never goes up keeps to the roots. -/
theorem keepsTo_of_no_up {cwd : List Text} (hcwd : ∀ n ∈ cwd, Path.IsName n) {roots : List Text}
    {p : Text} (hup : Path.up ∉ Path.components p)
    (hpermits : permits (Disk.pathOf cwd) (.roots roots) p = true) : KeepsTo cwd roots p := by
  obtain ⟨root, hroot, hend⟩ := (permits_iff rfl).mp hpermits
  have hself : Path.moveAll [] cwd = cwd := by rw [Path.moveAll_of_isName hcwd, List.nil_append]
  rw [Path.components_absolute rfl p, Path.components_pathOf hcwd, hself] at hend
  rintro front ⟨rest, hrest⟩ - place
  -- The root and the place both lead down to the end of the path.
  have hdown : place <+: Path.moveAll place rest := by
    refine Path.prefix_moveAll (fun hmem => hup ?_) place
    rw [← hrest]
    exact List.mem_append_right _ hmem
  rw [← hrest, Path.moveAll_append] at hend
  exact .inr ⟨root, hroot, List.prefix_or_prefix_of_prefix hdown hend⟩

end Sandbox

/-- Two file trees, seen from one working directory, that agree on the roots of a sandbox and have
the directories that lead there. -/
structure Disk.AgreeOn (roots : List Text) (d d' : Disk) : Prop where
  left : d.Settled
  right : d'.Settled
  cwd_eq : d.cwd = d'.cwd
  below : ∀ root ∈ roots, d.AgreeBelow d' (Sandbox.rootNames d.cwd root)
  above : ∀ root ∈ roots, ∀ front, front <+: Sandbox.rootNames d.cwd root →
    front ≠ Sandbox.rootNames d.cwd root →
    (∃ es, d.root.at? front = some (.directory es)) ∧
      ∃ es, d'.root.at? front = some (.directory es)

namespace Disk.AgreeOn

variable {roots : List Text} {d d' : Disk} (h : d.AgreeOn roots d')

include h

theorem same_of_below {root : Text} (hroot : root ∈ roots) {place : List Text}
    (hplace : Sandbox.rootNames d.cwd root <+: place) :
    Node.Same (d.root.at? place) (d'.root.at? place) := by
  obtain ⟨names, rfl⟩ := hplace
  exact h.below root hroot names

/-- The trees agree on every place that a path may come through. -/
theorem same_of_place {place : List Text} (hplace : place <+: d.cwd ∨ ∃ root ∈ roots,
      place <+: Sandbox.rootNames d.cwd root ∨ Sandbox.rootNames d.cwd root <+: place) :
    Node.Same (d.root.at? place) (d'.root.at? place) := by
  rcases hplace with hcwd | ⟨root, hroot, habove | hbelow⟩
  · obtain ⟨es, hes⟩ := h.left.isDirectory_of_prefix hcwd
    obtain ⟨es', hes'⟩ := h.right.isDirectory_of_prefix (h.cwd_eq ▸ hcwd)
    rw [hes, hes']
    exact .directory es es'
  · by_cases heq : place = Sandbox.rootNames d.cwd root
    · exact h.same_of_below hroot (heq ▸ List.prefix_rfl)
    · obtain ⟨⟨es, hes⟩, es', hes'⟩ := h.above root hroot place habove heq
      rw [hes, hes']
      exact .directory es es'
  · exact h.same_of_below hroot hbelow

/-- A path that the sandbox admits and that keeps to the roots leads to the same. -/
theorem sameFinding {p : Text} (hpermits : Sandbox.permits d.cwdPath (.roots roots) p = true)
    (hkeeps : Sandbox.KeepsTo d.cwd roots p) : SameFinding (d.lookup p) (d'.lookup p) := by
  obtain ⟨root, hroot, hend⟩ := (Sandbox.permits_iff rfl).mp hpermits
  have hcwd : Path.moveAll [] d.cwd = d.cwd := by
    rw [Path.moveAll_of_isName h.left.cwd_isName, List.nil_append]
  rw [cwdPath, Path.components_absolute rfl p, Path.components_pathOf h.left.cwd_isName,
    hcwd] at hend
  refine sameFinding_lookup h.left.linkFree h.right.linkFree h.cwd_eq fun front hfront => ?_
  refine h.same_of_place ?_
  by_cases hinner : front <+: Path.components p ∧ front ≠ Path.components p
  · exact hkeeps front hinner.1 hinner.2
  · -- Otherwise the names of the path are all there, with or without a dot behind them.
    have hwhole : front = Path.components p ∨ front = Path.components p ++ [Path.here] := by
      rw [walkNames] at hfront
      split at hfront
      · rcases List.prefix_concat_iff.mp hfront with hfront | hfront
        · exact .inr hfront
        · exact .inl (not_not.mp fun hne => hinner ⟨hfront, hne⟩)
      · rw [List.append_nil] at hfront
        exact .inl (not_not.mp fun hne => hinner ⟨hfront, hne⟩)
    refine .inr ⟨root, hroot, .inr ?_⟩
    rcases hwhole with rfl | rfl
    · exact hend
    · rw [Path.moveAll_append, Path.moveAll_cons, Path.moveAll_nil, Path.move_here]
      exact hend

end Disk.AgreeOn

namespace Query

section

variable {roots : List Text} {d d' : Disk} {session session' : Session}

theorem admittedPath_congr (hcwd : d.cwd = d'.cwd) (v : Value) :
    admittedPath ⟨d, .roots roots, session⟩ v = admittedPath ⟨d', .roots roots, session'⟩ v := by
  simp only [admittedPath, QueryContext.check, QueryContext.permits, Disk.cwdPath, hcwd]
  rfl

theorem admittedPath_eq_ok {c : QueryContext} {v : Value} {p : Text}
    (h : admittedPath c v = .ok p) : v.requireString = .ok p ∧ c.permits p = true := by
  unfold admittedPath at h
  rcases hstring : v.requireString with e | t
  · simp [hstring, bind, Except.bind] at h
  · by_cases hpermits : c.permits t = true
    · have hcheck : c.check t = .ok () := by simp [QueryContext.check, hpermits]
      simp only [hstring, hcheck, bind, Except.bind, pure, Except.pure, Except.ok.injEq] at h
      exact ⟨congrArg _ h, h ▸ hpermits⟩
    · simp [hstring, QueryContext.check, hpermits, bind, Except.bind] at h

theorem answer_exist {c : QueryContext} {v : Value} {p : Text} (h : admittedPath c v = .ok p)
    (registered : Option Value) :
    answer c registered .exist [v] = .ok (.boolean (c.disk.present p)) := by
  simp only [answer, compute, h, bind, Except.bind]
  rfl

theorem facts_congr {n n' : Node} (h : Node.Same (some n) (some n')) (names : List Text) :
    facts names n = facts names n' := by
  cases h <;> rfl

/-- The queries about a file have the same answers in two file trees that agree on the roots, if the
path keeps to the roots. -/
theorem answer_confined {q : Query} (hq : q = .exist ∨ q = .info ∨ q = .contents)
    (h : d.AgreeOn roots d') (registered registered' : Option Value) (v : Value)
    (hkeeps : ∀ p, v.requireString = .ok p →
      Sandbox.permits d.cwdPath (.roots roots) p = true → Sandbox.KeepsTo d.cwd roots p) :
    answer ⟨d, .roots roots, session⟩ registered q [v]
      = answer ⟨d', .roots roots, session'⟩ registered' q [v] := by
  have hsame : admittedPath ⟨d, .roots roots, session⟩ v
      = admittedPath ⟨d', .roots roots, session'⟩ v := admittedPath_congr h.cwd_eq v
  unfold answer
  congr 1
  rcases hpath : admittedPath ⟨d, .roots roots, session⟩ v with e | p
  · rw [hpath] at hsame
    rcases hq with rfl | rfl | rfl <;> simp only [compute, hpath, ← hsame] <;> rfl
  · obtain ⟨hstring, hpermits⟩ := admittedPath_eq_ok hpath
    rw [hpath] at hsame
    have hfinding := h.sameFinding hpermits (hkeeps p hstring hpermits)
    rcases hq with rfl | rfl | rfl
    · have hpresent := Disk.present_congr hfinding
      simp only [compute, hpath, ← hsame, bind, Except.bind, hpresent]
    · simp only [compute, hpath, ← hsame, bind, Except.bind]
      generalize d.lookup p = r at hfinding ⊢
      generalize d'.lookup p = r' at hfinding ⊢
      cases hfinding with
      | failed e => rfl
      | found hnode => simp only [Except.mapError, facts_congr hnode]
    · have htext := Disk.readText_congr hfinding
      simp only [compute, hpath, ← hsame, bind, Except.bind, htext]

end

/-- A tree with the file `/s/f`, seen from `/s`, and anything else at the root. -/
def treeWith (outside : List (Text × Node)) : Disk where
  top := (['s'], .directory [(['f'], .file [] 0)]) :: outside
  cwd := [['s']]

theorem settled_treeWith {outside : List (Text × Node)} (h : ∀ e ∈ outside, e.2.LinkFree) :
    (treeWith outside).Settled := by
  have hfree : (treeWith outside).root.LinkFree := by
    refine .ofEntries fun e he => ?_
    rcases List.mem_cons.mp he with rfl | he
    · refine .ofEntries fun e he => ?_
      obtain rfl := List.mem_singleton.mp he
      exact .file [] 0
    · exact h e he
  refine ⟨hfree, by simp only [treeWith]; decide, ?_⟩
  have hlookup := Disk.lookup_of_isName hfree (p := ['/', 's']) (by decide) (by decide) (by decide)
    (by decide) (by decide) rfl
  exact Disk.isDirectory_iff.mpr ⟨_, _, hlookup, rfl⟩

/-- Whatever else is there, such trees agree on `/s`. -/
theorem agreeOn_treeWith {outside outside' : List (Text × Node)}
    (h : ∀ e ∈ outside, e.2.LinkFree) (h' : ∀ e ∈ outside', e.2.LinkFree) :
    (treeWith outside).AgreeOn [['/', 's']] (treeWith outside') where
  left := settled_treeWith h
  right := settled_treeWith h'
  cwd_eq := rfl
  below root hroot := by
    obtain rfl := List.mem_singleton.mp hroot
    exact Disk.agreeBelow_of_eq (settled_treeWith h).linkFree rfl
  above root hroot front hfront hne := by
    obtain rfl := List.mem_singleton.mp hroot
    have hnames : Sandbox.rootNames (treeWith outside).cwd ['/', 's'] = [] ++ [['s']] := by
      simp only [treeWith]
      decide
    rw [hnames] at hfront hne
    have hroot : front = [] :=
      List.prefix_nil.mp ((List.prefix_concat_iff.mp hfront).resolve_left hne)
    subst hroot
    exact ⟨⟨_, rfl⟩, _, rfl⟩

/-- Whether `/o` is there does not matter for what is read from `/s/f`. -/
theorem contents_confined_to_root :
    answer ⟨treeWith [], .roots [['/', 's']], {}⟩ none .contents [.quoted ['/', 's', '/', 'f']]
      = answer ⟨treeWith [(['o'], .directory [])], .roots [['/', 's']], {}⟩ none .contents
          [.quoted ['/', 's', '/', 'f']] := by
  have hagree : (treeWith []).AgreeOn [['/', 's']] (treeWith [(['o'], .directory [])]) :=
    agreeOn_treeWith (by simp) (by simpa using .ofEntries (by simp))
  refine answer_confined (by simp) hagree none none _ fun p hp hpermits => ?_
  obtain rfl : ['/', 's', '/', 'f'] = p := Except.ok.inj hp
  exact Sandbox.keepsTo_of_no_up hagree.left.cwd_isName (by decide) hpermits

/-- A path that leaves the root and comes back is admitted, and tells whether `/o` is there. -/
theorem exist_depends_on_outside :
    let t : Text := ['/', 's', '/', '.', '.', '/', 'o', '/', '.', '.', '/', 's', '/', 'f']
    let d := treeWith []
    let d' := treeWith [(['o'], .directory [])]
    d.AgreeOn [['/', 's']] d' ∧
      answer ⟨d, .roots [['/', 's']], {}⟩ none .exist [.quoted t] = .ok (.boolean false) ∧
      answer ⟨d', .roots [['/', 's']], {}⟩ none .exist [.quoted t] = .ok (.boolean true) := by
  intro t d d'
  have hagree : d.AgreeOn [['/', 's']] d' :=
    agreeOn_treeWith (by simp) (by simpa using .ofEntries (by simp))
  have hfree := hagree.left.linkFree
  have hfree' := hagree.right.linkFree
  have hnames : Disk.walkNames t = [['s'], Path.up, ['o'], Path.up, ['s'], ['f']] := by decide
  have hwalk : d.walk t true Disk.linkLimit [] (Disk.walkNames t) = .error (.noEntry t) := by
    rw [hnames, Disk.walk_into hfree (by decide) (by decide) (by decide) rfl, Disk.walk_up rfl,
      Disk.walk_name hfree rfl (by decide) (by decide)]
    rfl
  have hwalk' : d'.walk t true Disk.linkLimit [] (Disk.walkNames t)
      = .ok ⟨[['s'], ['f']], some (.file [] 0)⟩ := by
    rw [hnames, Disk.walk_into hfree' (by decide) (by decide) (by decide) rfl, Disk.walk_up rfl,
      Disk.walk_into hfree' (by decide) (by decide) (by decide) rfl, Disk.walk_up rfl,
      Disk.walk_into hfree' (by decide) (by decide) (by decide) rfl,
      Disk.walk_into hfree' (by decide) (by decide) (by decide) rfl, Disk.walk]
    rfl
  refine ⟨hagree, ?_, ?_⟩
  · rw [answer_exist (p := t) (by decide)]
    have habsent : d.present t = false := by
      rw [Bool.eq_false_iff]
      intro hpresent
      obtain ⟨names, n, hlookup⟩ := Disk.present_iff.mp hpresent
      obtain ⟨-, -, -, hok⟩ := Disk.place_eq_ok.mp (Disk.lookup_eq_ok.mp hlookup)
      exact absurd (hwalk.symm.trans hok) (by simp)
    rw [habsent]
  · rw [answer_exist (p := t) (by decide)]
    have hpresent : d'.present t = true :=
      Disk.present_iff.mpr ⟨_, _, Disk.lookup_eq_ok.mpr (Disk.place_eq_ok.mpr
        ⟨by decide, by decide, by decide, hwalk'⟩)⟩
    rw [hpresent]

end Query

end StyleImport
