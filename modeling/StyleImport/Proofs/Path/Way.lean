/-
The way from a directory to a path.

The way drops the names that both have in front, goes up once for each name that is left of the
directory's, and then down.  So below the directory it only leads down.  That the text of the path
starts with the text of the directory says less: a name may go on where the directory's last name
ends (`Path.Beside`), and then the way goes up.

* `Path.normalize_of_no_up` — a path that never goes up keeps its names in normal form;
* `Path.relative_eq` — the way between two such paths is the way between their names;
* `Path.isPrefix_or_beside`, `Path.isPrefix_of_names` — paths whose texts start alike.
-/
import StyleImport.Proofs.Path.Collapsed
import StyleImport.Proofs.Sandbox

namespace StyleImport

namespace Text

/-- Two texts put together are cut as each of them is, and the piece between them is whole. -/
theorem pieces_append {sep : Char} {s t : Text} {front : List Text} {last first : Text}
    {rest : List Text} (hs : pieces sep s = front ++ [last]) (ht : pieces sep t = first :: rest) :
    pieces sep (s ++ t) = front ++ (last ++ first) :: rest := by
  induction s generalizing front last with
  | nil =>
    obtain ⟨rfl, rfl⟩ : front = [] ∧ last = [] := by
      rcases front with _ | ⟨p, ps⟩
      · simpa [pieces] using hs.symm
      · simp [pieces] at hs
    exact ht
  | cons c cs ih =>
    rw [pieces] at hs
    rw [List.cons_append, pieces]
    split at hs
    · rename_i hc
      rw [if_pos hc]
      rcases front with _ | ⟨p, ps⟩
      · exact absurd (List.cons.inj hs).2 (pieces_ne_nil sep cs)
      · obtain ⟨rfl, hcs⟩ := List.cons.inj hs
        rw [ih hcs]
        rfl
    · rename_i hc
      rw [if_neg hc]
      obtain ⟨p, ps, hp⟩ := List.exists_cons_of_ne_nil (pieces_ne_nil sep cs)
      rw [hp] at hs ih
      -- The first piece may be the last one too.
      rcases front with _ | ⟨q, qs⟩
      · obtain ⟨rfl, rfl⟩ := List.cons.inj hs
        rw [ih (List.nil_append [p]).symm]
        rfl
      · obtain ⟨rfl, rfl⟩ := List.cons.inj hs
        rw [ih (List.cons_append).symm]
        rfl

/-- Texts put together start with the first of them and a part of the next. -/
theorem joinWith_prefix {sep : Char} (front : List Text) (t more : Text) (below : List Text) :
    joinWith [sep] (front ++ [t]) <+: joinWith [sep] (front ++ (t ++ more) :: below) := by
  induction front with
  | nil =>
    by_cases hbelow : below = []
    · simp [hbelow, joinWith_singleton]
    · simp [joinWith_singleton, joinWith_cons _ hbelow]
  | cons u us ih =>
    rw [List.cons_append, List.cons_append, joinWith_cons u (by simp), joinWith_cons u (by simp),
      List.prefix_append_right_inj, List.cons_prefix_cons]
    exact ⟨rfl, ih⟩

end Text

namespace Path

/-! ### Paths that never go up -/

/-- Empty names and dots are all that the normal form of such a path leaves out. -/
theorem reduce_of_no_up (absolute : Bool) {p : Text} (h : up ∉ components p) :
    reduce absolute (Text.pieces '/' p) = names p := by
  have hup : up ∉ Text.pieces '/' p := by
    intro hmem
    exact h (List.mem_filter.mpr ⟨hmem, by decide⟩)
  have hslash := no_slash_of_mem_pieces p
  have hfold : ∀ stack, (Text.pieces '/' p).foldl (pushName absolute) stack
      = (names p).reverse ++ stack := by
    unfold names
    generalize Text.pieces '/' p = ns at hup hslash
    induction ns with
    | nil => exact fun stack => rfl
    | cons n ns ih =>
      intro stack
      rw [List.mem_cons, not_or] at hup
      have hrest := ih hup.2 fun m hm => hslash m (List.mem_cons_of_mem _ hm)
      by_cases hn : n = [] ∨ n = here
      · have hsame : pushName absolute stack n = stack := by
          simp [pushName, hn]
        rw [List.foldl_cons, hsame, hrest,
          List.filter_cons_of_neg (by rcases hn with rfl | rfl <;> decide)]
      · rw [not_or] at hn
        have hname : IsName n := ⟨hn.1, hn.2, Ne.symm hup.1, hslash n List.mem_cons_self⟩
        rw [List.foldl_cons, pushName_of_isName absolute hname, hrest,
          List.filter_cons_of_pos (by simpa using hn)]
        simp
  rw [reduce, hfold, List.append_nil, List.reverse_reverse]

/-- The normal form of a path that never goes up is its collapsed form. -/
theorem normalize_of_no_up {p : Text} (h : up ∉ components p) :
    normalize p = ofNames (anchor p) (names p) := by
  rw [normalize_eq_ofNames, reduce_of_no_up _ h]

/-- A normal form that does not start by going up never does. -/
theorem up_not_mem_of_normal {p : Text} (hnormal : normalize p = p)
    (h : isAbsolute p = false → (components p).head? ≠ some up) : up ∉ components p := by
  cases hp : isAbsolute p with
  | true =>
    have hnames : ∀ n ∈ moveAll [] (components p), IsName n :=
      isName_of_mem_moveAll (by simp) (no_slash_of_mem_components p)
    rw [← hnormal, components_normalize hp]
    exact fun hmem => (hnames up hmem).ne_up rfl
  | false =>
    have hanchor : anchor p = [] :=
      (anchor_cases p).elim And.right fun habsolute => by simp [hp] at habsolute
    have hred := reduced_reduce false (no_slash_of_mem_pieces p)
    have hofNames := normalize_eq_ofNames p
    rw [hp, hanchor, hnormal] at hofNames
    generalize reduce false (Text.pieces '/' p) = ns at hred hofNames
    by_cases hns : ns = []
    · rw [hofNames, hns]
      decide
    · have hcomponents : components p = ns := by
        have hback := components_anchor_append (fun n hn => hred.ne_nil hn)
          (fun n hn => hred.no_slash hn) p
        obtain ⟨n, ms, rfl⟩ := List.exists_cons_of_ne_nil hns
        rwa [hanchor, List.nil_append, ← ofNames_nil_cons (hred.ne_nil List.mem_cons_self),
          ← hofNames] at hback
      have hhead := h hp
      rw [hcomponents] at hhead ⊢
      -- Ways up stand in front of all other names.
      obtain ⟨k, rest, rfl, hrest, -⟩ := hred
      cases k with
      | zero => exact fun hmem => (hrest up hmem).ne_up rfl
      | succ k => simp [List.replicate_succ] at hhead

theorem names_join {p q : Text} (hq : isAbsolute q = false) :
    names (join p q) = names p ++ names q := by
  rw [names_eq_filter, components_join hq, List.filter_append, ← names_eq_filter,
    ← names_eq_filter]

/-- Names below a directory that never goes up follow its own names. -/
theorem normalize_join_ofNames {p : Text} (hne : p ≠ []) (hp : up ∉ components p)
    {ns : List Text} (hns : ∀ n ∈ ns, IsName n) :
    normalize (join p (ofNames [] ns)) = ofNames (anchor p) (names p ++ ns) := by
  have hkept : ∀ n ∈ ns, IsKept n := fun n hn => (hns n hn).isKept
  have hrel : isAbsolute (ofNames [] ns) = false := isAbsolute_ofNames hkept []
  have hnames : names (ofNames [] ns) = ns := names_ofNames hkept []
  have hup : up ∉ components (join p (ofNames [] ns)) := by
    intro hmem
    rw [components_join hrel] at hmem
    rcases List.mem_append.mp hmem with hmem | hmem
    · exact hp hmem
    · have hin : up ∈ ns := by
        rw [← hnames, names_eq_filter]
        exact List.mem_filter.mpr ⟨hmem, by decide⟩
      exact (hns up hin).ne_up rfl
  have hanchor : anchor (join p (ofNames [] ns)) = anchor p := by
    cases hkind : isAbsolute p with
    | true => exact anchor_join hkind hrel
    | false =>
      have hjoin : isAbsolute (join p (ofNames [] ns)) = false := by
        rcases join_cases p hrel with ⟨-, hjoin⟩ | hjoin <;>
          rw [hjoin, isAbsolute_append_of_ne_nil hne, hkind]
      have hnone : ∀ q, isAbsolute q = false → anchor q = [] := fun q hq =>
        (anchor_cases q).elim And.right fun habsolute => by simp [hq] at habsolute
      rw [hnone p hkind, hnone _ hjoin]
  rw [normalize_of_no_up hup, hanchor, names_join hrel, hnames]

theorem components_absolute_of_no_up {cwd p : Text} (hcwd : isAbsolute cwd = true)
    (hup : up ∉ components p) :
    components (absolute cwd p)
      = (if isAbsolute p then [] else moveAll [] (components cwd)) ++ names p := by
  rw [components_absolute hcwd, moveAll_of_no_up hup]

/-! ### The way between names -/

theorem wayNames_append (shared start target : List Text) :
    wayNames (shared ++ start) (shared ++ target) = wayNames start target := by
  induction shared with
  | nil => rfl
  | cons n ns ih => simpa [wayNames, dropShared] using ih

theorem wayNames_prefix (start rest : List Text) : wayNames start (start ++ rest) = rest := by
  have happend := wayNames_append start [] rest
  rw [List.append_nil] at happend
  rw [happend]
  rfl

/-- From one name to another one the way goes up. -/
theorem wayNames_of_ne {m n : Text} (h : m ≠ n) (below : List Text) :
    wayNames [m] (n :: below) = up :: n :: below := by
  simp [wayNames, dropShared, h]

theorem mem_wayNames {start target : List Text} {n : Text} (h : n ∈ wayNames start target) :
    n = up ∨ n ∈ target := by
  obtain ⟨shared, -, htarget⟩ := exists_of_dropShared start target
  rcases List.mem_append.mp h with h | h
  · exact .inl (List.eq_of_mem_replicate h)
  · exact .inr (by rw [htarget]; exact List.mem_append_right _ h)

/-- The way between two paths that never go up and start at the same place. -/
theorem relative_eq {cwd p start : Text} (hcwd : isAbsolute cwd = true)
    (hkind : isAbsolute start = isAbsolute p) (hp : up ∉ components p)
    (hstart : up ∉ components start) :
    relative cwd p start = ofNames [] (wayNames (names start) (names p)) := by
  have hnames : ∀ n ∈ wayNames (names start) (names p), n ≠ [] := by
    intro n hn
    rcases mem_wayNames hn with rfl | hn
    · decide
    · exact (isKept_of_mem_names hn).ne_nil
  rw [relative, components_absolute_of_no_up hcwd hstart, components_absolute_of_no_up hcwd hp,
    hkind, wayNames_append]
  split
  · rename_i hnil
    rw [hnil]
    rfl
  · rename_i hne
    obtain ⟨n, ns, hway⟩ := List.exists_cons_of_ne_nil hne
    rw [hway] at hnames ⊢
    exact (ofNames_nil_cons (hnames n List.mem_cons_self) ns).symm

/-! ### Texts that start alike -/

/-- Whether a path is beside a directory, or below something beside it, under a name that goes on
where the directory's own name ends. -/
def Beside (dir p : Text) : Prop :=
  ∃ front name more below, more ≠ [] ∧ names dir = front ++ [name] ∧
    names p = front ++ (name ++ more) :: below

/-- A normal form that never goes up is made of its slashes and its names. -/
theorem eq_ofNames_of_normal {p : Text} (hup : up ∉ components p) (hnormal : normalize p = p) :
    p = ofNames (anchor p) (names p) := by
  rw [← normalize_of_no_up hup, hnormal]

theorem pieces_anchor_append (p t : Text) :
    Text.pieces '/' (anchor p ++ t)
      = List.replicate (anchor p).length [] ++ Text.pieces '/' t := by
  rcases anchor_cases p with ⟨_, ha⟩ | ⟨_, ha | ha⟩ <;> rw [ha] <;> simp [Text.pieces]

/-- A path whose text starts like that of a directory is below it or beside it. -/
theorem isPrefix_or_beside {dir p : Text} (hup : up ∉ components dir)
    (hnormal : normalize dir = dir) (hne : names dir ≠ []) (h : dir <+: p) :
    names dir <+: names p ∨ Beside dir p := by
  obtain ⟨s, rfl⟩ := h
  have hkept : ∀ n ∈ names dir, IsKept n := fun n => isKept_of_mem_names
  obtain ⟨front, name, hnames⟩ := (List.eq_nil_or_concat (names dir)).resolve_left hne
  rw [List.concat_eq_append] at hnames
  obtain ⟨q, qs, hq⟩ := List.exists_cons_of_ne_nil (Text.pieces_ne_nil '/' s)
  have hdir : Text.pieces '/' dir
      = (List.replicate (anchor dir).length [] ++ front) ++ [name] := by
    conv_lhs => rw [eq_ofNames_of_normal hup hnormal, ofNames_eq_append hkept hne]
    rw [pieces_anchor_append, Text.pieces_joinWith hne fun n hn => (hkept n hn).no_slash, hnames,
      List.append_assoc]
  have hslashes : (List.replicate (anchor dir).length []).filter
      (fun n : Text => n ≠ [] && n ≠ here) = [] := by
    rw [List.filter_eq_nil_iff]
    intro n hn
    simp [List.eq_of_mem_replicate hn]
  have hfront : front.filter (fun n => n ≠ [] && n ≠ here) = front := by
    rw [List.filter_eq_self]
    intro n hn
    have hn := hkept n (by simp [hnames, hn])
    simp [hn.ne_nil, hn.ne_here]
  have hname : IsKept name := hkept name (by simp [hnames])
  -- The last name of the directory goes on with whatever the rest of the text starts with.
  have happend : names (dir ++ s)
      = front ++ ((name ++ q) :: qs).filter fun n => n ≠ [] && n ≠ here := by
    rw [names, Text.pieces_append hdir hq, List.filter_append, List.filter_append, hslashes, hfront,
      List.nil_append]
  by_cases hmore : q = []
  · left
    rw [happend, hnames, hmore, List.append_nil,
      List.filter_cons_of_pos (by simp [hname.ne_nil, hname.ne_here]), List.prefix_append_right_inj,
      List.cons_prefix_cons]
    exact ⟨rfl, List.nil_prefix⟩
  · have hlong : name ++ q ≠ here := by
      intro hhere
      have hlength := congrArg List.length hhere
      have hnamePos := List.length_pos_iff.mpr hname.ne_nil
      have hmorePos := List.length_pos_iff.mpr hmore
      rw [List.length_append, show here.length = 1 from rfl] at hlength
      omega
    rw [List.filter_cons_of_pos (by simp [hname.ne_nil, hlong])] at happend
    exact .inr ⟨front, name, q, _, hmore, hnames, happend⟩

/-- A path that has the names of a directory in front, the last of which may go on, starts like the
directory. -/
theorem isPrefix_of_names {dir p : Text} (hdir : up ∉ components dir)
    (hdirNormal : normalize dir = dir) (hp : up ∉ components p) (hpNormal : normalize p = p)
    (hanchor : anchor dir = anchor p) {front : List Text} {name more : Text} {below : List Text}
    (hnames : names dir = front ++ [name]) (hbelow : names p = front ++ (name ++ more) :: below) :
    dir <+: p := by
  rw [eq_ofNames_of_normal hdir hdirNormal, eq_ofNames_of_normal hp hpNormal,
    ofNames_eq_append (fun n => isKept_of_mem_names) (by simp [hnames]),
    ofNames_eq_append (fun n => isKept_of_mem_names) (by simp [hbelow]), hanchor,
    List.prefix_append_right_inj, hnames, hbelow]
  exact Text.joinWith_prefix front name more below

end Path

end StyleImport
