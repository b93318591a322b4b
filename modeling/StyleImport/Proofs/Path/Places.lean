/-
Places in a tree, and the names of a path as moves between them.

A place is the list of names that leads to it from the root.  A name of a path moves from place to
place: an empty name and a dot stay, `..` goes one up.  The normal form of an absolute path spells
the place that its names lead to, and nothing else about the path matters.

* `Path.reduce_true` — reducing the names of an absolute path is moving along them from the root;
* `Path.moveAll_reduce_false` — the normal form of a relative path moves as the path does;
* `Path.components_absolute` — the names of a path seen from the working directory;
* `Path.absolute_normalize` — bringing a path into normal form first changes nothing.
-/
import StyleImport.Proofs.Path.NormalForm

namespace StyleImport

namespace Text

theorem pieces_ne_nil (sep : Char) (t : Text) : pieces sep t ≠ [] := by
  cases t with
  | nil => simp [pieces]
  | cons c cs =>
    rw [pieces]
    split
    · simp
    · split <;> simp

theorem pieces_append_sep (sep : Char) (s t : Text) :
    pieces sep (s ++ sep :: t) = pieces sep s ++ pieces sep t := by
  induction s with
  | nil => simp [pieces]
  | cons c cs ih =>
    by_cases hc : c = sep
    · simp [pieces, hc, ih]
    · obtain ⟨p, ps, hp⟩ := List.exists_cons_of_ne_nil (pieces_ne_nil sep cs)
      simp [pieces, hc, ih, hp]

theorem joinWith_cons {sep : Char} (t : Text) {ts : List Text} (h : ts ≠ []) :
    joinWith [sep] (t :: ts) = t ++ sep :: joinWith [sep] ts := by
  obtain ⟨u, us, rfl⟩ := List.exists_cons_of_ne_nil h
  rw [joinWith_cons_cons, List.singleton_append]

theorem joinWith_concat {sep : Char} (t : Text) {ts : List Text} (h : ts ≠ []) :
    joinWith [sep] (ts ++ [t]) = joinWith [sep] ts ++ sep :: t := by
  induction ts with
  | nil => exact absurd rfl h
  | cons u us ih =>
    cases us with
    | nil => simp [joinWith_singleton, joinWith_cons_cons]
    | cons v vs =>
      rw [List.cons_append, joinWith_cons u (by simp), ih (by simp), joinWith_cons u (by simp)]
      simp

theorem cutLast_eq_none {sep : Char} {t : Text} (h : cutLast sep t = none) : sep ∉ t := by
  induction t with
  | nil => simp
  | cons c cs ih =>
    rw [cutLast] at h
    split at h
    · simp at h
    · rename_i hcs
      split at h
      · simp at h
      · rename_i hc
        simpa [Ne.symm hc] using ih hcs

theorem not_mem_of_cutLast {sep : Char} {t before after : Text}
    (h : cutLast sep t = some (before, after)) : sep ∉ after := by
  induction t generalizing before with
  | nil => simp [cutLast] at h
  | cons c cs ih =>
    rw [cutLast] at h
    split at h
    · rename_i hcs
      rw [Option.some.injEq, Prod.mk.injEq] at h
      exact ih (h.2 ▸ hcs)
    · rename_i hcs
      split at h
      · rw [Option.some.injEq, Prod.mk.injEq] at h
        exact h.2 ▸ cutLast_eq_none hcs
      · simp at h

theorem mem_of_mem_pieces {sep : Char} {t p : Text} {c : Char} (hp : p ∈ pieces sep t)
    (hc : c ∈ p) : c ∈ t := by
  induction t generalizing p with
  | nil => simp_all [pieces]
  | cons d ds ih =>
    rw [pieces] at hp
    split at hp
    · rcases List.mem_cons.mp hp with rfl | hp
      · simp at hc
      · exact List.mem_cons_of_mem _ (ih hp hc)
    · obtain ⟨q, qs, hq⟩ := List.exists_cons_of_ne_nil (pieces_ne_nil sep ds)
      rw [hq] at hp ih
      rcases List.mem_cons.mp hp with rfl | hp
      · rcases List.mem_cons.mp hc with rfl | hc
        · exact List.mem_cons_self
        · exact List.mem_cons_of_mem _ (ih List.mem_cons_self hc)
      · exact List.mem_cons_of_mem _ (ih (List.mem_cons_of_mem _ hp) hc)

end Text

namespace Path

/-! ### Moving -/

/-- The place that a name leads to from another place.  Both are given by the names that lead there
from the root. -/
def move (place : List Text) (name : Text) : List Text :=
  if name = [] ∨ name = here then place
  else if name = up then place.dropLast
  else place ++ [name]

/-- The place that names lead to, one after the other. -/
def moveAll (place : List Text) (names : List Text) : List Text := names.foldl move place

@[simp] theorem move_nil (place : List Text) : move place [] = place := by simp [move]

@[simp] theorem move_here (place : List Text) : move place here = place := by simp [move]

@[simp] theorem move_up (place : List Text) : move place up = place.dropLast := by
  simp [move, up, here]

theorem move_of_ne (place : List Text) {n : Text} (hnil : n ≠ []) (hhere : n ≠ here)
    (hup : n ≠ up) : move place n = place ++ [n] := by
  simp [move, hnil, hhere, hup]

@[simp] theorem moveAll_nil (place : List Text) : moveAll place [] = place := rfl

@[simp] theorem moveAll_cons (place : List Text) (n : Text) (ns : List Text) :
    moveAll place (n :: ns) = moveAll (move place n) ns := rfl

theorem moveAll_append (place ms ns : List Text) :
    moveAll place (ms ++ ns) = moveAll (moveAll place ms) ns := List.foldl_append

/-- Names proper lead straight down. -/
theorem moveAll_of_isName {names : List Text} (h : ∀ n ∈ names, IsName n) (place : List Text) :
    moveAll place names = place ++ names := by
  induction names generalizing place with
  | nil => simp
  | cons n ns ih =>
    have hn : IsName n := h n List.mem_cons_self
    rw [moveAll_cons, move_of_ne place hn.ne_nil hn.ne_here hn.ne_up,
      ih fun m hm => h m (List.mem_cons_of_mem _ hm)]
    simp

theorem moveAll_components (place : List Text) (p : Text) :
    moveAll place (components p) = moveAll place (Text.pieces '/' p) := by
  unfold components
  generalize Text.pieces '/' p = names
  induction names generalizing place with
  | nil => rfl
  | cons n ns ih =>
    by_cases hn : n = []
    · simpa [hn] using ih place
    · simpa [hn] using ih (move place n)

/-- From any place, names without a way up lead down. -/
theorem prefix_moveAll {names : List Text} (h : up ∉ names) (place : List Text) :
    place <+: moveAll place names := by
  induction names generalizing place with
  | nil => exact List.prefix_rfl
  | cons n ns ih =>
    rw [List.mem_cons, not_or] at h
    have hstep : place <+: move place n := by
      unfold move
      split
      · exact List.prefix_rfl
      · rw [if_neg (Ne.symm h.1)]
        exact List.prefix_append place [n]
    exact hstep.trans (ih h.2 _)

/-- From a place whose names are proper, names without slashes lead to such a place. -/
theorem isName_of_mem_moveAll {place names : List Text} (hplace : ∀ n ∈ place, IsName n)
    (hnames : ∀ n ∈ names, '/' ∉ n) : ∀ n ∈ moveAll place names, IsName n := by
  induction names generalizing place with
  | nil => exact hplace
  | cons m ms ih =>
    refine ih ?_ fun n hn => hnames n (List.mem_cons_of_mem _ hn)
    intro n hn
    unfold move at hn
    split at hn
    · exact hplace n hn
    · rename_i hproper
      rw [not_or] at hproper
      split at hn
      · exact hplace n (List.dropLast_subset _ hn)
      · rename_i hup
        rcases List.mem_append.mp hn with hn | hn
        · exact hplace n hn
        · rw [List.mem_singleton] at hn
          subst hn
          exact ⟨hproper.1, hproper.2, hup, hnames n List.mem_cons_self⟩

/-! ### Reducing is moving -/

/-- Pushing a name on the stack of an absolute path is a move. -/
theorem reverse_pushName_true {stack : List Text} (h : Stacked true stack) (name : Text) :
    (pushName true stack name).reverse = move stack.reverse name := by
  obtain ⟨k, rest, rfl, hrest, hk⟩ := h
  obtain rfl : k = 0 := hk rfl
  rw [List.replicate_zero, List.append_nil]
  by_cases hdot : name = [] ∨ name = here
  · simp [pushName, move, hdot]
  · rw [not_or] at hdot
    by_cases hup : name = up
    · subst hup
      rw [move_up]
      cases rest with
      | nil => decide
      | cons n ns =>
        rw [pushName_up_of_isName true (hrest n List.mem_cons_self)]
        simp
    · simp [pushName, move, hdot, hup]

/-- Reducing the names of an absolute path is moving along them from the root. -/
theorem reduce_true {names : List Text} (hnames : ∀ n ∈ names, '/' ∉ n) :
    reduce true names = moveAll [] names := by
  have hfold : ∀ (ns stack : List Text), (∀ n ∈ ns, '/' ∉ n) → Stacked true stack →
      (ns.foldl (pushName true) stack).reverse = moveAll stack.reverse ns := by
    intro ns
    induction ns with
    | nil => exact fun _ _ _ => rfl
    | cons n ns ih =>
      intro stack hns h
      rw [List.foldl_cons, moveAll_cons, ← reverse_pushName_true h]
      exact ih _ (fun m hm => hns m (List.mem_cons_of_mem _ hm))
        (stacked_pushName h (hns n List.mem_cons_self))
  exact hfold names [] hnames ⟨0, [], rfl, by simp, fun _ => rfl⟩

/-- The stack of a relative path leads where its names lead, whatever is pushed. -/
theorem moveAll_reverse_pushName {stack : List Text} (h : Stacked false stack) (place : List Text)
    (name : Text) :
    moveAll place (pushName false stack name).reverse
      = move (moveAll place stack.reverse) name := by
  by_cases hdot : name = [] ∨ name = here
  · rcases hdot with rfl | rfl <;> simp [pushName]
  · rw [not_or] at hdot
    by_cases hup : name = up
    · subst hup
      -- A way up either takes away the name before it or waits for the place to start from.
      obtain ⟨k, rest, rfl, hrest, -⟩ := h
      cases rest with
      | nil =>
        rw [List.nil_append, pushName_up_of_ups, List.replicate_succ, List.reverse_cons,
          moveAll_append]
        rfl
      | cons n ns =>
        have hn : IsName n := hrest n List.mem_cons_self
        rw [List.cons_append, pushName_up_of_isName false hn, List.reverse_cons, moveAll_append,
          moveAll_cons, moveAll_nil, move_of_ne _ hn.ne_nil hn.ne_here hn.ne_up, move_up,
          List.dropLast_concat]
    · have hpush : pushName false stack name = name :: stack := by
        simp [pushName, hdot, hup]
      rw [hpush, List.reverse_cons, moveAll_append]
      rfl

/-- The normal form of a relative path leads where the path leads. -/
theorem moveAll_reduce_false (place : List Text) {names : List Text}
    (hnames : ∀ n ∈ names, '/' ∉ n) : moveAll place (reduce false names) = moveAll place names := by
  have hfold : ∀ (ns stack : List Text), (∀ n ∈ ns, '/' ∉ n) → Stacked false stack →
      moveAll place (ns.foldl (pushName false) stack).reverse
        = moveAll (moveAll place stack.reverse) ns := by
    intro ns
    induction ns with
    | nil => exact fun _ _ _ => rfl
    | cons n ns ih =>
      intro stack hns h
      rw [List.foldl_cons, moveAll_cons, ← moveAll_reverse_pushName h]
      exact ih _ (fun m hm => hns m (List.mem_cons_of_mem _ hm))
        (stacked_pushName h (hns n List.mem_cons_self))
  exact hfold names [] hnames ⟨0, [], rfl, by simp, fun _ => rfl⟩

theorem mem_of_mem_reduce {absolute : Bool} {names : List Text} {n : Text}
    (h : n ∈ reduce absolute names) : n ∈ names := by
  have hfold : ∀ (ns stack : List Text), n ∈ ns.foldl (pushName absolute) stack →
      n ∈ ns ∨ n ∈ stack := by
    intro ns
    induction ns with
    | nil => exact fun stack h => .inr h
    | cons m ms ih =>
      intro stack h
      rcases ih _ h with h | h
      · exact .inl (List.mem_cons_of_mem _ h)
      · unfold pushName at h
        split at h
        · exact .inr h
        · split at h
          · rcases List.mem_cons.mp h with rfl | h
            · exact .inl List.mem_cons_self
            · exact .inr h
          · exact .inr (List.mem_of_mem_tail h)
  rcases hfold names [] (List.mem_reverse.mp h) with h | h
  · exact h
  · simp at h

/-! ### Normal forms and the places that they spell -/

/-- Empty names are of no account. -/
theorem reduce_components (absolute : Bool) (p : Text) :
    reduce absolute (components p) = reduce absolute (Text.pieces '/' p) := by
  unfold reduce components
  congr 1
  generalize Text.pieces '/' p = names
  have hfold : ∀ stack, (names.filter (· ≠ [])).foldl (pushName absolute) stack
      = names.foldl (pushName absolute) stack := by
    induction names with
    | nil => exact fun stack => rfl
    | cons n ns ih =>
      intro stack
      by_cases hn : n = []
      · simpa [hn, pushName] using ih stack
      · simpa [hn] using ih (pushName absolute stack n)
  exact hfold []

theorem components_of_no_slash {n : Text} (hslash : '/' ∉ n) (hne : n ≠ []) :
    components n = [n] := by
  rw [components, Text.pieces_of_not_mem hslash, List.filter_cons_of_pos (by simpa using hne),
    List.filter_nil]

theorem components_append_slash (p q : Text) :
    components (p ++ '/' :: q) = components p ++ components q := by
  simp [components, Text.pieces_append_sep]

theorem components_slash_cons (p : Text) : components ('/' :: p) = components p := by
  simp [components, Text.pieces]

theorem isAbsolute_append_of_ne_nil {p : Text} (h : p ≠ []) (q : Text) :
    isAbsolute (p ++ q) = isAbsolute p := by
  cases p with
  | nil => exact absurd rfl h
  | cons c cs => by_cases hc : c = '/' <;> simp [isAbsolute, hc]

theorem isAbsolute_append_of_isAbsolute {p : Text} (h : isAbsolute p = true) (q : Text) :
    isAbsolute (p ++ q) = true := by
  obtain ⟨cs, rfl⟩ := eq_cons_of_isAbsolute h
  rfl

theorem isAbsolute_of_no_slash {p : Text} (h : '/' ∉ p) : isAbsolute p = false := by
  cases p with
  | nil => rfl
  | cons c cs =>
    rw [List.mem_cons, not_or] at h
    simp [isAbsolute, Ne.symm h.1]

/-- Behind a character that is no slash nothing counts as a slash in front. -/
theorem anchor_append_of_not_slash {p : Text} (h : ∃ c ∈ p, c ≠ '/') (t : Text) :
    anchor (p ++ t) = anchor p := by
  obtain ⟨c, hc, hslash⟩ := h
  rcases p with _ | ⟨a, _ | ⟨b, _ | ⟨d, ds⟩⟩⟩
  · simp at hc
  · have ha : a ≠ '/' := List.mem_singleton.mp hc ▸ hslash
    simp [anchor, ha]
  · by_cases ha : a = '/'
    · have hb : b ≠ '/' := by
        rintro rfl
        simp [ha, hslash] at hc
      simp [anchor, ha, hb]
    · simp [anchor, ha]
  · by_cases ha : a = '/' <;> by_cases hb : b = '/' <;> by_cases hd : d = '/' <;>
      simp [anchor, ha, hb, hd]

/-- Names put together are found again, whatever slashes are in front. -/
theorem components_anchor_append {names : List Text} (hne : ∀ n ∈ names, n ≠ [])
    (hslash : ∀ n ∈ names, '/' ∉ n) (p : Text) :
    components (anchor p ++ Text.joinWith ['/'] names) = names := by
  have hbare : components (Text.joinWith ['/'] names) = names := by
    cases hnames : names with
    | nil => decide
    | cons n ns =>
      rw [← hnames, components, Text.pieces_joinWith (by simp [hnames]) hslash,
        List.filter_eq_self]
      simpa using hne
  rcases anchor_cases p with ⟨_, ha⟩ | ⟨_, ha | ha⟩ <;> rw [ha]
  · exact hbare
  · exact (components_slash_cons _).trans hbare
  · exact (components_slash_cons _).trans ((components_slash_cons _).trans hbare)

theorem no_slash_of_mem_pieces (p : Text) : ∀ n ∈ Text.pieces '/' p, '/' ∉ n :=
  fun _ hn => Text.not_mem_of_mem_pieces hn

theorem no_slash_of_mem_components (p : Text) : ∀ n ∈ components p, '/' ∉ n :=
  fun n hn => no_slash_of_mem_pieces p n (List.mem_filter.mp hn).1

theorem mem_of_mem_components {p n : Text} {c : Char} (hn : n ∈ components p) (hc : c ∈ n) :
    c ∈ p :=
  Text.mem_of_mem_pieces (List.mem_filter.mp hn).1 hc

/-- The normal form of an absolute path: its slashes, and the place that its names lead to. -/
theorem normalize_of_isAbsolute {p : Text} (h : isAbsolute p = true) :
    normalize p = anchor p ++ Text.joinWith ['/'] (moveAll [] (components p)) := by
  have hne : anchor p ≠ [] := by
    rcases anchor_cases p with ⟨hp, _⟩ | ⟨_, ha | ha⟩
    · simp [h] at hp
    · simp [ha]
    · simp [ha]
  rw [normalize, h, reduce_true (no_slash_of_mem_pieces p), moveAll_components]
  exact if_neg (by simp [hne])

theorem components_normalize {p : Text} (h : isAbsolute p = true) :
    components (normalize p) = moveAll [] (components p) := by
  have hnames : ∀ n ∈ moveAll [] (components p), IsName n :=
    isName_of_mem_moveAll (by simp) (no_slash_of_mem_components p)
  rw [normalize_of_isAbsolute h]
  exact components_anchor_append (fun n hn => (hnames n hn).ne_nil)
    (fun n hn => (hnames n hn).no_slash) p

/-- The normal form of a relative path leads where the path leads. -/
theorem moveAll_components_normalize {p : Text} (h : isAbsolute p = false) (place : List Text) :
    moveAll place (components (normalize p)) = moveAll place (components p) := by
  have hred := reduced_reduce false (no_slash_of_mem_pieces p)
  have hanchor : anchor p = [] := by
    rcases anchor_cases p with ⟨_, ha⟩ | ⟨hp, _⟩
    · exact ha
    · simp [h] at hp
  rw [moveAll_components place p, ← moveAll_reduce_false place (no_slash_of_mem_pieces p),
    normalize, h]
  split
  · -- The dot stands for no names at all.
    rename_i hnil
    rw [hanchor, List.nil_append] at hnil
    have hnone : components (Text.joinWith ['/'] (reduce false (Text.pieces '/' p))) = [] := by
      rw [hnil]
      decide
    have hback := components_anchor_append (fun n hn => hred.ne_nil hn)
      (fun n hn => hred.no_slash hn) p
    rw [hanchor, List.nil_append, hnone] at hback
    rw [← hback]
    have hdot : components here = [here] := by decide
    rw [hdot]
    simp
  · rw [components_anchor_append (fun n hn => hred.ne_nil hn) fun n hn => hred.no_slash hn]

/-- Names put together without slashes in front; no names would be the dot. -/
theorem ofNames_nil_cons {n : Text} (hn : n ≠ []) (ns : List Text) :
    ofNames [] (n :: ns) = Text.joinWith ['/'] (n :: ns) := by
  unfold ofNames
  split
  · rename_i hnil
    cases ns <;> simp [Text.joinWith, List.intercalate, hn] at hnil
  · rfl

/-- A normal form of a relative path is a dot or has proper names and ways up only. -/
theorem pieces_normalize {p : Text} (h : isAbsolute p = false) :
    normalize p = here ∨ ∀ n ∈ Text.pieces '/' (normalize p), n ≠ [] ∧ n ≠ here := by
  have hred := reduced_reduce false (no_slash_of_mem_pieces p)
  have hanchor : anchor p = [] := by
    rcases anchor_cases p with ⟨_, ha⟩ | ⟨hp, _⟩
    · exact ha
    · simp [h] at hp
  rw [normalize_eq_ofNames, h, hanchor]
  set names := reduce false (Text.pieces '/' p) with hnames
  rcases hlist : names with _ | ⟨m, ms⟩
  · exact .inl rfl
  · right
    have hm : m ≠ [] := hred.ne_nil (by simp [hlist])
    rw [ofNames_nil_cons hm, ← hlist,
      Text.pieces_joinWith (by simp [hlist]) fun n hn => hred.no_slash hn]
    obtain ⟨k, rest, hsplit, hrest, -⟩ := hred
    intro n hn
    rw [hsplit] at hn
    rcases List.mem_append.mp hn with hn | hn
    · rw [List.eq_of_mem_replicate hn]
      decide
    · exact ⟨(hrest n hn).ne_nil, (hrest n hn).ne_here⟩

theorem mem_joinWith {sep : Char} {names : List Text} {c : Char}
    (h : c ∈ Text.joinWith [sep] names) : c = sep ∨ ∃ n ∈ names, c ∈ n := by
  induction names with
  | nil => simp [Text.joinWith, List.intercalate] at h
  | cons n ns ih =>
    cases ns with
    | nil => exact .inr ⟨n, List.mem_cons_self, by rwa [Text.joinWith_singleton] at h⟩
    | cons m ms =>
      rw [Text.joinWith_cons n (by simp), List.mem_append, List.mem_cons] at h
      rcases h with h | rfl | h
      · exact .inr ⟨n, List.mem_cons_self, h⟩
      · exact .inl rfl
      · rcases ih h with hc | ⟨k, hk, hc⟩
        · exact .inl hc
        · exact .inr ⟨k, List.mem_cons_of_mem _ hk, hc⟩

/-- A normal form has no characters of its own but slashes and dots. -/
theorem mem_normalize {p : Text} {c : Char} (h : c ∈ normalize p) :
    c = '/' ∨ c = '.' ∨ c ∈ p := by
  rw [normalize_eq_ofNames, ofNames] at h
  split at h
  · exact .inr (.inl (by simpa [here] using h))
  · rcases List.mem_append.mp h with h | h
    · left
      rcases anchor_cases p with ⟨_, ha⟩ | ⟨_, ha | ha⟩
      · simp [ha] at h
      · simpa [ha] using h
      · simpa [ha] using h
    · rcases mem_joinWith h with hc | ⟨n, hn, hc⟩
      · exact .inl hc
      · exact .inr (.inr (Text.mem_of_mem_pieces (mem_of_mem_reduce hn) hc))

/-! ### Seen from the working directory -/

theorem join_cases (cwd : Text) {p : Text} (hp : isAbsolute p = false) :
    ((cwd = [] ∨ ∃ front, cwd = front ++ ['/']) ∧ join cwd p = cwd ++ p) ∨
      join cwd p = cwd ++ '/' :: p := by
  unfold join
  rw [if_neg (by simp [hp])]
  split
  · rename_i hcwd
    rw [Bool.or_eq_true, decide_eq_true_eq, decide_eq_true_eq, List.getLast?_eq_some_iff] at hcwd
    exact .inl ⟨hcwd, rfl⟩
  · exact .inr rfl

theorem components_join {cwd p : Text} (hp : isAbsolute p = false) :
    components (join cwd p) = components cwd ++ components p := by
  rcases join_cases cwd hp with ⟨rfl | ⟨front, rfl⟩, hjoin⟩ | hjoin
  · rw [hjoin]
    simp [components, Text.pieces]
  · -- The last slash is the one between the two.
    have hend : components (front ++ ['/']) = components front := by
      rw [components_append_slash]
      simp [components, Text.pieces]
    rw [hjoin, hend, List.append_assoc, List.singleton_append, components_append_slash]
  · rw [hjoin, components_append_slash]

theorem anchor_join {cwd p : Text} (hcwd : isAbsolute cwd = true) (hp : isAbsolute p = false) :
    anchor (join cwd p) = anchor cwd := by
  have hhead : p.head? ≠ some '/' := by
    cases p with
    | nil => simp
    | cons c cs =>
      rintro hc
      obtain rfl : c = '/' := by simpa using hc
      simp [isAbsolute] at hp
  obtain ⟨cs, rfl⟩ := eq_cons_of_isAbsolute hcwd
  -- Only the first three characters count, and `p` does not start with a slash.
  rcases cs with _ | ⟨c, _ | ⟨d, ds⟩⟩
  · have hjoin : join ['/'] p = ['/'] ++ p := by simp [join, hp]
    rw [hjoin]
    exact anchor_append hhead ['/']
  · by_cases hc : c = '/'
    · subst hc
      have hjoin : join ['/', '/'] p = ['/', '/'] ++ p := by simp [join, hp]
      rw [hjoin]
      exact anchor_append hhead ['/', '/']
    · simp [join, hp, anchor, hc]
  · rcases join_cases ('/' :: c :: d :: ds) hp with ⟨_, hjoin⟩ | hjoin
    · rw [hjoin]
      by_cases hc : c = '/' <;> by_cases hd : d = '/' <;> simp [anchor, hc, hd]
    · rw [hjoin]
      by_cases hc : c = '/' <;> by_cases hd : d = '/' <;> simp [anchor, hc, hd]

/-- An absolute path is seen alike from anywhere. -/
theorem absolute_of_isAbsolute (cwd : Text) {p : Text} (h : isAbsolute p = true) :
    absolute cwd p = normalize p := by
  rw [absolute, if_pos h]

theorem absolute_of_relative {cwd p : Text} (hcwd : isAbsolute cwd = true)
    (h : isAbsolute p = false) :
    absolute cwd p
      = anchor cwd ++ Text.joinWith ['/'] (moveAll [] (components cwd ++ components p)) := by
  rw [absolute, if_neg (by simp [h]), normalize_of_isAbsolute (isAbsolute_join hcwd p),
    anchor_join hcwd h, components_join h]

/-- The names of a path seen from the working directory. -/
theorem components_absolute {cwd : Text} (hcwd : isAbsolute cwd = true) (p : Text) :
    components (absolute cwd p)
      = moveAll (if isAbsolute p then [] else moveAll [] (components cwd)) (components p) := by
  cases hp : isAbsolute p with
  | true => rw [absolute_of_isAbsolute cwd hp, components_normalize hp, if_pos rfl]
  | false =>
    rw [absolute, if_neg (by simp [hp]), components_normalize (isAbsolute_join hcwd p),
      components_join hp, moveAll_append, if_neg (by simp)]

theorem isName_of_mem_components_absolute {cwd : Text} (hcwd : isAbsolute cwd = true) (p : Text) :
    ∀ n ∈ components (absolute cwd p), IsName n := by
  rw [components_absolute hcwd]
  refine isName_of_mem_moveAll ?_ (no_slash_of_mem_components p)
  split
  · simp
  · exact isName_of_mem_moveAll (by simp) (no_slash_of_mem_components cwd)

/-- Bringing a path into normal form first changes nothing. -/
theorem absolute_normalize {cwd : Text} (hcwd : isAbsolute cwd = true) (p : Text) :
    absolute cwd (normalize p) = absolute cwd p := by
  cases hp : isAbsolute p with
  | true =>
    rw [absolute_of_isAbsolute cwd hp,
      absolute_of_isAbsolute cwd ((isAbsolute_normalize p).trans hp), normalize_normalize]
  | false =>
    rw [absolute_of_relative hcwd hp,
      absolute_of_relative hcwd ((isAbsolute_normalize p).trans hp), moveAll_append,
      moveAll_append, moveAll_components_normalize hp]

end Path

end StyleImport
