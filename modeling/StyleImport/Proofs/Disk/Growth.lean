/-
File trees that grow.

A disk grows when something is put where nothing was, or a file where a file was: whatever stood
there stays what it is, and links are never made.  So a walk that only passes what was there already
goes the same way in the grown disk.

* `Node.at?_insert_of_apart` — the rest of the tree is left alone;
* `Disk.Grown.put` — a disk grows by what is put at a free place;
* `Disk.Steps.grown` — a walk goes the same way in a grown disk.
-/
import Mathlib.Logic.Relation
import StyleImport.Proofs.Disk.Walk

namespace StyleImport

namespace Node

/-! ### Trees with something inserted -/

theorem at?_cons (n : Node) (name : Text) (names : List Text) :
    n.at? (name :: names) = (Entries.get? name n.entries).bind (·.at? names) := by
  cases n with
  | directory es =>
    rw [at?, entries]
    split
    · rename_i child hchild
      rw [hchild, Option.bind_some]
    · rename_i hnone
      rw [hnone, Option.bind_none]
  | file | link => rfl

/-- Only what is on the way to where something is inserted, or behind it, changes. -/
theorem at?_insert_of_apart (new n : Node) {names q : List Text} (hnames : ¬ names <+: q)
    (hq : ¬ q <+: names) : (insert new n names).at? q = n.at? q := by
  induction names generalizing n q with
  | nil => exact absurd List.nil_prefix hnames
  | cons name names ih =>
    cases q with
    | nil => exact absurd List.nil_prefix hq
    | cons m q =>
      rw [insert, at?_cons, at?_cons n, entries]
      by_cases hm : m = name
      · subst hm
        rw [List.cons_prefix_cons, not_and] at hnames hq
        rw [Entries.get?_put_self, Option.bind_some, ih _ (hnames rfl) (hq rfl)]
        cases Entries.get? m n.entries with
        | some child => rfl
        | none =>
          -- An empty directory has as little behind the name as no directory.
          cases q with
          | nil => exact absurd List.nil_prefix (hq rfl)
          | cons k ks => rfl
      · rw [Entries.get?_put_of_ne hm]

/-- What stands behind something inserted. -/
theorem at?_insert_append (new n : Node) (names more : List Text) :
    (insert new n names).at? (names ++ more) = new.at? more := by
  rw [at?_append, at?_insert_self, Option.bind_some]

/-- On the way to something inserted there are directories. -/
theorem at?_insert_before (new n : Node) (front : List Text) {more : List Text}
    (hmore : more ≠ []) : ∃ es, (insert new n (front ++ more)).at? front = some (.directory es) :=
  isDirectory_of_at?_append hmore (at?_insert_self new n (front ++ more))

/-- Two nodes of one kind; links have one target. -/
inductive SameKind : Node → Node → Prop
  | file (bytes bytes' : List UInt8) (modified modified' : Int) :
    SameKind (.file bytes modified) (.file bytes' modified')
  | directory (es es' : List (Text × Node)) : SameKind (.directory es) (.directory es')
  | link (target : Text) : SameKind (.link target) (.link target)

theorem SameKind.refl (n : Node) : n.SameKind n := by
  cases n <;> constructor

theorem SameKind.trans {n m k : Node} (h : n.SameKind m) (h' : m.SameKind k) : n.SameKind k := by
  cases h <;> cases h' <;> constructor

end Node

namespace Disk

/-! ### Growth -/

/-- `d'` is `d` with more in it: what stood in `d` is still of its kind, and no link is new. -/
structure Grown (d d' : Disk) : Prop where
  cwd : d'.cwd = d.cwd
  stays : ∀ {q : List Text} {n : Node}, d.root.at? q = some n →
    ∃ n', d'.root.at? q = some n' ∧ n.SameKind n'
  links : ∀ {q : List Text} {target : Text}, d'.root.at? q = some (.link target) →
    d.root.at? q = some (.link target)

theorem root_put (d : Disk) {names : List Text} (hne : names ≠ []) (n : Node) :
    (d.put names n).root = Node.insert n d.root names := by
  obtain ⟨name, names, rfl⟩ := List.exists_cons_of_ne_nil hne
  rfl

/-- What can be put somewhere without taking anything away. -/
structure Fits (d : Disk) (names : List Text) (n : Node) : Prop where
  ne_nil : names ≠ []
  parent : ∃ es, d.root.at? names.dropLast = some (.directory es)
  free : ∀ old, d.root.at? names = some old → old.isFile = true ∧ n.isFile = true
  no_link : ∀ q target, n.at? q ≠ some (.link target)

/-- A place lies behind another one, on the way to it or apart from it. -/
theorem prefix_cases (names q : List Text) : (∃ more, names ++ more = q) ∨
    (∃ more, more ≠ [] ∧ q ++ more = names) ∨ (¬ names <+: q ∧ ¬ q <+: names) := by
  by_cases hbehind : names <+: q
  · exact .inl hbehind
  · by_cases hbefore : q <+: names
    · obtain ⟨more, hmore⟩ := hbefore
      refine .inr (.inl ⟨more, ?_, hmore⟩)
      rintro rfl
      exact hbehind ⟨[], by simpa using hmore.symm⟩
    · exact .inr (.inr ⟨hbehind, hbefore⟩)

namespace Grown

variable {d d' d'' : Disk}

theorem refl (d : Disk) : Grown d d where
  cwd := rfl
  stays {_ n} h := ⟨n, h, Node.SameKind.refl n⟩
  links h := h

theorem trans (h : Grown d d') (h' : Grown d' d'') : Grown d d'' where
  cwd := h'.cwd.trans h.cwd
  stays {q n} hn := by
    obtain ⟨n', hn', hkind⟩ := h.stays hn
    obtain ⟨n'', hn'', hkind'⟩ := h'.stays hn'
    exact ⟨n'', hn'', hkind.trans hkind'⟩
  links hlink := h.links (h'.links hlink)

theorem directory (h : Grown d d') {q : List Text} {es : List (Text × Node)}
    (hes : d.root.at? q = some (.directory es)) : ∃ es', d'.root.at? q = some (.directory es') := by
  obtain ⟨n', hn', hkind⟩ := h.stays hes
  cases hkind
  exact ⟨_, hn'⟩

theorem link (h : Grown d d') {q : List Text} {target : Text}
    (hlink : d.root.at? q = some (.link target)) : d'.root.at? q = some (.link target) := by
  obtain ⟨n', hn', hkind⟩ := h.stays hlink
  cases hkind
  exact hn'

/-- A disk grows by what is put where it fits. -/
theorem put {names : List Text} {n : Node} (h : d.Fits names n) : Grown d (d.put names n) := by
  have hroot := d.root_put h.ne_nil n
  refine ⟨rfl, ?_, ?_⟩
  · intro q old hold
    rw [hroot]
    rcases prefix_cases names q with ⟨more, rfl⟩ | ⟨more, hmore, rfl⟩ | ⟨hbehind, hbefore⟩
    · rw [Node.at?_insert_append]
      by_cases hmore : more = []
      · subst hmore
        rw [List.append_nil] at hold
        obtain ⟨hfile, hfile'⟩ := h.free old hold
        refine ⟨n, n.at?_nil, ?_⟩
        cases old <;> cases n <;> simp [Node.isFile] at hfile hfile'
        constructor
      · -- Nothing was behind the place before.
        obtain ⟨es, hes⟩ := Node.isDirectory_of_at?_append hmore hold
        exact absurd (h.free _ hes).1 (by simp [Node.isFile])
    · obtain ⟨es, hes⟩ := Node.at?_insert_before n d.root q hmore
      refine ⟨_, hes, ?_⟩
      obtain ⟨es', hparent⟩ := h.parent
      rw [List.dropLast_append_of_ne_nil hmore] at hparent
      by_cases hdrop : more.dropLast = []
      · rw [hdrop, List.append_nil, hold] at hparent
        rw [Option.some.inj hparent]
        constructor
      · obtain ⟨es'', hes''⟩ := Node.isDirectory_of_at?_append hdrop hparent
        rw [hold] at hes''
        rw [Option.some.inj hes'']
        constructor
    · rw [Node.at?_insert_of_apart _ _ hbehind hbefore]
      exact ⟨old, hold, Node.SameKind.refl old⟩
  · intro q target hlink
    rw [hroot] at hlink
    rcases prefix_cases names q with ⟨more, rfl⟩ | ⟨more, hmore, rfl⟩ | ⟨hbehind, hbefore⟩
    · rw [Node.at?_insert_append] at hlink
      exact absurd hlink (h.no_link more target)
    · obtain ⟨es, hes⟩ := Node.at?_insert_before n d.root q hmore
      rw [hes] at hlink
      cases hlink
    · rwa [Node.at?_insert_of_apart _ _ hbehind hbefore] at hlink

end Grown

/-! ### Walks through what was there -/

/-- Where a walk is: how many links it may still follow, where it stands, and what is ahead. -/
structure Stage where
  /-- The number of links left to follow. -/
  links : Nat
  /-- The names of the place reached. -/
  at_ : List Text
  /-- The names still to go. -/
  names : List Text

/-- One step of a walk that follows links. -/
inductive Step (d : Disk) : Stage → Stage → Prop
  | here {links : Nat} {at_ names : List Text} {es : List (Text × Node)} :
    d.root.at? at_ = some (.directory es) →
    Step d ⟨links, at_, Path.here :: names⟩ ⟨links, at_, names⟩
  | up {links : Nat} {at_ names : List Text} {es : List (Text × Node)} :
    d.root.at? at_ = some (.directory es) →
    Step d ⟨links, at_, Path.up :: names⟩ ⟨links, at_.dropLast, names⟩
  | into {links : Nat} {at_ names : List Text} {name : Text} {n : Node} :
    name ≠ Path.here → name ≠ Path.up → (Utf8.encode name).length ≤ longestName →
    d.root.at? (at_ ++ [name]) = some n → (∀ target, n ≠ .link target) →
    Step d ⟨links, at_, name :: names⟩ ⟨links, at_ ++ [name], names⟩
  | link {links : Nat} {at_ names : List Text} {name target : Text} :
    name ≠ Path.here → name ≠ Path.up → (Utf8.encode name).length ≤ longestName →
    d.root.at? (at_ ++ [name]) = some (.link target) → target ≠ [] →
    Step d ⟨links + 1, at_, name :: names⟩
      ⟨links, if Path.isAbsolute target then [] else at_, walkNames target ++ names⟩

/-- The steps of a walk. -/
def Steps (d : Disk) : Stage → Stage → Prop := Relation.ReflTransGen (Step d)

theorem Step.walk_eq {d : Disk} {a b : Stage} (h : Step d a b) (p : Text) :
    walk d p true a.links a.at_ a.names = walk d p true b.links b.at_ b.names := by
  cases h with
  | here hes => exact walk_here hes
  | up hes => exact walk_up hes
  | @into links at_ names name n hhere hup hlong hn hlink =>
    obtain ⟨es, hes⟩ := Node.isDirectory_of_at?_append (by simp) hn
    rw [Node.at?_concat, hes] at hn
    dsimp only at hn ⊢
    rw [walk, hes]
    simp only [hhere, hup, if_false, Nat.not_lt.mpr hlong, hn]
  | @link links at_ names name target hhere hup hlong hn htarget =>
    obtain ⟨es, hes⟩ := Node.isDirectory_of_at?_append (by simp) hn
    rw [Node.at?_concat, hes] at hn
    dsimp only at hn ⊢
    rw [walk, hes]
    simp only [hhere, hup, if_false, Nat.not_lt.mpr hlong, hn, htarget, Bool.not_true,
      Bool.and_false, Bool.false_eq_true]

theorem Steps.walk_eq {d : Disk} {a b : Stage} (h : Steps d a b) (p : Text) :
    walk d p true a.links a.at_ a.names = walk d p true b.links b.at_ b.names := by
  induction h with
  | refl => rfl
  | tail _ hstep ih => exact ih.trans (hstep.walk_eq p)

/-- A step is the same in a grown disk. -/
theorem Step.grown {d d' : Disk} {a b : Stage} (h : Step d a b) (hd : Grown d d') :
    Step d' a b := by
  cases h with
  | here hes =>
    obtain ⟨es', hes'⟩ := hd.directory hes
    exact .here hes'
  | up hes =>
    obtain ⟨es', hes'⟩ := hd.directory hes
    exact .up hes'
  | into hhere hup hlong hn hlink =>
    obtain ⟨n', hn', hkind⟩ := hd.stays hn
    refine .into hhere hup hlong hn' fun target htarget => ?_
    subst htarget
    cases hkind
    exact hlink target rfl
  | link hhere hup hlong hn htarget => exact .link hhere hup hlong (hd.link hn) htarget

theorem Steps.grown {d d' : Disk} {a b : Stage} (h : Steps d a b) (hd : Grown d d') :
    Steps d' a b := by
  induction h with
  | refl => exact .refl
  | tail _ hstep ih => exact ih.tail (hstep.grown hd)

end Disk

end StyleImport
