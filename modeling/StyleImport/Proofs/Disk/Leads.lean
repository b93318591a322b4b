/-
Where paths lead while a disk grows.

A path leads to a place where something is, or to one where something may be made, or it is blocked
for good.  Whatever else is put on the disk, what can be read at the path depends on its place alone;
and making the directory of a file changes nothing at any place but the free ones on the way.

* `Disk.Leads`, `Disk.exists_leads`, `Disk.leads_of_isName` — what a path comes to;
* `Disk.Leads.bytes?_of_file` — what is read at a path;
* `Disk.Leads.tryDirectories`, `Disk.Leads.writeText` — what making a directory and writing a file
  change.
-/
import Mathlib.Data.List.Induction
import StyleImport.Proofs.Disk.Glob
import StyleImport.Proofs.Disk.Ends
import StyleImport.Proofs.Outcome

namespace StyleImport

/-- The bytes of a file. -/
def Node.bytes? : Node → Option (List UInt8)
  | .file bytes _ => some bytes
  | _ => none

namespace Disk

variable {d d' : Disk} {p : Text}

/-! ### What stands at a place, and what is read at a path -/

/-- The bytes that stand at a place, if anything stands there. -/
def standing (d : Disk) (place : List Text) : Option (Option (List UInt8)) :=
  (d.root.at? place).map Node.bytes?

/-- When something is put where it fits, and nothing is behind it, that changes its place only. -/
theorem standing_put {names q : List Text} {n : Node} (hfits : d.Fits names n)
    (hleaf : ∀ more, more ≠ [] → n.at? more = none) (hq : q ≠ names) :
    (d.put names n).standing q = d.standing q := by
  unfold standing
  rw [root_put d hfits.ne_nil]
  rcases prefix_cases names q with ⟨more, rfl⟩ | ⟨more, hmore, rfl⟩ | ⟨hbehind, hbefore⟩
  · -- Nothing was behind the place before, as no directory was there.
    have hmore : more ≠ [] := by simpa using hq
    have hnone : d.root.at? (names ++ more) = none := by
      by_contra hsome
      obtain ⟨m, hm⟩ := Option.ne_none_iff_exists'.mp hsome
      obtain ⟨es, hes⟩ := Node.isDirectory_of_at?_append hmore hm
      exact absurd (hfits.free _ hes).1 (by simp [Node.isFile])
    rw [Node.at?_insert_append, hleaf more hmore, hnone]
  · -- On the way there are directories, before and after.
    obtain ⟨es, hes⟩ := hfits.parent
    rw [List.dropLast_append_of_ne_nil hmore] at hes
    obtain ⟨es', hes'⟩ : ∃ es', d.root.at? q = some (.directory es') := by
      by_cases hdrop : more.dropLast = []
      · exact ⟨es, by simpa [hdrop] using hes⟩
      · exact Node.isDirectory_of_at?_append hdrop hes
    obtain ⟨es'', hes''⟩ := Node.at?_insert_before n d.root q hmore
    rw [hes', hes'']
    rfl
  · rw [Node.at?_insert_of_apart _ _ hbehind hbefore]

theorem standing_put_self {names : List Text} {n : Node} (hfits : d.Fits names n) :
    (d.put names n).standing names = some n.bytes? := by
  rw [standing, root_put d hfits.ne_nil, Node.at?_insert_self]
  rfl

/-- The bytes of the file that a path leads to; none if it leads to nothing. -/
def bytes? (d : Disk) (p : Text) : Except ReadFailure (Option (List UInt8)) := do
  if ← d.presentOrFail p then return some (← d.readBytes p) else return none

/-- What is read at a path, by what stands at its place. -/
def readAt (p : Text) : Option (Option (List UInt8)) → Except ReadFailure (Option (List UInt8))
  | none => .ok none
  | some none => .error (.system (.isDirectory p))
  | some (some bytes) => .ok (some bytes)

theorem bytes?_of_lookup {place : List Text} {n : Node} (h : d.lookup p = .ok (place, n)) :
    d.bytes? p = readAt p (some n.bytes?) := by
  unfold bytes? presentOrFail askOrFail readBytes
  rw [h]
  cases n <;> rfl

theorem bytes?_of_absent (h : d.presentOrFail p = .ok false) : d.bytes? p = .ok none := by
  rw [bytes?, h]
  rfl

theorem bytes?_congr (h : d'.lookup p = d.lookup p) : d'.bytes? p = d.bytes? p := by
  unfold bytes? presentOrFail askOrFail readBytes
  rw [h]

/-! ### Paths in a growing disk -/

/-- What the file system has against a path: it is empty, or too long, or a walk along it says so. -/
theorem place_eq_system {follow : Bool} {e : OsError} (h : d.place p follow = .error (.system e)) :
    (p = [] ∧ e = .noEntry p) ∨ (pathLimit ≤ (Utf8.encode p).length ∧ e = .nameTooLong p) ∨
      walk d p follow linkLimit (d.start p) (walkNames p) = .error e := by
  unfold place at h
  split at h
  · cases h
  · split at h
    · exact .inl ⟨‹_›, (ReadFailure.system.inj (Except.error.inj h)).symm⟩
    · split at h
      · exact .inr (.inl ⟨‹_›, (ReadFailure.system.inj (Except.error.inj h)).symm⟩)
      · obtain ⟨e', hwalk, he'⟩ := eq_error_of_mapError h
        exact .inr (.inr (ReadFailure.system.inj he' ▸ hwalk))

/-- What a path comes to. -/
inductive Spot where
  /-- Something is at a place, or may be made there. -/
  | file (place : List Text)
  /-- The path goes on behind a free place, in a way that nothing can be made there. -/
  | lost (place : List Text)
  /-- Something is in the way for good, or the path is none. -/
  | nowhere
  deriving DecidableEq

/-- What a path comes to, for as long as nothing but growth happens to the disk and a path that is
lost stays so. -/
inductive Leads (d : Disk) (p : Text) : Spot → Prop
  | found {place : List Text} {n : Node} : d.lookup p = .ok (place, n) → Leads d p (.file place)
  | missing {base rest : List Text} : d.Missing p base rest → '\x00' ∉ p →
    (Utf8.encode p).length < pathLimit → Leads d p (.file (base ++ rest))
  | lost {base rest : List Text} {name : Text} {links : Nat} :
    d.Steps ⟨linkLimit, d.start p, walkNames p⟩ ⟨links, base, name :: rest⟩ → d.FreeAhead base name →
    (Utf8.encode p).length < pathLimit → Leads d p (.lost (base ++ [name]))
  | blocked {e : OsError} : d.place p = .error (.system e) → e.code ≠ 2 → Leads d p .nowhere
  | nul : '\x00' ∈ p → Leads d p .nowhere

theorem Leads.standing_of_lost {place : List Text} (h : d.Leads p (.lost place)) :
    d.standing place = none := by
  cases h with
  | lost _ hfree => exact Option.map_eq_none_iff.mpr hfree.free

/-- Every path comes to something. -/
theorem exists_leads (hlinks : ∀ q, d.root.at? q ≠ some (.link []))
    (hcwd : ∃ n, d.root.at? d.cwd = some n) (hne : p ≠ []) : ∃ spot, d.Leads p spot := by
  by_cases hnul : '\x00' ∈ p
  · exact ⟨_, .nul hnul⟩
  by_cases hlimit : (Utf8.encode p).length < pathLimit
  · have hplace : d.place p
        = (walk d p true linkLimit (d.start p) (walkNames p)).mapError .system := by
      rw [place, if_neg (by simpa using hnul), if_neg hne, if_neg (Nat.not_le.mpr hlimit)]
      rfl
    rcases fixed_or_free hlinks (reached_start hcwd p) (walkNames p) p with
      hfixed | ⟨links, base, name, rest, hsteps, hfree⟩
    · generalize walk d p true linkLimit (d.start p) (walkNames p) = r at hplace hfixed
      cases hfixed with
      | arrived place n => exact ⟨_, .found (lookup_eq_ok.mpr hplace)⟩
      | refused hcode => exact ⟨_, .blocked hplace hcode⟩
    · exact ⟨_, .lost hsteps hfree hlimit⟩
  · have hplace : d.place p = .error (.system (.nameTooLong p)) := by
      rw [place, if_neg (by simpa using hnul), if_neg hne, if_pos (Nat.not_lt.mp hlimit)]
    exact ⟨_, .blocked hplace (show (36 : Int) ≠ 2 by decide)⟩

/-- Of the names that lead from a place, the first ones lead to something, as many as do. -/
theorem exists_last_reached {at_ : List Text} (hat : ∃ n, d.root.at? at_ = some n)
    (names : List Text) : ∃ front rest, front ++ rest = names ∧
      (∃ n, d.root.at? (at_ ++ front) = some n) ∧
      (rest ≠ [] → d.root.at? (at_ ++ front ++ rest.take 1) = none) := by
  induction names using List.reverseRecOn with
  | nil => exact ⟨[], [], rfl, by simpa using hat, by simp⟩
  | append_singleton names name ih =>
    obtain ⟨front, rest, rfl, hreached, hnext⟩ := ih
    by_cases hrest : rest = []
    · subst hrest
      rw [List.append_nil]
      by_cases hnone : d.root.at? (at_ ++ front ++ [name]) = none
      · exact ⟨front, [name], rfl, hreached, fun _ => hnone⟩
      · refine ⟨front ++ [name], [], List.append_nil _, ?_, by simp⟩
        rw [← List.append_assoc]
        exact Option.ne_none_iff_exists'.mp hnone
    · refine ⟨front, rest ++ [name], (List.append_assoc _ _ _).symm, hreached, fun _ => ?_⟩
      rw [List.take_append_of_le_length (List.length_pos_iff.mpr hrest)]
      exact hnext hrest

/-- Without links a path of names proper leads to the place of these names. -/
theorem leads_of_isName (hd : d.root.LinkFree) (hcwd : ∃ n, d.root.at? d.cwd = some n)
    (hnul : '\x00' ∉ p) (hne : p ≠ []) (hlimit : (Utf8.encode p).length < pathLimit)
    (hnames : ∀ m ∈ walkNames p, Path.IsName m)
    (hshort : ∀ m ∈ walkNames p, (Utf8.encode m).length ≤ longestName) :
    d.Leads p (.file (d.start p ++ walkNames p)) := by
  obtain ⟨front, rest, hsplit, ⟨n, hn⟩, hnext⟩ :=
    exists_last_reached (reached_start hcwd p) (walkNames p)
  cases rest with
  | nil =>
    rw [List.append_nil] at hsplit
    exact .found (lookup_of_isName hd hnul hne hlimit hnames hshort (hsplit ▸ hn))
  | cons name rest =>
    have hmissing : d.Missing p (d.start p ++ front) (name :: rest) :=
      missing_of_isName hd hsplit.symm (hsplit ▸ hnames) (hsplit ▸ hshort) ⟨n, hn⟩ (hnext (by simp))
    rw [← hsplit, ← List.append_assoc]
    exact .missing hmissing hnul hlimit

section Grown

variable (hcwd : ∃ n, d.root.at? d.cwd = some n) (hd : Grown d d')

include hcwd hd

theorem lookup_grown {place : List Text} {n : Node} (h : d.lookup p = .ok (place, n)) :
    ∃ n', d'.lookup p = .ok (place, n') ∧ d'.root.at? place = some n' ∧ n.SameKind n' := by
  obtain ⟨hnul, hnil, hlimit, hwalk⟩ := place_eq_ok.mp (lookup_eq_ok.mp h)
  rw [← start] at hwalk
  have hgrown := walk_grown hd (reached_start hcwd p) (hwalk ▸ Fixed.arrived place n)
  obtain ⟨n', hn', hkind⟩ := hd.stays (at?_of_walk hwalk)
  refine ⟨n', lookup_eq_ok.mpr (place_eq_ok.mpr ⟨hnul, hnil, hlimit, ?_⟩), hn', hkind⟩
  rw [← start, start_of_grown hd rfl, hgrown, hwalk]
  show Except.ok (Place.mk place (d'.root.at? place)) = _
  rw [hn']

theorem place_grown {e : OsError} (h : d.place p = .error (.system e)) (hcode : e.code ≠ 2) :
    d'.place p = .error (.system e) := by
  have hgrown (hwalk : walk d p true linkLimit (d.start p) (walkNames p) = .error e) :
      walk d' p true linkLimit (d'.start p) (walkNames p) = .error e := by
    rw [start_of_grown hd rfl, walk_grown hd (reached_start hcwd p) (hwalk ▸ .refused hcode), hwalk]
    rfl
  unfold place at h ⊢
  split at h
  · cases h
  · rw [if_neg ‹_›]
    split at h
    · rw [if_pos ‹_›, h]
    · rw [if_neg ‹_›]
      split at h
      · rw [if_pos ‹_›, h]
      · rw [if_neg ‹_›]
        obtain ⟨e', hwalk, he'⟩ := eq_error_of_mapError h
        obtain rfl := ReadFailure.system.inj he'
        exact congrArg (Except.mapError ReadFailure.system) (hgrown hwalk)

/-- What is read at a path depends on its place alone. -/
theorem Leads.bytes?_of_file {place : List Text} (h : d.Leads p (.file place)) :
    d'.bytes? p = readAt p (d'.standing place) := by
  cases h with
  | found hlookup =>
    obtain ⟨n', hlookup', hn', -⟩ := lookup_grown hcwd hd hlookup
    rw [bytes?_of_lookup hlookup', standing, hn']
    rfl
  | @missing base rest hmissing hnul hlimit =>
    cases hn : d'.root.at? (base ++ rest) with
    | none =>
      rw [bytes?_of_absent (hmissing.presentOrFail_of_none hd hlimit hn), standing, hn]
      rfl
    | some n =>
      rw [bytes?_of_lookup (hmissing.lookup_of_some hd hnul hlimit hn), standing, hn]
      rfl

omit hcwd in
/-- Nothing is read at a path that is lost, for as long as the free place is. -/
theorem Leads.bytes?_of_lost {place : List Text} (h : d.Leads p (.lost place))
    (hfree : d'.standing place = none) : d'.bytes? p = .ok none := by
  cases h with
  | @lost base rest name links hsteps hahead hlimit =>
    obtain ⟨es, hes⟩ := hahead.directory
    obtain ⟨es', hes'⟩ := hd.directory hes
    have hget : Entries.get? name es' = none := by
      have hnone := Option.map_eq_none_iff.mp hfree
      rw [Node.at?_concat, hes'] at hnone
      exact hnone
    have hstart : d'.start p = d.start p := start_of_grown hd rfl
    -- The walk comes as far as it came, and the name ahead is still free.
    refine bytes?_of_absent (presentOrFail_of_walk hlimit ?_)
    rw [hstart, (hsteps.grown hd).walk_eq p, walk, hes']
    simp only [hahead.ne_here, hahead.ne_up, if_false, Nat.not_lt.mpr hahead.short, hget]
    by_cases hrest : rest = []
    · exact .inr ⟨_, if_pos hrest⟩
    · exact .inl ⟨_, if_neg hrest, rfl⟩

/-- A path that leads nowhere goes on doing so. -/
theorem Leads.bytes?_of_nowhere (h : d.Leads p .nowhere) : d'.bytes? p = d.bytes? p := by
  cases h with
  | blocked hplace hcode =>
    refine bytes?_congr ?_
    rw [lookup, lookup, hplace, place_grown hcwd hd hplace hcode]
  | nul hnul =>
    rw [bytes?_of_absent (presentOrFail_of_nul hnul), bytes?_of_absent (presentOrFail_of_nul hnul)]

end Grown

/-! ### Making the directory of a file -/

/-- The disk has grown, and at no place but the free ones on the way to a file has anything
changed. -/
structure Opened (d d' : Disk) (spot : Spot) : Prop where
  grown : Grown d d'
  kept : ∀ q, (∀ place, spot = .file place → q <+: place → q ≠ place →
    ∃ n, d.root.at? q = some n) → d'.standing q = d.standing q

theorem Opened.refl (d : Disk) (spot : Spot) : Opened d d spot :=
  ⟨Grown.refl d, fun _ _ => rfl⟩

/-- Where making a directory fails for another reason than an absence, nothing changes. -/
theorem tryDirectories_of_error {q : Text} {failure : ReadFailure}
    (h : d.makeDirectory q = .error failure) (hcode : ∀ e, failure = .system e → e.code ≠ 2) :
    (d.tryDirectories q).2 = d := by
  have hmissing : d.makeMissing q = .ok d ∨ d.makeMissing q = .error failure := by
    unfold makeMissing
    rw [h]
    cases failure with
    | system e =>
      dsimp only
      split
      · exact .inl rfl
      · exact .inr rfl
    | undecodable f => exact .inr rfl
    | nulInPath => exact .inr rfl
  unfold tryDirectories
  rw [tryDirectory]
  rcases hmissing with hmissing | hmissing
  · rw [hmissing]
  · rw [hmissing]
    cases failure with
    | system e =>
      have hother : ¬ (decide (e.code = 2) && decide (Path.parent q ≠ q)) = true := by
        simp [hcode e rfl]
      dsimp only
      rw [if_neg hother]
    | undecodable f => rfl
    | nulInPath => rfl

theorem makeDirectory_of_nul {q : Text} (h : '\x00' ∈ q) :
    d.makeDirectory q = .error .nulInPath := by
  rw [makeDirectory, place, if_pos (List.contains_iff_mem.mpr h)]
  rfl

/-- Nothing is made where a walk has a fixed end. -/
theorem makeDirectory_of_fixed {q : Text} (hnil : q ≠ [])
    (h : Fixed (walk d q false linkLimit (d.start q) (walkNames q))) :
    ∃ failure, d.makeDirectory q = .error failure ∧ ∀ e, failure = .system e → e.code ≠ 2 := by
  rcases hplace : d.place q false with failure | ⟨place, node⟩
  · refine ⟨failure, by rw [makeDirectory, hplace]; rfl, ?_⟩
    rintro e rfl
    rcases place_eq_system hplace with ⟨rfl, -⟩ | ⟨-, rfl⟩ | hwalk
    · exact absurd rfl hnil
    · exact (show (36 : Int) ≠ 2 by decide)
    · rw [hwalk] at h
      cases h with
      | refused hcode => exact hcode
  · obtain ⟨-, -, -, hwalk⟩ := place_eq_ok.mp hplace
    rw [start, hwalk] at h
    cases h with
    | arrived place n =>
      refine ⟨.system (.alreadyExists q), by rw [makeDirectory, hplace]; rfl, ?_⟩
      rintro e he
      rw [← ReadFailure.system.inj he]
      exact (show (17 : Int) ≠ 2 by decide)

theorem parent_ne_nil (p : Text) : Path.parent p ≠ [] := by
  unfold Path.parent Path.ofNames
  split
  · decide
  · assumption

section Writing

variable {spot : Spot} (h : d.Leads p spot) (hlost : ∀ place, spot ≠ .lost place)
  (hcwd : ∃ n, d.root.at? d.cwd = some n)

include h hlost hcwd

/-- When the directory of a file is made, as far as it can be, only free places on the way to the
file change. -/
theorem Leads.tryDirectories (hcollapsed : Path.IsCollapsed p)
    (hnul : '\x00' ∈ p → '\x00' ∈ Path.parent p)
    (hpresent : ∃ b, d.presentOrFail p = .ok b) :
    Opened d (d.tryDirectories (Path.parent p)).2 spot := by
  -- If the walk to the file has a fixed end, so has the one to its directory, and nothing is made.
  have hsame (hfixed : Fixed (walk d p true linkLimit (d.start p) (walkNames p))) :
      Opened d (d.tryDirectories (Path.parent p)).2 spot := by
    obtain ⟨failure, hmake, hcode⟩ := makeDirectory_of_fixed (parent_ne_nil p)
      (fixed_parent hcollapsed hcwd hfixed)
    rw [tryDirectories_of_error hmake hcode]
    exact .refl d spot
  cases h with
  | @found place n hlookup =>
    obtain ⟨-, -, -, hwalk⟩ := place_eq_ok.mp (lookup_eq_ok.mp hlookup)
    refine hsame ?_
    rw [start, hwalk]
    exact .arrived place n
  | @missing base rest hmissing _ _ =>
    -- Each new directory is put at a free place, which leaves the others as they are.
    refine (hmissing.of_tryDirectories (Grown.refl d) (P := fun d₁ => Opened d d₁ _) hcollapsed ?_
      (.refl d _)).2
    intro d₁ front more hd₁ hopened hfront hmore hfits hfree
    refine ⟨hd₁.trans (Grown.put hfits), fun q hq => ?_⟩
    rw [← hopened.kept q hq]
    refine standing_put hfits ?_ ?_
    · intro names hnames
      obtain ⟨name, names, rfl⟩ := List.exists_cons_of_ne_nil hnames
      rfl
    · -- The place of the new directory was free, and is not that of the file.
      rintro rfl
      obtain ⟨n, hn⟩ := hq _ rfl ((List.prefix_append_right_inj base).mpr ⟨more, hfront⟩)
        (by simpa [← hfront] using hmore)
      obtain ⟨n', hn', -⟩ := hd₁.stays hn
      rw [hfree] at hn'
      cases hn'
  | @blocked e hplace hcode =>
    refine hsame ?_
    rcases place_eq_system hplace with ⟨-, rfl⟩ | ⟨-, rfl⟩ | hwalk
    · exact absurd rfl hcode
    · -- A path that is too long is not even asked for.
      obtain ⟨b, hb⟩ := hpresent
      rw [presentOrFail, askOrFail, lookup, hplace] at hb
      cases hb
    · rw [hwalk]
      exact .refused hcode
  | nul hmem =>
    rw [tryDirectories_of_error (makeDirectory_of_nul (hnul hmem)) (by simp)]
    exact .refl d .nowhere
  | lost => exact absurd rfl (hlost _)

/-- A file that can be read, or is missing, is written at its place. -/
theorem Leads.writeText {t : Text} {d'' : Disk} (hd : Grown d d') {held : Option (List UInt8)}
    (hbytes : d.bytes? p = .ok held) (hwrite : d'.writeText p t = .ok d'') :
    ∃ place, spot = .file place ∧ Grown d' d'' ∧
      d''.standing place = some (some (Utf8.encode t)) ∧
      ∀ q, q ≠ place → d''.standing q = d'.standing q := by
  -- The file fits at its place.
  have hput {place : List Text} (hfits : d'.Fits place (.file (Utf8.encode t) 0)) :
      Grown d' (d'.put place (.file (Utf8.encode t) 0)) ∧
      (d'.put place (.file (Utf8.encode t) 0)).standing place = some (some (Utf8.encode t)) ∧
      ∀ q, q ≠ place → (d'.put place (.file (Utf8.encode t) 0)).standing q = d'.standing q := by
    refine ⟨Grown.put hfits, standing_put_self hfits, fun q hq => standing_put hfits ?_ hq⟩
    intro names hnames
    obtain ⟨name, names, rfl⟩ := List.exists_cons_of_ne_nil hnames
    rfl
  cases h with
  | @found place n hlookup =>
    obtain ⟨n', hlookup', hn', hkind⟩ := lookup_grown hcwd hd hlookup
    rw [bytes?_of_lookup hlookup] at hbytes
    -- Only a file could be read there, and growth keeps it one.
    have hfile : n'.isFile = true := by
      cases hkind with
      | file => rfl
      | directory => cases hbytes
      | link => cases hbytes
    have hne : place ≠ [] := by
      rintro rfl
      obtain rfl : d'.root = n' := Option.some.inj hn'
      cases hfile
    obtain ⟨es, hes⟩ : ∃ es, d'.root.at? place.dropLast = some (.directory es) := by
      rw [← List.dropLast_concat_getLast hne] at hn'
      exact Node.isDirectory_of_at?_append (by simp) hn'
    obtain ⟨there, hplace, -, rfl⟩ := writeText_eq_ok hwrite
    rw [lookup_eq_ok.mp hlookup'] at hplace
    obtain rfl := Except.ok.inj hplace
    have hfits : d'.Fits place (.file (Utf8.encode t) 0) :=
      fits_file hne _ (fun old hold => Option.some.inj (hn'.symm.trans hold) ▸ hfile) ⟨es, hes⟩
    exact ⟨place, rfl, hput hfits⟩
  | @missing base rest hmissing hnul hlimit =>
    obtain ⟨hfits, rfl⟩ := hmissing.of_writeText hd hwrite
    exact ⟨base ++ rest, rfl, hput hfits⟩
  | blocked hplace hcode =>
    obtain ⟨there, hthere, -⟩ := writeText_eq_ok hwrite
    rw [place_grown hcwd hd hplace hcode] at hthere
    cases hthere
  | nul hnul =>
    obtain ⟨there, hthere, -⟩ := writeText_eq_ok hwrite
    exact absurd hnul (place_eq_ok.mp hthere).1
  | lost => exact absurd rfl (hlost _)

end Writing

end Disk

end StyleImport
