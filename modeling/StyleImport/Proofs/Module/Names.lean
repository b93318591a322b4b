/-
The names under which the module of an identifier is looked up.

An identifier is cut where a name ends, at a slash or at its own end.  A scoped name is cut once
more, behind its scope, when it turns out to be unknown; what follows the scope is then put together
again.

* `ModuleName.segment_eq_iff`, `ModuleName.scoped?_eq_some_iff` — where identifiers are cut;
* `ModuleName.lookups` — the names that are looked up, each with the path inside the module;
* `ModuleName.exists_behind_of_mem_lookups` — the path is what the identifier has behind the name.
-/
import StyleImport.Proofs.Import.InModule
import StyleImport.Proofs.Path.SamePath

namespace StyleImport

namespace ModuleName

/-- What may follow a name in an identifier. -/
def EndsName (rest : Text) : Prop := rest = [] ∨ ∃ path, rest = '/' :: path

/-- A scope and a segment. -/
def IsScoped (name : Text) : Prop :=
  ∃ scope last, name = '@' :: scope ++ '/' :: last ∧ scope ≠ [] ∧ '/' ∉ scope ∧ last ≠ [] ∧
    '/' ∉ last

/-- What may be cut off an identifier: a segment, with a scope in front or without. -/
def IsName (name : Text) : Prop := IsScoped name ∨ '/' ∉ name

/-- What an identifier has behind a name, and behind the slash that ends the name. -/
def Behind (identifier name path : Text) : Prop :=
  identifier = name ∧ path = [] ∨ identifier = name ++ '/' :: path

theorem exists_behind_iff {identifier name : Text} :
    (∃ path, Behind identifier name path) ↔ ∃ rest, identifier = name ++ rest ∧ EndsName rest := by
  constructor
  · rintro ⟨path, ⟨rfl, -⟩ | rfl⟩
    · exact ⟨[], (List.append_nil _).symm, .inl rfl⟩
    · exact ⟨_, rfl, .inr ⟨path, rfl⟩⟩
  · rintro ⟨rest, rfl, rfl | ⟨path, rfl⟩⟩
    · exact ⟨[], .inl ⟨List.append_nil _, rfl⟩⟩
    · exact ⟨path, .inr rfl⟩

/-! ### Where identifiers are cut -/

theorem segment_eq_iff {t first rest : Text} :
    segment t = (first, rest) ↔ t = first ++ rest ∧ '/' ∉ first ∧ EndsName rest := by
  constructor
  · intro h
    have hfirst : '/' ∉ first := by
      obtain ⟨rfl, -⟩ := Prod.mk.inj h
      exact fun hmem => absurd (List.mem_takeWhile_imp hmem) (by simp)
    rcases segment_cases t with hs | ⟨first', rest', hs, ht⟩
    · obtain ⟨rfl, rfl⟩ := Prod.mk.inj (hs.symm.trans h)
      exact ⟨(List.append_nil t).symm, hfirst, .inl rfl⟩
    · obtain ⟨rfl, rfl⟩ := Prod.mk.inj (hs.symm.trans h)
      exact ⟨ht, hfirst, .inr ⟨rest', rfl⟩⟩
  · rintro ⟨rfl, hfirst, hrest⟩
    have hall : ∀ c ∈ first, (decide (c ≠ '/')) = true := by
      intro c hc
      have hne : c ≠ '/' := fun h => hfirst (h ▸ hc)
      simpa using hne
    unfold segment
    rw [List.takeWhile_append_of_pos hall, List.dropWhile_append_of_pos hall]
    rcases hrest with rfl | ⟨path, rfl⟩ <;> simp

theorem segment_eq_self {t : Text} (h : '/' ∉ t) : segment t = (t, []) :=
  segment_eq_iff.mpr ⟨(List.append_nil t).symm, h, .inl rfl⟩

theorem segment_scope {scope : Text} (h : '/' ∉ scope) (t : Text) :
    segment ('@' :: scope ++ '/' :: t) = ('@' :: scope, '/' :: t) :=
  segment_eq_iff.mpr ⟨rfl, by simp [h], .inr ⟨t, rfl⟩⟩

theorem segment_fst_eq_iff {t name : Text} :
    (segment t).1 = name ↔ '/' ∉ name ∧ ∃ path, Behind t name path := by
  rw [exists_behind_iff]
  constructor
  · rintro rfl
    have hcut : segment t = ((segment t).1, (segment t).2) := rfl
    obtain ⟨ht, hslash, hends⟩ := segment_eq_iff.mp hcut
    exact ⟨hslash, _, ht, hends⟩
  · rintro ⟨hslash, rest, ht, hends⟩
    rw [segment_eq_iff.mpr ⟨ht, hslash, hends⟩]

theorem scoped?_eq_some_iff {t name rest : Text} :
    scoped? t = some (name, rest) ↔ IsScoped name ∧ t = name ++ rest ∧ EndsName rest := by
  constructor
  · intro h
    unfold scoped? at h
    split at h
    · rename_i cs
      split at h
      · rename_i scope behind hs
        obtain ⟨rfl, hscope, -⟩ := segment_eq_iff.mp hs
        rcases hlast : segment behind with ⟨last, rest'⟩
        obtain ⟨rfl, hslash, hends⟩ := segment_eq_iff.mp hlast
        rw [hlast] at h
        dsimp only at h
        split at h
        · cases h
        · rename_i hne
          obtain ⟨rfl, rfl⟩ := Prod.mk.inj (Option.some.inj h)
          simp only [Bool.or_eq_true, decide_eq_true_eq, not_or] at hne
          exact ⟨⟨scope, last, rfl, hne.1, hscope, hne.2, hslash⟩, by simp, hends⟩
      · cases h
    · cases h
  · rintro ⟨⟨scope, last, rfl, hscope, hscope', hlast, hlast'⟩, rfl, hends⟩
    have houter : segment (scope ++ '/' :: (last ++ rest)) = (scope, '/' :: (last ++ rest)) :=
      segment_eq_iff.mpr ⟨rfl, hscope', .inr ⟨_, rfl⟩⟩
    have hinner : segment (last ++ rest) = (last, rest) := segment_eq_iff.mpr ⟨rfl, hlast', hends⟩
    have ht : '@' :: scope ++ '/' :: last ++ rest = '@' :: (scope ++ '/' :: (last ++ rest)) := by
      simp
    rw [ht, scoped?, houter]
    simp [hinner, hscope, hlast]

theorem map_fst_scoped?_eq_some_iff {t name : Text} :
    (scoped? t).map Prod.fst = some name ↔ IsScoped name ∧ ∃ path, Behind t name path := by
  rw [exists_behind_iff, Option.map_eq_some_iff]
  constructor
  · rintro ⟨⟨name', rest⟩, hscoped, rfl⟩
    obtain ⟨hname, ht, hends⟩ := scoped?_eq_some_iff.mp hscoped
    exact ⟨hname, rest, ht, hends⟩
  · rintro ⟨hname, rest, ht, hends⟩
    exact ⟨(name, rest), scoped?_eq_some_iff.mpr ⟨hname, ht, hends⟩, rfl⟩

/-- A scoped name has a slash in it. -/
theorem scoped?_eq_none {t : Text} (h : '/' ∉ t) : scoped? t = none := by
  cases hscoped : scoped? t with
  | none => rfl
  | some cut =>
    obtain ⟨⟨scope, last, hname, -⟩, ht, -⟩ := scoped?_eq_some_iff.mp hscoped
    rw [ht, hname] at h
    exact absurd (by simp) h

theorem widen_of_no_slash {name : Text} (h : '/' ∉ name) (path : Text) :
    widen name path = (name, path) := by
  rw [widen, segment_eq_self h]
  by_cases hpath : path = [] <;> simp [afterSlash, hpath, Text.joinWith, List.intercalate]

theorem widen_scoped {scope last : Text} (hscope : '/' ∉ scope) (hlast : last ≠ [])
    (path : Text) :
    widen ('@' :: scope ++ '/' :: last) path
      = ('@' :: scope, if path = [] then last else last ++ '/' :: path) := by
  rw [widen, segment_scope hscope]
  by_cases hpath : path = [] <;>
    simp [afterSlash, hlast, hpath, Text.joinWith, List.intercalate]

/-! ### The names that are looked up -/

/-- The names under which the module of an identifier is looked up, in order, each with the path
inside the module; an identifier that is relative or absolute has no module. -/
def lookups (identifier : Text) : List (Text × Text) :=
  if Uri.isRelative identifier || Path.isAbsolute identifier then []
  else match split identifier with
    | none => []
    | some (name, path) => (name, path) :: if hasScope name then [widen name path] else []

/-- A name that was cut off has a slash in it only if it is scoped. -/
theorem isScoped_of_split {identifier name path : Text} (h : split identifier = some (name, path))
    (hslash : '/' ∈ name) : IsScoped name := by
  unfold split at h
  split at h
  · rename_i name' rest hscoped
    obtain ⟨rfl, -⟩ := Prod.mk.inj (Option.some.inj h)
    exact (scoped?_eq_some_iff.mp hscoped).1
  · rcases hs : segment identifier with ⟨first, rest⟩
    rw [hs] at h
    dsimp only at h
    split at h
    · cases h
    · obtain ⟨rfl, -⟩ := Prod.mk.inj (Option.some.inj h)
      exact absurd hslash (segment_eq_iff.mp hs).2.1

theorem exists_behind_of_mem_lookups {identifier name path : Text}
    (h : (name, path) ∈ lookups identifier) :
    ∃ behind, Behind identifier name behind ∧
      ∀ unified, Uri.pathOf unified path = Uri.pathOf unified behind := by
  unfold lookups at h
  split at h
  · simp at h
  · split at h
    · simp at h
    · rename_i first rest hsplit
      have hfirst : Behind identifier first rest := eq_of_split hsplit
      rcases List.mem_cons.mp h with heq | h
      · obtain ⟨rfl, rfl⟩ := Prod.mk.inj heq
        exact ⟨_, hfirst, fun _ => rfl⟩
      · split at h
        · have hwiden := List.mem_singleton.mp h
          by_cases hslash : '/' ∈ first
          · -- The scope is the name now, and the segment behind it goes to the path.
            obtain ⟨scope, last, rfl, -, hscope, hlast, hlast'⟩ := isScoped_of_split hsplit hslash
            rw [widen_scoped hscope hlast] at hwiden
            obtain ⟨rfl, rfl⟩ := Prod.mk.inj hwiden
            rcases hfirst with ⟨rfl, rfl⟩ | rfl
            · exact ⟨last, .inr rfl, fun unified => by rw [if_pos rfl]⟩
            · refine ⟨last ++ '/' :: rest, .inr (by simp), fun unified => ?_⟩
              split
              · rename_i hrest
                rw [hrest, Uri.pathOf_slash_end unified hlast hlast']
              · rfl
          · rw [widen_of_no_slash hslash] at hwiden
            obtain ⟨rfl, rfl⟩ := Prod.mk.inj hwiden
            exact ⟨_, hfirst, fun _ => rfl⟩
        · simp at h

/-- An identifier that is nothing but a name is looked up as a name. -/
theorem mem_lookups_self {s : Text}
    (hdirect : (Uri.isRelative s || Path.isAbsolute s) = false) (hne : s ≠ []) (h : IsName s) :
    (s, []) ∈ lookups s := by
  have hsplit : split s = some (s, []) := by
    unfold split
    rcases h with hscoped | hslash
    · rw [scoped?_eq_some_iff.mpr ⟨hscoped, (List.append_nil s).symm, .inl rfl⟩]
      rfl
    · rw [scoped?_eq_none hslash, segment_eq_self hslash]
      simp [hne, afterSlash]
  rw [lookups, hdirect, if_neg Bool.false_ne_true, hsplit]
  exact List.mem_cons_self

end ModuleName

end StyleImport
