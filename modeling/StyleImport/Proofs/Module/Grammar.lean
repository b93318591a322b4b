/-
The grammar of identifiers that start with a module's name.

A scoped name is one as long as it is ended where its segment ends.  Whatever else an identifier
starts with, a lone `@` or a scope with nothing behind it, its module is named by all that it has in
front of its first slash.

* `ModuleName.IsFront` — the longest front of a text without a slash;
* `ModuleName.Opens` — the name that an identifier starts with;
* `ModuleName.split_grammar` — an identifier is cut behind that name, and has no module exactly if
  there is nothing in front of its first slash.
-/
import StyleImport.Proofs.Module.Names

namespace StyleImport

namespace ModuleName

/-- The longest front of a text that has no slash in it. -/
structure IsFront (t first : Text) : Prop where
  front : first <+: t
  no_slash : '/' ∉ first
  longest : ∀ other, other <+: t → '/' ∉ other → other <+: first

/-- The name that an identifier starts with: a scoped name that ends there, or else all that is in
front of the first slash. -/
inductive Opens (identifier : Text) : Text → Prop
  | ofScope {name rest : Text} : IsScoped name → EndsName rest → identifier = name ++ rest →
    Opens identifier name
  | ofSegment {name : Text} :
    (∀ scopedName rest, IsScoped scopedName → EndsName rest → identifier ≠ scopedName ++ rest) →
    IsFront identifier name → Opens identifier name

/-! ### Fronts and what is behind them -/

theorem isFront_segment (t : Text) : IsFront t (segment t).1 := by
  refine ⟨List.takeWhile_prefix _, fun hmem => ?_, ?_⟩
  · simpa using List.mem_takeWhile_imp hmem
  · rintro other ⟨rest, rfl⟩ hfree
    have hall : ∀ c ∈ other, (decide (c ≠ '/')) = true := by
      intro c hc
      have hne : c ≠ '/' := fun h => hfree (h ▸ hc)
      simpa using hne
    rw [segment, List.takeWhile_append_of_pos hall]
    exact List.prefix_append _ _

theorem IsFront.eq {t first other : Text} (h : IsFront t first) (hother : IsFront t other) :
    first = other := by
  have hle : first.length ≤ other.length := (hother.longest first h.front h.no_slash).length_le
  exact (h.longest other hother.front hother.no_slash).eq_of_length_le hle |>.symm

/-- What is behind a name is settled by the name. -/
theorem Behind.eq {identifier name path path' : Text} (h : Behind identifier name path)
    (h' : Behind identifier name path') : path = path' := by
  rcases h with ⟨hname, rfl⟩ | h <;> rcases h' with ⟨hname', rfl⟩ | h'
  · rfl
  · simp [hname] at h'
  · simp [hname'] at h
  · simpa using h.symm.trans h'

/-! ### The name that is cut off -/

/-- There is but one name that an identifier starts with. -/
theorem Opens.eq {identifier name other : Text} (h : Opens identifier name)
    (hother : Opens identifier other) : name = other := by
  cases h with
  | ofScope hname hends hidentifier =>
    cases hother with
    | ofScope hname' hends' hidentifier' =>
      -- Both are what the identifier has in front if it is read as a scoped name.
      have hsame := (scoped?_eq_some_iff.mpr ⟨hname, hidentifier, hends⟩).symm.trans
        (scoped?_eq_some_iff.mpr ⟨hname', hidentifier', hends'⟩)
      exact (Prod.mk.inj (Option.some.inj hsame)).1
    | ofSegment hnone => exact absurd hidentifier (hnone _ _ hname hends)
  | ofSegment hnone hfront =>
    cases hother with
    | ofScope hname' hends' hidentifier' => exact absurd hidentifier' (hnone _ _ hname' hends')
    | ofSegment _ hfront' => exact hfront.eq hfront'

/-- What is cut off is the name that the identifier starts with. -/
theorem opens_of_split {identifier name path : Text} (h : split identifier = some (name, path)) :
    Opens identifier name := by
  unfold split at h
  split at h
  · rename_i found rest hscoped
    obtain ⟨rfl, -⟩ := Prod.mk.inj (Option.some.inj h)
    obtain ⟨hfound, hidentifier, hends⟩ := scoped?_eq_some_iff.mp hscoped
    exact .ofScope hfound hends hidentifier
  · rename_i hscoped
    dsimp only at h
    split at h
    · cases h
    · obtain ⟨rfl, -⟩ := Prod.mk.inj (Option.some.inj h)
      refine .ofSegment (fun scopedName rest hname hends hidentifier => ?_)
        (isFront_segment identifier)
      rw [scoped?_eq_some_iff.mpr ⟨hname, hidentifier, hends⟩] at hscoped
      cases hscoped

/-- There is a name wherever there is something in front of the first slash. -/
theorem split_eq_none_iff {identifier : Text} :
    split identifier = none ↔ identifier = [] ∨ identifier.head? = some '/' := by
  have hsegment : (segment identifier).1 = [] ↔ identifier = [] ∨ identifier.head? = some '/' := by
    cases identifier with
    | nil => simp [segment]
    | cons c cs => by_cases hc : c = '/' <;> simp [segment, hc]
  rw [← hsegment, split]
  cases hscoped : scoped? identifier with
  | none => by_cases hnil : (segment identifier).1 = [] <;> simp [hnil]
  | some cut =>
    obtain ⟨name, rest⟩ := cut
    obtain ⟨⟨scope, last, rfl, -⟩, rfl, -⟩ := scoped?_eq_some_iff.mp hscoped
    simp [segment]

theorem Opens.head?_ne_slash {identifier name : Text} (h : Opens identifier name)
    (hne : name ≠ []) : identifier.head? ≠ some '/' := by
  cases h with
  | ofScope hname _ hidentifier =>
    obtain ⟨scope, last, rfl, -⟩ := hname
    simp [hidentifier]
  | ofSegment _ hfront =>
    obtain ⟨⟨rest, rfl⟩, hslash, -⟩ := hfront
    obtain ⟨c, cs, rfl⟩ := List.exists_cons_of_ne_nil hne
    have hc : c ≠ '/' := fun hc => hslash (hc ▸ List.mem_cons_self)
    simpa using hc

/-- An identifier is cut behind the name that it starts with. -/
theorem split_eq_some_iff {identifier name path : Text} :
    split identifier = some (name, path) ↔
      name ≠ [] ∧ Opens identifier name ∧ Behind identifier name path := by
  constructor
  · exact fun h => ⟨split_ne_nil h, opens_of_split h, eq_of_split h⟩
  · rintro ⟨hne, hopens, hbehind⟩
    cases hsplit : split identifier with
    | none =>
      rcases split_eq_none_iff.mp hsplit with rfl | hhead
      · rcases hbehind with ⟨hname, -⟩ | hname
        · exact absurd hname.symm hne
        · simp at hname
      · exact absurd hhead (hopens.head?_ne_slash hne)
    | some cut =>
      obtain ⟨name', path'⟩ := cut
      obtain rfl := (opens_of_split hsplit).eq hopens
      have hcut : Behind identifier name' path' := eq_of_split hsplit
      rw [hcut.eq hbehind]

/-- **The grammar of module names.**  An identifier has no module exactly if it is empty or starts
with a slash.  Any other one is cut behind the name that it starts with, and behind the slash that
ends the name, if there is one:

* a scope and a segment are the name if they are in front and the segment ends there;
* otherwise the longest front without a slash is the name;
* so the identifier is the name alone and the path is empty, or it is the name, a slash and the
  path. -/
theorem split_grammar (identifier : Text) :
    (split identifier = none ↔ identifier = [] ∨ identifier.head? = some '/') ∧
    ∀ name path, split identifier = some (name, path) ↔
      name ≠ [] ∧ Opens identifier name ∧ Behind identifier name path :=
  ⟨split_eq_none_iff, fun _ _ => split_eq_some_iff⟩

/-- A scope with nothing in its segment is no scoped name, and the `@` alone is a name. -/
example : split ['@', 'a', '/', '/', 'b'] = some (['@', 'a'], ['/', 'b']) ∧
    split ['@', '/', 'x'] = some (['@'], ['x']) ∧
    split ['@', 'a', '/', 'b', '\n', '/'] = some (['@', 'a', '/', 'b', '\n'], []) := by
  decide

end ModuleName

end StyleImport
