/-
Documents that differ in the order of entries only.

What is read back of a written document may have its entries in another order.  That makes no
difference for the value of a key, also after documents have been laid over each other.

* `Data.Reordered`, `Data.reordered_map_iff` — the same document but for the order of entries;
* `Data.Reordered.mergeOver` — reordered values laid over each other;
* `Data.rel_foldl_mergeEntries` — the value of a key in maps laid over each other.
-/
import Mathlib.Data.List.Forall2
import StyleImport.Proofs.Data.Layered

namespace StyleImport

namespace Data

open Entries

/-- The same document but for the order of entries. -/
inductive Reordered : Data → Data → Prop
  | scalar (s : Scalar) : Reordered (.scalar s) (.scalar s)
  | list {items items' : List Data} :
    List.Forall₂ Reordered items items' → Reordered (.list items) (.list items')
  | map {es es' : List (Scalar × Data)} :
    (∀ k, getBy? Scalar.sameKey k es = none ↔ getBy? Scalar.sameKey k es' = none) →
    (∀ k v v', getBy? Scalar.sameKey k es = some v → getBy? Scalar.sameKey k es' = some v' →
      Reordered v v') → Reordered (.map es) (.map es')

theorem Reordered.refl : (d : Data) → d.Reordered d
  | .scalar s => .scalar s
  | .list items => .list (List.forall₂_same.mpr fun d hd => Reordered.refl d)
  | .map es => .map (fun _ => Iff.rfl) fun k v v' hv hv' => by
    obtain rfl : v = v' := Option.some.inj (hv.symm.trans hv')
    obtain ⟨k', -, hmem⟩ := exists_mem_of_getBy? hv
    exact Reordered.refl v
termination_by d => sizeOf d
decreasing_by
  · simp_wf
    have hlt := List.sizeOf_lt_of_mem hd
    omega
  · simp_wf
    have hlt := List.sizeOf_lt_of_mem hmem
    simp only [Prod.mk.sizeOf_spec] at hlt
    omega

/-- A document without maps. -/
def Flat : Data → Prop
  | .scalar _ => True
  | .list items => ∀ d ∈ items, ∃ s, d = .scalar s
  | .map _ => False

theorem Flat.ne_map {d : Data} (h : d.Flat) (es : List (Scalar × Data)) : d ≠ .map es := by
  rintro rfl
  exact h

/-- Without maps there is only one order. -/
theorem Reordered.eq_of_flat {d d' : Data} (h : d.Reordered d') (hflat : d'.Flat) : d = d' := by
  cases h with
  | scalar s => rfl
  | map => exact hflat.elim
  | list hitems =>
    refine congrArg Data.list ?_
    induction hitems with
    | nil => rfl
    | cons hitem _ ih =>
      obtain ⟨s, rfl⟩ := hflat _ List.mem_cons_self
      cases hitem
      rw [ih fun d hd => hflat d (List.mem_cons_of_mem _ hd)]

/-- A value in a map stands under the same key of the reordered one. -/
theorem Reordered.getBy? {es es' : List (Scalar × Data)}
    (h : (Data.map es).Reordered (.map es')) {k : Scalar} {v : Data}
    (hv : getBy? Scalar.sameKey k es = some v) :
    ∃ v', getBy? Scalar.sameKey k es' = some v' ∧ v.Reordered v' := by
  cases h with
  | map hnone hvalues =>
    cases hv' : Entries.getBy? Scalar.sameKey k es' with
    | none =>
      rw [(hnone k).mpr hv'] at hv
      cases hv
    | some v' => exact ⟨v', rfl, hvalues k v v' hv hv'⟩

theorem none_iff_of_rel {o o' : Option Data} (h : Option.Rel Reordered o o') :
    o = none ↔ o' = none := by
  cases h <;> simp

/-- A map is another one but for the order of entries if the values under each key are. -/
theorem reordered_map_iff {es es' : List (Scalar × Data)} :
    (Data.map es).Reordered (.map es') ↔
      ∀ k, Option.Rel Reordered (getBy? Scalar.sameKey k es) (getBy? Scalar.sameKey k es') := by
  constructor
  · intro h k
    cases h with
    | map hnone hvalues =>
      cases hv : getBy? Scalar.sameKey k es with
      | none =>
        rw [(hnone k).mp hv]
        exact .none
      | some v =>
        obtain ⟨v', hv'⟩ : ∃ v', getBy? Scalar.sameKey k es' = some v' := by
          refine Option.ne_none_iff_exists'.mp fun hnone' => ?_
          rw [(hnone k).mpr hnone'] at hv
          cases hv
        rw [hv']
        exact .some (hvalues k v v' hv hv')
  · intro h
    refine .map (fun k => none_iff_of_rel (h k)) fun k v v' hv hv' => ?_
    have hk := h k
    rw [hv, hv'] at hk
    cases hk with
    | some hvalue => exact hvalue

theorem rel_refl (o : Option Data) : Option.Rel Reordered o o := by
  cases o with
  | none => exact .none
  | some d => exact .some (.refl d)

/-- The value of a key in a merged map, if the maps that are merged have other values there. -/
theorem rel_mergeEntries {k : Scalar} {lower lower' upper upper' : List (Scalar × Data)}
    (h : (Data.map upper).KeysOnce) (h' : (Data.map upper').KeysOnce)
    (hlower : Option.Rel Reordered (getBy? Scalar.sameKey k lower) (getBy? Scalar.sameKey k lower'))
    (hupper : Option.Rel Reordered (getBy? Scalar.sameKey k upper) (getBy? Scalar.sameKey k upper'))
    (hover : ∀ v v', getBy? Scalar.sameKey k upper = some v →
      getBy? Scalar.sameKey k upper' = some v' → v.Reordered v' →
      (mergeOver (getBy? Scalar.sameKey k lower) v).Reordered
        (mergeOver (getBy? Scalar.sameKey k lower') v')) :
    Option.Rel Reordered (getBy? Scalar.sameKey k (mergeEntries lower upper))
      (getBy? Scalar.sameKey k (mergeEntries lower' upper')) := by
  rw [getBy?_mergeEntries h, getBy?_mergeEntries h']
  cases hv : getBy? Scalar.sameKey k upper with
  | none =>
    rw [hv] at hupper
    cases hv' : getBy? Scalar.sameKey k upper' with
    | none => exact hlower
    | some v' =>
      rw [hv'] at hupper
      cases hupper
  | some v =>
    rw [hv] at hupper
    cases hv' : getBy? Scalar.sameKey k upper' with
    | none =>
      rw [hv'] at hupper
      cases hupper
    | some v' =>
      rw [hv'] at hupper
      cases hupper with
      | some hvalue => exact .some (hover v v' hv hv' hvalue)

/-- What is laid over a value, and the value, may have their entries in another order. -/
theorem Reordered.mergeOver {lower lower' : Option Data} : {upper upper' : Data} →
    upper.Reordered upper' → upper.KeysOnce → upper'.KeysOnce →
    Option.Rel Reordered lower lower' →
    (Data.mergeOver lower upper).Reordered (Data.mergeOver lower' upper')
  | _, _, .scalar s, _, _, _ => by
    rw [mergeOver_leaf (by simp), mergeOver_leaf (by simp)]
    exact .scalar s
  | _, _, .list hitems, _, _, _ => by
    rw [mergeOver_leaf (by simp), mergeOver_leaf (by simp)]
    exact .list hitems
  | .map es, .map es', hupper, h, h', hlower => by
    by_cases hmap : ∃ below, lower = some (.map below)
    · obtain ⟨below, rfl⟩ := hmap
      cases hlower with
      | some hbelow =>
        rename_i d
        obtain ⟨below', rfl⟩ : ∃ below', d = .map below' := by
          cases hbelow
          exact ⟨_, rfl⟩
        rw [Data.mergeOver, Data.mergeOver]
        refine reordered_map_iff.mpr fun k => rel_mergeEntries h h' (reordered_map_iff.mp hbelow k)
          (reordered_map_iff.mp hupper k) fun v v' hv hv' hvalue => ?_
        exact Reordered.mergeOver hvalue (h.of_getBy? hv) (h'.of_getBy? hv')
          (reordered_map_iff.mp hbelow k)
    · -- Then neither value is a map, and the upper ones are taken as they are.
      have hmap' : ∀ below', lower' ≠ some (.map below') := by
        rintro below' rfl
        cases hlower with
        | some hbelow =>
          cases hbelow
          exact hmap ⟨_, rfl⟩
      rw [mergeOver_of_lower fun below hbelow => hmap ⟨below, hbelow⟩, mergeOver_of_lower hmap']
      exact hupper
termination_by upper => sizeOf upper
decreasing_by
  obtain ⟨k', -, hmem⟩ := exists_mem_of_getBy? hv
  have hlt := List.sizeOf_lt_of_mem hmem
  simp_wf
  simp only [Prod.mk.sizeOf_spec] at hlt
  omega

/-- The value of a key in maps laid over each other, if each of them has another order there. -/
theorem rel_foldl_mergeEntries {k : Scalar} {lower lower' : List (Scalar × Data)}
    (hlower : Option.Rel Reordered (getBy? Scalar.sameKey k lower) (getBy? Scalar.sameKey k lower'))
    {maps maps' : List (List (Scalar × Data))}
    (h : List.Forall₂ (fun es es' => (Data.map es).KeysOnce ∧ (Data.map es').KeysOnce ∧
      Option.Rel Reordered (getBy? Scalar.sameKey k es) (getBy? Scalar.sameKey k es')) maps maps') :
    Option.Rel Reordered (getBy? Scalar.sameKey k (maps.foldl mergeEntries lower))
      (getBy? Scalar.sameKey k (maps'.foldl mergeEntries lower')) := by
  induction h generalizing lower lower' with
  | nil => exact hlower
  | @cons es es' maps maps' hfirst _ ih =>
    obtain ⟨hes, hes', hrel⟩ := hfirst
    refine ih (rel_mergeEntries hes hes' hlower hrel fun v v' hv hv' hvalue => ?_)
    exact hvalue.mergeOver (hes.of_getBy? hv) (hes'.of_getBy? hv') hlower

end Data

end StyleImport
