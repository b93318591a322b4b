/-
Which documents make settings.

Whatever checks settings accepts a document exactly if it accepts each setting in it by itself, and
what is accepted stays so when it is laid over something that was: only the declared modules are
maps, and a declaration is a map of texts.

* `Schema.Lax` — what is assumed of a check of settings;
* `Schema.Lax.mergeOver`, `Schema.Lax.reordered` — accepted values laid over each other, and with
  their entries in another order;
* `Schema.AllAccepted.merge` — the same of all settings of a file.
-/
import StyleImport.Proofs.Data.Reordered
import StyleImport.Proofs.Settings.Checks
import StyleImport.Settings.Basic

namespace StyleImport

theorem Scalar.eq_text_of_key_eq {s : Scalar} {t : Text} (h : s.key = (Scalar.text t).key) :
    s = .text t := by
  cases s with
  | double d =>
    simp only [key] at h
    split at h <;> cases h
  | null | boolean | integer => cases h
  | text t' => exact h

/-- A declaration of a module: a map whose two texts may be left out or be nothing. -/
def Data.Declares (d : Data) : Prop :=
  (∃ es, d = .map es) ∧ ∀ key : Text, key = "stylesheet_dir" ∨ key = "main" →
    ∀ v, d.get? key = some v → v = .null ∨ ∃ t, v = .text t

namespace Data.Declares

theorem flat_of_told {v : Data} (h : v = .null ∨ ∃ t, v = .text t) : v.Flat := by
  rcases h with rfl | ⟨t, rfl⟩ <;> trivial

/-- A declaration laid over another one. -/
theorem mergeOver {lower upper : Data} (hlower : lower.Declares) (hupper : upper.Declares)
    (hkeys : upper.KeysOnce) : (Data.mergeOver (some lower) upper).Declares := by
  obtain ⟨⟨es, rfl⟩, hes⟩ := hlower
  obtain ⟨⟨fs, rfl⟩, hfs⟩ := hupper
  rw [Data.mergeOver]
  refine ⟨⟨_, rfl⟩, fun key hkey v hv => ?_⟩
  have hget : Entries.getBy? Scalar.sameKey (.text key) (mergeEntries es fs) = some v := hv
  rw [getBy?_mergeEntries hkeys] at hget
  cases hw : Entries.getBy? Scalar.sameKey (.text key) fs with
  | none =>
    rw [hw] at hget
    exact hes key hkey v hget
  | some w =>
    have htold := hfs key hkey w hw
    rw [hw] at hget
    obtain rfl : Data.mergeOver (Entries.getBy? Scalar.sameKey (.text key) es) w = v :=
      Option.some.inj hget
    rwa [mergeOver_leaf (flat_of_told htold).ne_map]

theorem reordered {d d' : Data} (h : d.Reordered d') (hd' : d'.Declares) : d.Declares := by
  obtain ⟨⟨es', rfl⟩, hes'⟩ := hd'
  obtain ⟨es, rfl⟩ : ∃ es, d = .map es := by
    cases h
    exact ⟨_, rfl⟩
  refine ⟨⟨es, rfl⟩, fun key hkey v hv => ?_⟩
  obtain ⟨v', hv', hsame⟩ := h.getBy? hv
  have htold := hes' key hkey v' hv'
  rwa [hsame.eq_of_flat (flat_of_told htold)]

end Data.Declares

namespace Schema

/-- The value of a setting is accepted by itself. -/
def Accepts (schema : Schema) (key : Text) (v : Data) : Prop :=
  (schema (.map [(.text key, v)])).Passes

/-- What is assumed of a check of settings.

* `separate` — a document is accepted if each setting in it is by itself; other keys are ignored;
* `flat` — the value of any setting but the modules is a scalar or a list of scalars;
* `modules` — the modules are a map of declarations with texts as their names;
* `unifying` — separators may be unified or not;
* `speaks` — a document that is not accepted is complained about. -/
structure Lax (schema : Schema) : Prop where
  separate : ∀ es : List (Scalar × Data),
    (∀ key ∈ Settings.names, ∀ v, (Data.map es).get? key = some v → schema.Accepts key v) →
      (schema (.map es)).Passes
  flat : ∀ key ∈ Settings.names, key ≠ "modules" → ∀ v, schema.Accepts key v → v.Flat
  modules : ∀ v, schema.Accepts "modules" v ↔
    ∃ es, v = .map es ∧ ∀ e ∈ es, (∃ t, e.1 = .text t) ∧ e.2.Declares
  unifying : ∀ b, schema.Accepts "normalize_paths" (.boolean b)
  speaks : ∀ d, (schema d).Speaks

variable {schema : Schema}

namespace Lax

variable (h : schema.Lax)

include h

/-- An accepted value laid over another one is accepted. -/
theorem mergeOver {key : Text} (hkey : key ∈ Settings.names) {lower upper : Data}
    (hlower : schema.Accepts key lower) (hupper : schema.Accepts key upper)
    (hkeys : upper.KeysOnce) : schema.Accepts key (Data.mergeOver (some lower) upper) := by
  by_cases hmodules : key = "modules"
  · subst hmodules
    rw [h.modules] at hlower hupper ⊢
    obtain ⟨es, rfl, hes⟩ := hlower
    obtain ⟨fs, rfl, hfs⟩ := hupper
    cases hkeys with
    | map _ hvalues =>
      rw [Data.mergeOver]
      refine ⟨_, rfl, Data.forall_mergeEntries
        (P := fun k v => (∃ t, k = .text t) ∧ v.Declares)
        (Q := fun k v => ((∃ t, k = .text t) ∧ v.Declares) ∧ v.KeysOnce)
        (fun k v h => h.1) ?_ hes fun e he => ⟨hfs e he, hvalues e he⟩⟩
      rintro k k' v w - ⟨htext, hv⟩ ⟨⟨-, hw⟩, hwkeys⟩
      exact ⟨htext, hv.mergeOver hw hwkeys⟩
  · rwa [Data.mergeOver_leaf (h.flat key hkey hmodules upper hupper).ne_map]

/-- An accepted value is accepted in any order. -/
theorem reordered {key : Text} (hkey : key ∈ Settings.names) {d d' : Data} (hsame : d.Reordered d')
    (hkeys : d.KeysOnce) (hd' : schema.Accepts key d') : schema.Accepts key d := by
  by_cases hmodules : key = "modules"
  · subst hmodules
    rw [h.modules] at hd' ⊢
    obtain ⟨es', rfl, hes'⟩ := hd'
    obtain ⟨es, rfl⟩ : ∃ es, d = .map es := by
      cases hsame
      exact ⟨_, rfl⟩
    refine ⟨es, rfl, fun e he => ?_⟩
    obtain ⟨v', hv', hvalue⟩ := hsame.getBy? (hkeys.getBy?_of_mem he)
    obtain ⟨k', hk', hmem⟩ := Entries.exists_mem_of_getBy? hv'
    obtain ⟨⟨t, rfl⟩, hdeclares⟩ := hes' _ hmem
    exact ⟨⟨t, Scalar.eq_text_of_key_eq hk'.symm⟩, hdeclares.reordered hvalue⟩
  · rwa [hsame.eq_of_flat (h.flat key hkey hmodules d' hd')]

end Lax

/-! ### Accepted entries -/

/-- Entries that are settings with accepted values. -/
def AllAccepted (schema : Schema) (es : List (Scalar × Data)) : Prop :=
  ∀ e ∈ es, ∃ key ∈ Settings.names, e.1 = .text key ∧ schema.Accepts key e.2

namespace AllAccepted

variable {es : List (Scalar × Data)}

theorem nil (schema : Schema) : schema.AllAccepted [] := by
  intro e he
  cases he

theorem passes (hes : schema.AllAccepted es) (h : schema.Lax) : (schema (.map es)).Passes := by
  refine h.separate es fun key _ v hv => ?_
  obtain ⟨k, hk, hmem⟩ := Entries.exists_mem_of_getBy? hv
  obtain ⟨key', -, hkey', haccepts⟩ := hes _ hmem
  obtain rfl : key' = key :=
    Scalar.text.inj (hkey'.symm.trans (Scalar.eq_text_of_key_eq hk))
  exact haccepts

/-- Accepted entries laid over accepted ones. -/
theorem merge (h : schema.Lax) {lower upper : List (Scalar × Data)}
    (hlower : schema.AllAccepted lower) (hupper : schema.AllAccepted upper)
    (hkeys : (Data.map upper).KeysOnce) : schema.AllAccepted (Data.mergeEntries lower upper) := by
  cases hkeys with
  | map _ hvalues =>
    refine Data.forall_mergeEntries
      (P := fun k v => ∃ key ∈ Settings.names, k = .text key ∧ schema.Accepts key v)
      (Q := fun k v => (∃ key ∈ Settings.names, k = .text key ∧ schema.Accepts key v) ∧ v.KeysOnce)
      (fun k v h => h.1) ?_ hlower fun e he => ⟨hupper e he, hvalues e he⟩
    rintro k k' v w hk ⟨key, hkey, rfl, hv⟩ ⟨⟨key', -, rfl, hw⟩, hwkeys⟩
    obtain rfl : key = key' := Scalar.text.inj (Scalar.eq_text_of_key_eq hk)
    exact ⟨key, hkey, rfl, h.mergeOver hkey hv hw hwkeys⟩

theorem reordered (h : schema.Lax) {es' : List (Scalar × Data)}
    (hsame : (Data.map es).Reordered (.map es')) (hkeys : (Data.map es).KeysOnce)
    (hes' : schema.AllAccepted es') : schema.AllAccepted es := by
  intro e he
  obtain ⟨v', hv', hvalue⟩ := hsame.getBy? (hkeys.getBy?_of_mem he)
  obtain ⟨k', hk', hmem⟩ := Entries.exists_mem_of_getBy? hv'
  obtain ⟨key, hkey, rfl, haccepts⟩ := hes' _ hmem
  cases hkeys with
  | map _ hvalues =>
    exact ⟨key, hkey, Scalar.eq_text_of_key_eq hk'.symm,
      h.reordered hkey hvalue (hvalues e he) haccepts⟩

/-- An accepted setting written among accepted ones. -/
theorem putBy (hes : schema.AllAccepted es) {key : Text} (hkey : key ∈ Settings.names) {v : Data}
    (hv : schema.Accepts key v) :
    schema.AllAccepted (Entries.putBy Scalar.sameKey (.text key) v es) := by
  intro e he
  rcases Entries.eq_or_mem_of_mem_putBy he with ⟨-, rfl⟩ | ⟨_, -, hk, -, hvalue⟩ | he
  · exact ⟨key, hkey, rfl, hv⟩
  · exact ⟨key, hkey, Scalar.eq_text_of_key_eq hk, hvalue ▸ hv⟩
  · exact hes e he

end AllAccepted

end Schema

end StyleImport
