/-
The check of settings keeps what is assumed of such checks.

Each setting has a check of its own, and the checks of values that are no modules accept scalars and
lists of scalars alone.

* `Fields.passes_ofData` — a document is accepted exactly if each setting in it is;
* `Fields.lax_ofData` — the check of settings is lax.
-/
import StyleImport.Proofs.Settings.Accepted

namespace StyleImport

namespace Fields

open Checked

/-! ### Checks of single settings -/

theorem passes_checkField {α : Type} {key : Text} {check : Data → Checked α} {d : Data} :
    (checkField key check d).Passes ↔ ∀ v, d.get? key = some v → (check v).Passes := by
  rw [checkField, passes_field]
  simp only [passes_map]

theorem speaks_checkField {α : Type} {key : Text} {check : Data → Checked α}
    (h : ∀ d, (check d).Speaks) (d : Data) : (checkField key check d).Speaks :=
  speaks_field (fun d => (h d).map some) d

theorem speaks_checkSandbox (d : Data) : (checkSandbox d).Speaks :=
  Speaks.orElse ((speaks_boolean d).map _)

theorem speaks_checkDeclaration (d : Data) : (checkDeclaration d).Speaks := by
  have htext : ∀ key, (checkOptionalText key d).Speaks := fun key =>
    speaks_field (fun d => speaks_optional (speaks_text d)) d
  unfold checkDeclaration
  split
  · exact ((htext _).both (htext _)).map _
  · exact speaks_fail _

/-- The check of a setting accepts its value. -/
structure Accepts (key : Text) (d : Data) : Prop where
  root : key = "root" → (path d).Passes
  includePaths : key = "include_paths" → (listOf path d).Passes
  fsSandbox : key = "fs_sandbox" → (checkSandbox d).Passes
  normalizePaths : key = "normalize_paths" → (optional boolean d).Passes
  enableImportOnce : key = "enable_import_once" → (boolean d).Passes
  extensions : key = "extensions" → (listOf text d).Passes
  modules : key = "modules" → (mapOf checkDeclaration d).Passes

/-- A document is accepted exactly if the checks of all seven settings succeed. -/
theorem passes_ofData_iff_fields {d : Data} :
    (ofData d).Passes ↔
      (checkField "root" path d).Passes ∧
      (checkField "include_paths" (listOf path) d).Passes ∧
      (checkField "fs_sandbox" checkSandbox d).Passes ∧
      (checkField "normalize_paths" (optional boolean) d).Passes ∧
      (checkField "enable_import_once" boolean d).Passes ∧
      (checkField "extensions" (listOf text) d).Passes ∧
      (checkField "modules" (mapOf checkDeclaration) d).Passes := by
  unfold ofData
  dsimp only
  split
  · rename_i h₁ h₂ h₃ h₄ h₅ h₆ h₇
    exact ⟨fun _ => ⟨⟨_, h₁⟩, ⟨_, h₂⟩, ⟨_, h₃⟩, ⟨_, h₄⟩, ⟨_, h₅⟩, ⟨_, h₆⟩, ⟨_, h₇⟩⟩,
      fun _ => passes_ok _⟩
  · rename_i hnot
    refine ⟨fun h => absurd h (not_passes_error _), ?_⟩
    rintro ⟨⟨_, h₁⟩, ⟨_, h₂⟩, ⟨_, h₃⟩, ⟨_, h₄⟩, ⟨_, h₅⟩, ⟨_, h₆⟩, ⟨_, h₇⟩⟩
    exact (hnot _ _ _ _ _ _ _ h₁ h₂ h₃ h₄ h₅ h₆ h₇).elim

/-- A document is accepted exactly if each setting in it is. -/
theorem passes_ofData {d : Data} :
    (ofData d).Passes ↔ ∀ key ∈ Settings.names, ∀ v, d.get? key = some v → Accepts key v := by
  rw [passes_ofData_iff_fields]
  simp only [passes_checkField]
  constructor
  · rintro ⟨h₁, h₂, h₃, h₄, h₅, h₆, h₇⟩ key - v hv
    exact ⟨fun h => h₁ v (h ▸ hv), fun h => h₂ v (h ▸ hv), fun h => h₃ v (h ▸ hv),
      fun h => h₄ v (h ▸ hv), fun h => h₅ v (h ▸ hv), fun h => h₆ v (h ▸ hv),
      fun h => h₇ v (h ▸ hv)⟩
  · intro h
    have hname : ∀ key ∈ Settings.names, ∀ v, d.get? key = some v → Accepts key v := h
    simp only [Settings.names, List.forall_mem_cons] at hname
    obtain ⟨h₁, h₂, h₃, h₄, h₅, h₆, h₇, -⟩ := hname
    exact ⟨fun v hv => (h₁ v hv).root rfl, fun v hv => (h₂ v hv).includePaths rfl,
      fun v hv => (h₃ v hv).fsSandbox rfl, fun v hv => (h₄ v hv).normalizePaths rfl,
      fun v hv => (h₅ v hv).enableImportOnce rfl, fun v hv => (h₆ v hv).extensions rfl,
      fun v hv => (h₇ v hv).modules rfl⟩

theorem accepts_iff {key : Text} (hkey : key ∈ Settings.names) {v : Data} :
    Schema.Accepts ofData key v ↔ Accepts key v := by
  have hget : (Data.map [(.text key, v)]).get? key = some v :=
    Entries.getBy?_putBy_self (k := .text key) rfl v []
  rw [Schema.Accepts, passes_ofData]
  refine ⟨fun h => h key hkey v hget, fun h key' hkey' v' hv' => ?_⟩
  obtain ⟨k, hk, hmem⟩ := Entries.exists_mem_of_getBy? hv'
  obtain ⟨rfl, rfl⟩ := Prod.mk.inj (List.mem_singleton.mp hmem)
  obtain rfl : key = key' := Scalar.text.inj (Scalar.eq_text_of_key_eq hk)
  exact h

/-- A document that is not accepted is complained about. -/
theorem speaks_ofData (d : Data) : (ofData d).Speaks := by
  intro herror
  have hnot : ¬ (ofData d).Passes := by
    rw [herror]
    exact not_passes_error []
  refine hnot (passes_ofData_iff_fields.mpr ?_)
  unfold ofData at herror
  dsimp only at herror
  split at herror
  · cases herror
  · have hnone := Except.error.inj herror
    simp only [List.append_eq_nil_iff] at hnone
    obtain ⟨⟨⟨⟨⟨⟨h₁, h₂⟩, h₃⟩, h₄⟩, h₅⟩, h₆⟩, h₇⟩ := hnone
    exact ⟨(speaks_checkField speaks_path d).passes h₁,
      (speaks_checkField (speaks_listOf speaks_path) d).passes h₂,
      (speaks_checkField speaks_checkSandbox d).passes h₃,
      (speaks_checkField (fun v => speaks_optional (speaks_boolean v)) d).passes h₄,
      (speaks_checkField speaks_boolean d).passes h₅,
      (speaks_checkField (speaks_listOf speaks_text) d).passes h₆,
      (speaks_checkField (speaks_mapOf speaks_checkDeclaration) d).passes h₇⟩

/-! ### Accepted values -/

theorem passes_text {d : Data} : (text d).Passes ↔ ∃ t, d = .text t := by
  unfold text
  split <;> simp_all

theorem passes_path {d : Data} : (path d).Passes ↔ ∃ t, d = .text t := by
  unfold path
  split <;> simp_all

theorem passes_optional_text {d : Data} :
    (optional text d).Passes ↔ d = .null ∨ ∃ t, d = .text t := by
  unfold Checked.optional
  split
  · simp
  · rename_i hnull
    rw [passes_map, passes_text]
    exact ⟨.inr, fun h => h.resolve_left hnull⟩

theorem scalar_of_boolean {d : Data} (h : (boolean d).Passes) : ∃ s, d = .scalar s := by
  cases d with
  | scalar s => exact ⟨s, rfl⟩
  | list items => exact absurd h (not_passes_fail _)
  | map es => exact absurd h (not_passes_fail _)

theorem scalar_of_optional_boolean {d : Data} (h : (optional boolean d).Passes) :
    ∃ s, d = .scalar s := by
  unfold Checked.optional at h
  split at h
  · exact ⟨_, rfl⟩
  · exact scalar_of_boolean ((passes_map _ _).mp h)

theorem flat_of_scalar {d : Data} (h : ∃ s, d = .scalar s) : d.Flat := by
  obtain ⟨s, rfl⟩ := h
  trivial

theorem flat_of_listOf {α : Type} {check : Data → Checked α}
    (hcheck : ∀ d, (check d).Passes → ∃ t, d = .text t) {d : Data} (h : (listOf check d).Passes) :
    d.Flat := by
  obtain ⟨items, rfl, hitems⟩ := passes_listOf.mp h
  intro d hd
  obtain ⟨t, rfl⟩ := hcheck d (hitems d hd)
  exact ⟨_, rfl⟩

/-- Only the declared modules are a map. -/
theorem Accepts.flat {key : Text} {d : Data} (h : Accepts key d) (hkey : key ∈ Settings.names)
    (hmodules : key ≠ "modules") : d.Flat := by
  simp only [Settings.names, List.mem_cons, List.not_mem_nil, or_false] at hkey
  rcases hkey with hkey | hkey | hkey | hkey | hkey | hkey | hkey
  · obtain ⟨t, rfl⟩ := passes_path.mp (h.root hkey)
    trivial
  · exact flat_of_listOf (fun d => passes_path.mp) (h.includePaths hkey)
  · rcases (passes_orElse _ _).mp (h.fsSandbox hkey) with hpass | hpass
    · exact flat_of_scalar (scalar_of_boolean ((passes_map _ _).mp hpass))
    · exact flat_of_listOf (fun d => passes_path.mp) ((passes_map _ _).mp hpass)
  · exact flat_of_scalar (scalar_of_optional_boolean (h.normalizePaths hkey))
  · exact flat_of_scalar (scalar_of_boolean (h.enableImportOnce hkey))
  · exact flat_of_listOf (fun d => passes_text.mp) (h.extensions hkey)
  · exact absurd hkey hmodules

theorem passes_checkDeclaration {d : Data} : (checkDeclaration d).Passes ↔ d.Declares := by
  cases d with
  | scalar s => simp [checkDeclaration, Data.Declares]
  | list items => simp [checkDeclaration, Data.Declares]
  | map es =>
    rw [checkDeclaration, passes_map, passes_both, checkOptionalText, checkOptionalText,
      passes_field, passes_field]
    simp only [passes_optional_text]
    refine ⟨fun ⟨hdir, hmain⟩ => ⟨⟨es, rfl⟩, ?_⟩, fun ⟨_, h⟩ => ⟨h _ (.inl rfl), h _ (.inr rfl)⟩⟩
    rintro key (rfl | rfl)
    · exact hdir
    · exact hmain

/-- The check of settings is lax. -/
theorem lax_ofData : Schema.Lax ofData where
  separate es h :=
    passes_ofData.mpr fun key hkey v hv => (accepts_iff hkey).mp (h key hkey v hv)
  flat key hkey hmodules v hv := ((accepts_iff hkey).mp hv).flat hkey hmodules
  modules v := by
    have hkey : ("modules" : Text) ∈ Settings.names := by decide
    have haccepts : Accepts "modules" v ↔ (mapOf checkDeclaration v).Passes := by
      refine ⟨fun h => h.modules rfl, fun h => ⟨?_, ?_, ?_, ?_, ?_, ?_, fun _ => h⟩⟩
      all_goals exact fun heq => absurd heq (by decide)
    rw [accepts_iff hkey, haccepts, passes_mapOf]
    simp only [passes_checkDeclaration]
  unifying b := by
    refine (accepts_iff (by decide)).mpr ⟨?_, ?_, ?_, fun _ => ⟨some b, rfl⟩, ?_, ?_, ?_⟩
    all_goals exact fun heq => absurd heq (by decide)
  speaks := speaks_ofData

end Fields

end StyleImport
