/-
Checks that succeed, and checks that say why they do not.

A combined check succeeds exactly if its parts do; a check that fails always has something to say,
so that whoever hears no complaint knows that it succeeded.

* `Checked.Passes` — a check succeeds, with one equivalence for each way to combine checks;
* `Checked.Speaks` — a check does not fail silently, which all ways to combine checks keep.
-/
import Mathlib.Tactic.Common
import StyleImport.Settings.Checked

namespace StyleImport

namespace Checked

variable {α β : Type}

/-- The check succeeds. -/
def Passes (a : Checked α) : Prop := ∃ x, a = .ok x

/-- The check succeeds or says why not. -/
def Speaks (a : Checked α) : Prop := a ≠ .error []

@[simp] theorem passes_ok (x : α) : Passes (.ok x : Checked α) := ⟨x, rfl⟩

@[simp] theorem not_passes_error (cs : List Complaint) : ¬ Passes (.error cs : Checked α) := by
  rintro ⟨x, h⟩
  cases h

@[simp] theorem not_passes_fail (expected : Shape) : ¬ Passes (fail expected : Checked α) :=
  not_passes_error _

@[simp] theorem passes_map (a : Checked α) (f : α → β) : Passes (a.map f) ↔ Passes a := by
  cases a <;> simp [Except.map]

@[simp] theorem passes_inside (key : Text) (a : Checked α) : Passes (inside key a) ↔ Passes a := by
  cases a <;> simp [inside, Except.mapError]

theorem passes_both (a : Checked α) (b : Checked β) :
    Passes (both a b) ↔ Passes a ∧ Passes b := by
  cases a <;> cases b <;> simp [both]

theorem passes_orElse {first second : Text} (a b : Checked α) :
    Passes (orElse first a second b) ↔ Passes a ∨ Passes b := by
  cases a <;> cases b <;> simp [orElse]

theorem passes_field {key : Text} {default : α} {check : Data → Checked α} {d : Data} :
    Passes (field key default check d) ↔ ∀ v, d.get? key = some v → Passes (check v) := by
  unfold field
  split
  · rename_i v hv
    rw [passes_inside]
    refine ⟨fun h v' hv' => ?_, fun h => h v hv⟩
    obtain rfl : v = v' := Option.some.inj (hv.symm.trans hv')
    exact h
  · rename_i hnone
    refine ⟨fun _ v hv => ?_, fun _ => ⟨default, rfl⟩⟩
    rw [hnone] at hv
    cases hv

theorem passes_itemsFrom {check : Data → Checked α} {n : Nat} {items : List Data} :
    Passes (itemsFrom check n items) ↔ ∀ d ∈ items, Passes (check d) := by
  induction items generalizing n with
  | nil => simp [itemsFrom]
  | cons d items ih =>
    rw [itemsFrom, passes_map, passes_both, passes_inside, ih, List.forall_mem_cons]

theorem passes_listOf {check : Data → Checked α} {d : Data} :
    Passes (listOf check d) ↔ ∃ items, d = .list items ∧ ∀ d ∈ items, Passes (check d) := by
  cases d <;> simp [listOf, passes_itemsFrom]

theorem passes_textKey {k : Scalar} : Passes (textKey k) ↔ ∃ t, k = .text t := by
  cases k <;> simp [textKey]

theorem passes_entriesOf {check : Data → Checked α} {es : List (Scalar × Data)} :
    Passes (entriesOf check es) ↔ ∀ e ∈ es, (∃ t, e.1 = .text t) ∧ Passes (check e.2) := by
  induction es with
  | nil => simp [entriesOf]
  | cons e es ih =>
    rw [entriesOf, passes_map, passes_both, passes_inside, passes_both, passes_textKey, ih,
      List.forall_mem_cons]

theorem passes_mapOf {check : Data → Checked α} {d : Data} :
    Passes (mapOf check d) ↔ ∃ es, d = .map es ∧
      ∀ e ∈ es, (∃ t, e.1 = .text t) ∧ Passes (check e.2) := by
  cases d <;> simp [mapOf, passes_entriesOf]

/-! ### Checks say what is wrong -/

theorem Speaks.passes {a : Checked α} (h : a.Speaks) (hnone : complaints a = []) : Passes a := by
  cases a with
  | ok x => exact passes_ok x
  | error cs => exact absurd (congrArg Except.error hnone) h

theorem speaks_ok (x : α) : Speaks (.ok x : Checked α) := by
  intro h
  cases h

theorem speaks_fail (expected : Shape) : Speaks (fail expected : Checked α) := by
  simp [Speaks, fail]

theorem Speaks.map {a : Checked α} (h : a.Speaks) (f : α → β) : Speaks (a.map f) := by
  cases a with
  | ok x => exact speaks_ok (f x)
  | error cs => simpa [Speaks, Except.map] using h

theorem Speaks.inside {a : Checked α} (h : a.Speaks) (key : Text) : Speaks (inside key a) := by
  cases a with
  | ok x => exact speaks_ok x
  | error cs => simpa [Speaks, Checked.inside, Except.mapError] using h

theorem Speaks.both {a : Checked α} {b : Checked β} (ha : a.Speaks) (hb : b.Speaks) :
    Speaks (both a b) := by
  cases a <;> cases b <;> simp_all [Speaks, Checked.both, complaints]

theorem Speaks.orElse {first second : Text} {a b : Checked α} (ha : a.Speaks) :
    Speaks (orElse first a second b) := by
  cases a <;> cases b <;> simp_all [Speaks, Checked.orElse, complaints, Checked.inside,
    Except.mapError]

theorem speaks_boolean (d : Data) : Speaks (boolean d) := by
  unfold boolean
  repeat' split
  all_goals first
    | exact speaks_ok _
    | exact speaks_fail _

theorem speaks_text (d : Data) : Speaks (text d) := by
  unfold text
  split
  · exact speaks_ok _
  · exact speaks_fail _

theorem speaks_path (d : Data) : Speaks (path d) := by
  unfold path
  split
  · exact speaks_ok _
  · exact speaks_fail _

theorem speaks_optional {check : Data → Checked α} {d : Data} (h : (check d).Speaks) :
    Speaks (optional check d) := by
  unfold optional
  split
  · exact speaks_ok _
  · exact h.map some

theorem speaks_listOf {check : Data → Checked α} (h : ∀ d, (check d).Speaks) (d : Data) :
    Speaks (listOf check d) := by
  have hitems : ∀ (items : List Data) n, Speaks (itemsFrom check n items) := by
    intro items
    induction items with
    | nil => exact fun n => speaks_ok _
    | cons d items ih => exact fun n => (((h d).inside _).both (ih (n + 1))).map _
  cases d with
  | list items => exact hitems items 0
  | scalar s => exact speaks_fail _
  | map es => exact speaks_fail _

theorem speaks_mapOf {check : Data → Checked α} (h : ∀ d, (check d).Speaks) (d : Data) :
    Speaks (mapOf check d) := by
  have hkey : ∀ k, Speaks (textKey k) := by
    intro k
    cases k with
    | text t => exact speaks_ok t
    | _ => exact (speaks_fail _).inside _
  have hentries : ∀ es : List (Scalar × Data), Speaks (entriesOf check es) := by
    intro es
    induction es with
    | nil => exact speaks_ok _
    | cons e es ih => exact ((((hkey e.1).both (h e.2)).inside _).both ih).map _
  cases d with
  | map es => exact hentries es
  | scalar s => exact speaks_fail _
  | list items => exact speaks_fail _

theorem speaks_field {key : Text} {default : α} {check : Data → Checked α}
    (h : ∀ d, (check d).Speaks) (d : Data) : Speaks (field key default check d) := by
  unfold field
  split
  · exact (h _).inside key
  · exact speaks_ok default

end Checked

end StyleImport
