/-
Which values can be shown.

Error messages show a value, and showing a number goes through a double.  A value cannot be shown if
and only if an integer beyond the doubles stands somewhere in it.

* `Value.display_eq_none` — which values these are;
* `Value.requireString_eq_error` — and what becomes of an argument that is no string.
-/
import Mathlib.Tactic.Common
import StyleImport.Proofs.Number.Double
import StyleImport.Proofs.Outcome
import StyleImport.Stylesheet.Value

namespace StyleImport

namespace Value

/-- A number stands somewhere in a value. -/
inductive Holds (amount : Amount) : Value → Prop
  | number (unit : Text) : Holds amount (.number amount unit)
  | item {items : List Value} {separator : Separator} {v : Value} :
    v ∈ items → Holds amount v → Holds amount (.list items separator)
  | key {entries : List (Value × Value)} {k v : Value} :
    (k, v) ∈ entries → Holds amount k → Holds amount (.map entries)
  | value {entries : List (Value × Value)} {k v : Value} :
    (k, v) ∈ entries → Holds amount v → Holds amount (.map entries)

/-- Whether an integer beyond the doubles stands somewhere in a value. -/
def HoldsHuge (v : Value) : Prop := ∃ n : Int, Double.beyond ≤ n.natAbs ∧ v.Holds (.integer n)

theorem holdsHuge_number {amount : Amount} {unit : Text} :
    (number amount unit).HoldsHuge ↔ displayAmount amount = none := by
  constructor
  · rintro ⟨n, hn, hholds⟩
    cases hholds
    rw [displayAmount, Double.ofInt?_eq_none.mpr hn]
    rfl
  · intro h
    cases amount with
    | integer n =>
      rw [displayAmount, Option.map_eq_none_iff] at h
      exact ⟨n, Double.ofInt?_eq_none.mp h, .number unit⟩
    | double d => simp [displayAmount] at h

theorem holdsHuge_list {items : List Value} {separator : Separator} :
    (list items separator).HoldsHuge ↔ ∃ v ∈ items, v.HoldsHuge := by
  constructor
  · rintro ⟨n, hn, hholds⟩
    cases hholds with
    | item hv hholds => exact ⟨_, hv, n, hn, hholds⟩
  · rintro ⟨v, hv, n, hn, hholds⟩
    exact ⟨n, hn, .item hv hholds⟩

theorem holdsHuge_map {entries : List (Value × Value)} :
    (map entries).HoldsHuge ↔ ∃ e ∈ entries, e.1.HoldsHuge ∨ e.2.HoldsHuge := by
  constructor
  · rintro ⟨n, hn, hholds⟩
    cases hholds with
    | key he hholds => exact ⟨_, he, .inl ⟨n, hn, hholds⟩⟩
    | value he hholds => exact ⟨_, he, .inr ⟨n, hn, hholds⟩⟩
  · rintro ⟨e, he, ⟨n, hn, hholds⟩ | ⟨n, hn, hholds⟩⟩
    · exact ⟨n, hn, .key he hholds⟩
    · exact ⟨n, hn, .value he hholds⟩

/-- A value cannot be shown if an integer beyond the doubles stands somewhere in it, and only
then. -/
theorem display_eq_none {v : Value} : v.display = none ↔ v.HoldsHuge := by
  have hshown {v : Value} (hdisplay : v.display ≠ none) (h : ∀ amount, ¬ v.Holds amount) :
      v.display = none ↔ v.HoldsHuge :=
    iff_of_false hdisplay fun ⟨n, _, hholds⟩ => h (.integer n) hholds
  -- The statements for items and entries are those that the recursion of the text needs.
  induction v using display.induct _
    (fun es => displayEntries es = none ↔ ∃ e ∈ es, e.1.HoldsHuge ∨ e.2.HoldsHuge)
    (fun vs => displayItems vs = none ↔ ∃ v ∈ vs, v.HoldsHuge) with
  | case1 | case3 | case4 | case7 | case8 | case9 =>
    exact hshown (by simp [display]) fun _ h => nomatch h
  | case2 amount unit => rw [holdsHuge_number, display, Option.map_eq_none_iff]
  | case5 items separator ih => rw [holdsHuge_list, display, Option.map_eq_none_iff, ih]
  | case6 entries ih => rw [holdsHuge_map, display, Option.map_eq_none_iff, ih]
  | case10 => simp [displayItems]
  | case11 v vs ihv ihvs =>
    simp only [displayItems, List.mem_cons, exists_eq_or_imp, ← ihv, ← ihvs]
    cases v.display <;> cases displayItems vs <;> simp
  | case12 => simp [displayEntries]
  | case13 k v es ihk ihv ihes =>
    simp only [displayEntries, List.mem_cons, exists_eq_or_imp, ← ihk, ← ihv, ← ihes]
    cases k.display <;> cases v.display <;> cases displayEntries es <;> simp

/-- An argument that is no string is a mismatch of types, if it can be shown. -/
theorem requireString_eq_error {v : Value} (hv : v ≠ .foreign) {e : Failure}
    (h : v.requireString = .error e) :
    (∃ promised, e = .promised promised) ∨ (e = .tooLarge ∧ v.HoldsHuge) := by
  unfold requireString at h
  split at h
  · simp at h
  · split at h
    · rename_i hname
      cases v <;> simp [typeName] at hname hv
    · rename_i hdisplay
      exact .inr ⟨(Except.error.inj h).symm, display_eq_none.mp hdisplay⟩
    · exact .inl ⟨_, (Except.error.inj h).symm⟩

theorem requireString_eq_ok {v : Value} {t : Text} (h : v.requireString = .ok t) :
    ∃ isQuoted, v = .string t isQuoted := by
  unfold requireString at h
  split at h
  · rename_i t' isQuoted
    exact ⟨isQuoted, by rw [Except.ok.inj h]⟩
  · split at h <;> simp at h

theorem mapM_requireString_strings (texts : List (Text × Bool)) :
    (texts.map fun (t, b) => Value.string t b).mapM Value.requireString
      = .ok (texts.map Prod.fst) := by
  rw [List.mapM_map]
  exact mapM_eq_ok_map fun _ _ => rfl

end Value

end StyleImport
