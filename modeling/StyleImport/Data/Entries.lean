/-
Entries in insertion order.

A list of pairs in which each key stands once, in the order in which the keys first came.  Writing a
key that is present replaces its value where it stands; writing a new key appends it.  Keys are
compared by a given test, so that keys of different shape may count as one.
-/

namespace StyleImport

namespace Entries

variable {κ : Type} {α : Type} {β : Type}

/-- The value of the first entry whose key counts as `k`. -/
def getBy? (same : κ → κ → Bool) (k : κ) : List (κ × α) → Option α
  | [] => none
  | (k', v) :: rest => if same k' k then some v else getBy? same k rest

/-- The entries with `v` as the value of `k`. -/
def putBy (same : κ → κ → Bool) (k : κ) (v : α) : List (κ × α) → List (κ × α)
  | [] => [(k, v)]
  | (k', v') :: rest => if same k' k then (k', v) :: rest else (k', v') :: putBy same k v rest

/-- The entries without those whose key counts as `k`. -/
def eraseBy (same : κ → κ → Bool) (k : κ) (es : List (κ × α)) : List (κ × α) :=
  es.filter fun (k', _) => !same k' k

/-- Entries written one after the other into an empty collection. -/
def ofListBy (same : κ → κ → Bool) (es : List (κ × α)) : List (κ × α) :=
  es.foldl (fun acc (k, v) => putBy same k v acc) []

/-- The keys, in the order of the entries. -/
def keys (es : List (κ × α)) : List κ := es.map Prod.fst

section DecidableEq

variable [DecidableEq κ]

/-- The value of a key. -/
def get? (k : κ) (es : List (κ × α)) : Option α := getBy? (· = ·) k es

/-- The entries with `v` as the value of `k`. -/
def put (k : κ) (v : α) (es : List (κ × α)) : List (κ × α) := putBy (· = ·) k v es

/-- The entries without the key. -/
def erase (k : κ) (es : List (κ × α)) : List (κ × α) := eraseBy (· = ·) k es

theorem get?_put_self (k : κ) (v : α) (es : List (κ × α)) : get? k (put k v es) = some v := by
  induction es with
  | nil => simp [get?, put, getBy?, putBy]
  | cons e es ih =>
    obtain ⟨k', v'⟩ := e
    by_cases h : k' = k
    · simp [get?, put, getBy?, putBy, h]
    · simpa [get?, put, getBy?, putBy, h] using ih

theorem get?_put_of_ne {k k' : κ} (h : k' ≠ k) (v : α) (es : List (κ × α)) :
    get? k' (put k v es) = get? k' es := by
  induction es with
  | nil => simp [get?, put, getBy?, putBy, Ne.symm h]
  | cons e es ih =>
    obtain ⟨k₁, v₁⟩ := e
    by_cases h₁ : k₁ = k
    · subst h₁
      simp [get?, put, getBy?, putBy, Ne.symm h]
    · by_cases h₂ : k₁ = k'
      · simp [get?, put, getBy?, putBy, h₂, h]
      · simpa [get?, put, getBy?, putBy, h₁, h₂] using ih

theorem get?_erase_self (k : κ) (es : List (κ × α)) : get? k (erase k es) = none := by
  induction es with
  | nil => rfl
  | cons e es ih =>
    obtain ⟨k', v⟩ := e
    by_cases h : k' = k
    · simpa [get?, erase, eraseBy, h] using ih
    · simpa [get?, erase, eraseBy, getBy?, h] using ih

theorem get?_erase_of_ne {k k' : κ} (h : k' ≠ k) (es : List (κ × α)) :
    get? k' (erase k es) = get? k' es := by
  induction es with
  | nil => rfl
  | cons e es ih =>
    obtain ⟨k₁, v⟩ := e
    by_cases h₁ : k₁ = k
    · subst h₁
      simpa [get?, erase, eraseBy, getBy?, Ne.symm h] using ih
    · by_cases h₂ : k₁ = k'
      · simp [get?, erase, eraseBy, getBy?, h₂, h]
      · simpa [get?, erase, eraseBy, getBy?, h₁, h₂] using ih

/-- A new key goes to the end. -/
theorem put_of_get?_eq_none {k : κ} {es : List (κ × α)} (h : get? k es = none) (v : α) :
    put k v es = es ++ [(k, v)] := by
  induction es with
  | nil => rfl
  | cons e es ih =>
    obtain ⟨k', v'⟩ := e
    by_cases h' : k' = k
    · simp [get?, getBy?, h'] at h
    · have hrest : get? k es = none := by simpa [get?, getBy?, h'] using h
      simpa [put, putBy, h'] using ih hrest

/-- The keys are those that have a value. -/
theorem mem_keys_iff {k : κ} {es : List (κ × α)} : k ∈ keys es ↔ ∃ v, get? k es = some v := by
  induction es with
  | nil => simp [keys, get?, getBy?]
  | cons e es ih =>
    obtain ⟨k', v⟩ := e
    by_cases h : k' = k
    · simp [keys, get?, getBy?, h]
    · have hcons : k ∈ keys ((k', v) :: es) ↔ k ∈ keys es := by
        simp [keys, Ne.symm h]
      rw [hcons, ih]
      simp [get?, getBy?, h]

theorem mem_of_get? {k : κ} {v : α} {es : List (κ × α)} (h : get? k es = some v) :
    (k, v) ∈ es := by
  induction es with
  | nil => simp [get?, getBy?] at h
  | cons e es ih =>
    obtain ⟨k', v'⟩ := e
    by_cases hk : k' = k
    · obtain rfl : v' = v := by simpa [get?, getBy?, hk] using h
      exact hk ▸ List.mem_cons_self
    · exact List.mem_cons_of_mem _ (ih (by simpa [get?, getBy?, hk] using h))

end DecidableEq

end Entries

end StyleImport
