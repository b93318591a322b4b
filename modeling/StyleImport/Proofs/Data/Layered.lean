/-
Documents laid over each other, seen path by path.

What stands at a path of the merged document depends on what stands there in both documents, and
where the upper one has nothing, on whether it has cut the path off with a value that is no map.

* `Data.KeysOnce` — documents whose maps have each key once;
* `Data.getBy?_mergeEntries`, `Data.keys_mergeEntries` — the values and the keys of a merged map;
* `Data.at?_mergeOver_of_some`, `Data.at?_mergeOver_of_none` — what stands at a path;
* `Data.laidOver_mergeEntries` — the laws of a document that is laid over another one.
-/
import Mathlib.Tactic.Common
import StyleImport.Data.Merge

namespace StyleImport

/-! ### Entries whose keys are scalars -/

namespace Entries

variable {α : Type}

/-- Entries with all keys that count as one spelled alike. -/
def keyed (es : List (Scalar × α)) : List (Scalar × α) := es.map fun e => (e.1.key, e.2)

theorem getBy?_sameKey (k : Scalar) (es : List (Scalar × α)) :
    getBy? Scalar.sameKey k es = get? k.key (keyed es) := by
  induction es with
  | nil => rfl
  | cons e es ih =>
    obtain ⟨k', v⟩ := e
    by_cases h : k'.key = k.key
    · simp [getBy?, get?, keyed, Scalar.sameKey, h]
    · simpa [getBy?, get?, keyed, Scalar.sameKey, h] using ih

theorem keyed_putBy (k : Scalar) (v : α) (es : List (Scalar × α)) :
    keyed (putBy Scalar.sameKey k v es) = put k.key v (keyed es) := by
  induction es with
  | nil => rfl
  | cons e es ih =>
    obtain ⟨k', v'⟩ := e
    by_cases h : k'.key = k.key
    · simp [putBy, put, keyed, Scalar.sameKey, h]
    · simpa [putBy, put, keyed, Scalar.sameKey, h] using ih

theorem getBy?_putBy_self {k k' : Scalar} (h : k.key = k'.key) (v : α) (es : List (Scalar × α)) :
    getBy? Scalar.sameKey k (putBy Scalar.sameKey k' v es) = some v := by
  rw [getBy?_sameKey, keyed_putBy, h, get?_put_self]

theorem getBy?_putBy_of_ne {k k' : Scalar} (h : k.key ≠ k'.key) (v : α) (es : List (Scalar × α)) :
    getBy? Scalar.sameKey k (putBy Scalar.sameKey k' v es) = getBy? Scalar.sameKey k es := by
  rw [getBy?_sameKey, keyed_putBy, get?_put_of_ne h, getBy?_sameKey]

theorem getBy?_congr {k k' : Scalar} (h : k.key = k'.key) (es : List (Scalar × α)) :
    getBy? Scalar.sameKey k es = getBy? Scalar.sameKey k' es := by
  rw [getBy?_sameKey, getBy?_sameKey, h]

theorem exists_mem_of_getBy? {k : Scalar} {v : α} {es : List (Scalar × α)}
    (h : getBy? Scalar.sameKey k es = some v) : ∃ k', k'.key = k.key ∧ (k', v) ∈ es := by
  rw [getBy?_sameKey] at h
  obtain ⟨⟨k', v'⟩, he, heq⟩ := List.mem_map.mp (mem_of_get? h)
  obtain ⟨hk, rfl⟩ := Prod.mk.inj heq
  exact ⟨k', hk, he⟩

theorem keys_keyed (es : List (Scalar × α)) : keys (keyed es) = (keys es).map Scalar.key := by
  simp [keys, keyed]

/-- A key has a value if it counts as one of the keys. -/
theorem isSome_getBy? (k : Scalar) (es : List (Scalar × α)) :
    (getBy? Scalar.sameKey k es).isSome = true ↔ k.key ∈ (keys es).map Scalar.key := by
  rw [getBy?_sameKey, ← keys_keyed, mem_keys_iff, Option.isSome_iff_exists]

/-- A new key goes to the end. -/
theorem putBy_of_getBy?_eq_none {k : Scalar} {es : List (Scalar × α)}
    (h : getBy? Scalar.sameKey k es = none) (v : α) :
    putBy Scalar.sameKey k v es = es ++ [(k, v)] := by
  induction es with
  | nil => rfl
  | cons e es ih =>
    obtain ⟨k', v'⟩ := e
    by_cases hk : k'.key = k.key
    · simp [getBy?, Scalar.sameKey, hk] at h
    · have hrest : getBy? Scalar.sameKey k es = none := by
        simpa [getBy?, Scalar.sameKey, hk] using h
      simpa [putBy, Scalar.sameKey, hk] using ih hrest

/-- An entry after one was written: the one that was, at the end or where the key's value stood, or
one that was there. -/
theorem eq_or_mem_of_mem_putBy {k : Scalar} {v : α} {es : List (Scalar × α)} {e : Scalar × α}
    (h : e ∈ putBy Scalar.sameKey k v es) :
    (getBy? Scalar.sameKey k es = none ∧ e = (k, v)) ∨
      (∃ w, getBy? Scalar.sameKey k es = some w ∧ e.1.key = k.key ∧ (e.1, w) ∈ es ∧ e.2 = v) ∨
      e ∈ es := by
  induction es with
  | nil => exact .inl ⟨rfl, List.mem_singleton.mp h⟩
  | cons e' es ih =>
    obtain ⟨k', v'⟩ := e'
    by_cases hk : k'.key = k.key
    · have hput : putBy Scalar.sameKey k v ((k', v') :: es) = (k', v) :: es := by
        simp [putBy, Scalar.sameKey, hk]
      have hget : getBy? Scalar.sameKey k ((k', v') :: es) = some v' := by
        simp [getBy?, Scalar.sameKey, hk]
      rw [hput] at h
      rcases List.mem_cons.mp h with rfl | h
      · exact .inr (.inl ⟨v', hget, hk, List.mem_cons_self, rfl⟩)
      · exact .inr (.inr (List.mem_cons_of_mem _ h))
    · have hput : putBy Scalar.sameKey k v ((k', v') :: es)
          = (k', v') :: putBy Scalar.sameKey k v es := by
        simp [putBy, Scalar.sameKey, hk]
      have hget : getBy? Scalar.sameKey k ((k', v') :: es) = getBy? Scalar.sameKey k es := by
        simp [getBy?, Scalar.sameKey, hk]
      rw [hput] at h
      rw [hget]
      rcases List.mem_cons.mp h with rfl | h
      · exact .inr (.inr List.mem_cons_self)
      · rcases ih h with hnew | ⟨w, hw, hkey, hmem, hvalue⟩ | hmem
        · exact .inl hnew
        · exact .inr (.inl ⟨w, hw, hkey, List.mem_cons_of_mem _ hmem, hvalue⟩)
        · exact .inr (.inr (List.mem_cons_of_mem _ hmem))

theorem keys_putBy (k : Scalar) (v : α) (es : List (Scalar × α)) :
    keys (putBy Scalar.sameKey k v es)
      = if (getBy? Scalar.sameKey k es).isSome then keys es else keys es ++ [k] := by
  induction es with
  | nil => rfl
  | cons e es ih =>
    obtain ⟨k', v'⟩ := e
    by_cases h : k'.key = k.key
    · simp [getBy?, putBy, keys, Scalar.sameKey, h]
    · have hcons : keys (putBy Scalar.sameKey k v ((k', v') :: es))
          = k' :: keys (putBy Scalar.sameKey k v es) := by
        simp [putBy, keys, Scalar.sameKey, h]
      have hget : getBy? Scalar.sameKey k ((k', v') :: es) = getBy? Scalar.sameKey k es := by
        simp [getBy?, Scalar.sameKey, h]
      rw [hcons, hget, ih]
      split <;> rfl

/-- Writing an entry keeps each key once. -/
theorem nodup_keys_putBy {k : Scalar} {v : α} {es : List (Scalar × α)}
    (h : ((keys es).map Scalar.key).Nodup) :
    ((keys (putBy Scalar.sameKey k v es)).map Scalar.key).Nodup := by
  rw [keys_putBy]
  split
  · exact h
  · rename_i hnew
    rw [isSome_getBy?] at hnew
    rw [List.map_append, List.map_singleton, List.nodup_append]
    refine ⟨h, by simp, ?_⟩
    intro a ha b hb hab
    obtain rfl := List.mem_singleton.mp hb
    exact hnew (hab ▸ ha)

end Entries

namespace Data

open Entries

/-! ### Each key once -/

/-- The maps of the document have each key once. -/
inductive KeysOnce : Data → Prop
  | scalar (s : Scalar) : KeysOnce (.scalar s)
  | list {items : List Data} : (∀ d ∈ items, d.KeysOnce) → KeysOnce (.list items)
  | map {entries : List (Scalar × Data)} :
    ((keys entries).map Scalar.key).Nodup → (∀ e ∈ entries, e.2.KeysOnce) → KeysOnce (.map entries)

/-- The first key of a map does not come again. -/
theorem KeysOnce.head_not_mem {k : Scalar} {v : Data} {es : List (Scalar × Data)}
    (h : (Data.map ((k, v) :: es)).KeysOnce) : getBy? Scalar.sameKey k es = none := by
  cases h with
  | map hkeys hvalues =>
    have hk : k.key ∉ (keys es).map Scalar.key := (List.nodup_cons.mp hkeys).1
    rw [← isSome_getBy?, Bool.not_eq_true, Option.isSome_eq_false_iff] at hk
    exact Option.isNone_iff_eq_none.mp hk

theorem KeysOnce.ne_head {k : Scalar} {v : Data} {es : List (Scalar × Data)}
    (h : (Data.map ((k, v) :: es)).KeysOnce) {k' : Scalar} (hk' : k' ∈ keys es) : k'.key ≠ k.key := by
  intro heq
  have hmem : (getBy? Scalar.sameKey k es).isSome = true :=
    (isSome_getBy? k es).mpr (heq ▸ List.mem_map_of_mem hk')
  rw [h.head_not_mem] at hmem
  cases hmem

theorem KeysOnce.tail {e : Scalar × Data} {es : List (Scalar × Data)}
    (h : (Data.map (e :: es)).KeysOnce) : (Data.map es).KeysOnce := by
  cases h with
  | map hkeys hvalues =>
    exact .map (List.nodup_cons.mp hkeys).2 fun e' he' => hvalues e' (List.mem_cons_of_mem _ he')

theorem KeysOnce.of_getBy? {es : List (Scalar × Data)} (h : (Data.map es).KeysOnce) {k : Scalar}
    {v : Data} (hv : getBy? Scalar.sameKey k es = some v) : v.KeysOnce := by
  cases h with
  | map _ hvalues =>
    obtain ⟨k', -, he⟩ := exists_mem_of_getBy? hv
    exact hvalues _ he

theorem KeysOnce.getBy?_of_mem {es : List (Scalar × Data)} (h : (Data.map es).KeysOnce) {k : Scalar}
    {v : Data} (hv : (k, v) ∈ es) : getBy? Scalar.sameKey k es = some v := by
  induction es with
  | nil => cases hv
  | cons e es ih =>
    obtain ⟨k', v'⟩ := e
    rcases List.mem_cons.mp hv with heq | hv
    · obtain ⟨rfl, rfl⟩ := Prod.mk.inj heq
      simp [getBy?, Scalar.sameKey]
    · have hne : ¬ k'.key = k.key := fun heq => h.ne_head (List.mem_map_of_mem hv) heq.symm
      simpa [getBy?, Scalar.sameKey, hne] using ih h.tail hv

/-! ### Merged maps -/

theorem mergeOver_leaf {upper : Data} (h : ∀ es, upper ≠ .map es) (lower : Option Data) :
    mergeOver lower upper = upper := by
  cases upper with
  | scalar s => rw [mergeOver]
  | list items => rw [mergeOver]
  | map es => exact absurd rfl (h es)

/-- What is laid over anything but a map stays as it is. -/
theorem mergeOver_of_lower {lower : Option Data} (h : ∀ es, lower ≠ some (.map es)) (upper : Data) :
    mergeOver lower upper = upper := by
  cases upper with
  | scalar s => rw [mergeOver]
  | list items => rw [mergeOver]
  | map upper =>
    rw [mergeOver]
    exact h

/-- The value of a key in a merged map: the upper one laid over the lower one, or the lower one if
the upper map has not the key. -/
theorem getBy?_mergeEntries {upper : List (Scalar × Data)} (h : (Data.map upper).KeysOnce)
    (k : Scalar) (lower : List (Scalar × Data)) :
    getBy? Scalar.sameKey k (mergeEntries lower upper)
      = match getBy? Scalar.sameKey k upper with
        | none => getBy? Scalar.sameKey k lower
        | some v => some (mergeOver (getBy? Scalar.sameKey k lower) v) := by
  induction upper generalizing lower with
  | nil => rfl
  | cons e upper ih =>
    obtain ⟨k', v⟩ := e
    rw [mergeEntries, ih h.tail]
    by_cases hk : k.key = k'.key
    · have hrest : getBy? Scalar.sameKey k upper = none :=
        (getBy?_congr hk upper).trans h.head_not_mem
      have hhead : getBy? Scalar.sameKey k ((k', v) :: upper) = some v := by
        simp [getBy?, Scalar.sameKey, hk]
      rw [hrest, hhead, getBy?_congr hk lower]
      exact getBy?_putBy_self hk _ lower
    · have hhead : getBy? Scalar.sameKey k ((k', v) :: upper) = getBy? Scalar.sameKey k upper := by
        simp [getBy?, Scalar.sameKey, Ne.symm hk]
      rw [hhead, getBy?_putBy_of_ne hk]

/-- The keys of a merged map: those of the lower map, and behind them the new ones of the upper. -/
theorem keys_mergeEntries {upper : List (Scalar × Data)} (h : (Data.map upper).KeysOnce)
    (lower : List (Scalar × Data)) :
    keys (mergeEntries lower upper)
      = keys lower ++ (keys upper).filter fun k => (getBy? Scalar.sameKey k lower).isNone := by
  induction upper generalizing lower with
  | nil =>
    rw [mergeEntries]
    exact (List.append_nil _).symm
  | cons e upper ih =>
    obtain ⟨k, v⟩ := e
    -- The first key does not come again, so the others are as new after it as they were before.
    have hsame : ∀ k' ∈ keys upper, ∀ x : Data,
        getBy? Scalar.sameKey k' (putBy Scalar.sameKey k x lower)
          = getBy? Scalar.sameKey k' lower :=
      fun k' hk' x => getBy?_putBy_of_ne (h.ne_head hk') x lower
    have hkeys : keys ((k, v) :: upper) = k :: keys upper := rfl
    rw [mergeEntries, ih h.tail, keys_putBy, hkeys,
      List.filter_congr fun k' hk' => congrArg Option.isNone (hsame k' hk' _)]
    cases hk : getBy? Scalar.sameKey k lower <;> simp [hk]

/-- A map whose keys are all new goes behind the lower one. -/
theorem mergeEntries_of_new {upper : List (Scalar × Data)} (h : (Data.map upper).KeysOnce)
    {lower : List (Scalar × Data)}
    (hnew : ∀ k ∈ keys upper, getBy? Scalar.sameKey k lower = none) :
    mergeEntries lower upper = lower ++ upper := by
  induction upper generalizing lower with
  | nil =>
    rw [mergeEntries]
    exact (List.append_nil _).symm
  | cons e upper ih =>
    obtain ⟨k, v⟩ := e
    have hk : getBy? Scalar.sameKey k lower = none := hnew k List.mem_cons_self
    have hlater : ∀ k' ∈ keys upper,
        getBy? Scalar.sameKey k' (putBy Scalar.sameKey k v lower) = none := fun k' hk' =>
      (getBy?_putBy_of_ne (h.ne_head hk') v lower).trans (hnew k' (List.mem_cons_of_mem _ hk'))
    rw [mergeEntries, hk, mergeOver_of_lower (by simp), ih h.tail hlater,
      putBy_of_getBy?_eq_none hk, List.append_assoc, List.singleton_append]

/-- What an entry of a merged map is: what holds of the lower entries, and of the upper ones that are
new, and of an upper value laid over a lower one. -/
theorem forall_mergeEntries {P Q : Scalar → Data → Prop} {lower upper : List (Scalar × Data)}
    (hnew : ∀ k v, Q k v → P k v)
    (hover : ∀ k k' v w, k.key = k'.key → P k v → Q k' w → P k (mergeOver (some v) w))
    (hlower : ∀ e ∈ lower, P e.1 e.2) (hupper : ∀ e ∈ upper, Q e.1 e.2) :
    ∀ e ∈ mergeEntries lower upper, P e.1 e.2 := by
  induction upper generalizing lower with
  | nil =>
    rw [mergeEntries]
    exact hlower
  | cons e upper ih =>
    obtain ⟨k, w⟩ := e
    rw [mergeEntries]
    refine ih (fun e he => ?_) fun e he => hupper e (List.mem_cons_of_mem _ he)
    have hw : Q k w := hupper _ List.mem_cons_self
    rcases eq_or_mem_of_mem_putBy he with ⟨hnone, rfl⟩ | ⟨v, hv, hk, hmem, hvalue⟩ | he
    · rw [hnone, mergeOver_of_lower (by simp)]
      exact hnew k w hw
    · rw [hvalue, hv]
      exact hover e.1 k v w hk (hlower _ hmem) hw
    · exact hlower e he

/-! ### Paths -/

/-- What stands at a path of keys. -/
def at? : List Scalar → Data → Option Data
  | [], d => some d
  | k :: path, .map es => (getBy? Scalar.sameKey k es).bind (at? path)
  | _ :: _, _ => none

/-- Whether a document is a map. -/
def isMap : Data → Bool
  | .map _ => true
  | _ => false

/-- A document cuts a path off if something that is no map stands on the way. -/
def Cuts (d : Data) (path : List Scalar) : Prop :=
  ∃ front v, front <+: path ∧ front ≠ path ∧ d.at? front = some v ∧ v.isMap = false

theorem KeysOnce.of_at? {path : List Scalar} {d v : Data} (h : d.KeysOnce)
    (hv : d.at? path = some v) : v.KeysOnce := by
  induction path generalizing d with
  | nil => exact Option.some.inj hv ▸ h
  | cons k path ih =>
    cases d with
    | scalar s => cases hv
    | list items => cases hv
    | map es =>
      obtain ⟨w, hw, hwv⟩ := Option.bind_eq_some_iff.mp hv
      exact ih (h.of_getBy? hw) hwv

theorem at?_append (path more : List Scalar) (d : Data) :
    d.at? (path ++ more) = (d.at? path).bind (at? more) := by
  induction path generalizing d with
  | nil => rfl
  | cons k path ih =>
    cases d with
    | scalar s => rfl
    | list items => rfl
    | map es =>
      show (getBy? Scalar.sameKey k es).bind _ = ((getBy? Scalar.sameKey k es).bind _).bind _
      cases getBy? Scalar.sameKey k es with
      | none => rfl
      | some v => exact ih v

/-- Nothing stands behind a value that is no map. -/
theorem at?_cons_of_not_map {d : Data} (h : ∀ es, d ≠ .map es) (k : Scalar) (path : List Scalar) :
    d.at? (k :: path) = none := by
  cases d with
  | scalar s => rfl
  | list items => rfl
  | map es => exact absurd rfl (h es)

/-- Where the upper document has something, that is laid over what the lower one has there. -/
theorem at?_mergeOver_of_some {path : List Scalar} {upper v : Data} (h : upper.KeysOnce)
    (hv : upper.at? path = some v) (lower : Option Data) :
    (mergeOver lower upper).at? path = some (mergeOver (lower.bind (at? path)) v) := by
  induction path generalizing lower upper with
  | nil =>
    obtain rfl : upper = v := Option.some.inj hv
    cases lower <;> rfl
  | cons k path ih =>
    cases upper with
    | scalar s => cases hv
    | list items => cases hv
    | map upper =>
      obtain ⟨w, hw, hwv⟩ := Option.bind_eq_some_iff.mp hv
      by_cases hlower : ∃ es, lower = some (.map es)
      · obtain ⟨es, rfl⟩ := hlower
        have hmerged : getBy? Scalar.sameKey k (mergeEntries es upper)
            = some (mergeOver (getBy? Scalar.sameKey k es) w) := by
          rw [getBy?_mergeEntries h, hw]
        rw [mergeOver]
        show (getBy? Scalar.sameKey k (mergeEntries es upper)).bind (at? path) = _
        rw [hmerged]
        exact ih (h.of_getBy? hw) hwv _
      · -- Nothing stands at the path in the lower document, and the upper one is taken whole.
        have hnone : lower.bind (at? (k :: path)) = none := by
          cases lower with
          | none => rfl
          | some d => exact at?_cons_of_not_map (fun es hes => hlower ⟨es, hes ▸ rfl⟩) k path
        rw [mergeOver_of_lower (fun es hes => hlower ⟨es, hes⟩), hnone,
          mergeOver_of_lower (by simp)]
        exact hv

/-- Where the upper document has nothing and has not cut the path off, the lower one counts. -/
theorem at?_mergeOver_of_none {path : List Scalar} {upper : Data} (h : upper.KeysOnce)
    (hnone : upper.at? path = none) (hcuts : ¬ upper.Cuts path) (lower : Option Data) :
    (mergeOver lower upper).at? path = lower.bind (at? path) := by
  induction path generalizing lower upper with
  | nil => cases hnone
  | cons k path ih =>
    cases upper with
    | scalar s => exact absurd ⟨[], _, List.nil_prefix, by simp, rfl, rfl⟩ hcuts
    | list items => exact absurd ⟨[], _, List.nil_prefix, by simp, rfl, rfl⟩ hcuts
    | map upper =>
      by_cases hlower : ∃ es, lower = some (.map es)
      · obtain ⟨es, rfl⟩ := hlower
        rw [mergeOver]
        show (getBy? Scalar.sameKey k (mergeEntries es upper)).bind (at? path)
          = (getBy? Scalar.sameKey k es).bind (at? path)
        rw [getBy?_mergeEntries h]
        cases hw : getBy? Scalar.sameKey k upper with
        | none => rfl
        | some w =>
          have hwnone : w.at? path = none := by
            have hat : (Data.map upper).at? (k :: path) = w.at? path := by
              simp only [at?, hw, Option.bind_some]
            exact hat.symm.trans hnone
          have hwcuts : ¬ w.Cuts path := by
            rintro ⟨front, v, hfront, hne, hv, hmap⟩
            refine hcuts ⟨k :: front, v, List.cons_prefix_cons.mpr ⟨rfl, hfront⟩, ?_, ?_, hmap⟩
            · simpa using hne
            · simpa only [at?, hw, Option.bind_some] using hv
          exact ih (h.of_getBy? hw) hwnone hwcuts _
      · have hlowerNone : lower.bind (at? (k :: path)) = none := by
          cases lower with
          | none => rfl
          | some d => exact at?_cons_of_not_map (fun es hes => hlower ⟨es, hes ▸ rfl⟩) k path
        rw [mergeOver_of_lower (fun es hes => hlower ⟨es, hes⟩), hlowerNone]
        exact hnone

/-- Behind the place where the upper document cuts a path off stands nothing. -/
theorem at?_mergeOver_of_cuts {path : List Scalar} {upper : Data} (h : upper.KeysOnce)
    (hcuts : upper.Cuts path) (lower : Option Data) : (mergeOver lower upper).at? path = none := by
  obtain ⟨front, v, ⟨rest, rfl⟩, hne, hv, hmap⟩ := hcuts
  have hleaf : ∀ es, v ≠ .map es := by
    rintro es rfl
    cases hmap
  obtain ⟨k, ks, rfl⟩ : ∃ k ks, rest = k :: ks :=
    List.exists_cons_of_ne_nil fun hnil => hne (by rw [hnil, List.append_nil])
  rw [at?_append, at?_mergeOver_of_some h hv, Option.bind_some, mergeOver_leaf hleaf]
  exact at?_cons_of_not_map hleaf k ks

/-- A document is another one with a third one laid over it. -/
structure LaidOver (lower upper merged : Data) : Prop where
  /-- What the upper document has at a path counts, unless it is a map. -/
  leaf : ∀ path v, upper.at? path = some v → v.isMap = false → merged.at? path = some v
  /-- Where both have maps, these are merged; the lower one's keys keep their order, ahead of the
  upper one's new ones. -/
  both : ∀ path below above, lower.at? path = some (.map below) →
    upper.at? path = some (.map above) →
    merged.at? path = some (.map (mergeEntries below above)) ∧
      keys (mergeEntries below above) = keys below
        ++ (keys above).filter fun k => (getBy? Scalar.sameKey k below).isNone
  /-- Where only the upper one has a map, it is taken whole. -/
  whole : ∀ path above, upper.at? path = some (.map above) →
    (∀ below, lower.at? path ≠ some (.map below)) → merged.at? path = some (.map above)
  /-- What the upper one neither has nor cuts off is as in the lower one, there or not. -/
  beneath : ∀ path, upper.at? path = none → ¬ upper.Cuts path → merged.at? path = lower.at? path
  /-- Nothing stands where neither of them has something. -/
  only : ∀ path, merged.at? path ≠ none → lower.at? path ≠ none ∨ upper.at? path ≠ none

theorem laidOver_mergeEntries {upper : List (Scalar × Data)} (h : (Data.map upper).KeysOnce)
    (lower : List (Scalar × Data)) :
    LaidOver (.map lower) (.map upper) (.map (mergeEntries lower upper)) := by
  have hmerged : Data.map (mergeEntries lower upper) = mergeOver (some (.map lower)) (.map upper) := by
    rw [mergeOver]
  rw [hmerged]
  refine ⟨?_, ?_, ?_, ?_, ?_⟩
  · intro path v hv hmap
    have hleaf : ∀ es, v ≠ .map es := by
      rintro es rfl
      cases hmap
    rw [at?_mergeOver_of_some h hv, mergeOver_leaf hleaf]
  · intro path below above hbelow habove
    refine ⟨?_, keys_mergeEntries (h.of_at? habove) below⟩
    rw [at?_mergeOver_of_some h habove, Option.bind_some, hbelow, mergeOver]
  · intro path above habove hbelow
    rw [at?_mergeOver_of_some h habove, Option.bind_some, mergeOver_of_lower hbelow]
  · intro path hnone hcuts
    exact at?_mergeOver_of_none h hnone hcuts _
  · intro path hsome
    by_contra hneither
    obtain ⟨hlower, hupper⟩ : (Data.map lower).at? path = none ∧ (Data.map upper).at? path = none := by
      simpa using hneither
    by_cases hcuts : (Data.map upper).Cuts path
    · exact hsome (at?_mergeOver_of_cuts h hcuts _)
    · exact hsome ((at?_mergeOver_of_none h hupper hcuts _).trans hlower)

end Data

end StyleImport
