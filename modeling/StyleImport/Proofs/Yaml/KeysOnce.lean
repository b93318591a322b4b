/-
YAML documents have each key once.

* `Yaml.keysOnce_toData` — the documents of elements;
* `Yaml.keysOnce_of_read`, `Yaml.keysOnce_format` — the documents of texts.
-/
import StyleImport.Proofs.Data.Format
import StyleImport.Proofs.Outcome
import StyleImport.Yaml.Format

namespace StyleImport

namespace Data

open Entries

/-- Writing an entry keeps each key once. -/
theorem KeysOnce.putBy {es : List (Scalar × Data)} (h : (Data.map es).KeysOnce) (k : Scalar)
    {v : Data} (hv : v.KeysOnce) : (Data.map (putBy Scalar.sameKey k v es)).KeysOnce := by
  cases h with
  | map hkeys hvalues =>
    refine .map (nodup_keys_putBy hkeys) fun e he => ?_
    rcases eq_or_mem_of_mem_putBy he with ⟨-, rfl⟩ | ⟨_, -, -, -, hvalue⟩ | he
    · exact hv
    · exact hvalue ▸ hv
    · exact hvalues e he

/-- A map that is written entry by entry has each key once. -/
theorem keysOnce_ofListBy {es : List (Scalar × Data)} (h : ∀ e ∈ es, e.2.KeysOnce) :
    (Data.map (ofListBy Scalar.sameKey es)).KeysOnce := by
  have hfold : ∀ acc : List (Scalar × Data), (Data.map acc).KeysOnce →
      (Data.map (es.foldl (fun acc e => Entries.putBy Scalar.sameKey e.1 e.2 acc) acc)).KeysOnce := by
    induction es with
    | nil => exact fun acc hacc => hacc
    | cons e es ih =>
      intro acc hacc
      exact ih (fun e' he' => h e' (List.mem_cons_of_mem _ he')) _
        (hacc.putBy e.1 (h e List.mem_cons_self))
  exact hfold [] (.map List.nodup_nil (by simp))

end Data

namespace Yaml

theorem keysOnce_mergedItems {start : Mark} {items : List (Element × Data)}
    {es : List (Scalar × Data)} (hitems : ∀ item ∈ items, item.2.KeysOnce)
    (h : mergedItems start items = .ok es) : ∀ e ∈ es, e.2.KeysOnce := by
  induction items generalizing es with
  | nil =>
    obtain rfl := Except.ok.inj h
    simp
  | cons item items ih =>
    obtain ⟨element, d⟩ := item
    cases d with
    | scalar s => cases h
    | list ds => cases h
    | map own =>
      obtain ⟨more, hmore, rfl⟩ := eq_ok_of_map h
      intro e he
      rcases List.mem_append.mp he with he | he
      · exact ih (fun item hitem => hitems item (List.mem_cons_of_mem _ hitem)) hmore e he
      · cases hitems _ List.mem_cons_self with
        | map _ hvalues => exact hvalues e he

theorem keysOnce_mergedEntries {start : Mark} {element : Element} {d : Data}
    {es : List (Scalar × Data)} (hd : d.KeysOnce) (h : mergedEntries start element d = .ok es) :
    ∀ e ∈ es, e.2.KeysOnce := by
  unfold mergedEntries at h
  split at h
  · obtain rfl := Except.ok.inj h
    cases hd with
    | map _ hvalues => exact hvalues
  · rename_i items ds
    cases hd with
    | list hds =>
      exact keysOnce_mergedItems (fun item hitem => hds _ (List.of_mem_zip hitem).2) h
  · cases h

mutual

/-- The document of an element has each key once. -/
theorem keysOnce_toData : ∀ (element : Element) {d : Data}, element.toData = .ok d → d.KeysOnce
  | .scalar mark tag t isPlain, d, h => by
    rw [Element.toData] at h
    obtain ⟨s, -, rfl⟩ := eq_ok_of_map h
    exact .scalar s
  | .list mark tag items, d, h => by
    rw [Element.toData] at h
    obtain ⟨-, -, h⟩ := bind_eq_ok h
    obtain ⟨ds, hds, h⟩ := bind_eq_ok h
    obtain rfl := Except.ok.inj h
    exact .list (keysOnce_itemsToData items hds)
  | .map mark tag entries, d, h => by
    rw [Element.toData] at h
    obtain ⟨-, -, h⟩ := bind_eq_ok h
    obtain ⟨⟨merged, own⟩, hes, h⟩ := bind_eq_ok h
    obtain rfl := Except.ok.inj h
    exact Data.keysOnce_ofListBy (keysOnce_entriesToData mark entries hes)

theorem keysOnce_itemsToData :
    ∀ (items : List Element) {ds : List Data}, itemsToData items = .ok ds → ∀ d ∈ ds, d.KeysOnce
  | [], ds, h => by
    obtain rfl := Except.ok.inj h
    simp
  | item :: items, ds, h => by
    rw [itemsToData] at h
    obtain ⟨d, hd, h⟩ := bind_eq_ok h
    obtain ⟨ds', hds', h⟩ := bind_eq_ok h
    obtain rfl := Except.ok.inj h
    intro d' hd'
    rcases List.mem_cons.mp hd' with rfl | hd'
    · exact keysOnce_toData item hd
    · exact keysOnce_itemsToData items hds' d' hd'

theorem keysOnce_entriesToData (start : Mark) :
    ∀ (entries : List (Element × Element)) {merged own : List (Scalar × Data)},
      entriesToData start entries = .ok (merged, own) → ∀ e ∈ merged ++ own, e.2.KeysOnce
  | [], merged, own, h => by
    obtain ⟨rfl, rfl⟩ := Prod.mk.inj (Except.ok.inj h)
    simp
  | (k, v) :: entries, merged, own, h => by
    rw [entriesToData] at h
    obtain ⟨key, hkey, h⟩ := bind_eq_ok h
    obtain ⟨d, hd, h⟩ := bind_eq_ok h
    obtain ⟨⟨merged', own'⟩, hes, h⟩ := bind_eq_ok h
    have hvalue : d.KeysOnce := keysOnce_toData v hd
    have hrest := keysOnce_entriesToData start entries hes
    cases key with
    | some key =>
      obtain ⟨rfl, rfl⟩ := Prod.mk.inj (Except.ok.inj h)
      intro e he
      rcases List.mem_append.mp he with he | he
      · exact hrest e (List.mem_append_left _ he)
      · rcases List.mem_cons.mp he with rfl | he
        · exact hvalue
        · exact hrest e (List.mem_append_right _ he)
    | none =>
      obtain ⟨more, hmore, h⟩ := bind_eq_ok h
      obtain ⟨rfl, rfl⟩ := Prod.mk.inj (Except.ok.inj h)
      intro e he
      rw [List.append_assoc] at he
      rcases List.mem_append.mp he with he | he
      · exact keysOnce_mergedEntries hvalue hmore e he
      · exact hrest e he

end

theorem keysOnce_of_read {t : Text} {d : Data} (h : read t = .ok d) : d.KeysOnce := by
  unfold read at h
  split at h
  · cases h
  · split at h
    · cases h
    · obtain rfl := Except.ok.inj h
      exact .scalar .null
    · rename_i element _
      exact keysOnce_toData element (eq_ok_of_mapError h)

theorem keysOnce_format : format.KeysOnce :=
  fun _ _ h => keysOnce_of_read (eq_ok_of_mapError h)

end Yaml

end StyleImport
