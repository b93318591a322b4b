/-
The two readers of a map.

On the way in, the keys of a dictionary become texts, so keys that are shown alike come to be one
key twice in a map.  Looking the key up finds the first of its entries.  Made into a dictionary
again, the map has the key at the place of the first entry, but with the value of the last one.

* `HostValue.under` — the values whose keys are shown as some text;
* `HostValue.carried` — a value of the host there and back;
* `Value.map_toHost_get?`, `Value.get?_of_toHost` — the first and the last of these values;
* `Value.lookup_agrees_iff` — when the two readers agree about a key;
* `Value.lookup_disagrees` — and that they do not have to.
-/
import StyleImport.Proofs.Stylesheet.Conversion

namespace StyleImport

namespace HostValue

/-- The value of a text key of a dictionary. -/
def get? (key : Text) : HostValue → Option HostValue
  | .dictionary entries => Entries.getBy? HostKey.same (.scalar (.text key)) entries
  | _ => none

/-- A value of the host after it has been a stylesheet's. -/
def carried (h : HostValue) : Except Failure HostValue := do
  let v ← Value.ofHost h
  v.toHost

/-- A host value made of scalars, lists and dictionaries, whatever their keys. -/
inductive IsData : HostValue → Prop
  | scalar (s : Scalar) : IsData (.scalar s)
  | list {items : List HostValue} : (∀ h ∈ items, h.IsData) → IsData (.list items)
  | dictionary {entries : List (HostKey × HostValue)} : (∀ e ∈ entries, e.2.IsData) →
    IsData (.dictionary entries)

/-- The values whose keys are shown as `key`, in their order. -/
def under (key : Text) (entries : List (HostKey × HostValue)) : List HostValue :=
  (entries.filter fun e => e.1.shown = key).map Prod.snd

theorem under_cons_of_eq {key : Text} {k : HostKey} (hk : k.shown = key) (h : HostValue)
    (entries : List (HostKey × HostValue)) :
    under key ((k, h) :: entries) = h :: under key entries := by
  simp [under, hk]

theorem under_cons_of_ne {key : Text} {k : HostKey} (hk : k.shown ≠ key) (h : HostValue)
    (entries : List (HostKey × HostValue)) :
    under key ((k, h) :: entries) = under key entries := by
  simp [under, hk]

theorem getBy?_map_entry (key : Text) (es : List (Text × HostValue)) :
    Entries.getBy? HostKey.same (.scalar (.text key)) (es.map entry) = Entries.get? key es := by
  induction es with
  | nil => rfl
  | cons e es ih =>
    obtain ⟨t, h⟩ := e
    by_cases ht : t = key
    · simp [Entries.getBy?, Entries.get?, entry, same_text, ht]
    · simpa [Entries.getBy?, Entries.get?, entry, same_text, ht] using ih

end HostValue

open HostValue

namespace Value

variable {d : List (HostKey × HostValue)} {m : Value}

/-! ### What comes back of a dictionary -/

/-- The dictionary that comes back has the values that come back, under the texts of their keys. -/
theorem toHost_of_dictionary (hm : ofHost (.dictionary d) = .ok m) :
    toHost m = (d.mapM fun e => (carried e.2).map (e.1.shown, ·)).map fun written =>
      .dictionary ((written.foldl (fun acc e => Entries.put e.1 e.2 acc) []).map
        HostValue.entry) := by
  rw [ofHost_dictionary] at hm
  obtain ⟨fs, hfs, rfl⟩ := eq_ok_of_map hm
  have hcarried (e : HostKey × HostValue) :
      ((ofHost e.2).map ((e.1.shown, true), ·)
          >>= fun f : (Text × Bool) × Value => (toHost f.2).map (f.1.1, ·))
        = (carried e.2).map (e.1.shown, ·) := by
    unfold carried
    cases ofHost e.2 <;> rfl
  rw [toHost_map, mapM_of_mapM_eq_ok hfs]
  simp only [hcarried]

/-- A map answers with the first of the values whose keys are shown as the text asked for. -/
theorem map_toHost_get? (hm : ofHost (.dictionary d) = .ok m) (k : Text) :
    (m.get? k).map toHost = (under k d).head?.map carried := by
  rw [ofHost_dictionary] at hm
  obtain ⟨fs, hfs, rfl⟩ := eq_ok_of_map hm
  show (getIn? k (fs.map entry)).map toHost = _
  clear hm
  induction d generalizing fs with
  | nil =>
    obtain rfl : [] = fs := Except.ok.inj hfs
    rfl
  | cons e d ih =>
    obtain ⟨key, h⟩ := e
    rw [List.mapM_cons] at hfs
    obtain ⟨f, hf, hfs⟩ := bind_eq_ok hfs
    obtain ⟨fs', hfs', hfs⟩ := bind_eq_ok hfs
    obtain rfl : f :: fs' = fs := Except.ok.inj hfs
    obtain ⟨v, hv, rfl⟩ := eq_ok_of_map hf
    rw [List.map_cons, entry, getIn?]
    by_cases hk : key.shown = k
    · have hcarried : h.carried = toHost v := by
        unfold carried
        rw [hv]
        rfl
      rw [if_pos hk, under_cons_of_eq hk, List.head?_cons, Option.map_some, Option.map_some,
        hcarried]
    · rw [if_neg hk, under_cons_of_ne hk, ih fs' hfs']

/-- Among the entries written, the last of the values under a text is the one that is found. -/
theorem get?_foldl_put (k : Text) {written : List (Text × HostValue)}
    (hwritten : (d.mapM fun e => (carried e.2).map (e.1.shown, ·)) = .ok written)
    (done : List (Text × HostValue)) :
    (Entries.get? k (written.foldl (fun acc e => Entries.put e.1 e.2 acc) done)).map .ok
      = ((under k d).getLast?.map carried).or ((Entries.get? k done).map .ok) := by
  induction d generalizing written done with
  | nil =>
    obtain rfl : [] = written := Except.ok.inj hwritten
    rfl
  | cons e d ih =>
    obtain ⟨key, h⟩ := e
    rw [List.mapM_cons] at hwritten
    obtain ⟨w, hw, hwritten⟩ := bind_eq_ok hwritten
    obtain ⟨ws, hws, hwritten⟩ := bind_eq_ok hwritten
    obtain rfl : w :: ws = written := Except.ok.inj hwritten
    obtain ⟨g, hg, rfl⟩ := eq_ok_of_map hw
    rw [List.foldl_cons, ih hws]
    by_cases hk : key.shown = k
    · rw [under_cons_of_eq hk, hk, Entries.get?_put_self, List.getLast?_cons]
      cases (under k d).getLast? with
      | none => exact congrArg some hg.symm
      | some last => rfl
    · rw [under_cons_of_ne hk, Entries.get?_put_of_ne (Ne.symm hk)]

/-- The dictionary has the last of the values whose keys are shown as the text asked for. -/
theorem get?_of_toHost (hm : ofHost (.dictionary d) = .ok m) {h : HostValue}
    (hh : toHost m = .ok h) (k : Text) :
    (h.get? k).map .ok = (under k d).getLast?.map carried := by
  rw [toHost_of_dictionary hm] at hh
  obtain ⟨written, hwritten, rfl⟩ := eq_ok_of_map hh
  rw [HostValue.get?, getBy?_map_entry]
  exact (get?_foldl_put k hwritten []).trans (Option.or_none)

/-- Data come back, if not always as they were. -/
theorem exists_carried {h : HostValue} (hdata : h.IsData) : ∃ back, h.carried = .ok back := by
  induction hdata with
  | scalar s => cases s <;> exact ⟨_, rfl⟩
  | @list items _ ih =>
    obtain ⟨backs, hbacks⟩ : ∃ backs, items.mapM carried = .ok backs := exists_mapM_eq_ok ih
    obtain ⟨vs, hvs⟩ : ∃ vs, items.mapM ofHost = .ok vs := exists_mapM_eq_ok fun h hh => by
      obtain ⟨back, hback⟩ := ih h hh
      obtain ⟨v, hv, -⟩ := bind_eq_ok hback
      exact ⟨v, hv⟩
    have hin : ofHost (.list items) = .ok (.list vs .comma) := by
      rw [ofHost_list, hvs]
      rfl
    have hout : toHost (.list vs .comma) = .ok (.list backs) := by
      rw [toHost_list, mapM_of_mapM_eq_ok hvs]
      exact congrArg (Except.map HostValue.list) hbacks
    refine ⟨.list backs, ?_⟩
    rw [carried, hin]
    exact hout
  | @dictionary entries _ ih =>
    obtain ⟨fs, hfs⟩ : ∃ fs, (entries.mapM fun e => (ofHost e.2).map ((e.1.shown, true), ·))
        = .ok fs := exists_mapM_eq_ok fun e he => by
      obtain ⟨back, hback⟩ := ih e he
      obtain ⟨v, hv, -⟩ := bind_eq_ok hback
      exact ⟨((e.1.shown, true), v), congrArg (Except.map ((e.1.shown, true), ·)) hv⟩
    have hin : ofHost (.dictionary entries) = .ok (.map (fs.map entry)) := by
      rw [ofHost_dictionary, hfs]
      rfl
    obtain ⟨written, hwritten⟩ : ∃ written,
        (entries.mapM fun e => (carried e.2).map (e.1.shown, ·)) = .ok written :=
      exists_mapM_eq_ok fun e he => by
        obtain ⟨back, hback⟩ := ih e he
        exact ⟨(e.1.shown, back), congrArg (Except.map (e.1.shown, ·)) hback⟩
    have hout := toHost_of_dictionary hin
    rw [hwritten] at hout
    refine ⟨.dictionary
      ((written.foldl (fun acc e => Entries.put e.1 e.2 acc) []).map HostValue.entry), ?_⟩
    rw [carried, hin]
    exact hout

/-! ### The two readers -/

/-- **Looking a key up in a map and in the dictionary made of it.**  The map of a dictionary makes a
dictionary again, unless a value is or contains what is no data of the host and does not come back
itself.  A text is a key of that dictionary exactly when it is found in the map.  What is found in
the map, made a host value, is what the dictionary has under that text exactly when the first and
the last of the values whose keys are shown as this text come back alike. -/
theorem lookup_agrees_iff (hm : ofHost (.dictionary d) = .ok m) :
    (∃ failure, toHost m = .error failure ∧
        ∃ e ∈ d, ¬ e.2.IsData ∧ e.2.carried = .error failure) ∨
      ∃ h, toHost m = .ok h ∧ ∀ k : Text,
        (m.get? k = none ↔ h.get? k = none) ∧
          ((m.get? k).map toHost = (h.get? k).map .ok ↔
            (under k d).head?.map carried = (under k d).getLast?.map carried) := by
  cases hh : toHost m with
  | error failure =>
    rw [toHost_of_dictionary hm] at hh
    obtain ⟨e, he, hwritten⟩ := mapM_eq_error (eq_error_of_map hh)
    have hfails : e.2.carried = .error failure := eq_error_of_map hwritten
    refine .inl ⟨failure, rfl, e, he, fun hdata => ?_, hfails⟩
    obtain ⟨back, hback⟩ := exists_carried hdata
    rw [hback] at hfails
    cases hfails
  | ok h =>
    refine .inr ⟨h, rfl, fun k => ?_⟩
    have hfirst := map_toHost_get? hm k
    have hlast := get?_of_toHost hm hh k
    refine ⟨?_, by rw [hfirst, hlast]⟩
    calc m.get? k = none
        ↔ (m.get? k).map toHost = none := Option.map_eq_none_iff.symm
      _ ↔ under k d = [] := by rw [hfirst, Option.map_eq_none_iff, List.head?_eq_none_iff]
      _ ↔ (h.get? k).map Except.ok = (none : Option (Except Failure HostValue)) := by
        rw [hlast, Option.map_eq_none_iff, List.getLast?_eq_none_iff]
      _ ↔ h.get? k = none := Option.map_eq_none_iff

/-- A number is found under its text, and the dictionary has the same value there. -/
theorem lookup_agrees_of_number_key :
    let d : List (HostKey × HostValue) :=
      [(.scalar (.integer 1), .scalar (.text ['a'])), (.scalar (.text ['x']), .scalar .null)]
    let m : Value := .map [(quoted ['1'], quoted ['a']), (quoted ['x'], .null)]
    ofHost (.dictionary d) = .ok m ∧ ∃ h, toHost m = .ok h ∧
      (m.get? ['1']).map toHost = (h.get? ['1']).map .ok ∧
        (m.get? ['y'] = none ↔ h.get? ['y'] = none) := by
  intro d m
  have hm : ofHost (.dictionary d) = .ok m := rfl
  refine ⟨hm, ?_⟩
  rcases lookup_agrees_iff hm with ⟨failure, hfails, -⟩ | ⟨h, hh, hagrees⟩
  · cases hfails
  · exact ⟨h, hh, (hagrees ['1']).2.mpr rfl, (hagrees ['y']).1⟩

/-- The number and its text are two keys of a dictionary and one text: the map answers with the
number's value, and the dictionary made of it has the text's. -/
theorem lookup_disagrees :
    let number : HostKey := .scalar (.integer 1)
    let text : HostKey := .scalar (.text ['1'])
    HostKey.same number text = false ∧
      ∃ m h, ofHost (.dictionary [(number, .scalar (.text ['a'])), (text, .scalar (.text ['b']))])
          = .ok m ∧ toHost m = .ok h ∧
        (m.get? ['1']).map toHost = some (.ok (.scalar (.text ['a']))) ∧
        h.get? ['1'] = some (.scalar (.text ['b'])) ∧
        (m.get? ['1']).map toHost ≠ (h.get? ['1']).map .ok := by
  intro number text
  refine ⟨by decide, _, _, rfl, rfl, rfl, rfl, fun h => ?_⟩
  have hsame : Scalar.text ['a'] = .text ['b'] :=
    HostValue.scalar.inj (Except.ok.inj (Option.some.inj h))
  exact absurd hsame (by decide)

end Value

end StyleImport
