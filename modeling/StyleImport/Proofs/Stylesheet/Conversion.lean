/-
Between the values of the host and those of stylesheets, and back.

Both ways work item by item, and a dictionary is written entry by entry.  Where no two keys fall
together, what comes back is what went in: the host's data as they were, and a stylesheet's value
without what the host has no place for (`Value.plain`).

* `Value.ofHost_dictionary`, `Value.toHost_map` — dictionaries as maps, maps as dictionaries;
* `HostValue.TextKeyed`, `Value.TextKeyed` — values whose keys are texts, each standing once;
* `Value.conversions_round_trip` — what becomes of them there and back.
-/
import StyleImport.Proofs.Outcome
import StyleImport.Stylesheet.HostValue

namespace StyleImport

/-- Entries that are written one after the other stand in that order, if their keys are new. -/
theorem Entries.foldl_put_of_nodup {κ α : Type} [DecidableEq κ] (done es : List (κ × α))
    (h : (keys (done ++ es)).Nodup) :
    es.foldl (fun acc e => put e.1 e.2 acc) done = done ++ es := by
  induction es generalizing done with
  | nil => exact (List.append_nil done).symm
  | cons e es ih =>
    have hnew : get? e.1 done = none := by
      rw [← Option.not_isSome_iff_eq_none, Option.isSome_iff_exists, ← mem_keys_iff]
      intro hmem
      rw [keys, List.map_append, List.nodup_append] at h
      exact h.2.2 _ hmem e.1 (by simp) rfl
    have hsplit : done ++ e :: es = (done ++ [e]) ++ es := by simp
    rw [hsplit] at h ⊢
    rw [List.foldl_cons, put_of_get?_eq_none hnew]
    exact ih (done ++ [e]) h

/-! ### Dictionaries and maps with texts as keys -/

namespace HostValue

/-- An entry of a dictionary whose key is a text. -/
def entry (e : Text × HostValue) : HostKey × HostValue := (.scalar (.text e.1), e.2)

theorem same_text (s t : Text) :
    HostKey.same (.scalar (.text s)) (.scalar (.text t)) = decide (s = t) := by
  simp [HostKey.same, HostKey.sameScalar, Scalar.sameKey, Scalar.key]

/-- Such an entry is written as among texts. -/
theorem map_entry_put (t : Text) (h : HostValue) (es : List (Text × HostValue)) :
    (Entries.put t h es).map entry
      = Entries.putBy HostKey.same (.scalar (.text t)) h (es.map entry) := by
  induction es with
  | nil => rfl
  | cons e es ih =>
    obtain ⟨t', h'⟩ := e
    by_cases ht : t' = t
    · simp [Entries.put, Entries.putBy, entry, same_text, ht]
    · simpa [Entries.put, Entries.putBy, entry, same_text, ht] using ih

end HostValue

namespace Value

/-- An entry of a map whose key is a string, quoted or not. -/
def entry (e : (Text × Bool) × Value) : Value × Value := (.string e.1.1 e.1.2, e.2)

/-- A list goes item by item. -/
theorem ofHost_list (hs : List HostValue) :
    ofHost (.list hs) = (hs.mapM ofHost).map (.list · .comma) := by
  have hitems : ofHostItems hs = hs.mapM ofHost := by
    induction hs with
    | nil => rfl
    | cons h hs ih => rw [ofHostItems, ih, List.mapM_cons]
  rw [ofHost, hitems]

/-- A list goes item by item, whatever separates these. -/
theorem toHost_list (vs : List Value) (separator : Separator) :
    toHost (.list vs separator) = (vs.mapM toHost).map .list := by
  have hitems : toHostItems vs = vs.mapM toHost := by
    induction vs with
    | nil => rfl
    | cons v vs ih => rw [toHostItems, ih, List.mapM_cons]
  rw [toHost, hitems]

/-- The keys of a dictionary become quoted strings. -/
theorem ofHost_dictionary (es : List (HostKey × HostValue)) :
    ofHost (.dictionary es)
      = (es.mapM fun e => (ofHost e.2).map ((e.1.shown, true), ·)).map fun fs =>
          .map (fs.map entry) := by
  have hentries : ofHostEntries es
      = (es.mapM fun e => (ofHost e.2).map ((e.1.shown, true), ·)).map (·.map entry) := by
    induction es with
    | nil => rfl
    | cons e es ih =>
      obtain ⟨k, h⟩ := e
      rw [ofHostEntries, ih, List.mapM_cons]
      dsimp only
      cases ofHost h with
      | error failure => rfl
      | ok v => cases es.mapM fun e => (ofHost e.2).map ((e.1.shown, true), ·) <;> rfl
  rw [ofHost, hentries]
  cases es.mapM fun e => (ofHost e.2).map ((e.1.shown, true), ·) <;> rfl

/-- Texts are shown as they are. -/
theorem ofHost_dictionary_texts (es : List (Text × HostValue)) :
    ofHost (.dictionary (es.map HostValue.entry))
      = (es.mapM fun e => (ofHost e.2).map ((e.1, true), ·)).map fun fs =>
          .map (fs.map entry) := by
  rw [ofHost_dictionary, List.mapM_map]
  rfl

/-- The entries of a map with strings for keys are written among the texts of these. -/
theorem toHostEntries_eq (done : List (Text × HostValue)) (es : List ((Text × Bool) × Value)) :
    toHostEntries (done.map HostValue.entry) (es.map entry)
      = (es.mapM fun e => (toHost e.2).map (e.1.1, ·)).map fun written =>
          (written.foldl (fun acc e => Entries.put e.1 e.2 acc) done).map HostValue.entry := by
  induction es generalizing done with
  | nil => rfl
  | cons e es ih =>
    obtain ⟨⟨t, isQuoted⟩, v⟩ := e
    rw [List.map_cons, List.mapM_cons, entry, toHostEntries]
    cases hv : toHost v with
    | error failure => rfl
    | ok h =>
      have hrest := ih (Entries.put t h done)
      rw [HostValue.map_entry_put] at hrest
      refine hrest.trans ?_
      dsimp only
      cases es.mapM fun e => (toHost e.2).map (e.1.1, ·) <;> rfl

/-- A map with strings for keys is the dictionary of their texts, in which a text that stands twice
has the last value at the place of the first one. -/
theorem toHost_map (es : List ((Text × Bool) × Value)) :
    toHost (.map (es.map entry))
      = (es.mapM fun e => (toHost e.2).map (e.1.1, ·)).map fun written =>
          .dictionary ((written.foldl (fun acc e => Entries.put e.1 e.2 acc) []).map
            HostValue.entry) := by
  have hentries := toHostEntries_eq [] es
  rw [toHost]
  refine (congrArg (Except.map HostValue.dictionary) hentries).trans ?_
  cases es.mapM fun e => (toHost e.2).map (e.1.1, ·) <;> rfl

end Value

/-! ### There and back -/

/-- A host value made of scalars, lists and dictionaries that have texts for keys. -/
inductive HostValue.TextKeyed : HostValue → Prop
  | scalar (s : Scalar) : TextKeyed (.scalar s)
  | list {items : List HostValue} : (∀ h ∈ items, h.TextKeyed) → TextKeyed (.list items)
  | dictionary {entries : List (Text × HostValue)} : (Entries.keys entries).Nodup →
    (∀ e ∈ entries, e.2.TextKeyed) → TextKeyed (.dictionary (entries.map HostValue.entry))

namespace Value

/-- A value whose maps have strings for keys, and no text of a key twice. -/
inductive TextKeyed : Value → Prop
  | string (t : Text) (isQuoted : Bool) : TextKeyed (.string t isQuoted)
  | number (amount : Amount) (unit : Text) : TextKeyed (.number amount unit)
  | boolean (b : Bool) : TextKeyed (.boolean b)
  | null : TextKeyed .null
  | list {items : List Value} (separator : Separator) : (∀ v ∈ items, v.TextKeyed) →
    TextKeyed (.list items separator)
  | map {entries : List ((Text × Bool) × Value)} : (entries.map fun e => e.1.1).Nodup →
    (∀ e ∈ entries, e.2.TextKeyed) → TextKeyed (.map (entries.map entry))

mutual

/-- A value with every string quoted, no units, and commas in every list. -/
def plain : Value → Value
  | .string t _ => quoted t
  | .number amount _ => .number amount []
  | .boolean b => .boolean b
  | .null => .null
  | .list items _ => .list (plainItems items) .comma
  | .map entries => .map (plainEntries entries)
  | .error message cause => .error message cause
  | .foreign => .foreign

/-- The items of a list, each of them plain. -/
def plainItems : List Value → List Value
  | [] => []
  | v :: vs => plain v :: plainItems vs

/-- The entries of a map, their keys and values plain. -/
def plainEntries : List (Value × Value) → List (Value × Value)
  | [] => []
  | (k, v) :: es => (plain k, plain v) :: plainEntries es

end

theorem plainItems_eq (vs : List Value) : plainItems vs = vs.map plain := by
  induction vs with
  | nil => rfl
  | cons v vs ih => rw [plainItems, ih, List.map_cons]

theorem plainEntries_eq (es : List ((Text × Bool) × Value)) :
    plainEntries (es.map entry) = es.map fun e => (quoted e.1.1, plain e.2) := by
  induction es with
  | nil => rfl
  | cons e es ih =>
    rw [List.map_cons, List.map_cons, entry, plainEntries, ih, plain]

/-- The host's data come back as they were. -/
theorem toHost_ofHost {h : HostValue} (hkeys : h.TextKeyed) : ofHost h >>= toHost = .ok h := by
  induction hkeys with
  | scalar s => cases s <;> rfl
  | @list items _ ih =>
    obtain ⟨vs, hvs, hback⟩ := exists_mapM_mapM ih
    have hin : ofHost (.list items) = .ok (.list vs .comma) := by
      rw [ofHost_list, hvs]
      rfl
    have hout : toHost (.list vs .comma) = .ok (.list items) := by
      rw [toHost_list, hback, List.map_id']
      rfl
    rw [hin]
    exact hout
  | @dictionary entries hnodup _ ih =>
    have hround : ∀ e ∈ entries,
        (ofHost e.2).map ((e.1, true), ·) >>= (fun f => (toHost f.2).map (f.1.1, ·)) = .ok e := by
      intro e he
      obtain ⟨v, hv, hback⟩ := bind_eq_ok (ih e he)
      rw [hv]
      exact congrArg (Except.map (e.1, ·)) hback
    obtain ⟨fs, hfs, hback⟩ := exists_mapM_mapM hround
    have hin : ofHost (.dictionary (entries.map HostValue.entry)) = .ok (.map (fs.map entry)) := by
      rw [ofHost_dictionary_texts, hfs]
      rfl
    have hout : toHost (.map (fs.map entry)) = .ok (.dictionary (entries.map HostValue.entry)) := by
      rw [toHost_map, hback, List.map_id']
      show Except.ok (HostValue.dictionary _) = _
      rw [Entries.foldl_put_of_nodup [] entries hnodup, List.nil_append]
    rw [hin]
    exact hout

/-- A stylesheet's value comes back plain. -/
theorem ofHost_toHost {v : Value} (hkeys : v.TextKeyed) : toHost v >>= ofHost = .ok v.plain := by
  induction hkeys with
  | string t isQuoted => rfl
  | number amount unit => cases amount <;> rfl
  | boolean b => rfl
  | null => rfl
  | @list items separator _ ih =>
    obtain ⟨hs, hhs, hback⟩ := exists_mapM_mapM ih
    have hout : toHost (.list items separator) = .ok (.list hs) := by
      rw [toHost_list, hhs]
      rfl
    have hin : ofHost (.list hs) = .ok (plain (.list items separator)) := by
      rw [ofHost_list, hback, plain, plainItems_eq]
      rfl
    rw [hout]
    exact hin
  | @map entries hnodup _ ih =>
    have hround : ∀ e ∈ entries,
        (toHost e.2).map (e.1.1, ·) >>= (fun f => (ofHost f.2).map ((f.1, true), ·))
          = .ok ((e.1.1, true), plain e.2) := by
      intro e he
      obtain ⟨h, hh, hback⟩ := bind_eq_ok (ih e he)
      rw [hh]
      exact congrArg (Except.map ((e.1.1, true), ·)) hback
    obtain ⟨fs, hfs, hback⟩ := exists_mapM_mapM hround
    have hkeys : Entries.keys fs = entries.map fun e => e.1.1 := by
      refine map_eq_of_mapM (fun e f hf => ?_) hfs
      obtain ⟨h, -, rfl⟩ := eq_ok_of_map hf
      rfl
    have hout : toHost (.map (entries.map entry)) = .ok (.dictionary (fs.map HostValue.entry)) := by
      rw [toHost_map, hfs]
      show Except.ok (HostValue.dictionary _) = _
      rw [Entries.foldl_put_of_nodup [] fs (hkeys ▸ hnodup), List.nil_append]
    have hin : ofHost (.dictionary (fs.map HostValue.entry))
        = .ok (plain (.map (entries.map entry))) := by
      rw [ofHost_dictionary_texts, hback, plain, plainEntries_eq]
      show Except.ok (Value.map _) = _
      rw [List.map_map]
      rfl
    rw [hout]
    exact hin

/-- **Values come back.**  The host's data, made of scalars, lists and dictionaries that have texts
for keys, are what they were after they have been a stylesheet's value: with all entries in their
order, and with no truth value, integer or floating-point number taken for another.  A stylesheet's
value whose maps have strings for keys, with no text twice, has the same strings, numbers, truth
values, items and entries after it has been the host's; all strings are quoted then, no number has a
unit, and commas separate the items of all lists.  Both may be nested as deep as one likes; that a
machine can follow them only so deep is left out of account. -/
theorem conversions_round_trip :
    (∀ h : HostValue, h.TextKeyed → (do let v ← ofHost h; v.toHost) = .ok h) ∧
      ∀ v : Value, v.TextKeyed → (do let h ← v.toHost; ofHost h) = .ok v.plain :=
  ⟨fun _ => toHost_ofHost, fun _ => ofHost_toHost⟩

/-- Keys out of alphabetical order, a truth value beside the integer that it counts as, and a
negative zero; a list with spaces, an amount with a unit and strings without quotes. -/
theorem conversions_round_trip_nested :
    let h : HostValue := .dictionary
      [(.scalar (.text ['b']), .list [.scalar (.boolean true), .scalar (.integer 1)]),
        (.scalar (.text ['a']), .scalar (.double (.zero true)))]
    let v : Value := .map
      [(.string ['k'] false, .list [.number (.integer 1) ['p', 'x'], .string ['s'] false] .space)]
    (do let v ← ofHost h; v.toHost) = .ok h ∧
      (do let h ← v.toHost; ofHost h)
        = .ok (.map [(quoted ['k'], .list [.number (.integer 1) [], quoted ['s']] .comma)]) := by
  intro h v
  have hh : h.TextKeyed := by
    refine @HostValue.TextKeyed.dictionary
      [(['b'], .list [.scalar (.boolean true), .scalar (.integer 1)]),
        (['a'], .scalar (.double (.zero true)))] (by decide) ?_
    simp only [List.mem_cons, List.not_mem_nil, or_false, forall_eq_or_imp, forall_eq]
    refine ⟨.list ?_, .scalar _⟩
    simp only [List.mem_cons, List.not_mem_nil, or_false, forall_eq_or_imp, forall_eq]
    exact ⟨.scalar _, .scalar _⟩
  have hv : v.TextKeyed := by
    refine @TextKeyed.map [((['k'], false),
      .list [.number (.integer 1) ['p', 'x'], .string ['s'] false] .space)] (by decide) ?_
    simp only [List.mem_singleton, forall_eq]
    refine .list _ ?_
    simp only [List.mem_cons, List.not_mem_nil, or_false, forall_eq_or_imp, forall_eq]
    exact ⟨.number _ _, .string _ _⟩
  exact ⟨conversions_round_trip.1 h hh, conversions_round_trip.2 v hv⟩

end Value

end StyleImport
