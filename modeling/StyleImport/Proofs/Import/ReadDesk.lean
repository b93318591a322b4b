/-
The desk of reads, in order.

* `ReadDesk.InOrder` — the desk against the calls of the reader: a read of a key that is under way
  or succeeded is the one that its key leads to, and it is the last one of that key;
* `InOrder.arrive`, `InOrder.complete`, `InOrder.resume` — every operation leaves it in order;
* `InOrder.unique`, `InOrder.holds_unique` — so a key has one such read at most, and one text.

The outcome of a read is told to one reader after the other, so a failed read is taken off the desk
while others still wait for it.  By the time that they learn of the failure there may be a new read
of the key; it stays because the desk compares tickets and not keys.
-/
import Mathlib.Tactic.Common
import StyleImport.Import.ReadOnce

namespace StyleImport

namespace ReadDesk

/-! ### Positions in lists that grow -/

theorem getElem?_mono {α : Type} {as bs : List α} {i : Nat} {a : α} (h : as <+: bs)
    (ha : as[i]? = some a) : bs[i]? = some a := by
  obtain ⟨cs, rfl⟩ := h
  rw [List.getElem?_append_left (List.getElem?_eq_some_iff.mp ha).1, ha]

theorem getElem?_concat {α : Type} {as : List α} {i : Nat} {a b : α} :
    (as ++ [a])[i]? = some b ↔ as[i]? = some b ∨ i = as.length ∧ a = b := by
  rcases Nat.lt_trichotomy i as.length with hi | rfl | hi
  · have hne : i ≠ as.length := by omega
    simp [List.getElem?_append_left hi, hne]
  · simp
  · have hne : i ≠ as.length := by omega
    have hold : as[i]? = none := List.getElem?_eq_none (by omega)
    have hnew : (as ++ [a])[i]? = none := by
      rw [List.getElem?_eq_none]
      rw [List.length_append, List.length_singleton]
      omega
    simp [hold, hnew, hne]

/-! ### Outcomes -/

/-- A read that is over and failed. -/
def Failed (d : ReadDesk) (ticket : Nat) : Prop := ∃ e, d.outcome? ticket = some (.error e)

theorem not_failed_of_none {d : ReadDesk} {n : Nat} (h : d.outcome? n = none) : ¬ d.Failed n := by
  rintro ⟨e, he⟩
  rw [h] at he
  exact absurd he (by simp)

theorem not_failed_of_ok {d : ReadDesk} {n : Nat} {t : Text} (h : d.outcome? n = some (.ok t)) :
    ¬ d.Failed n := by
  rintro ⟨e, he⟩
  rw [h] at he
  exact absurd he (by simp)

@[simp] theorem outcome?_arrive (d : ReadDesk) (key : Text) (n : Nat) :
    (d.arrive key).2.2.outcome? n = d.outcome? n := by
  unfold arrive
  cases Entries.get? key d.tickets with
  | some ticket => rfl
  | none =>
    rcases Nat.lt_or_ge n d.outcomes.length with h | h
    · simp [outcome?, List.getElem?_append_left h]
    · -- A read that was just started has no outcome, as if it had not been.
      have hold : d.outcomes[n]? = none := List.getElem?_eq_none h
      simp only [outcome?, hold]
      cases hn : (d.outcomes ++ [none])[n]? with
      | none => rfl
      | some o =>
        rcases getElem?_concat.mp hn with hn | ⟨_, rfl⟩
        · rw [hold] at hn
          exact absurd hn (by simp)
        · rfl

theorem outcome?_complete_self {d : ReadDesk} {n : Nat} (h : n < d.outcomes.length)
    (o : ReadOutcome) : (d.complete n o).outcome? n = some o := by
  simp [outcome?, complete, h]

theorem outcome?_complete_of_ne {n m : Nat} (h : m ≠ n) (d : ReadDesk) (o : ReadOutcome) :
    (d.complete n o).outcome? m = d.outcome? m := by
  simp [outcome?, complete, List.getElem?_set_ne (Ne.symm h)]

/-- After a read is over, an outcome is its own or was there before. -/
theorem outcome?_complete_cases {d : ReadDesk} {n m : Nat} {o o' : ReadOutcome}
    (h : (d.complete n o).outcome? m = some o') : d.outcome? m = some o' ∨ o = o' := by
  by_cases hm : m = n
  · subst hm
    rcases Nat.lt_or_ge m d.outcomes.length with hlt | hge
    · rw [outcome?_complete_self hlt] at h
      exact .inr (Option.some.inj h)
    · simp [outcome?, complete, hge] at h
  · exact .inl (outcome?_complete_of_ne hm d o ▸ h)

@[simp] theorem outcome?_resume (d : ReadDesk) (key : Text) (n m : Nat) (o : ReadOutcome) :
    (d.resume key n o).outcome? m = d.outcome? m := by
  unfold resume
  cases o with
  | ok t => rfl
  | error e =>
    dsimp only
    split <;> rfl

/-- An outcome is never taken back, since only a read without one is completed. -/
theorem outcome?_complete_of_some {d : ReadDesk} {n m : Nat} {o o' : ReadOutcome}
    (hn : d.outcome? n = none) (hm : d.outcome? m = some o') :
    (d.complete n o).outcome? m = some o' := by
  have hne : m ≠ n := by
    rintro rfl
    rw [hn] at hm
    exact absurd hm (by simp)
  rw [outcome?_complete_of_ne hne, hm]

/-! ### The desk in order -/

/-- The desk against the keys that the reader was called with; the ticket of a call is its
position. -/
structure InOrder (d : ReadDesk) (calls : List Text) : Prop where
  /-- Each call has its place for an outcome. -/
  length_eq : d.outcomes.length = calls.length
  /-- No key stands on the desk twice. -/
  nodup : (Entries.keys d.tickets).Nodup
  /-- A key leads to a read of that key. -/
  owner : ∀ {k n}, Entries.get? k d.tickets = some n → calls[n]? = some k
  /-- A key leads to the last read of that key. -/
  last : ∀ {k n m}, Entries.get? k d.tickets = some n → calls[m]? = some k → m ≤ n
  /-- A read that has not failed is the one that its key leads to. -/
  held : ∀ {k n}, calls[n]? = some k → ¬ d.Failed n → Entries.get? k d.tickets = some n

theorem inOrder_empty : InOrder {} [] where
  length_eq := rfl
  nodup := List.nodup_nil
  owner h := by simp [Entries.get?, Entries.getBy?] at h
  last h := by simp [Entries.get?, Entries.getBy?] at h
  held h := by simp at h

variable {d : ReadDesk} {calls : List Text}

/-- The calls of the reader after someone came for `key`. -/
def callsAfter (d : ReadDesk) (calls : List Text) (key : Text) : List Text :=
  if (d.arrive key).2.1 then calls ++ [key] else calls

theorem arrive_of_some {key : Text} {n : Nat} (h : Entries.get? key d.tickets = some n) :
    d.arrive key = (n, false, d) := by
  simp [arrive, h]

theorem arrive_of_none {key : Text} (h : Entries.get? key d.tickets = none) :
    d.arrive key = (d.outcomes.length, true,
      ⟨d.tickets ++ [(key, d.outcomes.length)], d.outcomes ++ [none]⟩) := by
  simp [arrive, h, Entries.put_of_get?_eq_none h]

/-- Whoever comes for a key finds it on the desk afterwards. -/
theorem get?_arrive_self (d : ReadDesk) (key : Text) :
    Entries.get? key (d.arrive key).2.2.tickets = some (d.arrive key).1 := by
  cases h : Entries.get? key d.tickets with
  | some n => rw [arrive_of_some h]; exact h
  | none =>
    simp only [arrive, h]
    exact Entries.get?_put_self key _ _

theorem get?_arrive_of_ne {key k : Text} (hk : k ≠ key) (d : ReadDesk) :
    Entries.get? k (d.arrive key).2.2.tickets = Entries.get? k d.tickets := by
  cases h : Entries.get? key d.tickets with
  | some n => rw [arrive_of_some h]
  | none =>
    simp only [arrive, h]
    exact Entries.get?_put_of_ne hk _ _

theorem failed_arrive (d : ReadDesk) (key : Text) (n : Nat) :
    (d.arrive key).2.2.Failed n ↔ d.Failed n := by
  simp [Failed]

/-- Someone comes for a key: if no read of it can be joined, all reads of it so far failed, and a
new one is started. -/
theorem InOrder.arrive (h : d.InOrder calls) (key : Text) :
    (d.arrive key).2.2.InOrder (d.callsAfter calls key) := by
  cases hkey : Entries.get? key d.tickets with
  | some n =>
    simp only [callsAfter, arrive_of_some hkey]
    exact h
  | none =>
    have hcalls : d.callsAfter calls key = calls ++ [key] := by
      simp [callsAfter, arrive_of_none hkey]
    have hticket : (d.arrive key).1 = calls.length := by
      rw [arrive_of_none hkey]
      exact h.length_eq
    rw [hcalls]
    refine ⟨?_, ?_, ?_, ?_, ?_⟩
    · simp [arrive_of_none hkey, h.length_eq]
    · have hfresh : key ∉ Entries.keys d.tickets := by
        rw [Entries.mem_keys_iff]
        simp [hkey]
      rw [arrive_of_none hkey]
      simp only [Entries.keys, List.map_append, List.map_cons, List.map_nil]
      exact List.nodup_append.mpr ⟨h.nodup, by simp, by
        intro a ha b hb hab
        rw [List.mem_singleton] at hb
        exact hfresh (hb ▸ hab ▸ ha)⟩
    · -- A key leads to a read of that key: the new ticket is the position of the new call.
      intro k n hn
      rw [getElem?_concat]
      by_cases hk : k = key
      · subst hk
        rw [get?_arrive_self, hticket, Option.some.injEq] at hn
        exact .inr ⟨hn.symm, rfl⟩
      · rw [get?_arrive_of_ne hk] at hn
        exact .inl (h.owner hn)
    · -- And to the last one, since all other calls came before.
      intro k n m hn hm
      rw [getElem?_concat] at hm
      by_cases hk : k = key
      · subst hk
        rw [get?_arrive_self, hticket, Option.some.injEq] at hn
        rcases hm with hm | ⟨hm, _⟩
        · have hlt : m < calls.length := (List.getElem?_eq_some_iff.mp hm).1
          omega
        · omega
      · rw [get?_arrive_of_ne hk] at hn
        rcases hm with hm | ⟨_, hm⟩
        · exact h.last hn hm
        · exact absurd hm.symm hk
    · intro k n hn hok
      rw [failed_arrive] at hok
      rcases getElem?_concat.mp hn with hn | ⟨rfl, rfl⟩
      · -- A key that a read is held for is not one that a read was just started for.
        have hheld := h.held hn hok
        have hk : k ≠ key := by
          rintro rfl
          rw [hkey] at hheld
          exact absurd hheld (by simp)
        rw [get?_arrive_of_ne hk]
        exact hheld
      · rw [get?_arrive_self, hticket]

/-- A read ends: until then it had not failed, so it is on the desk. -/
theorem InOrder.complete (h : d.InOrder calls) {n : Nat} (hn : d.outcome? n = none)
    (o : ReadOutcome) : (d.complete n o).InOrder calls where
  length_eq := by
    simp only [ReadDesk.complete, List.length_set]
    exact h.length_eq
  nodup := h.nodup
  owner := h.owner
  last := h.last
  held := by
    intro k m hm hok
    refine h.held hm fun ⟨e, he⟩ => hok ⟨e, ?_⟩
    exact outcome?_complete_of_some hn he

/-- What stands on the desk after a caller learnt of a failure: all that stood there before, except
for that very read. -/
theorem get?_resume_error (d : ReadDesk) (key : Text) (n : Nat) (e : ReadFailure) (k : Text) :
    Entries.get? k (d.resume key n (.error e)).tickets
      = if k = key ∧ Entries.get? key d.tickets = some n then none
        else Entries.get? k d.tickets := by
  unfold resume
  dsimp only
  by_cases hn : Entries.get? key d.tickets = some n
  · by_cases hk : k = key
    · subst hk
      simp [hn, Entries.get?_erase_self]
    · simp [hn, hk, Entries.get?_erase_of_ne hk]
  · simp [hn]

/-- Nothing comes onto the desk when a caller learns of an outcome, and the read that failed is gone
if it was still there. -/
theorem get?_of_resume {d : ReadDesk} {key : Text} {n : Nat} {o : ReadOutcome} {k : Text} {m : Nat}
    (h : Entries.get? k (d.resume key n o).tickets = some m) :
    Entries.get? k d.tickets = some m ∧ (k = key → m = n → ∃ t, o = .ok t) := by
  cases o with
  | ok t => exact ⟨h, fun _ _ => ⟨t, rfl⟩⟩
  | error e =>
    rw [get?_resume_error] at h
    split at h
    · exact absurd h (by simp)
    · rename_i hkept
      refine ⟨h, ?_⟩
      rintro rfl rfl
      exact absurd ⟨rfl, h⟩ hkept

/-- A failure takes no other read off the desk. -/
theorem get?_resume_of_ne {d : ReadDesk} {key : Text} {n : Nat} {o : ReadOutcome} {k : Text}
    {m : Nat} (hm : m ≠ n) (h : Entries.get? k d.tickets = some m) :
    Entries.get? k (d.resume key n o).tickets = some m := by
  cases o with
  | ok t => exact h
  | error e =>
    rw [get?_resume_error, if_neg]
    · exact h
    · rintro ⟨rfl, hn⟩
      rw [h, Option.some.injEq] at hn
      exact hm hn

/-- A caller learns of the outcome of a read: only a failed read leaves the desk. -/
theorem InOrder.resume (h : d.InOrder calls) {key : Text} {n : Nat} {o : ReadOutcome}
    (ho : d.outcome? n = some o) : (d.resume key n o).InOrder calls where
  length_eq := by
    rw [← h.length_eq]
    unfold ReadDesk.resume
    cases o <;> dsimp only
    split <;> rfl
  nodup := by
    refine List.Sublist.nodup ?_ h.nodup
    unfold ReadDesk.resume
    cases o <;> dsimp only
    · split
      · exact List.filter_sublist.map Prod.fst
      · exact List.Sublist.refl _
    · exact List.Sublist.refl _
  owner hm := h.owner (get?_of_resume hm).1
  last hm := h.last (get?_of_resume hm).1
  held := by
    intro k m hm hok
    rw [Failed] at hok
    simp only [outcome?_resume] at hok
    have hheld := h.held hm hok
    -- The only ticket that may have left the desk is that of the outcome, and then it failed.
    by_cases hmn : m = n
    · subst hmn
      cases o with
      | ok t => exact hheld
      | error e => exact absurd ⟨e, ho⟩ hok
    · exact get?_resume_of_ne hmn hheld

/-- At most one read of a key has not failed. -/
theorem InOrder.unique (h : d.InOrder calls) {k : Text} {n m : Nat} (hn : calls[n]? = some k)
    (hm : calls[m]? = some k) (hn' : ¬ d.Failed n) (hm' : ¬ d.Failed m) : n = m := by
  have h₁ := h.held hn hn'
  rw [h.held hm hm', Option.some.injEq] at h₁
  exact h₁.symm

/-! ### A desk that is used -/

/-- The ticket of someone who comes is that of a call for their key. -/
theorem InOrder.getElem?_callsAfter (h : d.InOrder calls) (key : Text) :
    (d.callsAfter calls key)[(d.arrive key).1]? = some key :=
  (h.arrive key).owner (get?_arrive_self d key)

/-- The desk, with the keys that the reader was called with, holds the text of a key. -/
def Holds (d : ReadDesk) (reads : List Text) (key contents : Text) : Prop :=
  ∃ n, reads[n]? = some key ∧ d.outcome? n = some (.ok contents)

/-- A desk that other readers used in the meantime. -/
structure Grows (d : ReadDesk) (reads : List Text) (d' : ReadDesk) (reads' : List Text) :
    Prop where
  outcome : ∀ {n o}, d.outcome? n = some o → d'.outcome? n = some o
  reads : reads <+: reads'

variable {d' d'' : ReadDesk} {reads reads' reads'' : List Text}

theorem Grows.refl (d : ReadDesk) (reads : List Text) : d.Grows reads d reads :=
  ⟨id, List.prefix_refl _⟩

theorem Grows.trans (h : d.Grows reads d' reads') (h' : d'.Grows reads' d'' reads'') :
    d.Grows reads d'' reads'' :=
  ⟨fun ho => h'.outcome (h.outcome ho), h.reads.trans h'.reads⟩

theorem Grows.holds (h : d.Grows reads d' reads') {key contents : Text}
    (hd : d.Holds reads key contents) : d'.Holds reads' key contents := by
  obtain ⟨n, hn, ho⟩ := hd
  exact ⟨n, getElem?_mono h.reads hn, h.outcome ho⟩

theorem grows_arrive (d : ReadDesk) (reads : List Text) (key : Text) :
    d.Grows reads (d.arrive key).2.2 (d.callsAfter reads key) where
  outcome ho := by rwa [outcome?_arrive]
  reads := by
    unfold callsAfter
    split
    · exact List.prefix_append _ _
    · exact List.prefix_refl _

theorem grows_complete (reads : List Text) {n : Nat} (hn : d.outcome? n = none) (o : ReadOutcome) :
    d.Grows reads (d.complete n o) reads :=
  ⟨fun ho => outcome?_complete_of_some hn ho, List.prefix_refl _⟩

theorem grows_resume (d : ReadDesk) (reads : List Text) (key : Text) (n : Nat) (o : ReadOutcome) :
    d.Grows reads (d.resume key n o) reads :=
  ⟨fun ho => by rwa [outcome?_resume], List.prefix_refl _⟩

/-- A key has one text at most. -/
theorem InOrder.holds_unique (h : d.InOrder reads) {key contents contents' : Text}
    (hd : d.Holds reads key contents) (hd' : d.Holds reads key contents') :
    contents = contents' := by
  obtain ⟨n, hn, ho⟩ := hd
  obtain ⟨m, hm, ho'⟩ := hd'
  obtain rfl : n = m := h.unique hn hm (not_failed_of_ok ho) (not_failed_of_ok ho')
  rw [ho, Option.some.injEq, Except.ok.injEq] at ho'
  exact ho'

end ReadDesk

end StyleImport
