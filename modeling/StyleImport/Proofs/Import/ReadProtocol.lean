/-
The protocol of reading each file once.

Callers come to the desk for paths, the reads that they started or joined end with a text or a
failure, and waiting callers learn of the outcome of their read, all in any order.  `ReadRun` is the
desk in the middle of such a run, with the calls that the reader received and everyone who came.

* `ReadRun.Sound` — the invariant of runs: who waits for which read, and that a failed read stays
  on the desk only as long as somebody waits for it;
* `ReadRun.Extends` — what later steps leave as it is;
* `ReadRun.each_key_read_once` — what holds of every run.
-/
import StyleImport.Path.Lexical
import StyleImport.Proofs.Import.ReadDesk

namespace StyleImport

/-! ### Runs of the desk -/

/-- Someone who came to the desk. -/
structure Caller where
  /-- The key of the path that they want. -/
  key : Text
  /-- The read that they joined. -/
  ticket : Nat
  /-- The outcome that they learnt of; as long as they wait there is none. -/
  learnt : Option ReadOutcome := none
  deriving DecidableEq, Repr

/-- The desk in the middle of a run. -/
structure ReadRun where
  /-- The desk. -/
  desk : ReadDesk := {}
  /-- The keys that the reader was called with; the ticket of a call is its position. -/
  calls : List Text := []
  /-- Everyone who came so far. -/
  callers : List Caller := []
  deriving Repr

/-- What can happen next. -/
inductive ReadStep where
  /-- Someone comes for a path. -/
  | arrive (path : Text)
  /-- A read that is under way ends. -/
  | complete (ticket : Nat) (outcome : ReadOutcome)
  /-- A waiting caller learns of the outcome of the read that they joined. -/
  | resume (caller : Nat)

namespace ReadRun

/-- The run after someone came for a key. -/
def arrive (r : ReadRun) (key : Text) : ReadRun where
  desk := (r.desk.arrive key).2.2
  calls := r.desk.callsAfter r.calls key
  callers := r.callers ++ [{ key, ticket := (r.desk.arrive key).1 }]

/-- The run after a read ended; a read that is over does not end again. -/
def complete (r : ReadRun) (ticket : Nat) (outcome : ReadOutcome) : ReadRun :=
  match r.desk.outcome? ticket with
  | some _ => r
  | none => { r with desk := r.desk.complete ticket outcome }

/-- The run after a caller learnt of an outcome; nothing happens if they did so before or if their
read is still under way. -/
def resume (r : ReadRun) (i : Nat) : ReadRun :=
  match r.callers[i]? with
  | none => r
  | some c =>
    match c.learnt, r.desk.outcome? c.ticket with
    | none, some o =>
      { r with
        desk := r.desk.resume c.key c.ticket o
        callers := r.callers.set i { c with learnt := some o } }
    | _, _ => r

/-- One step of a run; keys are the absolute normal forms of paths. -/
def step (cwd : Text) (r : ReadRun) : ReadStep → ReadRun
  | .arrive path => r.arrive (Path.absolute cwd path)
  | .complete ticket outcome => r.complete ticket outcome
  | .resume i => r.resume i

/-- A run of any length, in any order. -/
def steps (cwd : Text) (r : ReadRun) (ss : List ReadStep) : ReadRun := ss.foldl (step cwd) r

/-- What holds after every step. -/
structure Sound (r : ReadRun) : Prop where
  /-- The desk is in order. -/
  inOrder : r.desk.InOrder r.calls
  /-- Callers join reads of their own key. -/
  joined : ∀ {i : Nat} {c : Caller}, r.callers[i]? = some c → r.calls[c.ticket]? = some c.key
  /-- What callers learn is the outcome of the read that they joined. -/
  learnt : ∀ {i : Nat} {c : Caller} {o : ReadOutcome}, r.callers[i]? = some c →
    c.learnt = some o → r.desk.outcome? c.ticket = some o
  /-- A read that did not succeed is on the desk only while somebody waits for it. -/
  awaited : ∀ {k n}, Entries.get? k r.desk.tickets = some n →
    (∀ t, r.desk.outcome? n ≠ some (.ok t)) →
      ∃ (i : Nat) (c : Caller), r.callers[i]? = some c ∧ c.ticket = n ∧ c.learnt = none

theorem sound_empty : Sound {} where
  inOrder := ReadDesk.inOrder_empty
  joined h := by simp at h
  learnt h := by simp at h
  awaited h := by simp [Entries.get?, Entries.getBy?] at h

/-- What learning of an outcome does, if it does anything. -/
theorem resume_cases (r : ReadRun) (i : Nat) :
    r.resume i = r ∨ ∃ c o, r.callers[i]? = some c ∧ c.learnt = none ∧
      r.desk.outcome? c.ticket = some o ∧
      r.resume i = { r with
        desk := r.desk.resume c.key c.ticket o
        callers := r.callers.set i { c with learnt := some o } } := by
  unfold resume
  split
  · exact .inl rfl
  · rename_i c hc
    split
    · rename_i o hl ho
      exact .inr ⟨c, o, hc, hl, ho, rfl⟩
    · exact .inl rfl

/-- A caller who is still waiting for a read that is over learns of its outcome. -/
theorem resume_of_waiting {r : ReadRun} {i : Nat} {c : Caller} {o : ReadOutcome}
    (hc : r.callers[i]? = some c) (hl : c.learnt = none)
    (ho : r.desk.outcome? c.ticket = some o) :
    (r.resume i).callers[i]? = some { c with learnt := some o } := by
  have hlt : i < r.callers.length := (List.getElem?_eq_some_iff.mp hc).1
  unfold resume
  rw [hc]
  simp [hl, ho, hlt]

/-! ### Every step keeps the invariant -/

theorem Sound.arrive {r : ReadRun} (h : r.Sound) (key : Text) : (r.arrive key).Sound where
  inOrder := h.inOrder.arrive key
  joined := by
    intro i c hc
    rcases ReadDesk.getElem?_concat.mp hc with hc | ⟨_, rfl⟩
    · exact ReadDesk.getElem?_mono (ReadDesk.grows_arrive _ _ _).reads (h.joined hc)
    · exact h.inOrder.getElem?_callsAfter key
  learnt := by
    intro i c o hc hl
    rcases ReadDesk.getElem?_concat.mp hc with hc | ⟨_, rfl⟩
    · simpa [ReadRun.arrive] using h.learnt hc hl
    · simp at hl
  awaited := by
    intro k n hn hok
    by_cases hk : k = key
    · -- The one who came is waiting.
      subst hk
      simp only [ReadRun.arrive, ReadDesk.get?_arrive_self, Option.some.injEq] at hn
      exact ⟨r.callers.length, _, ReadDesk.getElem?_concat.mpr (.inr ⟨rfl, rfl⟩), hn, rfl⟩
    · simp only [ReadRun.arrive, ReadDesk.get?_arrive_of_ne hk,
        ReadDesk.outcome?_arrive] at hn hok
      obtain ⟨i, c, hc, hticket, hl⟩ := h.awaited hn hok
      exact ⟨i, c, ReadDesk.getElem?_concat.mpr (.inl hc), hticket, hl⟩

theorem Sound.complete {r : ReadRun} (h : r.Sound) (n : Nat) (o : ReadOutcome) :
    (r.complete n o).Sound := by
  unfold ReadRun.complete
  split
  · exact h
  · rename_i hn
    refine ⟨h.inOrder.complete hn o, h.joined, ?_, ?_⟩
    · intro i c o' hc hl
      exact ReadDesk.outcome?_complete_of_some hn (h.learnt hc hl)
    · intro k m hm hok
      refine h.awaited hm fun t ht => hok t ?_
      exact ReadDesk.outcome?_complete_of_some hn ht

/-- The first caller to learn of a failure takes the read off the desk; whoever learns of it later
leaves the desk as it is. -/
theorem Sound.resume {r : ReadRun} (h : r.Sound) (i : Nat) : (r.resume i).Sound := by
  rcases r.resume_cases i with hr | ⟨c, o, hc, hl, ho, hr⟩
  · rw [hr]
    exact h
  · have hi : i < r.callers.length := (List.getElem?_eq_some_iff.mp hc).1
    -- Everyone else is who they were.
    have hset : ∀ {j : Nat} {c' : Caller},
        (r.callers.set i { c with learnt := some o })[j]? = some c' →
          j = i ∧ c' = { c with learnt := some o } ∨ j ≠ i ∧ r.callers[j]? = some c' := by
      intro j c' hj
      by_cases hij : j = i
      · subst hij
        rw [List.getElem?_set_self hi, Option.some.injEq] at hj
        exact .inl ⟨rfl, hj.symm⟩
      · rw [List.getElem?_set_ne (Ne.symm hij)] at hj
        exact .inr ⟨hij, hj⟩
    rw [hr]
    refine ⟨h.inOrder.resume ho, ?_, ?_, ?_⟩
    · intro j c' hj
      rcases hset hj with ⟨rfl, rfl⟩ | ⟨_, hj'⟩
      · have hown := h.joined hc
        exact hown
      · exact h.joined hj'
    · intro j c' o' hj hl'
      rw [ReadDesk.outcome?_resume]
      rcases hset hj with ⟨rfl, rfl⟩ | ⟨_, hj'⟩
      · rw [Option.some.injEq] at hl'
        exact hl' ▸ ho
      · exact h.learnt hj' hl'
    · intro k n hn hok
      simp only [ReadDesk.outcome?_resume] at hok
      obtain ⟨hn', hgone⟩ := ReadDesk.get?_of_resume hn
      -- The read that is left is not the one that the caller learnt of.
      have hne : n ≠ c.ticket := by
        rintro rfl
        have hk := h.inOrder.owner hn'
        rw [h.joined hc, Option.some.injEq] at hk
        obtain ⟨t, rfl⟩ := hgone hk.symm rfl
        exact hok t ho
      obtain ⟨j, c', hj, hticket, hl'⟩ := h.awaited hn' hok
      have hij : j ≠ i := by
        rintro rfl
        rw [hc, Option.some.injEq] at hj
        exact hne (hticket ▸ hj ▸ rfl)
      refine ⟨j, c', ?_, hticket, hl'⟩
      rw [List.getElem?_set_ne (Ne.symm hij)]
      exact hj

theorem Sound.step {r : ReadRun} (h : r.Sound) (cwd : Text) (s : ReadStep) :
    (r.step cwd s).Sound := by
  cases s with
  | arrive path => exact h.arrive _
  | complete n o => exact h.complete n o
  | resume i => exact h.resume i

theorem Sound.steps {r : ReadRun} (h : r.Sound) (cwd : Text) (ss : List ReadStep) :
    (r.steps cwd ss).Sound := by
  induction ss generalizing r with
  | nil => exact h
  | cons s ss ih => exact ih (h.step cwd s)

/-! ### What later steps leave as it is -/

/-- The run `r'` goes on from `r`: the desk was used, and everyone who came still waits for the same
read or learnt of something. -/
structure Extends (r r' : ReadRun) : Prop where
  grows : r.desk.Grows r.calls r'.desk r'.calls
  caller : ∀ {i : Nat} {c : Caller}, r.callers[i]? = some c →
    ∃ c', r'.callers[i]? = some c' ∧ c'.key = c.key ∧ c'.ticket = c.ticket ∧
      ∀ o, c.learnt = some o → c'.learnt = some o

theorem Extends.refl (r : ReadRun) : r.Extends r :=
  ⟨ReadDesk.Grows.refl _ _, fun {_ c} hc => ⟨c, hc, rfl, rfl, fun _ => id⟩⟩

theorem Extends.trans {r₁ r₂ r₃ : ReadRun} (h₁ : r₁.Extends r₂) (h₂ : r₂.Extends r₃) :
    r₁.Extends r₃ := by
  refine ⟨h₁.grows.trans h₂.grows, ?_⟩
  intro i c hc
  obtain ⟨c', hc', hkey, hticket, hl⟩ := h₁.caller hc
  obtain ⟨c'', hc'', hkey', hticket', hl'⟩ := h₂.caller hc'
  exact ⟨c'', hc'', hkey'.trans hkey, hticket'.trans hticket, fun o ho => hl' o (hl o ho)⟩

theorem extends_step (cwd : Text) (r : ReadRun) (s : ReadStep) : r.Extends (r.step cwd s) := by
  cases s with
  | arrive path =>
    refine ⟨ReadDesk.grows_arrive _ _ _, fun {i c} hc => ?_⟩
    exact ⟨c, ReadDesk.getElem?_mono (List.prefix_append _ _) hc, rfl, rfl, fun _ => id⟩
  | complete n o =>
    simp only [step, complete]
    split
    · exact Extends.refl r
    · rename_i hn
      exact ⟨ReadDesk.grows_complete _ hn o, fun {i c} hc => ⟨c, hc, rfl, rfl, fun _ => id⟩⟩
  | resume i =>
    simp only [step]
    rcases r.resume_cases i with hr | ⟨c, o, hc, hl, ho, hr⟩
    · rw [hr]
      exact Extends.refl r
    · rw [hr]
      refine ⟨ReadDesk.grows_resume _ _ _ _ _, fun {j c'} hc' => ?_⟩
      by_cases hij : j = i
      · -- The caller who learnt of the outcome had learnt of nothing before.
        subst hij
        have hlt : j < r.callers.length := (List.getElem?_eq_some_iff.mp hc).1
        rw [hc, Option.some.injEq] at hc'
        subst hc'
        refine ⟨{ c with learnt := some o }, List.getElem?_set_self hlt, rfl, rfl, ?_⟩
        intro o' ho'
        rw [hl] at ho'
        exact absurd ho' (by simp)
      · exact ⟨c', by rw [List.getElem?_set_ne (Ne.symm hij), hc'], rfl, rfl, fun _ => id⟩

theorem extends_steps (cwd : Text) (r : ReadRun) (ss : List ReadStep) :
    r.Extends (r.steps cwd ss) := by
  induction ss generalizing r with
  | nil => exact Extends.refl r
  | cons s ss ih => exact (extends_step cwd r s).trans (ih (r.step cwd s))

/-- Someone who comes for a key that a read succeeded for joins that read. -/
theorem arrive_ticket_of_ok {r : ReadRun} (h : r.Sound) {k : Text} {n : Nat} {t : Text}
    (hn : r.calls[n]? = some k) (ho : r.desk.outcome? n = some (.ok t)) :
    (r.desk.arrive k).1 = n := by
  rw [ReadDesk.arrive_of_some (h.inOrder.held hn (ReadDesk.not_failed_of_ok ho))]

/-- Whoever comes for a key after a read of it succeeded joined that read. -/
theorem ticket_of_later {r : ReadRun} (h : r.Sound) (cwd : Text) {k : Text} {n : Nat} {t : Text}
    (hn : r.calls[n]? = some k) (ho : r.desk.outcome? n = some (.ok t)) (ss : List ReadStep)
    {i : Nat} {c : Caller} (hi : r.callers.length ≤ i)
    (hc : (r.steps cwd ss).callers[i]? = some c) (hk : c.key = k) : c.ticket = n := by
  induction ss generalizing r with
  | nil =>
    have hlt : i < r.callers.length := (List.getElem?_eq_some_iff.mp hc).1
    omega
  | cons s ss ih =>
    -- Either the caller comes with the first of the steps, or the read is still held after it.
    have hext := extends_step cwd r s
    rcases Nat.lt_or_ge i (r.step cwd s).callers.length with hlt | hge
    · -- The caller came with this very step, to a desk on which the read is held.
      obtain ⟨c₀, hc₀⟩ : ∃ c₀, (r.step cwd s).callers[i]? = some c₀ :=
        ⟨_, List.getElem?_eq_getElem hlt⟩
      obtain ⟨c', hc', hkey, hticket, _⟩ := (extends_steps cwd (r.step cwd s) ss).caller hc₀
      obtain rfl : c' = c := Option.some.inj (hc'.symm.trans hc)
      cases s with
      | arrive path =>
        simp only [step, arrive, List.getElem?_append_right hi] at hc₀
        obtain ⟨_, rfl⟩ : _ = 0 ∧ _ = c₀ := by
          simpa [List.getElem?_singleton] using hc₀
        have hpath : Path.absolute cwd path = k := hkey.symm.trans hk
        rw [hticket]
        show (r.desk.arrive (Path.absolute cwd path)).1 = n
        rw [hpath]
        exact arrive_ticket_of_ok h hn ho
      | complete m o =>
        have hlen : (r.step cwd (.complete m o)).callers.length = r.callers.length := by
          simp only [step, complete]
          split <;> rfl
        omega
      | resume j =>
        have hlen : (r.step cwd (.resume j)).callers.length = r.callers.length := by
          simp only [step]
          rcases r.resume_cases j with hr | ⟨c₁, o, _, _, _, hr⟩ <;> simp [hr]
        omega
    · have hn' := ReadDesk.getElem?_mono hext.grows.reads hn
      exact ih (h.step cwd s) hn' (hext.grows.outcome ho) hge hc

/-! ### The protocol -/

section Protocol

variable {r : ReadRun} (h : r.Sound) (cwd : Text)

include h

/-- At most one read of a key is under way. -/
theorem Sound.under_way_unique {k : Text} {n m : Nat} (hn : r.calls[n]? = some k)
    (hm : r.calls[m]? = some k) (hn' : r.desk.outcome? n = none)
    (hm' : r.desk.outcome? m = none) : n = m :=
  h.inOrder.unique hn hm (ReadDesk.not_failed_of_none hn') (ReadDesk.not_failed_of_none hm')

/-- After a read of a key succeeded the reader is not called for it any more. -/
theorem Sound.no_call_after_ok {k : Text} {n : Nat} {t : Text} (hn : r.calls[n]? = some k)
    (ho : r.desk.outcome? n = some (.ok t)) (ss : List ReadStep) {m : Nat}
    (hm : (r.steps cwd ss).calls[m]? = some k) : m ≤ n := by
  have hext := extends_steps cwd r ss
  have h' := h.steps cwd ss
  have hn' := ReadDesk.getElem?_mono hext.grows.reads hn
  have hheld := h'.inOrder.held hn' (ReadDesk.not_failed_of_ok (hext.grows.outcome ho))
  exact h'.inOrder.last hheld hm

/-- A caller who joined a successful read gets its text, on the next turn at the latest. -/
theorem Sound.gets_text {i : Nat} {c : Caller} {t : Text} (hc : r.callers[i]? = some c)
    (ho : r.desk.outcome? c.ticket = some (.ok t)) :
    (∀ o, c.learnt = some o → o = .ok t) ∧
      ∃ c', (r.resume i).callers[i]? = some c' ∧ c'.learnt = some (.ok t) := by
  have hlearnt : ∀ o, c.learnt = some o → o = .ok t := fun o hl =>
    Option.some.inj ((h.learnt hc hl).symm.trans ho)
  refine ⟨hlearnt, ?_⟩
  cases hl : c.learnt with
  | none => exact ⟨_, resume_of_waiting hc hl ho, rfl⟩
  | some o =>
    obtain ⟨c', hc', _, _, hkeep⟩ := (extends_step [] r (.resume i)).caller hc
    exact ⟨c', hc', hkeep _ (hlearnt o hl ▸ hl)⟩

/-- Whoever comes for a key after everyone who waited for a failed read of it learnt of the failure
does not join that read; without a later read they start one. -/
theorem Sound.joins_later {k : Text} {n : Nat} {e : ReadFailure} (hn : r.calls[n]? = some k)
    (ho : r.desk.outcome? n = some (.error e))
    (hdone : ∀ (i : Nat) c, r.callers[i]? = some c → c.ticket = n → c.learnt ≠ none) :
    n < (r.desk.arrive k).1 ∧
      ((∀ m, r.calls[m]? = some k → m ≤ n) → (r.arrive k).calls = r.calls ++ [k]) := by
  cases hk : Entries.get? k r.desk.tickets with
  | none =>
    -- The failed read was taken off the desk and no other came onto it.
    have hlt : n < r.calls.length := (List.getElem?_eq_some_iff.mp hn).1
    rw [ReadDesk.arrive_of_none hk]
    refine ⟨h.inOrder.length_eq ▸ hlt, fun _ => ?_⟩
    simp [ReadRun.arrive, ReadDesk.callsAfter, ReadDesk.arrive_of_none hk]
  | some m =>
    rw [ReadDesk.arrive_of_some hk]
    have hle : n ≤ m := h.inOrder.last hk hn
    -- It is not the failed read, since nobody waits for that one any more.
    have hne : n ≠ m := by
      rintro rfl
      obtain ⟨i, c, hc, hticket, hl⟩ := h.awaited hk (by simp [ho])
      exact hdone i c hc hticket hl
    have hlt : n < m := by omega
    refine ⟨hlt, fun hlast => ?_⟩
    have hm := hlast m (h.inOrder.owner hk)
    omega

/-- When nobody waits, the keys on the desk are those that a read succeeded for. -/
theorem Sound.mem_keys_iff (hdone : ∀ (i : Nat) c, r.callers[i]? = some c → c.learnt ≠ none)
    (k : Text) :
    k ∈ Entries.keys r.desk.tickets ↔
      ∃ n t, r.calls[n]? = some k ∧ r.desk.outcome? n = some (.ok t) := by
  rw [Entries.mem_keys_iff]
  constructor
  · -- A key whose read did not succeed would have somebody waiting.
    rintro ⟨n, hn⟩
    by_contra hno
    have hbad : ∀ t, r.desk.outcome? n ≠ some (.ok t) := fun t ht =>
      hno ⟨n, t, h.inOrder.owner hn, ht⟩
    obtain ⟨i, c, hc, _, hl⟩ := h.awaited hn hbad
    exact hdone i c hc hl
  · rintro ⟨n, t, hn, ho⟩
    exact ⟨n, h.inOrder.held hn (ReadDesk.not_failed_of_ok ho)⟩

end Protocol

/-- **Each key is read once.**  In every run of the desk, `r` after the steps `ss` and `r'` after
`later` ones:

* at most one call of the reader is under way for a key;
* once a read of a key succeeded, the reader is never called for that key again, and whoever joined
  that read or came afterwards gets exactly its text;
* what a caller learns is the outcome of the one read that they joined when they came, a read of
  their own key;
* a failure takes no other read off the desk, a read that is under way or succeeded is always the
  one that its key leads to, and whoever comes after everyone who waited for a failed read learnt of
  the failure does not join it but starts a read, or joins a later one if there is one already;
* when nobody waits any more, the keys on the desk are exactly those that a read succeeded for. -/
theorem each_key_read_once (cwd : Text) (ss later : List ReadStep) :
    let r := steps cwd {} ss
    let r' := r.steps cwd later
    (∀ k n m, r.calls[n]? = some k → r.calls[m]? = some k →
      r.desk.outcome? n = none → r.desk.outcome? m = none → n = m) ∧
    (∀ k n t, r.calls[n]? = some k → r.desk.outcome? n = some (.ok t) →
      (∀ m, r'.calls[m]? = some k → m ≤ n) ∧
      ∀ (i : Nat) (c : Caller), r'.callers[i]? = some c → c.key = k →
        c.ticket = n ∨ r.callers.length ≤ i →
          (∀ o, c.learnt = some o → o = .ok t) ∧
          ∃ c', (r'.resume i).callers[i]? = some c' ∧ c'.learnt = some (.ok t)) ∧
    (∀ (i : Nat) (c : Caller), r.callers[i]? = some c →
      r.calls[c.ticket]? = some c.key ∧
      ∃ c', r'.callers[i]? = some c' ∧ c'.ticket = c.ticket ∧
        ∀ o, c'.learnt = some o → r'.desk.outcome? c.ticket = some o) ∧
    ((∀ (i : Nat) k m, (∀ c, r.callers[i]? = some c → c.ticket ≠ m) →
        Entries.get? k r.desk.tickets = some m →
          Entries.get? k (r.resume i).desk.tickets = some m) ∧
      (∀ k n, r.calls[n]? = some k → ¬ r.desk.Failed n →
        Entries.get? k r.desk.tickets = some n) ∧
      ∀ path n e, r.calls[n]? = some (Path.absolute cwd path) →
        r.desk.outcome? n = some (.error e) →
        (∀ (i : Nat) c, r.callers[i]? = some c → c.ticket = n → c.learnt ≠ none) →
          n < (r.desk.arrive (Path.absolute cwd path)).1 ∧
          ((∀ m, r.calls[m]? = some (Path.absolute cwd path) → m ≤ n) →
            (r.step cwd (.arrive path)).calls = r.calls ++ [Path.absolute cwd path])) ∧
    ((∀ (i : Nat) c, r.callers[i]? = some c → c.learnt ≠ none) →
      (∀ k, k ∈ Entries.keys r.desk.tickets ↔
        ∃ n t, r.calls[n]? = some k ∧ r.desk.outcome? n = some (.ok t)) ∧
      (Entries.keys r.desk.tickets).Nodup ∧
      r.desk.count = (Entries.keys r.desk.tickets).length) := by
  intro r r'
  have h : r.Sound := sound_empty.steps cwd ss
  have h' : r'.Sound := h.steps cwd later
  have hext : r.Extends r' := extends_steps cwd r later
  refine ⟨?_, ?_, ?_, ⟨?_, ?_, ?_⟩, ?_⟩
  · intro k n m hn hm
    exact h.under_way_unique hn hm
  · intro k n t hn ho
    refine ⟨fun m hm => h.no_call_after_ok cwd hn ho later hm, ?_⟩
    intro i c hc hk hjoined
    have hticket : c.ticket = n := by
      rcases hjoined with hticket | hi
      · exact hticket
      · exact ticket_of_later h cwd hn ho later hi hc hk
    exact h'.gets_text hc (hticket ▸ hext.grows.outcome ho)
  · intro i c hc
    obtain ⟨c', hc', _, hticket, _⟩ := hext.caller hc
    exact ⟨h.joined hc, c', hc', hticket, fun o ho => hticket ▸ h'.learnt hc' ho⟩
  · intro i k m hm hk
    rcases r.resume_cases i with hr | ⟨c, o, hc, _, _, hr⟩
    · rw [hr]
      exact hk
    · rw [hr]
      exact ReadDesk.get?_resume_of_ne (Ne.symm (hm c hc)) hk
  · intro k n hn hok
    exact h.inOrder.held hn hok
  · intro path n e hn ho hdone
    exact h.joins_later hn ho hdone
  · intro hdone
    exact ⟨h.mem_keys_iff hdone, h.inOrder.nodup, by simp [ReadDesk.count, Entries.keys]⟩

/-- A caller who learns late of a failure leaves the read on the desk that was started since. -/
example :
    let path : Text := "/a".toList
    let lost : ReadOutcome := .error .nulInPath
    let r := steps [] {} [.arrive path, .arrive path, .complete 0 lost, .resume 0, .arrive path]
    r.desk.tickets = [(path, 1)] ∧ (r.resume 1).desk.tickets = [(path, 1)] := by
  decide

end ReadRun

end StyleImport
