/-
Computations that may fail.

A computation made of others fails where one of these does, and succeeds with what they all give.
The lemmas take such a computation apart from its outcome, one step at a time.
-/
import Mathlib.Tactic.Common

namespace StyleImport

variable {ε α β : Type}

theorem bind_eq_error {x : Except ε α} {f : α → Except ε β} {e : ε} (h : x.bind f = .error e) :
    x = .error e ∨ ∃ a, x = .ok a ∧ f a = .error e := by
  cases x with
  | error e' => exact .inl (congrArg Except.error (Except.error.inj h))
  | ok a => exact .inr ⟨a, rfl, h⟩

theorem bind_eq_ok {x : Except ε α} {f : α → Except ε β} {b : β} (h : x.bind f = .ok b) :
    ∃ a, x = .ok a ∧ f a = .ok b := by
  cases x with
  | error e => cases h
  | ok a => exact ⟨a, rfl, h⟩

theorem eq_error_of_map {x : Except ε α} {f : α → β} {e : ε} (h : x.map f = .error e) :
    x = .error e := by
  cases x with
  | error e' => exact congrArg Except.error (Except.error.inj h)
  | ok a => cases h

theorem eq_ok_of_map {x : Except ε α} {f : α → β} {b : β} (h : x.map f = .ok b) :
    ∃ a, x = .ok a ∧ f a = b := by
  cases x with
  | error e => cases h
  | ok a => exact ⟨a, rfl, Except.ok.inj h⟩

theorem mapM_eq_error {f : α → Except ε β} {l : List α} {e : ε} (h : l.mapM f = .error e) :
    ∃ a ∈ l, f a = .error e := by
  induction l with
  | nil => cases h
  | cons a as ih =>
    rw [List.mapM_cons] at h
    rcases bind_eq_error h with ha | ⟨b, -, h⟩
    · exact ⟨a, List.mem_cons_self, ha⟩
    · rcases bind_eq_error h with has | ⟨bs, -, h⟩
      · obtain ⟨a', ha', hf⟩ := ih has
        exact ⟨a', List.mem_cons_of_mem _ ha', hf⟩
      · cases h

theorem exists_of_mapM_eq_ok {f : α → Except ε β} {l : List α} {bs : List β}
    (h : l.mapM f = .ok bs) : ∀ b ∈ bs, ∃ a ∈ l, f a = .ok b := by
  induction l generalizing bs with
  | nil =>
    obtain rfl : [] = bs := Except.ok.inj h
    simp
  | cons a as ih =>
    rw [List.mapM_cons] at h
    obtain ⟨b, hb, h⟩ := bind_eq_ok h
    obtain ⟨bs', hbs, h⟩ := bind_eq_ok h
    obtain rfl : b :: bs' = bs := Except.ok.inj h
    intro b' hb'
    rcases List.mem_cons.mp hb' with rfl | hb'
    · exact ⟨a, List.mem_cons_self, hb⟩
    · obtain ⟨a', ha', hf⟩ := ih hbs b' hb'
      exact ⟨a', List.mem_cons_of_mem _ ha', hf⟩

/-- What the results keep of the items stands in the same order. -/
theorem map_eq_of_mapM {γ : Type} {f : α → Except ε β} {l : List α} {bs : List β} {p : β → γ}
    {q : α → γ} (hkeeps : ∀ a b, f a = .ok b → p b = q a) (h : l.mapM f = .ok bs) :
    bs.map p = l.map q := by
  induction l generalizing bs with
  | nil =>
    obtain rfl : [] = bs := Except.ok.inj h
    rfl
  | cons a as ih =>
    rw [List.mapM_cons] at h
    obtain ⟨b, hb, h⟩ := bind_eq_ok h
    obtain ⟨bs', hbs, h⟩ := bind_eq_ok h
    obtain rfl : b :: bs' = bs := Except.ok.inj h
    rw [List.map_cons, List.map_cons, hkeeps a b hb, ih hbs]

/-- What is done to the results of some items can be done to the items at once. -/
theorem mapM_of_mapM_eq_ok {γ : Type} {f : α → Except ε β} {g : β → Except ε γ} {l : List α}
    {bs : List β} (h : l.mapM f = .ok bs) : bs.mapM g = l.mapM fun a => f a >>= g := by
  induction l generalizing bs with
  | nil =>
    obtain rfl : [] = bs := Except.ok.inj h
    rfl
  | cons a as ih =>
    rw [List.mapM_cons] at h
    obtain ⟨b, hb, h⟩ := bind_eq_ok h
    obtain ⟨bs', hbs, h⟩ := bind_eq_ok h
    obtain rfl : b :: bs' = bs := Except.ok.inj h
    rw [List.mapM_cons, List.mapM_cons, hb, ih hbs]
    rfl

theorem exists_mapM_eq_ok {f : α → Except ε β} {l : List α} (h : ∀ a ∈ l, ∃ b, f a = .ok b) :
    ∃ bs, l.mapM f = .ok bs := by
  cases hl : l.mapM f with
  | error e =>
    obtain ⟨a, ha, hf⟩ := mapM_eq_error hl
    obtain ⟨b, hb⟩ := h a ha
    rw [hb] at hf
    cases hf
  | ok bs => exact ⟨bs, rfl⟩

theorem mapM_eq_ok_map {f : α → Except ε β} {g : α → β} {l : List α}
    (h : ∀ a ∈ l, f a = .ok (g a)) : l.mapM f = .ok (l.map g) := by
  induction l with
  | nil => rfl
  | cons a as ih =>
    rw [List.mapM_cons, h a List.mem_cons_self, ih fun a' ha' => h a' (List.mem_cons_of_mem _ ha')]
    rfl

/-- Items that are there after two computations, one on the results of the other. -/
theorem exists_mapM_mapM {γ : Type} {f : α → Except ε β} {g : β → Except ε γ} {k : α → γ}
    {l : List α} (h : ∀ a ∈ l, f a >>= g = .ok (k a)) :
    ∃ bs, l.mapM f = .ok bs ∧ bs.mapM g = .ok (l.map k) := by
  obtain ⟨bs, hbs⟩ : ∃ bs, l.mapM f = .ok bs := exists_mapM_eq_ok fun a ha => by
    obtain ⟨b, hb, -⟩ := bind_eq_ok (h a ha)
    exact ⟨b, hb⟩
  exact ⟨bs, hbs, (mapM_of_mapM_eq_ok hbs).trans (mapM_eq_ok_map h)⟩

theorem forIn_eq_error {f : α → β → Except ε (ForInStep β)} {l : List α} {b : β} {e : ε}
    (h : forIn l b f = .error e) : ∃ a ∈ l, ∃ b, f a b = .error e := by
  induction l generalizing b with
  | nil => cases h
  | cons a as ih =>
    rw [List.forIn_cons] at h
    rcases bind_eq_error h with h | ⟨step, -, h⟩
    · exact ⟨a, List.mem_cons_self, b, h⟩
    · cases step with
      | done b' => cases h
      | yield b' =>
        obtain ⟨a', ha', hf⟩ := ih h
        exact ⟨a', List.mem_cons_of_mem _ ha', hf⟩

/-- A pass over a list that fails at the first item of a kind. -/
theorem forIn_stop_eq (stops : α → Bool) (failure : α → ε) (l : List α) :
    (forIn l PUnit.unit fun a _ =>
        if stops a then (throw (failure a) : Except ε PUnit) >>= fun _ => pure (.yield PUnit.unit)
        else pure (.yield PUnit.unit))
      = match l.find? stops with
        | some a => .error (failure a)
        | none => .ok PUnit.unit := by
  induction l with
  | nil => rfl
  | cons a as ih =>
    rw [List.forIn_cons, List.find?_cons]
    cases stops a with
    | true => rfl
    | false => exact ih

theorem eq_error_of_mapError {ε' : Type} {x : Except ε α} {f : ε → ε'} {e : ε'}
    (h : x.mapError f = .error e) : ∃ failure, x = .error failure ∧ e = f failure := by
  cases x with
  | error failure => exact ⟨failure, rfl, (Except.error.inj h).symm⟩
  | ok a => cases h

theorem eq_ok_of_mapError {ε' : Type} {x : Except ε α} {f : ε → ε'} {a : α}
    (h : x.mapError f = .ok a) : x = .ok a := by
  cases x with
  | error failure => cases h
  | ok a' => exact congrArg Except.ok (Except.ok.inj h)

end StyleImport
