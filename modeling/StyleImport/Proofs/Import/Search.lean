/-
Searching among the candidates of an import.

* `Importer.absolute_of_mem_candidates` — candidates are absolute normal forms;
* `Searched` — the exchanges of a search, and what it comes to;
* `Importer.run_readFirst` — candidates are searched in this way.
-/
import StyleImport.Import.Resolve
import StyleImport.Proofs.Candidates.Location
import StyleImport.Proofs.Import.Exchange

namespace StyleImport

/-! ### The candidates of an import -/

namespace Importer

/-- A candidate is a spelling of the name below one of the locations. -/
theorem mem_candidates {i : Importer} {name : Text} {locations : List Text} {c : Text}
    (h : c ∈ i.candidates name locations) :
    let n := NameForm.of i.unified i.settings.extensions name
    ∃ location ∈ locations, ∃ v ∈ n.variants, c = Path.absolute i.cwd (n.place location v) := by
  intro n
  have hfold : ∀ (ls : List Text) (cs : Candidates),
      c ∈ (ls.foldl (fun cs location => cs.addAll i.cwd (n.below location)) cs).paths →
        c ∈ cs.paths ∨ ∃ location ∈ ls, ∃ v ∈ n.variants,
          c = Path.absolute i.cwd (n.place location v) := by
    intro ls
    induction ls with
    | nil => exact fun cs h => .inl h
    | cons l ls ih =>
      intro cs h
      rcases ih _ h with h | ⟨location, hlocation, hplace⟩
      · refine (Candidates.mem_addAll h).imp_right ?_
        rintro ⟨p, hp, hc⟩
        obtain ⟨v, hv, rfl⟩ := List.mem_map.mp hp
        exact ⟨l, List.mem_cons_self, v, hv, hc⟩
      · exact .inr ⟨location, List.mem_cons_of_mem _ hlocation, hplace⟩
  rcases hfold locations .empty h with h | h
  · simp [Candidates.empty] at h
  · exact h

/-- A candidate is its own key. -/
theorem absolute_of_mem_candidates {i : Importer} (hcwd : Path.isAbsolute i.cwd = true)
    {name : Text} {locations : List Text} {c : Text} (h : c ∈ i.candidates name locations) :
    Path.absolute i.cwd c = c := by
  obtain ⟨location, _, v, _, rfl⟩ := mem_candidates h
  exact Path.absolute_absolute hcwd _

theorem isAbsolute_of_mem_candidates {i : Importer} (hcwd : Path.isAbsolute i.cwd = true)
    {name : Text} {locations : List Text} {c : Text} (h : c ∈ i.candidates name locations) :
    Path.isAbsolute c = true := by
  obtain ⟨location, _, v, _, rfl⟩ := mem_candidates h
  exact Path.isAbsolute_absolute hcwd _

end Importer

/-! ### Searching among candidates -/

namespace ReadFailure

/-- Whether a file that was seen a moment ago is no file any more. -/
def isMissing : ReadFailure → Bool
  | .system e => e.isMissing
  | _ => false

end ReadFailure

/-- What a search among candidates comes to. -/
inductive Search where
  /-- No candidate can be read. -/
  | miss
  /-- A candidate was read. -/
  | hit (path contents : Text)
  /-- A candidate is there and reading it failed. -/
  | broken (path : Text) (e : ReadFailure)
  deriving DecidableEq

/-- What reading a candidate means for the search. -/
def Search.ofRead (path : Text) : ReadOutcome → Search
  | .ok contents => .hit path contents
  | .error e => if e.isMissing then .miss else .broken path e

/-- The exchanges of a search among candidates, and what it comes to: the candidates are looked at
in order, each file among them is read, and the first that is not missing after all ends the
search. -/
inductive Searched : List Text → List Exchange → Search → Prop
  | nil : Searched [] [] .miss
  | noFile {path : Text} {paths : List Text} {log : List Exchange} {found : Search} :
    Searched paths log found → Searched (path :: paths) (.isFile path false :: log) found
  | vanished {path : Text} {paths : List Text} {log : List Exchange} {found : Search}
    {o : ReadOutcome} :
    Search.ofRead path o = .miss → Searched paths log found →
      Searched (path :: paths) (.isFile path true :: .read path o :: log) found
  | ended {path : Text} {paths : List Text} {o : ReadOutcome} :
    Search.ofRead path o ≠ .miss →
      Searched (path :: paths) [.isFile path true, .read path o] (Search.ofRead path o)

namespace Searched

theorem not_isAsk {paths : List Text} {log : List Exchange} {found : Search}
    (h : Searched paths log found) : ∀ x ∈ log, ¬ x.IsAsk := by
  induction h with
  | nil => simp
  | noFile _ ih => simpa [Exchange.IsAsk] using ih
  | vanished _ _ ih => simpa [Exchange.IsAsk] using ih
  | ended _ => simp [Exchange.IsAsk]

/-- The read that ends a search is its last exchange and says what it comes to. -/
theorem read_last {paths : List Text} {log : List Exchange} {found : Search}
    (h : Searched paths log found) {before after : List Exchange} {path : Text} {o : ReadOutcome}
    (hlog : log = before ++ .read path o :: after) (ho : Search.ofRead path o ≠ .miss) :
    after = [] ∧ found = Search.ofRead path o := by
  -- A read that is not a miss can only stand in the step that ends the search.
  induction h generalizing before with
  | nil => simp at hlog
  | noFile _ ih =>
    rcases before with _ | ⟨x, before⟩
    · simp at hlog
    · exact ih (List.cons.inj hlog).2
  | vanished hmiss _ ih =>
    rcases before with _ | ⟨x, _ | ⟨y, before⟩⟩
    · simp at hlog
    · simp only [List.cons_append, List.nil_append, List.cons.injEq, Exchange.read.injEq] at hlog
      obtain ⟨_, ⟨rfl, rfl⟩, _⟩ := hlog
      exact absurd hmiss ho
    · simp only [List.cons_append, List.cons.injEq] at hlog
      exact ih hlog.2.2
  | ended _ =>
    rcases before with _ | ⟨x, _ | ⟨y, before⟩⟩
    · simp at hlog
    · simp only [List.cons_append, List.nil_append, List.cons.injEq, Exchange.read.injEq] at hlog
      obtain ⟨_, ⟨rfl, rfl⟩, rfl⟩ := hlog
      exact ⟨rfl, rfl⟩
    · simp at hlog

/-- A search that came to something ends with the read that it came from. -/
theorem eq_concat {paths : List Text} {log : List Exchange} {found : Search}
    (h : Searched paths log found) (hfound : found ≠ .miss) :
    ∃ before path o, log = before ++ [.read path o] ∧ found = Search.ofRead path o := by
  induction h with
  | nil => exact absurd rfl hfound
  | noFile _ ih =>
    obtain ⟨before, path, o, rfl, hf⟩ := ih hfound
    exact ⟨_ :: before, path, o, rfl, hf⟩
  | vanished _ _ ih =>
    obtain ⟨before, path, o, rfl, hf⟩ := ih hfound
    exact ⟨_ :: _ :: before, path, o, rfl, hf⟩
  | @ended path _ o _ => exact ⟨[_], path, o, rfl, rfl⟩

end Searched

namespace Importer

/-- How a resolution fails when a candidate cannot be read. -/
def readError (path : Text) : ReadFailure → Failure
  | .nulInPath => .read .nulInPath
  | e => .promised (.unreadable path e)

/-- What `readFirst` yields for what its search came to and the paths tried so far. -/
def searchResult (probed : List Text) : Search → Except Failure (Option Resolved × List Text)
  | .miss => .ok (none, probed)
  | .hit path contents => .ok (some { contents, file := path }, probed)
  | .broken path e => .error (readError path e)

theorem readCandidate_eq (path : Text) :
    readCandidate path = .read path fun o => match Search.ofRead path o with
      | .miss => .done none
      | .hit _ contents => .done (some contents)
      | .broken path e => .fail (readError path e) := by
  unfold readCandidate
  congr 1
  funext o
  rcases o with (e | f | _) | t
  · simp only [Search.ofRead, ReadFailure.isMissing, readError]
    split <;> simp_all
  · rfl
  · rfl
  · rfl

/-- The candidates of an import are searched in order, and all of them were tried if the search
comes to nothing. -/
theorem run_readFirst {σ : Type} (name : Text) (paths probed : List Text) (s : Compilation σ) :
    ∃ found probed' s', Searched paths ((readFirst name probed paths).exchanges s) found ∧
      (readFirst name probed paths).run s = (searchResult probed' found, s') ∧
      (found = .miss → probed' = paths.foldl addProbed probed) := by
  induction paths generalizing probed s with
  | nil => exact ⟨.miss, probed, s, .nil, rfl, fun _ => rfl⟩
  | cons path paths ih =>
    rw [readFirst]
    cases hfile : s.host.isFile s.state path with
    | false =>
      simp only [Plan.exchanges, Plan.run, hfile]
      obtain ⟨found, probed', s', hsearch, hrun, hmiss⟩ := ih (addProbed probed path) s
      exact ⟨found, probed', s', .noFile hsearch, hrun, hmiss⟩
    | true =>
      -- What the reader says decides whether the search goes on.
      simp only [Plan.exchanges, Plan.run, hfile, readCandidate_eq, Plan.bind]
      rcases hread : s.readOnce path with ⟨o, s₁⟩
      cases ho : Search.ofRead path o with
      | miss =>
        obtain ⟨found, probed', s', hsearch, hrun, hmiss⟩ := ih (addProbed probed path) s₁
        exact ⟨found, probed', s', .vanished ho hsearch, hrun, hmiss⟩
      | hit path' contents =>
        have hok : o = .ok contents ∧ path' = path := by
          rcases o with e | t
          · simp only [Search.ofRead] at ho
            split at ho <;> simp at ho
          · simp only [Search.ofRead, Search.hit.injEq] at ho
            exact ⟨ho.2 ▸ rfl, ho.1.symm⟩
        obtain ⟨rfl, rfl⟩ := hok
        exact ⟨_, _, _, .ended (by simp [Search.ofRead]), rfl, by simp [Search.ofRead]⟩
      | broken path' e =>
        have hover : Searched (path :: paths) [.isFile path true, .read path o] (.broken path' e) :=
          ho ▸ .ended (by simp [ho])
        exact ⟨.broken path' e, probed, s₁, hover, rfl, by simp⟩

end Importer

end StyleImport
