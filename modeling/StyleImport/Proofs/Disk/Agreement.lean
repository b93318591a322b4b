/-
File trees that agree where a path goes.

A walk looks at the places that it comes through and at nothing else.  If the same stands there in
two trees without links, what a directory holds left aside, the walks come to the same.

* `Disk.sameArrival_walk` — walks through places that agree;
* `Disk.sameFinding_lookup` — so paths lead to the same;
* `Disk.present_congr`, `Disk.readText_congr` — and questions about them have the same answers.
-/
import StyleImport.Proofs.Disk.Walk

namespace StyleImport

/-- The same stands at a place in two trees: nothing, a file with the same bytes and time, or a
directory.  What a directory holds is another matter. -/
inductive Node.Same : Option Node → Option Node → Prop
  | nothing : Same none none
  | file (bytes : List UInt8) (modified : Int) :
    Same (some (.file bytes modified)) (some (.file bytes modified))
  | directory (es es' : List (Text × Node)) : Same (some (.directory es)) (some (.directory es'))

namespace Disk

variable {d d' : Disk}

/-- Whether two trees agree on a directory and everything below it. -/
def AgreeBelow (d d' : Disk) (place : List Text) : Prop :=
  ∀ names, Node.Same (d.root.at? (place ++ names)) (d'.root.at? (place ++ names))

/-- Trees that have the same node agree on it and everything below it. -/
theorem agreeBelow_of_eq (hd : d.root.LinkFree) {place : List Text}
    (h : d.root.at? place = d'.root.at? place) : d.AgreeBelow d' place := by
  intro names
  rw [Node.at?_append, Node.at?_append, ← h, ← Node.at?_append]
  rcases hnode : d.root.at? (place ++ names) with _ | n
  · exact .nothing
  · cases hd.of_at? hnode with
    | file bytes modified => exact .file bytes modified
    | directory => exact .directory _ _

/-- Two walks fail alike or arrive at one place where the same stands. -/
inductive SameArrival : Except OsError Place → Except OsError Place → Prop
  | arrived {names : List Text} {a b : Option Node} :
    Node.Same a b → SameArrival (.ok ⟨names, a⟩) (.ok ⟨names, b⟩)
  | failed (e : OsError) : SameArrival (.error e) (.error e)

/-- Two paths lead nowhere for the same reason or to one place where the same stands. -/
inductive SameFinding :
    Except ReadFailure (List Text × Node) → Except ReadFailure (List Text × Node) → Prop
  | found {names : List Text} {n n' : Node} :
    Node.Same (some n) (some n') → SameFinding (.ok (names, n)) (.ok (names, n'))
  | failed (e : ReadFailure) : SameFinding (.error e) (.error e)

/-- Walks through places that agree come to the same. -/
theorem sameArrival_walk (hd : d.root.LinkFree) (hd' : d'.root.LinkFree) (p : Text)
    (follow : Bool) (links : Nat) {at_ names : List Text} (hne : ∀ m ∈ names, m ≠ [])
    (h : ∀ front, front <+: names →
      Node.Same (d.root.at? (Path.moveAll at_ front)) (d'.root.at? (Path.moveAll at_ front))) :
    SameArrival (walk d p follow links at_ names) (walk d' p follow links at_ names) := by
  induction names generalizing at_ with
  | nil =>
    rw [walk, walk]
    exact .arrived (h [] List.prefix_rfl)
  | cons name names ih =>
    -- What agrees from here on agrees from the next place on.
    have hnext : SameArrival (walk d p follow links (Path.move at_ name) names)
        (walk d' p follow links (Path.move at_ name) names) := by
      refine ih (fun m hm => hne m (List.mem_cons_of_mem _ hm)) fun front hfront => ?_
      exact h (name :: front) (List.cons_prefix_cons.mpr ⟨rfl, hfront⟩)
    have hhere : Node.Same (d.root.at? at_) (d'.root.at? at_) := h [] List.nil_prefix
    have hthere : Node.Same (d.root.at? (Path.move at_ name)) (d'.root.at? (Path.move at_ name)) :=
      h [name] (List.cons_prefix_cons.mpr ⟨rfl, List.nil_prefix⟩)
    generalize hnode : d.root.at? at_ = n at hhere
    generalize hnode' : d'.root.at? at_ = n' at hhere
    cases hhere with
    | nothing | file =>
      rw [walk_of_not_directory (by simp [hnode]), walk_of_not_directory (by simp [hnode'])]
      exact .failed _
    | directory es es' =>
      by_cases hdot : name = Path.here
      · subst hdot
        rw [Path.move_here] at hnext
        rw [walk_here hnode, walk_here hnode']
        exact hnext
      · by_cases hup : name = Path.up
        · subst hup
          rw [Path.move_up] at hnext
          rw [walk_up hnode, walk_up hnode']
          exact hnext
        · rw [Path.move_of_ne at_ (hne name List.mem_cons_self) hdot hup] at hnext hthere
          rw [walk_name hd hnode hdot hup, walk_name hd' hnode' hdot hup]
          split
          · exact .failed _
          · generalize d.root.at? (at_ ++ [name]) = m at hthere ⊢
            generalize d'.root.at? (at_ ++ [name]) = m' at hthere ⊢
            cases hthere with
            | nothing =>
              dsimp only
              split
              · exact .arrived .nothing
              · exact .failed _
            | file | directory => exact hnext

/-- Paths through places that agree lead to the same. -/
theorem sameFinding_lookup (hd : d.root.LinkFree) (hd' : d'.root.LinkFree) (hcwd : d.cwd = d'.cwd)
    {p : Text} (h : ∀ front, front <+: walkNames p →
      Node.Same (d.root.at? (Path.moveAll (if Path.isAbsolute p then [] else d.cwd) front))
        (d'.root.at? (Path.moveAll (if Path.isAbsolute p then [] else d.cwd) front))) :
    SameFinding (d.lookup p) (d'.lookup p) := by
  have hwalk := sameArrival_walk hd hd' p true linkLimit (walkNames_ne_nil p) h
  unfold lookup place
  split
  · exact .failed _
  · split
    · exact .failed _
    · split
      · exact .failed _
      · rw [← hcwd]
        generalize walk d p true linkLimit _ (walkNames p) = r at hwalk ⊢
        generalize walk d' p true linkLimit _ (walkNames p) = r' at hwalk ⊢
        cases hwalk with
        | failed e => exact .failed _
        | arrived hsame => cases hsame with
          | nothing => exact .failed _
          | file bytes modified => exact .found (.file bytes modified)
          | directory es es' => exact .found (.directory es es')

theorem present_congr {p : Text} (h : SameFinding (d.lookup p) (d'.lookup p)) :
    d.present p = d'.present p := by
  unfold present node?
  generalize d.lookup p = r at h
  generalize d'.lookup p = r' at h
  cases h <;> rfl

theorem readText_congr {p : Text} (h : SameFinding (d.lookup p) (d'.lookup p)) :
    d.readText p = d'.readText p := by
  unfold readText readBytes
  generalize d.lookup p = r at h
  generalize d'.lookup p = r' at h
  cases h with
  | failed e => rfl
  | found hsame => cases hsame <;> rfl

end Disk

end StyleImport
