/-
What settings files hold.

A settings file holds what its bytes come to, whatever format they are read in.  A file that holds
what was written of entries holds a map of the same values, if what is written is read back.

* `SettingsFiles.contents_of_lookup` — what a file holds is a matter of its bytes;
* `SettingsFiles.keysOnce_of_contents` — a document has each key once;
* `SettingsFiles.Contents.ofBytes_write` — written entries.
-/
import StyleImport.Proofs.Data.Format
import StyleImport.Proofs.Text.Utf8
import StyleImport.Settings.Scopes

namespace StyleImport

namespace SettingsFiles

variable {format : DocumentFormat} {disk : Disk} {path : Text}

namespace Contents

theorem ofBytes_of_read {bytes : List UInt8} {t : Text} {d : Data}
    (hdecode : Utf8.decode bytes = .ok t) (hread : format.read (Utf8.translateNewlines t) = .ok d) :
    ofBytes format path bytes = .ok (.document d) := by
  rw [ofBytes, hdecode]
  dsimp only
  rw [hread]

/-- A file of written entries holds a map of the same values. -/
theorem ofBytes_write {es : List (Scalar × Data)} (hback : format.ReadsBack es) :
    ∃ es', (∀ path, ofBytes format path (Utf8.encode (format.write es).text)
        = .ok (.document (.map es'))) ∧ (Data.map es').Reordered (.map es) := by
  obtain ⟨d, hread, hsame⟩ := hback.read
  obtain ⟨es', rfl⟩ : ∃ es', d = .map es' := by
    cases hsame
    exact ⟨_, rfl⟩
  refine ⟨es', fun path => ofBytes_of_read (Utf8.decode_encode _) ?_, hsame⟩
  rwa [Utf8.translateNewlines_of_not_mem hback.lines]

theorem keysOnce_of_ofBytes (hkeys : format.KeysOnce) {bytes : List UInt8} {d : Data}
    (h : ofBytes format path bytes = .ok (.document d)) : d.KeysOnce := by
  unfold ofBytes at h
  split at h
  · split at h
    · rename_i t _ d' hread
      obtain rfl : d' = d := document.inj (Except.ok.inj h)
      exact hkeys _ _ hread
    · cases h
  · split at h <;> cases h

theorem ofBytes_ne_absent (bytes : List UInt8) : ofBytes format path bytes ≠ .ok .absent := by
  intro h
  unfold ofBytes at h
  repeat' split at h
  all_goals cases h

end Contents

theorem contents_of_lookup {names : List Text} {bytes : List UInt8} {modified : Int}
    (hlookup : disk.lookup path = .ok (names, .file bytes modified)) :
    contents format disk path = Contents.ofBytes format path bytes := by
  have hpresent : disk.presentOrFail path = .ok true := by
    rw [Disk.presentOrFail, Disk.askOrFail, hlookup]
  have hbytes : disk.readBytes path = .ok bytes := by
    rw [Disk.readBytes, hlookup]
    rfl
  rw [contents, hpresent]
  dsimp only
  rw [hbytes]

theorem contents_eq_absent_iff :
    contents format disk path = .ok .absent ↔ disk.presentOrFail path = .ok false := by
  constructor
  · intro h
    unfold contents at h
    split at h
    · cases h
    · assumption
    · split at h
      · cases h
      · exact absurd h (Contents.ofBytes_ne_absent _)
  · intro h
    rw [contents, h]

/-- A document in a settings file has each key once. -/
theorem keysOnce_of_contents (hkeys : format.KeysOnce) {d : Data}
    (h : contents format disk path = .ok (.document d)) : d.KeysOnce := by
  unfold contents at h
  split at h
  · cases h
  · cases h
  · split at h
    · cases h
    · exact Contents.keysOnce_of_ofBytes hkeys h

end SettingsFiles

end StyleImport
