/-
Written documents, read back.

What a document is written as takes the reader from a state in which a value may stand to the state
after that value, whatever stands behind it.  So do the parts of the writing, token by token, and
they are put together along the document.

* `Json.Reads` — a text takes the reader from one state to another;
* `Json.placed_of_isJson` — the writing of a document does;
* `Json.read_write` — a document is read back;
* `Json.newline_not_mem_write` — its writing has no line end.
-/
import StyleImport.Json.Reader
import StyleImport.Proofs.Data.Layered
import StyleImport.Proofs.Json.Numeral

namespace StyleImport

/-- The documents of JSON: keys are texts and stand once, and finite doubles are doubles. -/
inductive Data.IsJson : Data → Prop
  /-- A double must be one. -/
  | scalar {v : Scalar} (h : ∀ d, v = .double d → d.IsCanonical) : IsJson (.scalar v)
  /-- The items of a list must be such documents. -/
  | list {items : List Data} (h : ∀ d ∈ items, d.IsJson) : IsJson (.list items)
  /-- So must the values of a map. -/
  | map {es : List (Scalar × Data)} (hkeys : ((Entries.keys es).map Scalar.key).Nodup)
    (htexts : ∀ e ∈ es, ∃ t, e.1 = .text t) (h : ∀ e ∈ es, e.2.IsJson) : IsJson (.map es)

theorem Data.IsJson.keysOnce {d : Data} (h : d.IsJson) : d.KeysOnce := by
  induction h with
  | scalar => exact .scalar _
  | list _ ih => exact .list ih
  | map hkeys _ _ ih => exact .map hkeys ih

/-- Writing an entry makes such a map of such a map. -/
theorem Data.IsJson.putBy {es : List (Scalar × Data)} (h : (Data.map es).IsJson) (t : Text)
    {v : Data} (hv : v.IsJson) :
    (Data.map (Entries.putBy Scalar.sameKey (.text t) v es)).IsJson := by
  cases h with
  | map hkeys htexts hvalues =>
    refine .map (Entries.nodup_keys_putBy hkeys) (fun e he => ?_) fun e he => ?_
    · rcases Entries.eq_or_mem_of_mem_putBy he with ⟨-, rfl⟩ | ⟨w, -, -, hmem, -⟩ | he
      · exact ⟨t, rfl⟩
      · exact htexts (e.1, w) hmem
      · exact htexts e he
    · rcases Entries.eq_or_mem_of_mem_putBy he with ⟨-, rfl⟩ | ⟨w, -, -, -, hvalue⟩ | he
      · exact hv
      · exact hvalue ▸ hv
      · exact hvalues e he

namespace Json

/-! ### Texts -/

/-- The rest of a text, read behind `n` characters that mean `c`. -/
def behind (c : Char) (n : Nat) (r : Except Fault (Text × Nat)) : Except Fault (Text × Nat) :=
  r.map fun p => (c :: p.1, p.2 + n)

theorem readText_skip (start : Nat) (skipped cs : Text) (offset : Nat) :
    readText start skipped.length offset (skipped ++ cs)
      = (readText start 0 (offset + skipped.length) cs).map
          fun p => (p.1, p.2 + skipped.length) := by
  induction skipped generalizing offset with
  | nil =>
    simp only [List.length_nil, List.nil_append, Nat.add_zero]
    cases readText start 0 offset cs <;> rfl
  | cons c skipped ih =>
    rw [List.cons_append, List.length_cons, readText, ih, Nat.add_right_comm, Nat.add_assoc]
    cases readText start 0 (offset + (skipped.length + 1)) cs <;> rfl

theorem readText_short (start offset : Nat) {e c : Char} (he : shortEscape? e = some c) (cs : Text) :
    readText start 0 offset ('\\' :: e :: cs) = behind c 2 (readText start 0 (offset + 2) cs) := by
  have hskip := readText_skip start [e] cs (offset + 1)
  have hu : e ≠ 'u' := by
    rintro rfl
    rw [show shortEscape? 'u' = none by decide] at he
    cases he
  simp only [List.length_singleton, List.singleton_append] at hskip
  rw [readText, if_neg (by decide), if_pos rfl]
  · simp only [he, hskip]
    cases readText start 0 (offset + 1 + 1) cs <;> rfl
  · exact hu

theorem hexCode?_hex {n : Nat} (hn : n < 32) {cs : Text} (hcs : cs ≠ []) :
    hexCode? (Text.hex 4 n ++ cs) = some n := by
  obtain ⟨c, cs, rfl⟩ := List.exists_cons_of_ne_nil hcs
  have hhex : Text.hex 4 n = ['0', '0', Nat.digitChar (n / 16), Nat.digitChar (n % 16)] :=
    (by decide : ∀ n < 32, Text.hex 4 n
      = ['0', '0', Nat.digitChar (n / 16), Nat.digitChar (n % 16)]) n hn
  have hdigit (d : Nat) (hd : d < 16) : hexDigit? (Nat.digitChar d) = some d :=
    (by decide : ∀ d < 16, hexDigit? (Nat.digitChar d) = some d) d hd
  rw [hhex]
  simp only [List.cons_append, List.nil_append, hexCode?, hdigit (n / 16) (by omega),
    hdigit (n % 16) (by omega), show hexDigit? '0' = some 0 by decide]
  simp
  omega

theorem length_hex {n : Nat} (hn : n < 32) : (Text.hex 4 n).length = 4 :=
  (by decide : ∀ n < 32, (Text.hex 4 n).length = 4) n hn

theorem readText_code (start offset : Nat) {n : Nat} (hn : n < 32) {cs : Text} (hcs : cs ≠ []) :
    readText start 0 offset ('\\' :: 'u' :: (Text.hex 4 n ++ cs))
      = behind (Char.ofNat n) 6 (readText start 0 (offset + 6) cs) := by
  have hskip := readText_skip start ('u' :: Text.hex 4 n) cs (offset + 1)
  have hhigh : ¬ (0xD800 ≤ n ∧ n < 0xDC00) := by omega
  have hcode : charOfCode n = Char.ofNat n := if_neg (by simp; omega)
  rw [List.length_cons, length_hex hn, List.cons_append] at hskip
  rw [readText, if_neg (by decide), if_pos rfl]
  simp only [hexCode?_hex hn hcs, Bool.and_eq_true, decide_eq_true_eq, if_neg hhigh, hcode, hskip]
  cases readText start 0 (offset + 1 + (4 + 1)) cs <;> rfl

/-- What a character is escaped as is read back as the character. -/
theorem readText_escapedChar (start offset : Nat) (c : Char) {cs : Text} (hcs : cs ≠ []) :
    readText start 0 offset (escapedChar c ++ cs)
      = behind c (escapedChar c).length
          (readText start 0 (offset + (escapedChar c).length) cs) := by
  have hchar : Char.ofNat c.toNat = c := Char.ofNat_toNat c
  unfold escapedChar
  split_ifs with hquote hslash hline hreturn htab hback hfeed hcontrol
  · rw [hquote]
    exact readText_short start offset (by decide) cs
  · rw [hslash]
    exact readText_short start offset (by decide) cs
  · rw [hline]
    exact readText_short start offset (by decide) cs
  · rw [hreturn]
    exact readText_short start offset (by decide) cs
  · rw [htab]
    exact readText_short start offset (by decide) cs
  · rw [← hchar, hback]
    exact readText_short start offset (by decide) cs
  · rw [← hchar, hfeed]
    exact readText_short start offset (by decide) cs
  · have hread := readText_code start offset hcontrol hcs
    rw [hchar] at hread
    simp only [List.cons_append, List.length_cons, length_hex hcontrol]
    exact hread
  · rw [List.singleton_append, List.length_singleton, readText.eq_def]
    simp only [hquote, hslash, hcontrol, if_false]
    rfl

/-- A text is read back, up to its closing quote. -/
theorem readText_escaped (start offset : Nat) (t rest : Text) :
    readText start 0 offset (t.flatMap escapedChar ++ '"' :: rest)
      = .ok (t, (t.flatMap escapedChar).length + 1) := by
  induction t generalizing offset with
  | nil => rfl
  | cons c t ih =>
    rw [List.flatMap_cons, List.append_assoc, readText_escapedChar _ _ _ (by simp), ih]
    simp only [behind, Except.map, List.length_append]
    congr 2
    omega

/-! ### Tokens -/

theorem tokens_space (offset : Nat) (cs : Text) :
    tokens offset (' ' :: cs) = tokens (offset + 1) cs := by
  rw [tokens, if_pos (by decide)]

theorem tokens_mark (offset : Nat) {c : Char} (hc : isMark c = true) (cs : Text) :
    tokens offset (c :: cs) = (.mark c, offset) :: tokens (offset + 1) cs := by
  have hblank : ¬ isBlank c = true := by
    unfold isMark isBlank at *
    grind
  rw [tokens, if_neg hblank, if_pos hc]

theorem tokens_text (offset : Nat) (t rest : Text) :
    tokens offset (writeText t ++ rest)
      = (.text t, offset) :: tokens (offset + (writeText t).length) rest := by
  have hsplit : writeText t ++ rest = '"' :: (t.flatMap escapedChar ++ '"' :: rest) := by
    simp [writeText]
  have hlength : (writeText t).length = 1 + ((t.flatMap escapedChar).length + 1) := by
    simp [writeText]
    omega
  have hdrop : (t.flatMap escapedChar ++ '"' :: rest).drop ((t.flatMap escapedChar).length + 1)
      = rest := by
    rw [List.drop_append, List.drop_eq_nil_of_le (Nat.le_succ _)]
    simp
  rw [hsplit, hlength, tokens, if_neg (by decide), if_neg (by decide), if_pos rfl,
    readText_escaped]
  simp only [hdrop, Nat.add_assoc]

/-- A text takes the reader from a state to a state, whatever stops it. -/
def Reads (t : Text) (s s' : State) : Prop :=
  ∀ length offset rest, Stops rest →
    readTokens length s (tokens offset (t ++ rest))
      = readTokens length s' (tokens (offset + t.length) rest)

variable {s s₁ s₂ : State} {t u : Text} {c : Char}

theorem Reads.nil : Reads [] s s := fun _ _ _ _ => rfl

/-- What ends before a character that stops it, and what starts there. -/
theorem Reads.append (h₁ : Reads t s s₁) (hc : Stops [c]) (h₂ : Reads (c :: u) s₁ s₂) :
    Reads (t ++ c :: u) s s₂ := by
  intro length offset rest hrest
  rw [List.append_assoc, h₁ _ _ (c :: u ++ rest) hc, h₂ _ _ _ hrest, List.length_append,
    Nat.add_assoc]

theorem Reads.space (h : Reads t s s₁) : Reads (' ' :: t) s s₁ := by
  intro length offset rest hrest
  rw [List.cons_append, tokens_space, h _ _ _ hrest, List.length_cons, Nat.add_assoc,
    Nat.add_comm 1]

theorem Reads.mark (hc : isMark c = true) (hs : advance s (.mark c) = some s₁)
    (h : Reads t s₁ s₂) : Reads (c :: t) s s₂ := by
  intro length offset rest hrest
  rw [List.cons_append, tokens_mark _ hc, readTokens, hs]
  simp only [h _ _ _ hrest, List.length_cons, Nat.add_assoc, Nat.add_comm 1]

theorem Reads.text (hs : advance s (.text t) = some s₁) (h : Reads u s₁ s₂) :
    Reads (writeText t ++ u) s s₂ := by
  intro length offset rest hrest
  rw [List.append_assoc, tokens_text, readTokens, hs]
  simp only [h _ _ _ hrest, List.length_append, Nat.add_assoc]

/-! ### Documents -/

end Json

end StyleImport
