import GraphQuery.Json.Reader

/-!
# JSON strings read back

The reader of documents reads a string that was written between double quotes back, up to its closing quote and no
further (`readChars_escapeDouble`). So such a string, with any text behind it, determines the characters and the text
(`doubleQuotedChars_append_inj`).
-/

namespace GraphQuery

open Json

theorem hexValue?_hexDigit : ∀ n < 16, hexValue? (Text.hexDigit n) = some n := by
  decide

/-- The escape of a control character by its number is read back. -/
theorem unicodeEscape?_control {c : Char} (hc : c.toNat < 32) (rest : List Char) :
    unicodeEscape? ('0' :: '0' :: Text.hexDigit (c.toNat / 16) :: Text.hexDigit (c.toNat % 16) :: rest) =
      some (c, rest) := by
  have hzero : hexValue? '0' = some 0 := by decide
  have hhigh := hexValue?_hexDigit (c.toNat / 16) (by omega)
  have hlow := hexValue?_hexDigit (c.toNat % 16) (by omega)
  have hvalue : hexDigits? ['0', '0', Text.hexDigit (c.toNat / 16), Text.hexDigit (c.toNat % 16)] = some c.toNat := by
    simp only [hexDigits?, List.foldl_cons, List.foldl_nil, hzero, hhigh, hlow, Option.bind_some, Option.map_some]
    congr 1
    omega
  have hsurrogate : ¬ (0xD800 ≤ c.toNat ∧ c.toNat < 0xDC00) := by omega
  have hchar : char? c.toNat = some c := dif_pos c.valid
  simp only [unicodeEscape?, hvalue, Option.bind_eq_bind, Option.bind_some, if_neg hsurrogate, hchar]
  rfl

theorem readChars_plain {c : Char} (hquote : c ≠ '"') (hslash : c ≠ '\\') (hc : ¬ c.toNat < 32) (fuel : Nat)
    (done rest : List Char) : readChars (fuel + 1) done (c :: rest) = readChars fuel (c :: done) rest := by
  rw [readChars.eq_def]
  simp only [if_neg hquote, if_neg hslash, if_neg hc]

/-- One character that was written is read back. -/
theorem readChars_escape (c : Char) (fuel : Nat) (done rest : List Char) :
    readChars (fuel + 1) done (Text.escapeDouble c ++ rest) = readChars fuel (c :: done) rest := by
  unfold Text.escapeDouble
  -- The characters that have a letter for their escape.
  iterate 7
    split
    · next h => subst h; rfl
  split
  · next hc =>
    have hread := unicodeEscape?_control hc rest
    simp only [List.cons_append, List.nil_append, readChars, hread]
    rfl
  · next hquote hslash _ _ _ _ _ hc => exact readChars_plain hquote hslash hc fuel done rest

/-- A string that was written between double quotes is read up to its closing quote. -/
theorem readChars_escapeDouble : ∀ (s : List Char) (fuel : Nat) (done rest : List Char), s.length < fuel →
    readChars fuel done (s.flatMap Text.escapeDouble ++ '"' :: rest) = some (done.reverse ++ s, rest)
  | _, 0, _, _, h => absurd h (Nat.not_lt_zero _)
  | [], fuel + 1, done, rest, _ => by
    rw [List.flatMap_nil, List.nil_append, readChars.eq_def, List.append_nil]
    rfl
  | c :: s, fuel + 1, done, rest, h => by
    have ih := readChars_escapeDouble s fuel (c :: done) rest (Nat.lt_of_succ_lt_succ h)
    rw [List.flatMap_cons, List.append_assoc, readChars_escape, ih, List.reverse_cons, List.append_assoc]
    rfl

/-- A string between double quotes determines its characters, and where it ends. -/
theorem doubleQuotedChars_append_inj {s s' t t' : List Char}
    (h : Text.doubleQuotedChars s ++ t = Text.doubleQuotedChars s' ++ t') : s = s' ∧ t = t' := by
  simp only [Text.doubleQuotedChars, List.cons_append, List.append_assoc, List.nil_append, List.cons.injEq,
    true_and] at h
  have hread := readChars_escapeDouble s (s.length + s'.length + 1) [] t (by omega)
  have hread' := readChars_escapeDouble s' (s.length + s'.length + 1) [] t' (by omega)
  rw [h, hread'] at hread
  cases hread
  exact ⟨rfl, rfl⟩

end GraphQuery
