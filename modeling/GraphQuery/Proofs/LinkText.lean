import GraphQuery.Json.Decoder
import GraphQuery.Proofs.Names

/-!
# Record links in documents

A link is written to a document as its text and read back from it. A document is read as a link exactly when it is the
text of a link whose table has a bare name and whose key is not empty and has no blanks, and then as that link
(`Decoder.link_eq_ok_iff`). So these are the links that are read back from what they are written to
(`link_reads_back_iff`).
-/

namespace GraphQuery

namespace Link

/-- Links whose text tells them: the table has a bare name, and the key is not empty and has no blanks. -/
structure Readable (l : Link) : Prop where
  table_bare : Text.isBare l.table.toList
  key_ne_empty : l.key ≠ ""
  key_solid : ∀ c ∈ l.key.toList, Text.isBlank c = false

/-- A bare name before a colon ends at the colon, which is no name character. -/
theorem span_table {table : List Char} (h : Text.isBare table) (key : List Char) :
    (table ++ ':' :: key).takeWhile Text.isNameChar = table ∧
      (table ++ ':' :: key).dropWhile Text.isNameChar = ':' :: key :=
  Text.span_append (isNameChar_of_isBare h) fun c hc => by cases hc; rfl

/-- A text is divided exactly when it is a bare name, a colon, and some characters that are not blank. -/
theorem split?_eq_some_iff {s table key : List Char} :
    split? s = some (table, key) ↔
      s = table ++ ':' :: key ∧ Text.isBare table ∧ key ≠ [] ∧ ∀ c ∈ key, Text.isBlank c = false := by
  constructor
  · intro h
    rw [split?] at h
    split at h
    · next key' hdrop =>
      simp only [Option.ite_none_right_eq_some, Option.some.injEq, Prod.mk.injEq] at h
      obtain ⟨hparts, rfl, rfl⟩ := h
      have hs : s = s.takeWhile Text.isNameChar ++ ':' :: key' := by rw [← hdrop, List.takeWhile_append_dropWhile]
      exact ⟨hs, by simpa [and_assoc] using hparts⟩
    · cases h
  · rintro ⟨rfl, htable, hne, hsolid⟩
    obtain ⟨htake, hdrop⟩ := span_table htable key
    rw [split?, hdrop]
    simp only [htake]
    exact if_pos (by simpa [htable, hne] using hsolid)

theorem text_toList (l : Link) : l.text.toList = l.table.toList ++ ':' :: l.key.toList := by
  simp [text]

/-- A text is read as a link exactly when it is the text of the link, and the link is readable. -/
theorem parse?_eq_some_iff {s : String} {l : Link} : parse? s = some l ↔ s = l.text ∧ l.Readable := by
  have hsplit : parse? s = some l ↔ split? s.toList = some (l.table.toList, l.key.toList) := by
    rw [parse?, Option.map_eq_some_iff]
    constructor
    · rintro ⟨⟨table, key⟩, h, rfl⟩
      simpa using h
    · intro h
      exact ⟨_, h, by simp⟩
  rw [hsplit, split?_eq_some_iff, ← l.text_toList, String.toList_inj]
  constructor
  · rintro ⟨hs, htable, hne, hsolid⟩
    exact ⟨hs, htable, fun h => hne (by rw [h]; rfl), hsolid⟩
  · rintro ⟨hs, htable, hne, hsolid⟩
    exact ⟨hs, htable, fun h => hne (String.toList_eq_nil_iff.1 h), hsolid⟩

/-- Links to tables without a colon in their names are told by their texts. -/
theorem eq_of_text_eq {l l' : Link} (hl : ':' ∉ l.table.toList) (hl' : ':' ∉ l'.table.toList) (h : l.text = l'.text) :
    l = l' := by
  have hspan (l : Link) (hl : ':' ∉ l.table.toList) :=
    Text.span_append (p := (· != ':')) (t := ':' :: l.key.toList) (fun c hc => bne_iff_ne.2 fun e => hl (e ▸ hc))
      fun c hc => by cases hc; rfl
  obtain ⟨htable, hkey⟩ := hspan l hl
  obtain ⟨htable', hkey'⟩ := hspan l' hl'
  rw [← text_toList, h, text_toList] at htable hkey
  have htables : l.table = l'.table := String.toList_inj.1 (htable.symm.trans htable')
  have hkeys : l.key = l'.key := String.toList_inj.1 (List.cons.inj (hkey.symm.trans hkey')).2
  rw [show l = ⟨l.table, l.key⟩ from rfl, htables, hkeys]

theorem Readable.colon_not_mem {l : Link} (h : l.Readable) : ':' ∉ l.table.toList := fun hc =>
  absurd (isNameChar_of_isBare h.table_bare _ hc) (by decide)

/-- The key of a link is what stands behind the table and the colon if they are in front, and otherwise all that is
given. -/
theorem stripTable_cases (table key : List Char) :
    (∃ rest, key = table ++ ':' :: rest ∧ stripTable table key = rest) ∨
      ((∀ rest, key ≠ table ++ ':' :: rest) ∧ stripTable table key = key) := by
  rw [stripTable]
  split
  · next hprefix =>
    obtain ⟨rest, rfl⟩ := List.isPrefixOf_iff_prefix.1 hprefix
    refine .inl ⟨rest, by simp, ?_⟩
    rw [show table.length + 1 = (table ++ [':']).length by simp, List.drop_left]
  · next hprefix =>
    refine .inr ⟨fun rest h => hprefix ?_, rfl⟩
    exact List.isPrefixOf_iff_prefix.2 ⟨rest, by simp [h]⟩

/-- Whether the link of a key is readable, the key may be given with its table in front or without it. -/
theorem readable_of_iff {table key : String} :
    (Link.of table key).Readable ↔ Text.isBare table.toList ∧ key ≠ "" ∧ key ≠ table ++ ":" ∧
      ∀ c ∈ key.toList, Text.isBlank c = false := by
  have hreadable : (Link.of table key).Readable ↔ Text.isBare table.toList ∧
      stripTable table.toList key.toList ≠ [] ∧ ∀ c ∈ stripTable table.toList key.toList, Text.isBlank c = false := by
    constructor
    · rintro ⟨htable, hne, hsolid⟩
      exact ⟨htable, fun h => hne (by simp [Link.of, h]), by simpa [Link.of] using hsolid⟩
    · rintro ⟨htable, hne, hsolid⟩
      exact ⟨htable, fun h => hne (by simpa [Link.of] using congrArg String.toList h), by simpa [Link.of] using hsolid⟩
  rw [hreadable]
  refine and_congr_right fun htable => ?_
  rw [ne_eq key "", ne_eq key (table ++ ":"), ← String.toList_inj, ← String.toList_inj, String.toList_append]
  rcases stripTable_cases table.toList key.toList with ⟨rest, hkey, hstrip⟩ | ⟨hother, hstrip⟩
  · have hblank : ∀ c ∈ table.toList, Text.isBlank c = false := fun c hc =>
      isBlank_of_isNameChar (isNameChar_of_isBare htable c hc)
    have hsolid : (∀ c ∈ table.toList ++ ':' :: rest, Text.isBlank c = false) ↔ ∀ c ∈ rest, Text.isBlank c = false := by
      rw [List.forall_mem_append, List.forall_mem_cons]
      exact ⟨fun h => h.2.2, fun h => ⟨hblank, rfl, h⟩⟩
    rw [hstrip, hkey, hsolid]
    simp
  · rw [hstrip]
    simp [hother]

end Link

/-! ## Reading links -/

/-- A document is read as a link exactly when it is the document of the link, and the link is readable. -/
theorem Decoder.link_eq_ok_iff {j : Json} {l : Link} : Decoder.link j = .ok l ↔ j = l.toJson ∧ l.Readable := by
  cases j with
  | string s =>
    rw [Link.toJson, Json.string.injEq, ← Link.parse?_eq_some_iff, Decoder.link]
    cases Link.parse? s <;> simp
  | _ => simp [Decoder.link, Link.toJson]

theorem Decoder.link_toJson_eq_error {l : Link} {e : DecodeError} (h : Decoder.link l.toJson = .error e) :
    e = .notALink l.text := by
  rw [Link.toJson, Decoder.link] at h
  split at h <;> cases h
  rfl

/-- **Links in documents**: a link is read back from its document exactly when its table has a bare name and its key,
with or without the table in front, is not empty and has no blanks. Any other link to a table without a colon in its
name is refused, and its text is in the error. -/
theorem link_reads_back_iff (table key : String) :
    (Decoder.link (Link.of table key).toJson = .ok (Link.of table key) ↔
      Text.isBare table.toList ∧ key ≠ "" ∧ key ≠ table ++ ":" ∧ ∀ c ∈ key.toList, Text.isBlank c = false) ∧
    (':' ∈ table.toList ∨ Decoder.link (Link.of table key).toJson = .ok (Link.of table key) ∨
      Decoder.link (Link.of table key).toJson = .error (.notALink (Link.of table key).text)) := by
  refine ⟨by rw [Decoder.link_eq_ok_iff, ← Link.readable_of_iff]; simp, ?_⟩
  by_cases hcolon : ':' ∈ table.toList
  · exact .inl hcolon
  · refine .inr ?_
    cases hread : Decoder.link (Link.of table key).toJson with
    | ok l =>
      obtain ⟨hjson, hl⟩ := Decoder.link_eq_ok_iff.1 hread
      rw [Link.eq_of_text_eq hl.colon_not_mem hcolon (Json.string.inj hjson).symm]
      exact .inl rfl
    | error e =>
      rw [Decoder.link_toJson_eq_error hread]
      exact .inr rfl

/-- Links that are not read back: the name of the table is not bare, the key has a blank or is empty, or a colon in the
name of the table makes the text that of another link. -/
theorem links_not_read_back :
    Decoder.link (Link.of "odd-edge" "a").toJson = .error (.notALink "odd-edge:a") ∧
    Decoder.link (Link.of "user" "a b").toJson = .error (.notALink "user:a b") ∧
    Decoder.link (Link.of "user" "").toJson = .error (.notALink "user:") ∧
    Decoder.link (Link.of "a:b" "c").toJson = .ok (Link.of "a" "b:c") :=
  ⟨rfl, rfl, rfl, rfl⟩

end GraphQuery
