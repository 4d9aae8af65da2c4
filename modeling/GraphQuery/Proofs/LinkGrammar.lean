import GraphQuery.Proofs.LinkText
import GraphQuery.Text.Split
import Mathlib.Computability.Language

/-!
# The texts of links

The texts that are read as links are a regular language (`Link.texts`): a letter or an underscore, letters, digits and
underscores, a colon, and one or more characters that are not blank. A link is read from each text of the language and
from no other (`Link.isSome_split?_iff`). The first colon of the text divides its table from its key, which may hold
colons itself, and the link is made again from its table and its text (`link_texts_recognised`). The latter is true of
all links, whatever characters they hold (`Link.of_text`).
-/

namespace GraphQuery

open scoped Computability

namespace Text

/-! ## Classes of characters -/

section Classes

variable {p : Char → Bool} {t : List Char}

/-- The texts of one character of a class. -/
def oneOf (p : Char → Bool) : Language Char := {t | ∃ c, p c ∧ t = [c]}

theorem mem_oneOf_mul {l : Language Char} : t ∈ oneOf p * l ↔ ∃ c rest, t = c :: rest ∧ p c ∧ rest ∈ l := by
  rw [Language.mem_mul]
  constructor
  · rintro ⟨_, ⟨c, hc, rfl⟩, rest, hrest, rfl⟩
    exact ⟨c, rest, rfl, hc, hrest⟩
  · rintro ⟨c, rest, rfl, hc, hrest⟩
    exact ⟨[c], ⟨c, hc, rfl⟩, rest, hrest, rfl⟩

theorem mem_kstar_oneOf : t ∈ (oneOf p)∗ ↔ ∀ c ∈ t, p c := by
  constructor
  · intro h
    obtain ⟨ts, rfl, hts⟩ := Language.mem_kstar.1 h
    intro c hc
    obtain ⟨u, hu, hcu⟩ := List.mem_flatten.1 hc
    obtain ⟨d, hd, rfl⟩ := hts u hu
    rwa [List.mem_singleton.1 hcu]
  · intro h
    have hflatten : t = (t.map fun c => [c]).flatten := by rw [← List.flatMap_def, List.flatMap_singleton']
    refine Language.mem_kstar.2 ⟨_, hflatten, fun u hu => ?_⟩
    obtain ⟨c, hc, rfl⟩ := List.mem_map.1 hu
    exact ⟨c, h c hc, rfl⟩

/-- A bare name is a character that starts names, and any characters of names. -/
theorem mem_name_iff : t ∈ oneOf isNameStart * (oneOf isNameChar)∗ ↔ isBare t := by
  rw [mem_oneOf_mul]
  constructor
  · rintro ⟨c, cs, rfl, hc, hcs⟩
    rw [isBare, Bool.and_eq_true, List.all_eq_true]
    exact ⟨hc, mem_kstar_oneOf.1 hcs⟩
  · intro h
    cases t with
    | nil => cases h
    | cons c cs =>
      rw [isBare, Bool.and_eq_true, List.all_eq_true] at h
      exact ⟨c, cs, rfl, h.1, mem_kstar_oneOf.2 h.2⟩

/-- One or more characters of a class. -/
theorem mem_plus_oneOf : t ∈ oneOf p * (oneOf p)∗ ↔ t ≠ [] ∧ ∀ c ∈ t, p c := by
  rw [mem_oneOf_mul]
  constructor
  · rintro ⟨c, cs, rfl, hc, hcs⟩
    exact ⟨List.cons_ne_nil c cs, List.forall_mem_cons.2 ⟨hc, mem_kstar_oneOf.1 hcs⟩⟩
  · rintro ⟨hne, h⟩
    obtain ⟨c, cs, rfl⟩ := List.exists_cons_of_ne_nil hne
    obtain ⟨hc, hcs⟩ := List.forall_mem_cons.1 h
    exact ⟨c, cs, rfl, hc, mem_kstar_oneOf.2 hcs⟩

end Classes

/-- A text is cut at a character behind a first part that does not have it. -/
theorem cut_of_toList {sep : Char} {text before after : String} (h : text.toList = before.toList ++ sep :: after.toList)
    (hsep : sep ∉ before.toList) : cut sep text = (before, some after) := by
  have hbefore : ∀ c ∈ before.toList, decide (c ≠ sep) := fun c hc => decide_eq_true (ne_of_mem_of_not_mem hc hsep)
  have hafter : Ends (fun c => decide (c ≠ sep)) (sep :: after.toList) := by
    intro c hc
    cases hc
    simp
  obtain ⟨htake, hdrop⟩ := span_append hbefore hafter
  rw [cut, cutChars, h, htake, hdrop]
  simp

end Text

/-! ## Links -/

namespace Link

open Text (oneOf)

/-- The texts of links: a letter or an underscore, letters, digits and underscores, a colon, and one or more characters
that are not blank. -/
def texts : Language Char :=
  oneOf Text.isNameStart * (oneOf Text.isNameChar)∗ *
    (oneOf (· = ':') * (oneOf (!Text.isBlank ·) * (oneOf (!Text.isBlank ·))∗))

/-- A text is divided into a table and a key exactly when it is the text of a link. -/
theorem isSome_split?_iff {t : List Char} : (split? t).isSome ↔ t ∈ texts := by
  rw [Option.isSome_iff_exists, Prod.exists, texts, Language.mem_mul]
  constructor
  · rintro ⟨table, key, h⟩
    obtain ⟨rfl, htable, hne, hsolid⟩ := split?_eq_some_iff.1 h
    have hkey : key ∈ oneOf (!Text.isBlank ·) * (oneOf (!Text.isBlank ·))∗ :=
      Text.mem_plus_oneOf.2 ⟨hne, fun c hc => by rw [hsolid c hc]; rfl⟩
    exact ⟨table, Text.mem_name_iff.2 htable, ':' :: key, Text.mem_oneOf_mul.2 ⟨':', key, rfl, rfl, hkey⟩, rfl⟩
  · rintro ⟨table, htable, rest, hrest, rfl⟩
    obtain ⟨c, key, rfl, hc, hkey⟩ := Text.mem_oneOf_mul.1 hrest
    obtain ⟨hne, hsolid⟩ := Text.mem_plus_oneOf.1 hkey
    obtain rfl : c = ':' := of_decide_eq_true hc
    exact ⟨table, key, split?_eq_some_iff.2 ⟨rfl, Text.mem_name_iff.1 htable, hne, by simpa using hsolid⟩⟩

/-- The key of a link is what stands behind the table and the colon in its text. -/
theorem stripTable_append (table key : List Char) : stripTable table (table ++ ':' :: key) = key := by
  rcases stripTable_cases table (table ++ ':' :: key) with ⟨rest, hkey, hstrip⟩ | ⟨hother, -⟩
  · rw [hstrip]
    exact (List.cons.inj (List.append_cancel_left hkey)).2.symm
  · exact absurd rfl (hother key)

/-- A link is made again from its table and its text. -/
theorem of_text (l : Link) : Link.of l.table l.text = l := by
  rw [Link.of, text_toList, stripTable_append, String.ofList_toList]

end Link

/-- **Texts of links**: a link is read from a text exactly when the text is a letter or an underscore, letters, digits
and underscores, a colon, and one or more characters that are not blank. Its table is then what stands before the first
colon, its key all that stands behind it, its text the text that was read, and the table with this text for a key makes
the same link. And whatever the table and the key are, a link is made again from its table and its text. -/
theorem link_texts_recognised :
    (∀ s : String, (Link.parse? s).isSome ↔ s.toList ∈ Link.texts) ∧
    (∀ (s : String) (l : Link), Link.parse? s = some l ↔ s.toList ∈ Link.texts ∧
      Text.cut ':' s = (l.table, some l.key) ∧ l.text = s ∧ Link.of l.table s = l) ∧
    ∀ table key : String, Link.of table (Link.of table key).text = Link.of table key := by
  have hread (s : String) : (Link.parse? s).isSome ↔ s.toList ∈ Link.texts := by
    rw [Link.parse?, Option.isSome_map, Link.isSome_split?_iff]
  refine ⟨hread, fun s l => ⟨fun h => ?_, ?_⟩, fun table key => Link.of_text (Link.of table key)⟩
  · obtain ⟨rfl, hl⟩ := Link.parse?_eq_some_iff.1 h
    have hcut := Text.cut_of_toList l.text_toList hl.colon_not_mem
    exact ⟨(hread l.text).1 (Option.isSome_of_eq_some h), hcut, rfl, l.of_text⟩
  · rintro ⟨hs, hcut, -, -⟩
    obtain ⟨l', hl'⟩ := Option.isSome_iff_exists.1 ((hread s).2 hs)
    obtain ⟨rfl, hreadable⟩ := Link.parse?_eq_some_iff.1 hl'
    have hcut' := Text.cut_of_toList l'.text_toList hreadable.colon_not_mem
    have htable : l'.table = l.table := congrArg Prod.fst (hcut'.symm.trans hcut)
    have hkey : l'.key = l.key := Option.some.inj (congrArg Prod.snd (hcut'.symm.trans hcut))
    rw [hl', show l' = ⟨l'.table, l'.key⟩ from rfl, htable, hkey]

/-- Further colons belong to the key, and a key is not shortened when it is read. -/
example : Link.parse? "user:user:henry" = some ⟨"user", "user:henry"⟩ := rfl

end GraphQuery
