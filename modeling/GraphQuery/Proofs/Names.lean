import GraphQuery.Proofs.Occurrence
import GraphQuery.Proofs.Quoting

/-!
# Names in a statement

A name is read at the start of a text: bare, as far as its characters go, or between backticks (`Text.readName`). A
name that a fragment writes is read back, up to its very end, exactly when it has no backslash
(`identifier_reads_back_iff`): a backtick is written behind a backslash, but a backslash is written as it is, so that
the name can end its quotes early (`identifier_quotes_end_early`).
-/

namespace GraphQuery

/-! ## Characters of names -/

/-- The name characters stand from the digit zero to the letter z. -/
theorem toNat_of_isNameChar {c : Char} (h : Text.isNameChar c) : 48 ≤ c.toNat ∧ c.toNat ≤ 122 := by
  rcases Bool.or_eq_true_iff.1 h with hword | hline
  · rcases Bool.or_eq_true_iff.1 hword with hletter | hdigit
    · rcases Bool.or_eq_true_iff.1 hletter with hupper | hlower
      · obtain ⟨hleast, hgreatest⟩ := of_decide_eq_true hupper
        exact ⟨Nat.le_trans (by decide) hleast, Nat.le_trans hgreatest (by decide)⟩
      · obtain ⟨hleast, hgreatest⟩ := Bool.and_eq_true_iff.1 hlower
        exact ⟨Nat.le_trans (by decide) (of_decide_eq_true hleast),
          Nat.le_trans (of_decide_eq_true hgreatest) (by decide)⟩
    · obtain ⟨hleast, hgreatest⟩ := Char.isDigit_iff_toNat.1 hdigit
      exact ⟨hleast, Nat.le_trans hgreatest (by decide)⟩
  · rw [eq_of_beq hline]
    decide

theorem isBlank_of_isNameChar {c : Char} (h : Text.isNameChar c) : Text.isBlank c = false := by
  obtain ⟨hleast, hgreatest⟩ := toNat_of_isNameChar h
  simp only [Text.isBlank]
  simp
  omega

theorem isNameChar_of_isBare : ∀ {cs : List Char}, Text.isBare cs → ∀ c ∈ cs, Text.isNameChar c
  | c :: cs, h, d, hd => by
    simp only [Text.isBare, Bool.and_eq_true, List.all_eq_true] at h
    rcases List.mem_cons.1 hd with rfl | hd
    · have hstart := h.1
      simp only [Text.isNameStart, Bool.or_eq_true] at hstart
      rcases hstart with halpha | hline
      · simp [Text.isNameChar, Char.isAlphanum, halpha]
      · simp [Text.isNameChar, hline]
    · exact h.2 d hd

/-- A character of a class is none that is not in it. -/
theorem ne_of_class {p : Char → Bool} {c d : Char} (hc : p c) (hd : p d = false) : c ≠ d := by
  rintro rfl
  rw [hc] at hd
  cases hd

/-! ## Names at the start of a text -/

namespace Text

/-- The name at the start of a text, and what follows it: name characters from a letter or an underscore on, or what
stands between backticks. -/
def readName : List Char → Option (List Char × List Char)
  | [] => none
  | c :: cs =>
    if c = backtick then readQuoted backtick cs
    else if isNameStart c then some ((c :: cs).takeWhile isNameChar, (c :: cs).dropWhile isNameChar)
    else none

/-- The text does not start with a character of a class, so that a run of such characters ends in front of it. -/
def Ends (p : Char → Bool) (t : List Char) : Prop := ∀ c ∈ t.head?, p c = false

theorem span_append {p : Char → Bool} {run t : List Char} (hrun : ∀ c ∈ run, p c) (ht : Ends p t) :
    (run ++ t).takeWhile p = run ∧ (run ++ t).dropWhile p = t := by
  have hend : t.takeWhile p = [] ∧ t.dropWhile p = t := by
    cases t with
    | nil => exact ⟨rfl, rfl⟩
    | cons c t =>
      have hc : p c = false := ht c rfl
      simp [hc]
  rw [List.takeWhile_append_of_pos hrun, List.dropWhile_append_of_pos hrun, hend.1, hend.2, List.append_nil]
  exact ⟨rfl, rfl⟩

theorem readName_bare {name t : List Char} (hname : isBare name) (ht : Ends isNameChar t) :
    readName (name ++ t) = some (name, t) := by
  obtain ⟨htake, hdrop⟩ := span_append (isNameChar_of_isBare hname) ht
  cases name with
  | nil => cases hname
  | cons c cs =>
    have hstart : isNameStart c := (Bool.and_eq_true_iff.1 hname).1
    have hc : c ≠ backtick := ne_of_class (isNameChar_of_isBare hname c List.mem_cons_self) (by decide)
    rw [List.cons_append] at htake hdrop ⊢
    rw [readName, if_neg hc, if_pos hstart, htake, hdrop]

theorem length_flatMap_escapeBacktick (name : List Char) :
    (name.flatMap escapeBacktick).length = name.length + name.count backtick := by
  induction name with
  | nil => rfl
  | cons c name ih =>
    rw [List.flatMap_cons, List.length_append, ih]
    by_cases hc : c = backtick
    · rw [hc, List.count_cons_self, escapeBacktick, if_pos rfl]
      simp only [List.length_cons, List.length_nil]
      omega
    · rw [List.count_cons_of_ne hc, escapeBacktick, if_neg hc]
      simp only [List.length_cons, List.length_nil]
      omega

/-- A name between backticks is read back exactly when it has no backslash. -/
theorem readName_quoted_iff {name t : List Char} :
    readName (backtick :: (name.flatMap escapeBacktick ++ [backtick]) ++ t) = some (name, t) ↔ '\\' ∉ name := by
  have hbody : backtick :: (name.flatMap escapeBacktick ++ [backtick]) ++ t =
      backtick :: (name.flatMap escapeBacktick ++ backtick :: t) := by simp
  rw [hbody, readName, if_pos rfl]
  constructor
  · intro h
    obtain ⟨body, hspells, heq⟩ := spells_of_readQuoted h
    have hlen : (name.flatMap escapeBacktick).length = body.length := by
      have hboth := congrArg List.length heq
      simp only [List.length_append] at hboth
      omega
    have hwritten := length_flatMap_escapeBacktick name
    -- A backslash in the name would be spelled by two characters, but only one was written for it.
    have hle := hspells.length_le (by decide)
    exact List.count_eq_zero.1 (by omega)
  · intro h
    exact (spells_escapeBacktick h).readQuoted (by decide) t

end Text

/-! ## Names that a fragment writes -/

theorem Fragment.text_ident (name : String) :
    (Fragment.ident name).text.toList = Text.identifierChars name.toList := by
  simp [Fragment.text, Fragment.ident, Fragment.render, Chunk.render, Chunk.gap, Text.identifier]

/-- **Written names**: where a text goes on that does not add to a bare name, the name in front of it is read back, and
nothing but the name, exactly when there is no backslash in it. -/
theorem identifier_reads_back_iff (name : String) (t : List Char)
    (ht : Text.isBare name.toList → Text.Ends Text.isNameChar t) :
    Text.readName ((Fragment.ident name).text.toList ++ t) = some (name.toList, t) ↔ '\\' ∉ name.toList := by
  rw [Fragment.text_ident, Text.identifierChars]
  by_cases hbare : Text.isBare name.toList
  · have hslash : '\\' ∉ name.toList := fun h => by
      have hc := isNameChar_of_isBare hbare _ h
      exact absurd hc (by decide)
    rw [if_pos hbare, Text.readName_bare hbare (ht hbare)]
    simp [hslash]
  · rw [if_neg hbare]
    exact Text.readName_quoted_iff

/-- A bare name ends where a comma stands, and a name with a backtick and a blank at its own quote. -/
theorem identifiers_read_back :
    Text.readName "title, `odd \\` name` ON".toList = some ("title".toList, ", `odd \\` name` ON".toList) ∧
    Text.readName "`odd \\` name` ON".toList = some ("odd ` name".toList, " ON".toList) := by
  have hcomma : Text.Ends Text.isNameChar ", `odd \\` name` ON".toList := by
    intro c hc
    cases hc
    rfl
  have hbare := (identifier_reads_back_iff "title" ", `odd \\` name` ON".toList fun _ => hcomma).2 (by decide)
  have hquoted := (identifier_reads_back_iff "odd ` name" " ON".toList fun h => absurd h (by decide)).2 (by decide)
  exact ⟨hbare, hquoted⟩

/-- A name with a backslash in front of a backtick ends its quotes at the backtick, and the rest of it is a second
statement. -/
theorem identifier_quotes_end_early :
    (Fragment.ident "a\\`; DELETE user").text = "`a\\\\`; DELETE user`" ∧
    Text.readName "`a\\\\`; DELETE user`".toList = some ("a\\".toList, "; DELETE user`".toList) := by
  decide

end GraphQuery
