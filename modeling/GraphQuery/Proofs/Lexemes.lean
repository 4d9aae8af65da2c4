import GraphQuery.Proofs.Concatenation
import GraphQuery.Proofs.Names
import Mathlib.Data.List.Forall2

/-!
# Reading a statement lexeme by lexeme

A text is taken apart into lexemes (`lexemes`): words, which are the longest runs of name characters, names and strings
between their quotes, and every other character alone; blanks between them are skipped. A fragment of keywords, marks,
names without a backslash, numbers and strings is written so that its text has one lexeme for each chunk
(`chunks_are_lexemes`). Each chunk is such a lexeme where the text does not go on with a name character
(`Chunk.Simple.lexemes`), and a gap without a blank stands only where that is so, or behind a mark
(`Chunk.gap_separates`).
-/

namespace GraphQuery

/-! ## Reading one thing after the other -/

/-- A reader of the thing that a text starts with, and of what follows it. -/
structure Reader (α : Type) where
  read : Char → List Char → Option (α × List Char)
  length_le {c : Char} {cs rest : List Char} {a : α} : read c cs = some (a, rest) → rest.length ≤ cs.length

variable {α : Type}

/-- All things that are read from a text, one behind the other. -/
def Reader.all (r : Reader α) : List Char → Option (List α)
  | [] => some []
  | c :: cs =>
    match _h : r.read c cs with
    | some (a, rest) => (r.all rest).map (a :: ·)
    | none => none
termination_by cs => cs.length
decreasing_by exact Nat.lt_succ_of_le (r.length_le _h)

theorem Reader.all_cons {r : Reader α} {c : Char} {cs rest : List Char} {a : α} (h : r.read c cs = some (a, rest)) :
    r.all (c :: cs) = (r.all rest).map (a :: ·) := by
  rw [Reader.all]
  split
  · next h' =>
    rw [h] at h'
    cases h'
    rfl
  · next h' =>
    rw [h] at h'
    cases h'

/-! ## Lexemes of a text -/

/-- A word, a text between quotes with what it spells, or another character. -/
inductive Lexeme
  | word (w : List Char)
  | quoted (quote : Char) (spelled : List Char)
  | mark (c : Char)
deriving DecidableEq

/-- What a text starts with, a lexeme or a blank, and what follows it; nothing if a quote is not closed. -/
def readLexeme (c : Char) (cs : List Char) : Option (Option Lexeme × List Char) :=
  if Text.isBlank c then some (none, cs)
  else if Text.isNameChar c then
    some (some (.word (c :: cs.takeWhile Text.isNameChar)), cs.dropWhile Text.isNameChar)
  else if c = Text.backtick ∨ c = '\'' then (Text.readQuoted c cs).map fun p => (some (.quoted c p.1), p.2)
  else some (some (.mark c), cs)

theorem length_of_readLexeme {c : Char} {cs rest : List Char} {l : Option Lexeme}
    (h : readLexeme c cs = some (l, rest)) : rest.length ≤ cs.length := by
  unfold readLexeme at h
  split at h
  · cases h
    exact Nat.le_refl _
  split at h
  · cases h
    exact (List.dropWhile_suffix Text.isNameChar).length_le
  split at h
  · obtain ⟨⟨s, r⟩, hread, he⟩ := Option.map_eq_some_iff.1 h
    cases he
    obtain ⟨body, -, rfl⟩ := Text.spells_of_readQuoted hread
    simp only [List.length_append, List.length_cons]
    omega
  · cases h
    exact Nat.le_refl _

/-- The lexemes of a text, if all its quotes are closed. -/
def lexemes (cs : List Char) : Option (List Lexeme) :=
  ((⟨readLexeme, length_of_readLexeme⟩ : Reader (Option Lexeme)).all cs).map (List.filterMap id)

/-- What a lexeme stands for: a word for a keyword, a bare name or the number with these decimal digits, a quoted text
for the name or the string that it spells, and any other character for its mark. -/
inductive Lexeme.Denotes : Lexeme → Chunk → Prop
  | keyword (k : Keyword) : Denotes (.word k.text.toList) (.keyword k)
  | mark {m : Mark} {c : Char} : m.text.toList = [c] → Denotes (.mark c) (.mark m)
  | bareName (name : String) : Denotes (.word name.toList) (.ident name)
  | quotedName (name : String) : Denotes (.quoted Text.backtick name.toList) (.ident name)
  | number {n : Nat} {digits : List Char} : (∀ c ∈ digits, c.isDigit) → Nat.ofDigitChars 10 digits 0 = n →
      Denotes (.word digits) (.number n)
  | string (s : String) : Denotes (.quoted '\'' s.toList) (.value (.string s))

/-- A keyword, a mark, a name without a backslash, a number or a string. -/
def Chunk.Simple : Chunk → Prop
  | .token _ | .number _ | .value (.string _) => True
  | .ident name => '\\' ∉ name.toList
  | _ => False

theorem lexemes_of_read {c : Char} {cs rest : List Char} {l : Option Lexeme}
    (h : readLexeme c cs = some (l, rest)) : lexemes (c :: cs) = (lexemes rest).map (l.toList ++ ·) := by
  rw [lexemes, Reader.all_cons h, lexemes, Option.map_map, Option.map_map]
  cases l <;> rfl

theorem lexemes_blank {c : Char} (hc : Text.isBlank c) (cs : List Char) : lexemes (c :: cs) = lexemes cs := by
  have h : readLexeme c cs = some (none, cs) := by rw [readLexeme, if_pos hc]
  rw [lexemes_of_read h]
  simp

theorem lexemes_word {w t : List Char} (hne : w ≠ []) (hw : ∀ c ∈ w, Text.isNameChar c)
    (ht : Text.Ends Text.isNameChar t) : lexemes (w ++ t) = (lexemes t).map (.word w :: ·) := by
  cases w with
  | nil => exact absurd rfl hne
  | cons c cs =>
    have hc : Text.isNameChar c := hw c List.mem_cons_self
    have hblank : ¬ Text.isBlank c := by simp [isBlank_of_isNameChar hc]
    obtain ⟨htake, hdrop⟩ := Text.span_append (fun d hd => hw d (List.mem_cons_of_mem _ hd)) ht
    have h : readLexeme c (cs ++ t) = some (some (.word (c :: cs)), t) := by
      rw [readLexeme, if_neg hblank, if_pos hc, htake, hdrop]
    exact lexemes_of_read h

theorem lexemes_quoted {quote : Char} (hq : quote = Text.backtick ∨ quote = '\'') {cs s rest : List Char}
    (h : Text.readQuoted quote cs = some (s, rest)) :
    lexemes (quote :: cs) = (lexemes rest).map (.quoted quote s :: ·) := by
  have hquote : Text.isBlank quote = false ∧ Text.isNameChar quote = false := by
    rcases hq with rfl | rfl <;> decide
  have h' : readLexeme quote cs = some (some (.quoted quote s), rest) := by
    rw [readLexeme, if_neg (by simp [hquote.1]), if_neg (by simp [hquote.2]), if_pos hq, h]
    rfl
  exact lexemes_of_read h'

theorem lexemes_mark {c : Char} (hblank : Text.isBlank c = false) (hname : Text.isNameChar c = false)
    (hquote : ¬ (c = Text.backtick ∨ c = '\'')) (cs : List Char) :
    lexemes (c :: cs) = (lexemes cs).map (.mark c :: ·) := by
  have h : readLexeme c cs = some (some (.mark c), cs) := by
    rw [readLexeme, if_neg (by simp [hblank]), if_neg (by simp [hname]), if_neg hquote]
  exact lexemes_of_read h

/-! ## Chunks as lexemes -/

theorem Keyword.isNameChar_text (k : Keyword) : k.text.toList ≠ [] ∧ ∀ c ∈ k.text.toList, Text.isNameChar c := by
  have hall : k.text.toList ≠ [] ∧ k.text.toList.all Text.isNameChar := by
    cases k <;> decide
  exact ⟨hall.1, List.all_eq_true.1 hall.2⟩

/-- A mark is one character that is no part of anything else. -/
theorem Mark.text_char (m : Mark) : ∃ c, m.text.toList = [c] ∧ Text.isBlank c = false ∧ Text.isNameChar c = false ∧
    ¬ (c = Text.backtick ∨ c = '\'') := by
  cases m <;> exact ⟨_, rfl, by decide, by decide, by decide⟩

theorem Number.isDigit_natText (n : Nat) : (Number.natText n).toList ≠ [] ∧
    ∀ c ∈ (Number.natText n).toList, c.isDigit := by
  rw [Number.natText, String.toList_ofList]
  exact ⟨Nat.toDigits_ne_nil, fun c hc => Nat.isDigit_of_mem_toDigits (by decide) (by decide) hc⟩

theorem isNameChar_of_isDigit {c : Char} (h : c.isDigit) : Text.isNameChar c := by
  simp [Text.isNameChar, Char.isAlphanum, h]

/-- A chunk is read as one lexeme that denotes it, where the text goes on with no name character, or behind a mark that
opens up. -/
theorem Chunk.Simple.lexemes {c : Chunk} (h : c.Simple) {t : List Char} (ht : c.opensUp ∨ Text.Ends Text.isNameChar t) :
    ∃ l : Lexeme, l.Denotes c ∧ lexemes (c.written.toList ++ t) = (GraphQuery.lexemes t).map (l :: ·) := by
  cases c with
  | token token =>
    cases token with
    | keyword k =>
      obtain ⟨hne, hname⟩ := k.isNameChar_text
      exact ⟨_, .keyword k, lexemes_word hne hname (ht.resolve_left Bool.false_ne_true)⟩
    | mark m =>
      obtain ⟨c, htext, hblank, hname, hquote⟩ := m.text_char
      refine ⟨_, .mark htext, ?_⟩
      rw [Chunk.written, Token.text, htext]
      exact lexemes_mark hblank hname hquote t
  | ident name =>
    rw [Chunk.written, Text.identifier, String.toList_ofList, Text.identifierChars]
    split
    · next hbare =>
      have hne : name.toList ≠ [] := fun e => by simp [e, Text.isBare] at hbare
      exact ⟨_, .bareName name,
        lexemes_word hne (isNameChar_of_isBare hbare) (ht.resolve_left Bool.false_ne_true)⟩
    · next hbare =>
      have hread := (Text.spells_escapeBacktick h).readQuoted (by decide) t
      refine ⟨_, .quotedName name, ?_⟩
      rw [List.cons_append, List.append_assoc, List.singleton_append]
      exact lexemes_quoted (.inl rfl) hread
  | number n =>
    obtain ⟨hne, hdigits⟩ := Number.isDigit_natText n
    have hvalue : Nat.ofDigitChars 10 (Number.natText n).toList 0 = n := by
      rw [Number.natText, String.toList_ofList]
      exact Nat.ofDigitChars_toDigits (by decide) (by decide)
    exact ⟨_, .number hdigits hvalue, lexemes_word hne (fun c hc => isNameChar_of_isDigit (hdigits c hc))
      (ht.resolve_left Bool.false_ne_true)⟩
  | value v =>
    cases v with
    | string s =>
      have hread := (Text.spells_escapeSingle s.toList).readQuoted (by decide) t
      refine ⟨_, .string s, ?_⟩
      rw [Chunk.written, Value.inline, Text.singleQuoted, String.toList_ofList, Text.singleQuotedChars,
        List.cons_append, List.append_assoc, List.singleton_append]
      exact lexemes_quoted (.inr rfl) hread
    | _ => cases h
  | _ => cases h

/-! ## Gaps between chunks -/

theorem Chunk.Simple.startsBlank {c : Chunk} (h : c.Simple) : c.startsBlank = false := by
  cases c with
  | raw _ => cases h
  | template _ => cases h
  | _ => rfl

theorem Chunk.Simple.endsBlank {c : Chunk} (h : c.Simple) : c.endsBlank = false := by
  cases c with
  | raw _ => cases h
  | template _ => cases h
  | _ => rfl

/-- A mark ends a name in front of it. -/
theorem Text.ends_mark (m : Mark) (t : List Char) : Text.Ends Text.isNameChar (m.text.toList ++ t) := by
  obtain ⟨c, htext, -, hname, -⟩ := m.text_char
  rw [htext]
  intro d hd
  cases hd
  exact hname

/-- Where there is no blank in front of a simple chunk, the chunk is a mark, or stands behind a mark that opens up. -/
theorem Chunk.Simple.separated {c d : Chunk} (hc : c.Simple) (hd : d.Simple) (hspace : c.needsSpace d = false) :
    c.opensUp ∨ ∃ m, d = .mark m := by
  rw [Chunk.needsSpace, hc.endsBlank, hd.startsBlank] at hspace
  by_cases hopens : c.opensUp
  · exact .inl hopens
  · right
    cases d with
    | token token =>
      cases token with
      | keyword k => simp [hopens, closesUp, isOpenParen] at hspace
      | mark m => exact ⟨m, rfl⟩
    | _ => simp [hopens, closesUp, isOpenParen] at hspace

/-- What follows a simple chunk does not add to it. -/
theorem Chunk.gap_separates {c : Chunk} (hc : c.Simple) {f : List Chunk} (hf : ∀ d ∈ f, d.Simple) :
    c.opensUp ∨ Text.Ends Text.isNameChar ((c.gap f).toList ++ (Fragment.written f).toList) := by
  cases f with
  | nil => exact .inr nofun
  | cons d f =>
    by_cases hspace : c.needsSpace d
    · refine .inr fun e he => ?_
      rw [Chunk.gap, if_pos hspace] at he
      cases he
      rfl
    · have hd := hf d List.mem_cons_self
      refine (hc.separated hd (by simpa using hspace)).imp_right ?_
      rintro ⟨m, rfl⟩
      rw [Chunk.gap, if_neg hspace, Fragment.written, String.append_assoc, String.toList_append]
      exact Text.ends_mark m _

/-- **Chunks are lexemes**: the text of a fragment of keywords, marks, names without a backslash, numbers and strings
has exactly one lexeme for each of its chunks, in their order, and each denotes its chunk. -/
theorem chunks_are_lexemes (f : Fragment) (h : ∀ c ∈ f, c.Simple) :
    ∃ ls, lexemes f.text.toList = some ls ∧ List.Forall₂ Lexeme.Denotes ls f := by
  rw [Fragment.text_eq]
  induction f with
  | nil => exact ⟨[], by simp [Fragment.written, lexemes, Reader.all], .nil⟩
  | cons c f ih =>
    have hc := h c List.mem_cons_self
    have hf : ∀ d ∈ f, d.Simple := fun d hd => h d (List.mem_cons_of_mem _ hd)
    obtain ⟨ls, hls, hdenotes⟩ := ih hf
    obtain ⟨l, hl, hread⟩ := hc.lexemes (Chunk.gap_separates hc hf)
    refine ⟨l :: ls, ?_, .cons hl hdenotes⟩
    -- A gap is nothing or a blank, which is no lexeme.
    have hgap : lexemes ((c.gap f).toList ++ (Fragment.written f).toList) = lexemes (Fragment.written f).toList := by
      rcases Chunk.gap_cases c f with hgap | hgap
      · rw [hgap]
        rfl
      · rw [hgap]
        exact lexemes_blank rfl _
    rw [Fragment.written, String.append_assoc, String.toList_append, String.toList_append, hread, hgap, hls]
    rfl

/-- Names of both forms, a call, a path that goes on with a number, and a string with a quote, a mark and a blank. -/
theorem condition_is_lexemes :
    ∃ ls, lexemes "WHERE max(`odd name`).3 = 'it\\'s; 1' LIMIT 10;".toList = some ls ∧
      List.Forall₂ Lexeme.Denotes ls
        [.keyword .where_, .ident "max", .mark .openParen, .ident "odd name", .mark .closeParen, .mark .dot, .number 3,
          .mark .equals, .value (.string "it's; 1"), .keyword .limit, .number 10, .mark .semicolon] := by
  have h := chunks_are_lexemes [.keyword .where_, .ident "max", .mark .openParen, .ident "odd name", .mark .closeParen,
    .mark .dot, .number 3, .mark .equals, .value (.string "it's; 1"), .keyword .limit, .number 10, .mark .semicolon]
    (by simp [Chunk.Simple, Chunk.keyword, Chunk.mark])
  have htext : Fragment.text [.keyword .where_, .ident "max", .mark .openParen, .ident "odd name", .mark .closeParen,
      .mark .dot, .number 3, .mark .equals, .value (.string "it's; 1"), .keyword .limit, .number 10,
      .mark .semicolon] = "WHERE max(`odd name`).3 = 'it\\'s; 1' LIMIT 10;" := by decide
  rw [htext] at h
  exact h

end GraphQuery
