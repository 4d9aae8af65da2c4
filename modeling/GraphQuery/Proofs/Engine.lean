import GraphQuery.Connection.Scripted

/-!
# The engine of scripted connections

What the engine reads in a query: statements that end with semicolons, one on each line, are read as these statements
(`Script.statements_lines`). It never loses an index, and it has the index of each definition that it reads
(`Script.contains_executeAll`).
-/

namespace GraphQuery

namespace Text

variable {c : Char} {s : List Char}

theorem trimChars_cons (h : isBlank c) : trimChars (c :: s) = trimChars s := by
  rw [trimChars, List.dropWhile_cons_of_pos h, ← trimChars]

end Text

namespace Script

/-! ## Statements -/

/-- A text that is read as one statement. -/
structure OneStatement (s : String) : Prop where
  no_semicolon : ';' ∉ s.toList
  trimmed : Text.trim s = s
  not_empty : s.isEmpty = false

instance (s : String) : Decidable (OneStatement s) :=
  decidable_of_iff (';' ∉ s.toList ∧ Text.trim s = s ∧ s.isEmpty = false)
    ⟨fun ⟨h, ht, hs⟩ => ⟨h, ht, hs⟩, fun ⟨h, ht, hs⟩ => ⟨h, ht, hs⟩⟩

theorem OneStatement.statements_eq {s : String} (h : OneStatement s) : statements s = [s] := by
  simp [statements, Text.split_of_not_mem h.no_semicolon, h.trimmed, h.not_empty]

theorem OneStatement.statements_append {s : String} (h : OneStatement s) (rest : String) :
    statements (s ++ ";" ++ rest) = s :: statements rest := by
  have hsplit : Text.split ';' (s ++ ";" ++ rest) = s :: Text.split ';' rest := by
    rw [Text.split_append rfl, Text.split_of_not_mem h.no_semicolon, List.singleton_append]
  simp [statements, hsplit, h.trimmed, h.not_empty]

theorem statements_newline (rest : String) : statements ("\n" ++ rest) = statements rest := by
  obtain ⟨run, runs, hrest, hline⟩ := Text.splitChars_cons (s := rest.toList) (show '\n' ≠ ';' by decide)
  have htrim : Text.trim (String.ofList ('\n' :: run)) = Text.trim (String.ofList run) := by
    simp only [Text.trim, String.toList_ofList, Text.trimChars_cons (show Text.isBlank '\n' from rfl)]
  have htext : ("\n" ++ rest).toList = '\n' :: rest.toList := by rw [String.toList_append]; rfl
  rw [statements, statements, Text.split, Text.split, htext, hline, hrest]
  simp only [List.map_cons, htrim]

theorem statements_lines {ss : List String} (h : ∀ s ∈ ss, OneStatement s) :
    statements ("\n".intercalate (ss.map (· ++ ";"))) = ss := by
  induction ss with
  | nil => rfl
  | cons s ss ih =>
    have hs : OneStatement s := h s List.mem_cons_self
    have hrest := ih fun t ht => h t (List.mem_cons_of_mem s ht)
    cases ss with
    | nil => simpa [show statements "" = [] from rfl] using hs.statements_append ""
    | cons t ts =>
      rw [List.map_cons] at hrest
      rw [List.map_cons, List.map_cons, String.intercalate_cons_cons, String.append_assoc, hs.statements_append,
        statements_newline, hrest]

/-! ## Indexes -/

/-- After the statement there is an index of this name. -/
def Defines (statement n : String) : Prop := ∀ indexes, (execute indexes statement).2.contains n

theorem defines_of_words {statement rest n : String} (h : after? "DEFINE INDEX " statement = some rest)
    (hn : (Text.words rest).head? = some n) : Defines statement n := by
  intro indexes
  obtain ⟨more, hwords⟩ := List.head?_eq_some_iff.1 hn
  simp [execute, h, hwords, Members.contains_insert]

theorem contains_execute {indexes : Members Json} {n : String} (h : indexes.contains n) (statement : String) :
    (execute indexes statement).2.contains n := by
  unfold execute
  split
  · split
    · rw [Members.contains_insert, h, Bool.or_true]
    · exact h
  · split <;> exact h

theorem contains_executeAll {indexes : Members Json} {n : String} {ss : List String}
    (h : indexes.contains n ∨ ∃ s ∈ ss, Defines s n) : (executeAll indexes ss).2.contains n := by
  induction ss generalizing indexes with
  | nil => simpa [executeAll] using h
  | cons s ss ih =>
    refine ih ?_
    rcases h with h | ⟨t, ht, hdefines⟩
    · exact .inl (contains_execute h s)
    · rcases List.mem_cons.1 ht with rfl | ht
      · exact .inl (hdefines indexes)
      · exact .inr ⟨t, ht, hdefines⟩

/-- The script answers by itself, and has indexes of these names. -/
def Lists (script : Script) (names : List String) : Prop :=
  script.responses = [] ∧ ∀ n ∈ names, script.indexes.contains n

theorem reply_eq {script : Script} (h : script.responses = []) (text : String) : script.reply text =
    (.ok (executeAll script.indexes (statements text)).1,
      { script with
        queries := script.queries ++ [text]
        indexes := (executeAll script.indexes (statements text)).2 }) := by
  simp [reply, h]

theorem Lists.reply {script : Script} {names sent ss : List String} {text : String} (h : script.Lists names)
    (hss : statements text = ss) (hsent : ∀ n ∈ sent, ∃ s ∈ ss, Defines s n) :
    ∃ results next, script.reply text = (.ok results, next) ∧ next.Lists (names ++ sent) := by
  obtain ⟨hresponses, hnames⟩ := h
  subst hss
  refine ⟨_, _, reply_eq hresponses text, hresponses, ?_⟩
  intro n hn
  rcases List.mem_append.1 hn with hn | hn
  · exact contains_executeAll (.inl (hnames n hn))
  · exact contains_executeAll (.inr (hsent n hn))

end Script

end GraphQuery
