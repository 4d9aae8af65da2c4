import GraphQuery.Proofs.Scan

/-!
# Reading what stands between quotes

`Text.readQuoted` reads what stands between quotes, up to the first quote that has no backslash in front of it, and
takes the backslashes away. What it reads is described without a reader by `Text.Spells`: between quotes, a character
is spelled by itself, or by a backslash and itself; it must be the latter for the quote and the backslash
(`Spells.readQuoted`, `spells_of_readQuoted`). So quotes and backslashes are spelled by two characters (`Spells.length_le`), a text with
both of them escaped spells the text (`spells_escapeSingle`), and a text with its quotes escaped spells the text if it
has no backslash (`spells_escapeBacktick`).

The reader that only knows where it is (`Scan.run`) is outside of quotes again exactly where `readQuoted` has stopped
(`Scan.run_of_readQuoted`, `Scan.run_of_unread`).
-/

namespace GraphQuery

namespace Text

/-- The characters up to the first quote without a backslash in front of it, and what follows the quote. Behind a
backslash the next character stands for itself. -/
def readQuoted (quote : Char) : List Char → Option (List Char × List Char)
  | [] => none
  | '\\' :: c :: cs => (readQuoted quote cs).map fun p => (c :: p.1, p.2)
  | c :: cs => if c = quote then some ([], cs) else (readQuoted quote cs).map fun p => (c :: p.1, p.2)

/-- What stands between quotes, and the text that it spells. -/
inductive Spells (quote : Char) : List Char → List Char → Prop
  | nil : Spells quote [] []
  | escaped (c : Char) {body s : List Char} : Spells quote body s → Spells quote ('\\' :: c :: body) (c :: s)
  | plain {c : Char} {body s : List Char} : c ≠ '\\' → c ≠ quote → Spells quote body s →
      Spells quote (c :: body) (c :: s)

variable {quote : Char} {body s : List Char}

/-! ## What a reader reads -/

theorem readQuoted_cons {c : Char} (hc : c ≠ '\\') (cs : List Char) : readQuoted quote (c :: cs) =
    if c = quote then some ([], cs) else (readQuoted quote cs).map fun p => (c :: p.1, p.2) := by
  rw [readQuoted]
  exact fun _ _ he _ => hc he

theorem Spells.readQuoted (hq : quote ≠ '\\') (h : Spells quote body s) (rest : List Char) :
    readQuoted quote (body ++ quote :: rest) = some (s, rest) := by
  induction h with
  | nil => rw [List.nil_append, readQuoted_cons hq, if_pos rfl]
  | escaped c _ ih =>
    rw [List.cons_append, List.cons_append, Text.readQuoted, ih]
    rfl
  | plain hc hne _ ih =>
    rw [List.cons_append, readQuoted_cons hc, if_neg hne, ih]
    rfl

theorem spells_of_readQuoted {cs rest : List Char} (h : readQuoted quote cs = some (s, rest)) :
    ∃ body, Spells quote body s ∧ cs = body ++ quote :: rest := by
  induction cs using readQuoted.induct quote generalizing s with
  | case1 => cases h
  | case2 c cs ih =>
    obtain ⟨⟨t, r⟩, hread, he⟩ := Option.map_eq_some_iff.1 h
    cases he
    obtain ⟨body, hbody, rfl⟩ := ih hread
    exact ⟨_, hbody.escaped c, rfl⟩
  | case3 cs hend =>
    rw [readQuoted, if_pos rfl] at h
    · cases h
      exact ⟨[], .nil, rfl⟩
    · exact hend
  | case4 c cs hend hne ih =>
    rw [readQuoted, if_neg hne] at h
    · obtain ⟨⟨t, r⟩, hread, he⟩ := Option.map_eq_some_iff.1 h
      cases he
      obtain ⟨body, hbody, rfl⟩ := ih hread
      -- A backslash has a character behind it, if only the closing quote.
      have hc : c ≠ '\\' := by
        rintro rfl
        cases body with
        | nil => exact hend _ _ rfl rfl
        | cons d ds => exact hend _ _ rfl rfl
      exact ⟨_, hbody.plain hc hne, rfl⟩
    · exact hend

/-- What was read is read as well when more follows. -/
theorem readQuoted_append (hq : quote ≠ '\\') {cs rest : List Char} (h : readQuoted quote cs = some (s, rest))
    (more : List Char) : readQuoted quote (cs ++ more) = some (s, rest ++ more) := by
  obtain ⟨body, hbody, rfl⟩ := spells_of_readQuoted h
  rw [List.append_assoc, List.cons_append]
  exact hbody.readQuoted hq (rest ++ more)

/-- Quotes and backslashes are spelled by two characters. -/
theorem Spells.length_le (hq : quote ≠ '\\') (h : Spells quote body s) :
    s.length + s.count quote + s.count '\\' ≤ body.length := by
  induction h with
  | nil => simp
  | @escaped c body s _ ih =>
    -- No character is both.
    have hcount : (c :: s).count quote + (c :: s).count '\\' ≤ s.count quote + s.count '\\' + 1 := by
      by_cases hc : c = '\\'
      · rw [hc, List.count_cons_self, List.count_cons_of_ne (Ne.symm hq)]
        omega
      · rw [List.count_cons_of_ne hc, List.count_cons]
        split <;> omega
    simp only [List.length_cons]
    omega
  | plain hc hne _ ih =>
    rw [List.length_cons, List.length_cons, List.count_cons_of_ne hne, List.count_cons_of_ne hc]
    omega

/-! ## What is written -/

theorem Spells.append {body' s' : List Char} (h : Spells quote body s) (h' : Spells quote body' s') :
    Spells quote (body ++ body') (s ++ s') := by
  induction h with
  | nil => exact h'
  | escaped c _ ih => exact ih.escaped c
  | plain hc hne _ ih => exact ih.plain hc hne

/-- A text is spelled when each of its characters is. -/
theorem Spells.flatMap {escape : Char → List Char} : ∀ {s : List Char},
    (∀ c ∈ s, Spells quote (escape c) [c]) → Spells quote (s.flatMap escape) s
  | [], _ => .nil
  | c :: s, h => by
    rw [List.flatMap_cons]
    exact (h c List.mem_cons_self).append (Spells.flatMap fun d hd => h d (List.mem_cons_of_mem _ hd))

theorem spells_escapeSingle (s : List Char) : Spells '\'' (s.flatMap escapeSingle) s := by
  refine Spells.flatMap fun c _ => ?_
  unfold escapeSingle
  split
  · exact Spells.nil.escaped c
  · next h => exact Spells.nil.plain (fun e => h (.inr e)) (fun e => h (.inl e))

theorem spells_escapeBacktick (hs : '\\' ∉ s) : Spells backtick (s.flatMap escapeBacktick) s := by
  refine Spells.flatMap fun c hc => ?_
  unfold escapeBacktick
  split
  · next h =>
    rw [h]
    exact Spells.nil.escaped backtick
  · next h => exact Spells.nil.plain (fun e => hs (e ▸ hc)) h

end Text

namespace Scan

open Text (Spells)

variable {q : Quotes} {quote : Char} {body s cs rest : List Char}

/-! ## Readers that only know where they are -/

theorem run_of_spells (h : Spells quote body s) : run q (.inside quote) body = .inside quote := by
  induction h with
  | nil => rfl
  | escaped c _ ih => exact ih
  | plain hc hne _ ih => rw [run_cons, step, if_neg hc, if_neg hne, ih]

/-- Behind what was read, reading goes on outside of quotes. -/
theorem run_of_readQuoted (hq : quote ≠ '\\') (h : Text.readQuoted quote cs = some (s, rest)) :
    run q (.inside quote) cs = run q .outside rest := by
  obtain ⟨body, hbody, rfl⟩ := Text.spells_of_readQuoted h
  rw [run_append, run_of_spells hbody, run_cons, step, if_neg hq, if_pos rfl]

/-- What cannot be read does not close its quotes. -/
theorem run_of_unread (h : Text.readQuoted quote cs = none) : run q (.inside quote) cs ≠ .outside := by
  induction cs using Text.readQuoted.induct quote with
  | case1 => exact State.noConfusion
  | case2 c cs ih => exact ih (Option.map_eq_none_iff.1 h)
  | case3 cs hend =>
    rw [Text.readQuoted, if_pos rfl] at h
    · cases h
    · exact hend
  | case4 c cs hend hne ih =>
    rw [Text.readQuoted, if_neg hne] at h
    · by_cases hc : c = '\\'
      · cases cs with
        | nil => simp [hc, run, step]
        | cons d ds => exact absurd rfl (hend d ds hc)
      · rw [run_cons, step, if_neg hc, if_neg hne]
        exact ih (Option.map_eq_none_iff.1 h)
    · exact hend

end Scan

end GraphQuery
