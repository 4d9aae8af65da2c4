import GraphQuery.Proofs.Occurrence

/-!
# The lines in front of a statement

* The lines of a compiled fragment are those of the bindings in it, none of them twice, and each behind the lines of
  the bindings inside of its value (`compile_bindings_hoisted`).
* A name that is declared more than once holds the value of its last binding exactly when every other line that
  declares it was met before that binding's line was met first (`last_binding_decides_iff`). A line that was met before
  is not written again, so going back to an earlier value is lost (`last_binding_lost`).
-/

namespace GraphQuery

/-! ## First bindings with a line -/

theorem exists_first_line {line : String} : ∀ {bs : List Binding}, line ∈ bs.map Binding.line →
    ∃ before b after, bs = before ++ b :: after ∧ b.line = line ∧ ∀ c ∈ before, c.line ≠ line
  | [], h => by simp at h
  | b :: bs, h => by
    by_cases hb : b.line = line
    · exact ⟨[], b, bs, rfl, hb, by simp⟩
    · have hbs : line ∈ bs.map Binding.line := (List.mem_cons.1 h).resolve_left (Ne.symm hb)
      obtain ⟨before, c, after, rfl, hc, hfirst⟩ := exists_first_line hbs
      refine ⟨b :: before, c, after, rfl, hc, fun d hd => ?_⟩
      rcases List.mem_cons.1 hd with rfl | hd
      · exact hb
      · exact hfirst d hd

variable {f : Fragment} {b : Binding}

theorem Fragment.mem_compile_bindings {line : String} :
    line ∈ f.compile.bindings ↔ ∃ b, f.Holds b ∧ b.line = line := by
  simp only [Fragment.compile_eq, mem_addLines, List.not_mem_nil, false_or, List.mem_map, Fragment.mem_bindings]

theorem Fragment.nodup_compile_bindings (f : Fragment) : f.compile.bindings.Nodup := by
  rw [Fragment.compile_eq]
  exact nodup_addLines _ List.nodup_nil

/-- The first binding with its line brings that line behind the lines of the bindings inside of its value. -/
theorem Fragment.line_behind_inner {before after : List Binding} (hf : Fragment.bindings f = before ++ b :: after)
    (hfirst : ∀ c ∈ before, c.line ≠ b.line) : ∃ ls rest,
      f.compile.bindings = ls ++ b.line :: rest ∧ ∀ c, b.value.Holds c → c.line ∈ ls := by
  have hnot : b.line ∉ before.map Binding.line := by simpa using hfirst
  obtain ⟨rest, hrest, -⟩ := addLines_first (after.map Binding.line) hnot
  refine ⟨_, rest, by rw [Fragment.compile_eq, hf, List.map_append, List.map_cons, hrest], fun c hc => ?_⟩
  have hbefore : c ∈ before := Fragment.innerFirst f before b after hf c hc
  exact mem_addLines.2 (.inr (List.mem_map_of_mem hbefore))

/-- **Hoisting**: no line stands twice; the lines are those of the bindings in the fragment; what a binding declares
does not depend on the lines that are there; each line stands behind those of the bindings inside of the value of the
first binding that has it; and so, where equal lines declare equal values, behind those of the bindings inside of the
value of any binding that has it. -/
theorem compile_bindings_hoisted (f : Fragment) :
    f.compile.bindings.Nodup ∧
    (∀ line, line ∈ f.compile.bindings ↔ ∃ b, f.Holds b ∧ b.line = line) ∧
    (∀ b, f.Holds b → ∀ lines,
      b.declare lines = addLine (addLines lines (b.value.bindings.map Binding.line)) b.line) ∧
    (∀ line ∈ f.compile.bindings, ∃ before b after,
      Fragment.bindings f = before ++ b :: after ∧ b.line = line ∧ (∀ c ∈ before, c.line ≠ line) ∧
      ∃ ls rest, f.compile.bindings = ls ++ line :: rest ∧ ∀ c, b.value.Holds c → c.line ∈ ls) ∧
    ((∀ b c, f.Holds b → f.Holds c → b.line = c.line → b.value = c.value) → ∀ b, f.Holds b →
      ∃ ls rest, f.compile.bindings = ls ++ b.line :: rest ∧ ∀ c, b.value.Holds c → c.line ∈ ls) := by
  have hbehind : ∀ line ∈ f.compile.bindings, ∃ before b after,
      Fragment.bindings f = before ++ b :: after ∧ b.line = line ∧ (∀ c ∈ before, c.line ≠ line) ∧
      ∃ ls rest, f.compile.bindings = ls ++ line :: rest ∧ ∀ c, b.value.Holds c → c.line ∈ ls := by
    intro line hline
    obtain ⟨d, hd, hdline⟩ := Fragment.mem_compile_bindings.1 hline
    have hmem : line ∈ (Fragment.bindings f).map Binding.line :=
      List.mem_map.2 ⟨d, Fragment.mem_bindings.2 hd, hdline⟩
    obtain ⟨before, b, after, hf, rfl, hfirst⟩ := exists_first_line hmem
    exact ⟨before, b, after, hf, rfl, hfirst, Fragment.line_behind_inner hf hfirst⟩
  refine ⟨Fragment.nodup_compile_bindings f, fun _ => Fragment.mem_compile_bindings,
    fun b _ => b.declare_eq_addLine, hbehind, fun heq b hb => ?_⟩
  -- The first binding with this line has the same value, hence the same bindings inside.
  obtain ⟨before, d, after, hf, hline, -, ls, rest, hlines, hinner⟩ :=
    hbehind b.line (Fragment.mem_compile_bindings.2 ⟨b, hb, rfl⟩)
  have hd : f.Holds d := Fragment.mem_bindings.1 (hf ▸ by simp)
  exact ⟨ls, rest, hlines, heq d b hd hb hline ▸ hinner⟩

/-- A binding that stands both inside of a value and beside it is declared once, in front of that value. -/
theorem shared_binding_hoisted : ∃ ls rest,
    (Fragment.compile [.binding (.of "adults" (.fragment [.raw "age >", .binding (.of "min" (.value (.int 21)))])),
      .binding (.of "min" (.value (.int 21)))]).bindings = ls ++ "LET $adults = age > $min;" :: rest ∧
    ∀ c, (Part.fragment [.raw "age >", .binding (.of "min" (.value (.int 21)))]).Holds c → c.line ∈ ls := by
  refine (compile_bindings_hoisted _).2.2.2.2 (fun b c hb hc heq => ?_) (.of "adults" _)
    ⟨_, List.mem_cons_self, .binding .self⟩
  simp only [← Fragment.mem_bindings, Fragment.bindings, Chunk.bindings, Binding.bindings, Part.bindings,
    List.nil_append, List.append_nil, List.cons_append, List.mem_cons, List.not_mem_nil, or_false] at hb hc
  -- There are two different bindings, and their lines differ.
  have hdiffer : (Binding.of "min" (.value (.int 21))).line ≠
      (Binding.of "adults" (.fragment [.raw "age >", .binding (.of "min" (.value (.int 21)))])).line := by decide
  rcases hb with rfl | rfl | rfl <;> rcases hc with rfl | rfl | rfl
  · rfl
  · exact absurd heq hdiffer
  · rfl
  · exact absurd heq.symm hdiffer
  · rfl
  · exact absurd heq.symm hdiffer
  · rfl
  · exact absurd heq hdiffer
  · rfl

/-! ## Names that are declared more than once -/

/-- The line gives a value to a name. -/
def declares (name line : String) : Bool := ("LET $" ++ name ++ " = ").toList.isPrefixOf line.toList

/-- The line whose value a name holds after the lines were executed in order: each line that declares the name takes
the place of the one before. -/
def decidingLine (name : String) (lines : List String) : Option String :=
  lines.foldl (fun held line => if declares name line then some line else held) none

/-- The last binding of a name in a fragment. -/
def Fragment.lastNamed (f : Fragment) (name : String) : Option Binding :=
  ((Fragment.bindings f).filter (·.name = name)).getLast?

/-- What a name holds is decided by the last line that declares it. -/
theorem decidingLine_eq (name : String) (lines : List String) :
    decidingLine name lines = (lines.filter (declares name)).getLast? := by
  have hfold : ∀ (lines : List String) (held : Option String),
      lines.foldl (fun held line => if declares name line then some line else held) held =
        ((lines.filter (declares name)).getLast?).or held := by
    intro lines
    induction lines with
    | nil => simp
    | cons line lines ih =>
      intro held
      rw [List.foldl_cons, ih]
      by_cases h : declares name line
      · rw [List.filter_cons_of_pos h, if_pos h, List.getLast?_cons]
        cases (lines.filter (declares name)).getLast? <;> rfl
      · rw [List.filter_cons_of_neg h, if_neg h]
  rw [decidingLine, hfold, Option.or_none]

theorem declares_line (b : Binding) : declares b.name b.line := by
  simp [declares, Binding.line, letLine, List.append_assoc]

theorem Fragment.lastNamed_some {name : String} (h : f.lastNamed name = some b) :
    b ∈ Fragment.bindings f ∧ b.name = name := by
  simpa using List.mem_filter.1 (List.mem_of_getLast? h)

/-- **The last binding of a name decides** what the name holds exactly when every other line that declares the name is
the line of a binding before the first one with the last binding's line. -/
theorem last_binding_decides_iff (f : Fragment) (name : String) (b : Binding) (h : f.lastNamed name = some b) :
    decidingLine name f.compile.bindings = some b.line ↔
      ∀ c, f.Holds c → declares name c.line → c.line ≠ b.line →
        ∃ d ∈ (Fragment.bindings f).takeWhile (·.line ≠ b.line), d.line = c.line := by
  obtain ⟨hmem, rfl⟩ := Fragment.lastNamed_some h
  have hmet : b.line ∈ (Fragment.bindings f).map Binding.line := List.mem_map_of_mem hmem
  rw [decidingLine_eq, Fragment.compile_eq, getLast?_filter_addLines_iff hmet (declares_line b), List.takeWhile_map]
  simp only [List.mem_map, Fragment.mem_bindings, forall_exists_index, and_imp]
  constructor
  · exact fun hall c hc hdecl hne => hall c.line c hc rfl hdecl hne
  · rintro hall _ c hc rfl hdecl hne
    exact hall c hc hdecl hne

/-- The values 1, 2, 1, 2 of a name: 1 was met before 2 was, so the last binding decides. -/
theorem last_binding_kept :
    decidingLine "x" (Fragment.compile [.binding (.of "x" (.value (.int 1))), .binding (.of "x" (.value (.int 2))),
      .binding (.of "x" (.value (.int 1))), .binding (.of "x" (.value (.int 2)))]).bindings = some "LET $x = 2;" := by
  refine (last_binding_decides_iff _ "x" (.of "x" (.value (.int 2))) rfl).2 fun c hc _ hne => ?_
  simp only [← Fragment.mem_bindings, Fragment.bindings, Chunk.bindings, Binding.bindings, Part.bindings,
    List.nil_append, List.cons_append, List.mem_cons, List.not_mem_nil, or_false] at hc
  rcases hc with rfl | rfl | rfl | rfl
  · exact ⟨_, List.mem_cons_self, rfl⟩
  · exact absurd rfl hne
  · exact ⟨_, List.mem_cons_self, rfl⟩
  · exact absurd rfl hne

/-- The values 1, 2, 1 of a name: its last binding is that of 1, and 2 is what the lines leave in it. -/
theorem last_binding_lost :
    Fragment.lastNamed [.binding (.of "x" (.value (.int 1))), .binding (.of "x" (.value (.int 2))),
      .binding (.of "x" (.value (.int 1)))] "x" = some (.of "x" (.value (.int 1))) ∧
    (Binding.of "x" (.value (.int 1))).line = "LET $x = 1;" ∧
    decidingLine "x" (Fragment.compile [.binding (.of "x" (.value (.int 1))), .binding (.of "x" (.value (.int 2))),
      .binding (.of "x" (.value (.int 1)))]).bindings = some "LET $x = 2;" :=
  ⟨rfl, by decide, by decide⟩

end GraphQuery
