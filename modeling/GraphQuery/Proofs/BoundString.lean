import GraphQuery.Proofs.Hoisting
import GraphQuery.Proofs.Scan

/-!
# Lines that declare strings

A line is one statement when a reader of it ends outside of quotes, and the only semicolon that it meets outside of
them is the last character (`IsStatement`). The line that declares a string is one statement unless the string has the
form of a record link; a string of that form is written as it is, and then the line is one statement exactly when the
string itself closes its quotes and keeps its semicolons inside of them (`bound_string_line_iff`). Such a string can
hold a second statement (`bound_string_second_statement`).
-/

namespace GraphQuery

open Scan

/-- A line that is read as one statement with its semicolon. -/
structure IsStatement (q : Quotes) (line : List Char) : Prop where
  closed : Closed q line
  last : line.getLast? = some ';'
  once : (bare q .outside line).count ';' = 1

/-- A text that closes its quotes and has no semicolon outside of them. -/
structure Enclosed (q : Quotes) (cs : List Char) : Prop where
  closed : Closed q cs
  bare : ';' ∉ bare q .outside cs

variable {q : Quotes}

/-- A text with a semicolon behind it is one statement exactly when it is enclosed. -/
theorem isStatement_concat_iff {cs : List Char} : IsStatement q (cs ++ [';']) ↔ Enclosed q cs := by
  have hstep : Closed q (cs ++ [';']) ↔ Closed q cs := by
    rw [Closed, run_append, run_cons, run_nil]
    exact step_eq_outside_iff (run_known (s := .outside) cs trivial) opens_semicolon
  have hcount (h : Closed q cs) :
      (bare q .outside (cs ++ [';'])).count ';' = (bare q .outside cs).count ';' + 1 := by
    have hend : bare q .outside [';'] = [';'] := bare_of_no_quotes (by simpa using opens_semicolon)
    rw [bare_append_of_closed h, List.count_append, hend, List.count_singleton_self]
  constructor
  · rintro ⟨hclosed, -, honce⟩
    have hcs := hstep.1 hclosed
    rw [hcount hcs] at honce
    exact ⟨hcs, List.count_eq_zero.1 (by omega)⟩
  · rintro ⟨hclosed, hbare⟩
    refine ⟨hstep.2 hclosed, by simp, ?_⟩
    rw [hcount hclosed, List.count_eq_zero.2 hbare]

/-- Behind a text without quotes and semicolons, a text is enclosed as it is alone. -/
theorem enclosed_append_iff {xs ys : List Char} (hx : ∀ c ∈ xs, Plain c) :
    Enclosed q (xs ++ ys) ↔ Enclosed q ys := by
  have hquotes : ∀ c ∈ xs, q.opens c = false := fun c hc => (hx c hc).opens
  have hclosed : Closed q xs := run_of_no_quotes hquotes
  have hsemicolon : ';' ∉ xs := fun h => (hx ';' h).2 rfl
  have hbare : ';' ∉ bare q .outside (xs ++ ys) ↔ ';' ∉ bare q .outside ys := by
    rw [bare_append_of_closed hclosed, bare_of_no_quotes hquotes]
    simp [hsemicolon]
  constructor
  · rintro ⟨h₁, h₂⟩
    exact ⟨(closed_append_iff hclosed).1 h₁, hbare.1 h₂⟩
  · rintro ⟨h₁, h₂⟩
    exact ⟨(closed_append_iff hclosed).2 h₁, hbare.2 h₂⟩

theorem enclosed_doubleQuoted (s : String) : Enclosed q (Text.doubleQuoted s).toList := by
  rw [Text.doubleQuoted, String.toList_ofList]
  exact ⟨closed_doubleQuoted _, by rw [bare_doubleQuoted]; decide⟩

/-- **Declared strings**: in every fragment that binds a string under a name without quotes and semicolons (letters,
digits and underscores of any kind are neither), the line of the binding is one statement exactly when the string is
not the text of a record link, or is enclosed by itself. -/
theorem bound_string_line_iff (q : Quotes) (f : Fragment) (name s : String)
    (hname : ∀ c ∈ name.toList, Plain c) (hf : f.Holds (.of name (.value (.string s)))) :
    ∃ line ∈ f.compile.bindings,
      line = "LET $" ++ name ++ " = " ++ (if Link.isText s then s else Text.doubleQuoted s) ++ ";" ∧
      (IsStatement q line.toList ↔ (Link.isText s → Enclosed q s.toList)) := by
  refine ⟨_, Fragment.mem_compile_bindings.2 ⟨_, hf, rfl⟩, rfl, ?_⟩
  have hhead : ∀ c ∈ ("LET $" ++ name ++ " = ").toList, Plain c := by
    have hlet : ∀ c ∈ "LET $".toList, Plain c := plain_of_all (by decide)
    have hequals : ∀ c ∈ " = ".toList, Plain c := plain_of_all (by decide)
    simp only [String.toList_append, List.mem_append]
    rintro c ((hc | hc) | hc)
    · exact hlet c hc
    · exact hname c hc
    · exact hequals c hc
  have hline : (Binding.of name (.value (.string s))).line.toList =
      (("LET $" ++ name ++ " = ").toList ++ (if Link.isText s then s else Text.doubleQuoted s).toList) ++ [';'] := by
    simp [Binding.line, Binding.name, Binding.value, Part.declared, Value.bound, letLine]
  rw [hline, isStatement_concat_iff, enclosed_append_iff hhead]
  by_cases hs : Link.isText s
  · simp [hs]
  · simp [hs, enclosed_doubleQuoted]

/-- A string with a quote, a semicolon and a second statement in it makes one statement. -/
theorem bound_string_one_statement :
    "LET $who = \"a\\\"; DELETE user\";" ∈
      (Fragment.compile [.binding (.of "who" (.value (.string "a\"; DELETE user")))]).bindings ∧
    IsStatement .all "LET $who = \"a\\\"; DELETE user\";".toList := by
  obtain ⟨line, hline, htext, hiff⟩ := bound_string_line_iff .all
    [.binding (.of "who" (.value (.string "a\"; DELETE user")))] "who" "a\"; DELETE user" (plain_of_all (by decide))
    ⟨_, List.mem_cons_self, .binding .self⟩
  have hwritten : line = "LET $who = \"a\\\"; DELETE user\";" := htext.trans (by decide)
  rw [hwritten] at hline hiff
  exact ⟨hline, hiff.2 fun hs => absurd hs (by decide)⟩

/-- A string in the form of a record link with a second statement in it makes two statements. -/
theorem bound_string_second_statement :
    (Fragment.compile [.binding (.of "x" (.value (.string "user:a;DELETE/**/user")))]).bindings =
      ["LET $x = user:a;DELETE/**/user;"] ∧
    ¬ IsStatement ⟨false, false⟩ "LET $x = user:a;DELETE/**/user;".toList :=
  ⟨by decide, fun h => absurd h.once (by decide)⟩

end GraphQuery
