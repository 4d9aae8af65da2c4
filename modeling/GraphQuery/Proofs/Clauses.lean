import GraphQuery.Proofs.Selection

/-!
# The clauses of a select

The fragment of a select that is not refused is made of its clauses: the fields, as many as its selection counts, the
target, the condition if there is one, and the links to be fetched if there are any (`select_complete_iff`). Nothing is
missing in them unless the selection is of no paths, or the condition is an empty fragment: only selects of plain values
count their fields, and only links to be fetched are left out where there are none (`select_incomplete`).
-/

namespace GraphQuery

/-- The clauses of a select: some fields, as plain values or not, where they are selected from, and perhaps a condition
and links to be fetched. -/
structure SelectClauses where
  value : Bool
  fields : List Fragment
  target : Fragment
  condition : Option Fragment
  fetch : Option (List Fragment)

namespace SelectClauses

/-- The clauses one after the other. -/
def toFragment (c : SelectClauses) : Fragment :=
  [.keyword .select] ++ (if c.value then [.keyword .value] else []) ++ Fragment.commas c.fields ++
    [.keyword .from_] ++ c.target ++ (c.condition.elim [] fun f => [.keyword .where_] ++ f) ++
    c.fetch.elim [] fun fs => [.keyword .fetch] ++ Fragment.commas fs

/-- Nothing is missing: there are fields and a target, none of them empty, and a condition and links to be fetched are
not empty either where their clauses are written. -/
structure Complete (c : SelectClauses) : Prop where
  fields_ne_nil : c.fields ≠ []
  field_ne_nil : ∀ f ∈ c.fields, f ≠ []
  target_ne_nil : c.target ≠ []
  condition_ne_nil : ∀ f ∈ c.condition, f ≠ []
  fetch_ne_nil : ∀ fs ∈ c.fetch, fs ≠ []
  link_ne_nil : ∀ fs ∈ c.fetch, ∀ f ∈ fs, f ≠ []

end SelectClauses

theorem Statements.target_ne_nil (table : String) (key : Option String) : target table key ≠ [] := by
  cases key with
  | none => exact List.cons_ne_nil _ _
  | some key => exact List.cons_ne_nil _ _

namespace Select

variable (q : Select)

/-- The clauses of a select from a table, with the fields that its selection stands for. -/
def clauses (table : String) (fields : List Fragment) : SelectClauses where
  value := q.value
  fields := fields
  target := Statements.target table q.key
  condition := q.condition
  fetch := if q.fetch = [] then none else some (q.fetch.map Fragment.raw)

theorem around_commas (table : String) (fields : List Fragment) :
    q.around table (Fragment.commas fields) = (q.clauses table fields).toFragment := by
  unfold around SelectClauses.toFragment clauses
  cases q.condition <;> cases q.fetch <;> simp [Statements.selectClause, Statements.fromClause, Statements.whereClause,
    Statements.fetchClause]

/-- The links to be fetched are there, if the clause is. -/
theorem clauses_fetch {table : String} {fields fs : List Fragment} (h : fs ∈ (q.clauses table fields).fetch) :
    fs ≠ [] ∧ ∀ f ∈ fs, f ≠ [] := by
  simp only [clauses] at h
  split at h
  · cases h
  · next hfetch =>
    cases h
    refine ⟨by simpa using hfetch, fun f hf => ?_⟩
    obtain ⟨text, -, rfl⟩ := List.mem_map.1 hf
    exact List.cons_ne_nil _ _

/-- With fields that are there, only the fields themselves and the condition can be missing. -/
theorem clauses_complete_iff {table : String} {fields : List Fragment} (hfields : ∀ f ∈ fields, f ≠ []) :
    (q.clauses table fields).Complete ↔ fields ≠ [] ∧ q.condition ≠ some [] := by
  constructor
  · intro h
    exact ⟨h.fields_ne_nil, fun hcondition => h.condition_ne_nil [] hcondition rfl⟩
  · rintro ⟨hne, hcondition⟩
    exact {
      fields_ne_nil := hne
      field_ne_nil := hfields
      target_ne_nil := Statements.target_ne_nil table q.key
      condition_ne_nil := fun f hf hnil => hcondition (hnil ▸ hf)
      fetch_ne_nil := fun fs hfs => (q.clauses_fetch hfs).1
      link_ne_nil := fun fs hfs => (q.clauses_fetch hfs).2 }

end Select

/-- **Clauses of selects**: the fragment of a select that is not refused is made of its clauses, with the fields that
its selection stands for, as many as it counts, and one if they are selected as plain values. Nothing is missing in it
exactly when the selection is not of no paths, and the condition is not an empty one. -/
theorem select_complete_iff {q : Select} {scope : Scope} {r : Registry} {f : Fragment}
    (h : ((q.toFragment scope).run r).1 = .ok f) :
    ∃ fields, f = (q.clauses scope.table.name fields).toFragment ∧
      ((q.selection.resolve scope).run r).1 = .ok (Fragment.commas fields) ∧
      fields.length = q.selection.count scope ∧ (q.value = true → fields.length = 1) ∧
      ((q.clauses scope.table.name fields).Complete ↔ q.selection ≠ .paths [] ∧ q.condition ≠ some []) := by
  rw [q.run_toFragment] at h
  split at h
  · cases h
  · next hallowed =>
    obtain ⟨g, hresolve, rfl⟩ := map_eq_ok_iff.1 h
    obtain ⟨fields, ⟨rfl, hfields⟩, hlength⟩ := Selection.resolve_lists hresolve
    refine ⟨fields, q.around_commas _ _, hresolve, hlength, fun hvalue => ?_, ?_⟩
    · have hone : q.selection.hasWildcard = false ∧ q.selection.count scope = 1 := by simpa [hvalue] using hallowed
      exact hlength.trans hone.2
    · rw [q.clauses_complete_iff hfields, ← List.length_pos_iff, hlength, Nat.pos_iff_ne_zero, ne_eq,
        Selection.count_eq_zero_iff]

/-- The scope of a table of users with a name. -/
def userScope : Scope := ⟨fun _ => [], (Table.bare "user").declareAll [.scalar "first" .string]⟩

/-- The name of a user as a plain value, with a condition and a link to be fetched. -/
def nameOfUser : Select := ⟨.paths ["first"], some "a", true, some (Fragment.raw "age > 1"), ["friends"]⟩

/-- A select with all its clauses, none of which is empty. -/
theorem name_of_user_complete : ∃ f, ((nameOfUser.toFragment userScope).run .empty).1 = .ok f ∧
    f.text = "SELECT VALUE first FROM user:a WHERE age > 1 FETCH friends" ∧
    ∃ fields, f = (nameOfUser.clauses "user" fields).toFragment ∧ fields.length = 1 ∧
      (nameOfUser.clauses "user" fields).Complete := by
  have hselect : ((nameOfUser.toFragment userScope).run .empty).1 = .ok _ := rfl
  obtain ⟨fields, hf, -, hlength, -, hcomplete⟩ := select_complete_iff hselect
  refine ⟨_, hselect, by decide +kernel, ?_⟩
  exact ⟨fields, hf, hlength, hcomplete.2 ⟨by decide, by simp [nameOfUser, Fragment.raw]⟩⟩

/-- The select of no fields. -/
def noFields : Select := .of (.paths [])

/-- The select of the names of users under an empty condition. -/
def noCondition : Select := { Select.of (.paths ["first"]) with condition := some [] }

/-- A select of no fields is not refused, and neither is one under an empty condition. -/
theorem select_incomplete :
    (∃ f, ((noFields.toFragment userScope).run .empty).1 = .ok f ∧ f.text = "SELECT FROM user" ∧
      ∀ fields, f = (noFields.clauses "user" fields).toFragment → ¬ (noFields.clauses "user" fields).Complete) ∧
    ∃ f, ((noCondition.toFragment userScope).run .empty).1 = .ok f ∧ f.text = "SELECT first FROM user WHERE" ∧
      ∀ fields, ¬ (noCondition.clauses "user" fields).Complete := by
  refine ⟨⟨[.keyword .select, .keyword .from_, .ident "user"], rfl, by decide +kernel, fun fields hf hcomplete => ?_⟩,
    ⟨_, rfl, by decide +kernel, fun fields hcomplete => hcomplete.condition_ne_nil [] rfl rfl⟩⟩
  have hfields : Fragment.commas fields = [] := by
    rw [SelectClauses.toFragment] at hf
    simpa [noFields, Select.of, Select.clauses, Statements.target, Fragment.ident] using congrArg List.length hf
  exact Fragment.join_ne_nil hcomplete.fields_ne_nil hcomplete.field_ne_nil hfields

end GraphQuery
