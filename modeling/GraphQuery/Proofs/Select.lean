import GraphQuery.Proofs.Paths
import GraphQuery.Proofs.Requests

/-!
# The fragment of a select

A select that is not refused puts its clauses around the fragment of its fields (`Select.around`,
`Select.run_toFragment`). Nothing of this but the target depends on the key. A select is refused because of the number
of its fields, or because of a field that is not there (`Session.compileSelect_error`).
-/

namespace GraphQuery

/-- The clauses of a select from a table, around the fragment of its fields. -/
def Select.around (q : Select) (table : String) (fields : Fragment) : Fragment :=
  Statements.selectClause fields q.value ++ Statements.fromClause (Statements.target table q.key) ++
    (q.condition.map Statements.whereClause).getD [] ++ (if q.fetch.isEmpty then [] else Statements.fetchClause q.fetch)

/-- A step that cannot fail keeps the outcome of the step before it. -/
theorem fst_run_bind_pure {ε σ α β : Type} (x : ExceptT ε (StateM σ) α) (f : α → β) (r : σ) :
    ((x >>= fun a => pure (f a)).run r).1 = (x.run r).1.map f := by
  rw [ExceptT.run_bind]
  simp only [bind, StateT.bind]
  rcases x.run r with ⟨_ | _, _⟩ <;> rfl

/-- A select of plain values is refused unless it is of exactly one field other than all of them; any other select
puts its clauses around the fields, or fails as they do. -/
theorem Select.run_toFragment (q : Select) (scope : Scope) (r : Registry) :
    ((q.toFragment scope).run r).1 =
      if q.value && (q.selection.hasWildcard || q.selection.count scope != 1) then
        .error (.invalidSelection (q.selection.count scope))
      else ((q.selection.resolve scope).run r).1.map (q.around scope.table.name) := by
  simp only [toFragment]
  split
  · rfl
  · exact fst_run_bind_pure _ _ _

theorem Session.within_select (s : Session) (m : Model) (q : Select) :
    s.within m q.toFragment =
      if q.value && (q.selection.hasWildcard || q.selection.count (s.scopeOf m).1 != 1) then
        .error (.invalidSelection (q.selection.count (s.scopeOf m).1))
      else (s.within m fun scope => q.selection.resolve scope).map (q.around (s.table m).name) :=
  q.run_toFragment _ _

/-! ## Refused selects -/

/-- The first of several steps in order decides the error if it fails; otherwise its result stands in front of those of
the other steps. -/
theorem fst_run_mapM_cons {ε σ α β : Type} (f : α → ExceptT ε (StateM σ) β) (a : α) (as : List α) (r : σ) :
    (((a :: as).mapM f).run r).1 =
      ((f a).run r).1.bind fun b => ((as.mapM f).run ((f a).run r).2).1.map (b :: ·) := by
  rw [List.mapM_cons, ExceptT.run_bind]
  simp only [bind, StateT.bind]
  rcases (f a).run r with ⟨_ | b, r'⟩
  · rfl
  · exact fst_run_bind_pure (as.mapM f) (b :: ·) r'

/-- Where one of several steps in order fails, the first of them that does decides the error. -/
theorem exists_of_mapM_error {ε σ α β : Type} {f : α → ExceptT ε (StateM σ) β} {e : ε} :
    ∀ {as : List α} {r : σ}, ((as.mapM f).run r).1 = .error e → ∃ a ∈ as, ∃ r, ((f a).run r).1 = .error e
  | [], r, h => by
    rw [List.mapM_nil] at h
    cases h
  | a :: as, r, h => by
    rw [fst_run_mapM_cons, bind_eq_error_iff] at h
    rcases h with hfirst | ⟨b, -, hrest⟩
    · exact ⟨a, List.mem_cons_self, r, hfirst⟩
    · obtain ⟨c, hc, hfail⟩ := exists_of_mapM_error (map_eq_error_iff.1 hrest)
      exact ⟨c, List.mem_cons_of_mem a hc, hfail⟩

theorem Scope.resolve_error {scope : Scope} {path : String} {r : Registry} {e : QueryError}
    (h : ((scope.resolve path).run r).1 = .error e) :
    scope.table.field? (FieldPath.ofText path).head = none ∧
      e = .fieldNotFound scope.table.name (FieldPath.ofText path).head := by
  rcases scope.resolve_cases path with ⟨-, heq⟩ | ⟨-, hnone, heq⟩ | ⟨-, -, heq⟩ | ⟨-, -, f, rel, -, -, heq⟩ <;>
    rw [heq] at h <;> cases h
  exact ⟨hnone, rfl⟩

theorem Selection.resolve_error {selection : Selection} {scope : Scope} {r : Registry} {e : QueryError}
    (h : ((selection.resolve scope).run r).1 = .error e) :
    ∃ path, scope.table.field? (FieldPath.ofText path).head = none ∧
      e = .fieldNotFound scope.table.name (FieldPath.ofText path).head := by
  cases selection with
  | all => cases h
  | paths ps =>
    have h : ((ps.mapM scope.resolve >>= fun fs => pure (Fragment.commas fs)).run r).1 = .error e := h
    rw [fst_run_bind_pure, map_eq_error_iff] at h
    obtain ⟨path, -, r', hpath⟩ := exists_of_mapM_error h
    exact ⟨path, Scope.resolve_error hpath⟩

/-- A select is refused because of the number of its fields, or because of a field that its table does not have. -/
theorem Session.compileSelect_error {s : Session} {m : Model} {q : Select} {e : QueryError}
    (h : s.compileSelect m q = .error e) :
    (q.value = true ∧ e = .invalidSelection (q.selection.count (s.scopeOf m).1)) ∨
      ∃ path, (s.table m).field? (FieldPath.ofText path).head = none ∧
        e = .fieldNotFound (s.table m).name (FieldPath.ofText path).head := by
  rw [compileSelect, map_eq_error_iff, within_select] at h
  split at h
  · next hvalue =>
    cases h
    exact .inl ⟨(Bool.and_eq_true_iff.1 hvalue).1, rfl⟩
  · exact .inr (Selection.resolve_error (map_eq_error_iff.1 h))

end GraphQuery
