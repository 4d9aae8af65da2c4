import GraphQuery.Proofs.Clauses
import GraphQuery.Proofs.Wildcard

/-!
# Selects of plain values

A selection whose paths are all of the table stands for a list of fields (`Selection.fields_of_known`), as many as it
counts (`Selection.fields_spec`). A select of plain values is refused with the number of its fields, and only where they
are not one, or where the star is selected alone from a table of a single field (`plain_values_refused_iff`): the star is
refused whatever it stands for, and it stands for one field only there (`Selection.star_of_one_iff`). Every other select
of plain values has its one field behind the keywords.
-/

namespace GraphQuery

/-! ## Selections that resolve -/

namespace Selection

variable {selection : Selection} {s : Scope} {r : Registry}

/-- All paths are of the table: each is the star, or its head is the name of a field. -/
def Known (s : Scope) : Selection → Prop
  | all => True
  | paths ps => ∀ path ∈ ps, ¬ s.Lacks path

/-- The star is selected, and nothing beside it. -/
def IsStar (selection : Selection) : Prop := selection = all ∨ selection = paths ["*"]

/-- A selection whose paths are all of the table resolves. -/
theorem fields_of_known (h : selection.Known s) (r : Registry) : ∃ fs, ((selection.fields s).run r).1 = .ok fs := by
  cases hrun : ((selection.fields s).run r).1 with
  | ok fs => exact ⟨fs, rfl⟩
  | error e =>
    have hresolve : ((selection.resolve s).run r).1 = .error e := by
      rw [resolve_eq_commas, map_eq_pure_bind, fst_run_bind_pure, hrun]
      rfl
    cases selection with
    | all => cases hresolve
    | paths ps =>
      obtain ⟨path, hfind, -⟩ := Scope.resolveMany_error_iff.1 hresolve
      have hlacks : s.Lacks path := by simpa using List.find?_some hfind
      exact absurd hlacks (h path (List.mem_of_find?_eq_some hfind))

/-- A selection with a star counts one field exactly when it is the star alone, from a table of a single field. -/
theorem star_of_one_iff : selection.hasWildcard ∧ selection.count s = 1 ↔
    selection.IsStar ∧ s.table.fields.length = 1 := by
  cases selection with
  | all => simp [hasWildcard, count, IsStar]
  | paths ps =>
    cases ps with
    | nil => simp [hasWildcard, IsStar]
    | cons path ps =>
      cases ps with
      | nil => by_cases hpath : path = "*" <;> simp [hasWildcard, count, IsStar, hpath, eq_comm]
      | cons path' ps =>
        -- Two paths count two fields or more, and are not the star alone.
        have hcount := s.length_le_count (path :: path' :: ps) 0
        constructor
        · rintro ⟨-, hone⟩
          have hone : (path :: path' :: ps).foldl (fun n path => n + s.fieldCount path) 0 = 1 := hone
          rw [hone, List.length_cons, List.length_cons] at hcount
          omega
        · rintro ⟨hstar | hstar, -⟩ <;> cases hstar

end Selection

/-! ## Refused selects -/

/-- **Plain values**: a select of plain values whose paths are all of the table is refused with the number of the fields
that its selection stands for, and exactly when they are not one, or the star is selected alone from a table of a single
field. Any other is made into a fragment, where that one field stands behind the keywords. -/
theorem plain_values_refused_iff {q : Select} {s : Scope} (hvalue : q.value = true) (hknown : q.selection.Known s)
    (r : Registry) :
    ∃ fields, ((q.selection.fields s).run r).1 = .ok fields ∧
      (∀ e, ((q.toFragment s).run r).1 = .error e ↔ e = .invalidSelection fields.length ∧
        (fields.length ≠ 1 ∨ q.selection.IsStar ∧ s.table.fields.length = 1)) ∧
      ∀ f, ((q.toFragment s).run r).1 = .ok f ↔ ¬ (q.selection.IsStar ∧ s.table.fields.length = 1) ∧
        ∃ field, fields = [field] ∧ field ≠ [] ∧ f = (q.clauses s.table.name [field]).toFragment := by
  obtain ⟨fields, hfields⟩ := Selection.fields_of_known hknown r
  obtain ⟨hlength, hne⟩ := Selection.fields_spec hfields
  have hresolve : ((q.selection.resolve s).run r).1 = .ok (Fragment.commas fields) := by
    rw [Selection.resolve_eq_commas, map_eq_pure_bind, fst_run_bind_pure, hfields]
    rfl
  -- The star is refused whatever it stands for, but it matters only where the fields are one.
  have hrefused : (q.value && (q.selection.hasWildcard || q.selection.count s != 1)) = true ↔
      fields.length ≠ 1 ∨ q.selection.IsStar ∧ s.table.fields.length = 1 := by
    rw [hvalue, Bool.true_and, Bool.or_eq_true, bne_iff_ne, ← Selection.star_of_one_iff, ← hlength]
    tauto
  refine ⟨fields, hfields, fun e => ?_, fun f => ?_⟩
  · rw [q.run_toFragment, hresolve, ← hrefused]
    split
    · next h => simp [h, hlength, eq_comm]
    · next h => simp [h, Except.map]
  · rw [q.run_toFragment, hresolve]
    split
    · next h =>
      constructor
      · intro hf
        cases hf
      · rintro ⟨hstar, field, rfl, -, -⟩
        rcases hrefused.1 h with hone | hone
        · exact absurd rfl hone
        · exact absurd hone hstar
    · next h =>
      rw [hrefused, not_or, not_not] at h
      obtain ⟨hone, hstar⟩ := h
      obtain ⟨field, rfl⟩ := List.length_eq_one_iff.1 hone
      have hfield : field ≠ [] := hne field List.mem_cons_self
      simp only [Except.map, Except.ok.injEq, q.around_commas]
      constructor
      · rintro rfl
        exact ⟨hstar, field, rfl, hfield, rfl⟩
      · rintro ⟨-, field', heq, -, rfl⟩
        cases heq
        rfl

/-- The names of users with their identities. -/
def namesOfUsers : Select := { Select.of (.paths ["first", "id"]) with value := true }

/-- The name of a user is one field and can be selected as a plain value; the name with the identity cannot. -/
theorem names_as_plain_values :
    (nameOfUser.value = true ∧ nameOfUser.selection.Known userScope ∧
      ((nameOfUser.toFragment userScope).run .empty).1 =
        .ok (nameOfUser.clauses "user" [Fragment.raw "first"]).toFragment) ∧
    namesOfUsers.value = true ∧ namesOfUsers.selection.Known userScope ∧
      ((namesOfUsers.toFragment userScope).run .empty).1 = .error (.invalidSelection 2) := by
  have hname : nameOfUser.selection.Known userScope := List.forall_mem_singleton.2 (by decide)
  have hnames : namesOfUsers.selection.Known userScope := by
    intro path hpath
    rcases List.mem_cons.1 hpath with rfl | hpath
    · decide
    · rw [List.mem_singleton.1 hpath]
      decide
  refine ⟨⟨rfl, hname, ?_⟩, rfl, hnames, ?_⟩
  · obtain ⟨fields, hfields, -, hok⟩ := plain_values_refused_iff rfl hname .empty
    obtain rfl : [Fragment.raw "first"] = fields := Except.ok.inj hfields
    refine (hok _).2 ⟨?_, Fragment.raw "first", rfl, List.cons_ne_nil _ _, rfl⟩
    rintro ⟨-, hone⟩
    cases hone
  · obtain ⟨fields, hfields, herror, -⟩ := plain_values_refused_iff rfl hnames .empty
    obtain rfl : [Fragment.raw "first", Fragment.raw "id"] = fields := Except.ok.inj hfields
    exact (herror _).2 ⟨rfl, .inl (by decide)⟩

/-- A select of all fields as plain values. -/
def starAsPlainValue : Select := { Select.of .all with value := true }

/-- The star of a table without declared fields stands for the identity alone, and still it is refused as a plain value,
with the very number of fields that is asked for. -/
theorem single_star_refused :
    let s : Scope := ⟨fun _ => [], Table.bare "Empty"⟩
    ((starAsPlainValue.selection.fields s).run .empty).1 = .ok [Fragment.raw "id"] ∧
    ((starAsPlainValue.toFragment s).run .empty).1 = .error (.invalidSelection 1) ∧
    (QueryError.invalidSelection 1).message = "SELECT VALUE requires exactly one field, got 1" :=
  ⟨rfl, rfl, by decide⟩

end GraphQuery
