import GraphQuery.Schema.Scope

/-!
# What paths resolve to

A path other than the star is looked up once, and what it resolves to is decided by the field that is found
(`Scope.resolve_cases`). A traversal is made of the arrow and the table of the edges, the key if there is one, and where
the relation goes on; the tables are named as their entries in the registry say (`Scope.traversal_eq`).
-/

namespace GraphQuery.Scope

variable (s : Scope)

/-- What resolving a path can be: the list of all fields, for the star; a refusal, where the table does not have the
field; the traversal of a relation under the name of the field, where the path is the name of a relation, perhaps with a
key; and otherwise the path as it is. -/
theorem resolve_cases (path : String) :
    (path = "*" ∧ s.resolve path = liftM s.resolveAll) ∨
    (path ≠ "*" ∧ s.table.field? (FieldPath.ofText path).head = none ∧
      s.resolve path = throw (.fieldNotFound s.table.name (FieldPath.ofText path).head)) ∨
    (path ≠ "*" ∧ (s.table.field? (FieldPath.ofText path).head).isSome ∧ s.resolve path = pure (Fragment.raw path)) ∨
    (path ≠ "*" ∧ (FieldPath.ofText path).head = (FieldPath.ofText path).name ∧
      ∃ f rel, s.table.field? (FieldPath.ofText path).head = some f ∧ f.relation? = some rel ∧
        s.resolve path = do
          let text ← liftM (s.traversal rel (FieldPath.ofText path).key)
          return (Fragment.raw text).named f.name) := by
  by_cases hstar : path = "*"
  · exact .inl ⟨hstar, by rw [resolve, if_pos hstar]⟩
  · refine .inr ?_
    rw [resolve, if_neg hstar]
    dsimp only
    cases hfield : s.table.field? (FieldPath.ofText path).head with
    | none => exact .inl ⟨hstar, rfl, rfl⟩
    | some f =>
      refine .inr ?_
      dsimp only
      cases hrel : f.relation? with
      | none => exact .inl ⟨hstar, rfl, rfl⟩
      | some rel =>
        by_cases hhead : (FieldPath.ofText path).head = (FieldPath.ofText path).name
        · exact .inr ⟨hstar, hhead, f, rel, rfl, hrel, if_pos hhead⟩
        · exact .inl ⟨hstar, rfl, if_neg hhead⟩

/-- Where a relation goes on from its edges, with the table of its target as a registry has it. -/
def tailText (rel : Relation) (r : Registry) : String :=
  match rel.tail with
  | .edges => ""
  | .selector text => text
  | .target direction model => direction.text ++ (r.ensure s.schema model).1.name

theorem traversal_eq (rel : Relation) (key : Option String) (r : Registry) :
    (s.traversal rel key r).1 = rel.direction.text ++ (r.ensure s.schema rel.via).1.name ++
      (key.map (":" ++ ·)).getD "" ++ s.tailText rel (r.ensure s.schema rel.via).2 := by
  unfold traversal tailText
  cases rel.tail with
  | edges => exact (String.append_empty).symm
  | selector text => rfl
  | target direction model => exact String.append_assoc ..

end GraphQuery.Scope
