import GraphQuery.Schema.Table

/-!
# The registry of models

The registry holds the table descriptions of models. A model is described by its own declarations when it is first
used (`Registry.ensure`), unless something was registered for it before: registering makes a bare entry if there is
none, and adds to the entry otherwise (`Registry.register`). An entry is never replaced by a first use.
-/

namespace GraphQuery

/-- What each model declares about itself. -/
abbrev Schema := Model → List Declaration

/-- The table that a model describes. -/
def Schema.table (schema : Schema) (m : Model) : Table := (Table.bare m.defaultTable).declareAll (schema m)

/-- What can be registered for a table at once: its name and its index. -/
structure TableOptions where
  name : Option String
  index : Option TableIndex

/-- The declarations that options stand for. -/
def TableOptions.declarations (o : TableOptions) : List Declaration :=
  o.name.toList.map .name ++ o.index.toList.map .index

/-- The entries of models. -/
structure Registry where
  entries : List (Model × Table)

namespace Registry

/-- The registry without entries. -/
def empty : Registry := ⟨[]⟩

/-- The entry of a model. -/
def table? (r : Registry) (m : Model) : Option Table := r.entries.lookup m

/-- The model has an entry. -/
def contains (r : Registry) (m : Model) : Bool := (r.table? m).isSome

/-- The registry with an entry in front of all others. -/
def put (r : Registry) (m : Model) (t : Table) : Registry := ⟨(m, t) :: r.entries⟩

/-- The entry of a model after declarations; without an entry they are made about the bare table. -/
def register (r : Registry) (m : Model) (ds : List Declaration) : Registry :=
  r.put m (((r.table? m).getD (.bare m.defaultTable)).declareAll ds)

/-- The registry after the name and the index of a model's table were registered, those of them that are given. -/
def registerTable (r : Registry) (m : Model) (o : TableOptions) : Registry := r.register m o.declarations

/-- The registry after a field of a model was registered. -/
def registerField (r : Registry) (m : Model) (f : Field) : Registry := r.register m [.field f]

/-- The registry after the name of a model's identity was registered. -/
def registerIdentity (r : Registry) (m : Model) (name : String) : Registry := r.register m [.identity name]

/-- The entry of a model, after giving it this one if it has none. -/
def insertNew (r : Registry) (m : Model) (t : Table) : Table × Registry :=
  match r.table? m with
  | some found => (found, r)
  | none => (t, r.put m t)

/-- The entry of a model, described by the model itself on its first use. -/
def ensure (schema : Schema) (m : Model) (r : Registry) : Table × Registry :=
  match r.table? m with
  | some found => (found, r)
  | none => r.insertNew m (schema.table m)

theorem table?_put (r : Registry) (m n : Model) (t : Table) :
    (r.put m t).table? n = if n = m then some t else r.table? n := by
  by_cases h : n = m
  · simp [put, table?, h]
  · have hne : (n == m) = false := by simp [h]
    simp [put, table?, List.lookup_cons, h, hne]

end Registry

end GraphQuery
