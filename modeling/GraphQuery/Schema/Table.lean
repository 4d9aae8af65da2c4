import GraphQuery.Schema.Field

/-!
# Descriptions of tables

A table description is made by declarations: the name of the table, its index, its fields, and the name of its
identity, the field that holds the record link. `Table.fields` lists the declared fields in the order of their first
declaration, each as declared last, and the identity at the end; a declared field with the name of the identity is
hidden by it.
-/

namespace GraphQuery

/-- What a model says about its table. -/
inductive Declaration
  | name (name : String)
  | index (index : TableIndex)
  | identity (name : String)
  | field (field : Field)

namespace Declaration

/-- A scalar field. -/
def scalar (name : String) (type : Scalar) : Declaration := field (.plain name (.scalar type))

/-- A field that holds a link to a record of a model. -/
def record (name : String) (model : Model) : Declaration := field (.plain name (.record model))

/-- A relation. -/
def relation (name : String) (r : Relation) : Declaration := field (.plain name (.relation r))

end Declaration

/-- The description of a table. The identity is the field that holds the record link. -/
structure Table where
  name : String
  index : Option TableIndex
  declared : List Field
  identityField : Field

namespace Table

/-- The table with a name about which nothing else is known. -/
def bare (name : String) : Table := ⟨name, none, [], .id "id"⟩

/-- The table after one more declaration. A new identity takes the index of the identity before it. -/
def declare (t : Table) : Declaration → Table
  | .name name => { t with name := name }
  | .index index => { t with index := some index }
  | .identity name => { t with identityField := { Field.id name with index := t.identityField.index } }
  | .field f => { t with declared := Declared.put Field.name f t.declared }

/-- The table after declarations in order. -/
def declareAll (t : Table) (ds : List Declaration) : Table := ds.foldl declare t

/-- The name of the field that holds the record link. -/
def identity (t : Table) : String := t.identityField.name

/-- The declared fields that the identity does not hide, and the identity. -/
def fields (t : Table) : List Field := t.declared.filter (fun f => f.name != t.identity) ++ [t.identityField]

/-- The field with a name. -/
def field? (t : Table) (name : String) : Option Field :=
  if t.identity = name then some t.identityField else Declared.get? Field.name t.declared name

end Table

end GraphQuery
