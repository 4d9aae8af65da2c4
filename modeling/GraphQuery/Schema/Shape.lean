import GraphQuery.Declared
import GraphQuery.Schema.Scalar
import GraphQuery.Text.Split

/-!
# Shapes of objects

A shape lists the members of an object with their types, in the order of their first declaration; the type of a member
is a scalar or the shape of a nested object. `Shape.resolve?` finds a member by a path of names with dots between
them.
-/

namespace GraphQuery

/-- A member of an object: its name, its type, and whether it has to be there. -/
structure ShapeMember (τ : Type) where
  name : String
  type : τ
  required : Bool

/-- The type of a member. -/
inductive ShapeType
  | scalar (type : Scalar)
  | object (members : List (ShapeMember ShapeType))

/-- The members of an object. -/
abbrev Shape := List (ShapeMember ShapeType)

namespace ShapeType

/-- The type is that of a nested object. -/
def isObject : ShapeType → Bool
  | scalar _ => false
  | object _ => true

mutual

/-- Two types have the same members in the same order. -/
def same : ShapeType → ShapeType → Bool
  | scalar s, scalar t => s == t
  | object ms, object ns => sameMembers ms ns
  | _, _ => false

/-- Two member lists are the same member by member. -/
def sameMembers : List (ShapeMember ShapeType) → List (ShapeMember ShapeType) → Bool
  | [], [] => true
  | ⟨n, s, r⟩ :: ms, ⟨n', s', r'⟩ :: ns => n == n' && r == r' && same s s' && sameMembers ms ns
  | _, _ => false

end

end ShapeType

namespace Shape

/-- The shape with a member; a member of the same name is replaced in its place. -/
def member (s : Shape) (name : String) (type : ShapeType) (required : Bool) : Shape :=
  Declared.put ShapeMember.name ⟨name, type, required⟩ s

/-- The shape with a scalar member that has to be there. -/
def field (s : Shape) (name : String) (type : Scalar) : Shape := s.member name (.scalar type) true

/-- The shape with a scalar member that may be missing. -/
def optional (s : Shape) (name : String) (type : Scalar) : Shape := s.member name (.scalar type) false

/-- The shape with a nested object that has to be there. -/
def object (s : Shape) (name : String) (shape : Shape) : Shape := s.member name (.object shape) true

/-- The member with a name. -/
def get? (s : Shape) (name : String) : Option (ShapeMember ShapeType) := Declared.get? ShapeMember.name s name

/-- The member that a list of names leads to; each name but the last has to name a nested object. -/
def follow? : List String → Shape → Option (ShapeMember ShapeType)
  | [], _ => none
  | [name], s => s.get? name
  | name :: rest, s =>
    match s.get? name with
    | some ⟨_, .object inner, _⟩ => follow? rest inner
    | _ => none

/-- The member that a path of names with dots between them leads to. -/
def resolve? (s : Shape) (path : String) : Option (ShapeMember ShapeType) := follow? (Text.split '.' path) s

end Shape

end GraphQuery
