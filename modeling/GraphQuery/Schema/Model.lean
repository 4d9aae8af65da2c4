/-!
# Models

A model is known by the path of its type: names separated by double colons, the last of which may carry arguments in
angle brackets. Its table is named after the type unless the model says otherwise (`Model.defaultTable`).
-/

namespace GraphQuery

/-- A model, known by the path of its type. -/
structure Model where
  path : String
deriving DecidableEq, Repr

namespace Model

/-- The characters before the first double colon. -/
def upToColons : List Char → List Char
  | ':' :: ':' :: _ => []
  | c :: cs => c :: upToColons cs
  | [] => []

/-- The characters after the last double colon. -/
def lastSegment (path : List Char) : List Char := (upToColons path.reverse).reverse

/-- The last name of the path before the first angle bracket. -/
def defaultTable (m : Model) : String := String.ofList (lastSegment (m.path.toList.takeWhile (· ≠ '<')))

end Model

end GraphQuery
