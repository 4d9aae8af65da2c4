import GraphQuery.Json.Decoder

/-!
# Patches

A patch changes a document at a path: it adds, removes, replaces, moves, copies or tests something there. In a
document a patch is an object with its operation, its path, and where it has them the path it takes from and its value
(`Patch.members`). A value that is null is read as no value.
-/

namespace GraphQuery

/-- What a patch does. -/
inductive PatchOp
  | add | remove | replace | move | copy | test
deriving DecidableEq, Repr

/-- The name of an operation. -/
def PatchOp.text : PatchOp → String
  | add => "add" | remove => "remove" | replace => "replace" | move => "move" | copy => "copy" | test => "test"

/-- The operation with a name. -/
def PatchOp.ofText? (s : String) : Option PatchOp :=
  [PatchOp.add, .remove, .replace, .move, .copy, .test].find? fun op => op.text == s

/-- One change of a document. -/
structure Patch where
  op : PatchOp
  path : String
  source : Option String
  value : Option Json

namespace Patch

/-- Add a value. -/
def add (path : String) (value : Json) : Patch := ⟨.add, path, none, some value⟩

/-- Remove what is there. -/
def remove (path : String) : Patch := ⟨.remove, path, none, none⟩

/-- Put a value in the place of what is there. -/
def replace (path : String) (value : Json) : Patch := ⟨.replace, path, none, some value⟩

/-- Move something from another path. -/
def move (source path : String) : Patch := ⟨.move, path, some source, none⟩

/-- Copy something from another path. -/
def copy (source path : String) : Patch := ⟨.copy, path, some source, none⟩

/-- Test what is there against a value. -/
def test (path : String) (value : Json) : Patch := ⟨.test, path, none, some value⟩

/-- The members of a patch in the order of their declaration; what the patch does not have is left out. -/
def members (p : Patch) : List (String × Json) :=
  [("op", .string p.op.text), ("path", .string p.path)] ++
    (p.source.toList.map fun s => ("from", .string s)) ++ (p.value.toList.map fun v => ("value", v))

/-- The document of a patch as it is written on its own. -/
def toWire (p : Patch) : Json := .object p.members

/-- The document of a patch with its members in the order of their keys. -/
def toJson (p : Patch) : Json := .ofMembers p.members

/-- A patch; what is missing or null in it is not there. -/
def decoder : Decoder Patch := fun j => do
  let ms ← Decoder.record ["op", "path", "from", "value"] j
  return {
    op := ← Decoder.required "op" (Decoder.variant PatchOp.ofText?) ms
    path := ← Decoder.required "path" Decoder.string ms
    source := ← Decoder.orElse "from" none (Decoder.optional Decoder.string) ms
    value := ← Decoder.orElse "value" none (Decoder.optional Decoder.json) ms }

end Patch

end GraphQuery
