import GraphQuery.Chain
import GraphQuery.Migration
import GraphQuery.Session.Patch
import GraphQuery.Session.Select
import GraphQuery.Value.Content

/-!
# Sessions

A session knows the models, what is registered for them, and how its connection reaches the database. Its operations
on the table of a model are exchanges: what the library itself can refuse is refused before anything is sent, and
nothing is sent where there is nothing to write.
-/

namespace GraphQuery

/-- The models that a session knows, and the strategy of its connection. -/
structure Session where
  schema : Schema
  registry : Registry
  strategy : Strategy

namespace Session

variable (s : Session)

/-- The scope of a model, and the registry with its entry. -/
def scopeOf (m : Model) : Scope × Registry := Scope.enter s.schema m s.registry

/-- The table of a model. -/
def table (m : Model) : Table := (s.scopeOf m).1.table

/-- What is made in the scope of a model. -/
def within {α : Type} (m : Model) (f : Scope → ExceptT QueryError (StateM Registry) α) : Except QueryError α :=
  let (scope, r) := s.scopeOf m
  ((f scope).run r).1

/-! ## Reading -/

/-- All results of a query. -/
def execute (text : String) : Exchange (List Json) := Exchange.ask text

/-- The rows of a statement. -/
def raw (q : Statement) : Exchange Rows := do
  let results ← execute q.script
  .done (Rows.lastOf results)

/-- The statement of a select. -/
def compileSelect (m : Model) (q : Select) : Except QueryError Statement :=
  (s.within m q.toFragment).map Fragment.compile

/-- The rows of a select. -/
def select (m : Model) (q : Select) : Exchange Rows := do
  let statement ← .done (s.compileSelect m q)
  raw statement

/-- The decoded rows of a select. -/
def selectAll {α : Type} (d : Decoder α) (m : Model) (q : Select) : Exchange (List α) := do
  let rows ← s.select m q
  .done (rows.decode d)

/-- The first decoded row of a select. -/
def selectFirst {α : Type} (d : Decoder α) (m : Model) (q : Select) : Exchange (Option α) := do
  let rows ← s.select m q
  .done (rows.first d)

/-! ## Writing -/

/-- A new record with a value as its content. -/
def create (m : Model) (v : Value) : Exchange Rows :=
  match v.content with
  | none => Exchange.fail (.emptyInput .create)
  | some content => raw (Statements.create (s.table m).name content).compile

/-- New records with values as their contents; an empty array is not sent. -/
def insert (m : Model) (v : Value) : Exchange Rows :=
  match v.content with
  | none => Exchange.fail (.emptyInput .insert)
  | some (.array []) => .done (.ok .empty)
  | some data => raw (Statements.insert (s.table m).name data).compile

/-- A value written to a record, or to all records of the table; an absent value is not sent. -/
def write (m : Model) (key : Option String) (mode : Statements.UpdateMode) (v : Value) : Exchange Rows :=
  match v.content with
  | none => .done (.ok .empty)
  | some data => raw (Statements.update (Statements.target (s.table m).name key) mode data).compile

/-- A value in the place of the content of a record. -/
def update (m : Model) (key : Option String) (v : Value) : Exchange Rows := s.write m key .content v

/-- A value merged into the content of a record. -/
def merge (m : Model) (key : Option String) (v : Value) : Exchange Rows := s.write m key .merge v

/-- Patches of a record. -/
def patch (m : Model) (key : Option String) (patches : List Patch) : Exchange Rows :=
  if s.strategy.supportsPatch then
    let data := Json.array (patches.map Patch.toJson)
    raw (Statements.update (Statements.target (s.table m).name key) .patch data).compile
  else Exchange.fail (.unsupported .patch s.strategy)

/-- The end of a record, or of all records of the table. -/
def delete (m : Model) (key : Option String) : Exchange Rows :=
  raw (Statements.delete (Statements.target (s.table m).name key)).compile

/-- A new edge between records of two models. -/
def relate (source via goal : Model) (sourceKey : String) (edgeKey : Option String) (goalKey : String) :
    Exchange Rows :=
  raw (Statements.relate (.of (s.table source).name sourceKey) (s.table via).name edgeKey
    (.of (s.table goal).name goalKey)).compile

/-! ## Catalogs -/

/-- The catalog of a table. -/
def info (m : Model) : Exchange Catalog := do
  let rows ← raw (Statements.infoForTable (s.table m).name).compile
  let first ← .done (rows.first Catalog.decoder)
  return first.getD .empty

/-- The statements that define the missing indexes of a table, after sending them together. -/
def migrate (m : Model) : Exchange (List String) := do
  let catalog ← s.info m
  let statements := (Migration.plan (s.table m) catalog).map Fragment.text
  if statements.isEmpty then return []
  let _ ← execute ("\n".intercalate (statements.map (· ++ ";")))
  return statements

/-! ## Live queries and builders -/

/-- A live query of a table. -/
def live (m : Model) (diff : Bool) : Exchange Uuid :=
  if s.strategy.supportsLive then Exchange.watch (s.table m).name diff
  else Exchange.fail (.unsupported .live s.strategy)

/-- The statement that is built in the scope of a model. -/
def query (m : Model) (build : Scope → ExceptT QueryError (StateM Registry) Fragment) : Except QueryError Statement :=
  (s.within m build).map Fragment.compile

/-- The chain with one more statement, which is built in the scope of a model. -/
def extend (c : Chain) (m : Model) (build : Scope → ExceptT QueryError (StateM Registry) Fragment) :
    Except QueryError Chain :=
  c.next (s.within m build)

end Session

end GraphQuery
