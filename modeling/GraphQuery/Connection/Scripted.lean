import GraphQuery.Connection
import GraphQuery.Session.Notification
import GraphQuery.Text.Blank
import GraphQuery.Text.Split

/-!
# Scripted connections

A scripted connection answers from a queue of responses, and from a small engine when the queue is empty: the engine
takes a query apart at its semicolons, remembers the indexes that are defined, and lists them when it is asked for a
catalog. It keeps a log of everything that it was asked, so that what an exchange sends can be seen.
-/

namespace GraphQuery

/-- A request for a live query: the table, and whether differences are wanted. -/
structure LiveRequest where
  table : String
  diff : Bool
deriving DecidableEq, Repr

/-- The state of a scripted connection. -/
structure Script where
  /-- The responses that are given next. -/
  responses : List (Except String (List Json))
  /-- The indexes that were defined, by name. -/
  indexes : Members Json
  /-- The changes that a live query tells of at once. -/
  notifications : List Notification
  /-- The queries that were sent, in order. -/
  queries : List String
  /-- The live queries that were asked for, in order. -/
  lives : List LiveRequest
  /-- The changes that were told of, in order. -/
  told : List Notification

namespace Script

/-- A script without responses, before anything was asked. -/
def empty : Script := ⟨[], [], [], [], [], []⟩

/-- The script with one more response at the end of its queue. -/
def respond (s : Script) (response : Except String (List Json)) : Script :=
  { s with responses := s.responses ++ [response] }

/-- The script with an empty log. -/
def clearLog (s : Script) : Script := { s with queries := [], lives := [], told := [] }

/-- The text after another at its start. -/
def after? (start s : String) : Option String :=
  if start.toList.isPrefixOf s.toList then some (String.ofList (s.toList.drop start.length)) else none

/-- The catalog that lists some indexes. -/
def catalog (indexes : Members Json) : Json :=
  .object [("events", .object []), ("fields", .object []), ("indexes", .object indexes), ("lives", .object []),
    ("tables", .object [])]

/-- The result of one statement, and the indexes after it. -/
def execute (indexes : Members Json) (statement : String) : Json × Members Json :=
  match after? "DEFINE INDEX " statement with
  | some rest =>
    match Text.words rest with
    | name :: _ => (.array [], indexes.insert name (.string statement))
    | [] => (.array [], indexes)
  | none =>
    match after? "INFO FOR TABLE" statement with
    | some _ => (catalog indexes, indexes)
    | none => (.array [], indexes)

/-- The results of statements in order, and the indexes after them. -/
def executeAll (indexes : Members Json) : List String → List Json × Members Json
  | [] => ([], indexes)
  | s :: rest =>
    let (result, indexes) := execute indexes s
    let (results, indexes) := executeAll indexes rest
    (result :: results, indexes)

/-- The statements of a query. -/
def statements (text : String) : List String := ((Text.split ';' text).map Text.trim).filter fun s => !s.isEmpty

/-- The reply to a query. -/
def reply (text : String) (s : Script) : Except QueryError (List Json) × Script :=
  let s := { s with queries := s.queries ++ [text] }
  match s.responses with
  | .ok results :: rest => (.ok results, { s with responses := rest })
  | .error reason :: rest => (.error (.execution reason), { s with responses := rest })
  | [] =>
    let (results, indexes) := executeAll s.indexes (statements text)
    (.ok results, { s with indexes := indexes })

/-- The reply to a request for a live query, which tells of all changes at once. -/
def replyLive (table : String) (diff : Bool) (s : Script) : Except QueryError Uuid × Script :=
  (.ok ((s.notifications.head?.map Notification.id).getD .nil),
    { s with lives := s.lives ++ [⟨table, diff⟩], told := s.told ++ s.notifications })

/-- A scripted connection with live queries. -/
def connection (strategy : Strategy) : Connection Script where
  strategy := strategy
  query := reply
  live := replyLive

/-- A scripted connection without live queries. -/
def connectionWithoutLive (strategy : Strategy) : Connection Script where
  strategy := strategy
  query := reply

end Script

end GraphQuery
