import GraphQuery.Connection.Uuid
import GraphQuery.Rows

/-!
# Exchanges with a database

An operation that talks to a database is an exchange (`Exchange`): it is done, or it sends a query or asks for a live
query and goes on with the reply. A connection answers requests and keeps its own state (`Connection`); running an
exchange over a connection gives the outcome and the state after it (`Exchange.run`). What an exchange sends can so be
read off without any connection.
-/

namespace GraphQuery

/-- An operation that asks a database and goes on with its replies. -/
inductive Exchange (α : Type)
  | done (outcome : Except QueryError α)
  | query (text : String) (next : Except QueryError (List Json) → Exchange α)
  | live (table : String) (diff : Bool) (next : Except QueryError Uuid → Exchange α)

namespace Exchange

variable {α β : Type}

/-- The exchange that fails at once. -/
def fail (e : QueryError) : Exchange α := done (.error e)

/-- The exchange that goes on with the outcome of another, unless that fails. -/
def bind : Exchange α → (α → Exchange β) → Exchange β
  | done (.ok a), f => f a
  | done (.error e), _ => fail e
  | query text next, f => query text fun reply => (next reply).bind f
  | live table diff next, f => live table diff fun reply => (next reply).bind f

instance : Monad Exchange where
  pure a := done (.ok a)
  bind := bind

/-- The results of a query. -/
def ask (text : String) : Exchange (List Json) := query text done

/-- The identifier of a new live query. -/
def watch (table : String) (diff : Bool) : Exchange Uuid := live table diff done

end Exchange

/-- Something that answers requests. A connection without live queries says so. -/
structure Connection (σ : Type) where
  strategy : Strategy
  query : String → σ → Except QueryError (List Json) × σ
  live : String → Bool → σ → Except QueryError Uuid × σ := fun _ _ s => (.error (.unsupported .live strategy), s)

/-- The outcome of an exchange over a connection, and the state of the connection after it. -/
def Exchange.run {σ α : Type} (c : Connection σ) : Exchange α → σ → Except QueryError α × σ
  | done outcome, s => (outcome, s)
  | query text next, s =>
    let (reply, s) := c.query text s
    run c (next reply) s
  | live table diff next, s =>
    let (reply, s) := c.live table diff s
    run c (next reply) s

end GraphQuery
