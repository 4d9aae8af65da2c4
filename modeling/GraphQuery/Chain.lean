import GraphQuery.Connection
import GraphQuery.Fragment.Render

/-!
# Chains of statements

A chain collects the text of statements, each followed by a semicolon, and counts them. It is sent as one query, whose
last result gives the rows; an empty chain is not sent (`Chain.exec`).
-/

namespace GraphQuery

/-- The text of some statements, and their number. -/
structure Chain where
  text : String
  length : Nat
deriving DecidableEq

namespace Chain

/-- No statements. -/
def empty : Chain := ⟨"", 0⟩

/-- The chain with one more statement. -/
def push (c : Chain) (s : Statement) : Chain := ⟨c.text ++ s.script ++ ";", c.length + 1⟩

/-- The chain with the statement of one more fragment, if there is one. -/
def next (c : Chain) (f : Except QueryError Fragment) : Except QueryError Chain := f.map fun f => c.push f.compile

/-- There are no statements. -/
def isEmpty (c : Chain) : Bool := c.length == 0

/-- All statements sent at once, and the rows of the last one. -/
def exec (c : Chain) : Exchange Rows := do
  if c.isEmpty then Exchange.fail .emptyChain
  else
    let results ← Exchange.ask c.text
    .done (Rows.lastOf results)

end Chain

end GraphQuery
