/-!
# Connection strategies

A connection runs over web sockets or over plain requests. Only web sockets carry live queries and patches. A strategy
is named by a protocol in any case (`Strategy.parse?`), or by the protocol of an address (`Strategy.ofUrl?`).
-/

namespace GraphQuery

/-- How a connection reaches the database. -/
inductive Strategy
  | webSocket
  | http
deriving DecidableEq, Repr

namespace Strategy

/-- The short name of a strategy. -/
def text : Strategy → String
  | webSocket => "WS"
  | http => "HTTP"

/-- The name of a strategy in documents. -/
def wireName : Strategy → String
  | webSocket => "websocket"
  | http => "http"

/-- The strategy with a name in documents; web sockets have a second name. -/
def ofWireName? (s : String) : Option Strategy :=
  if s = "websocket" ∨ s = "ws" then some webSocket else if s = "http" then some http else none

/-- Live queries need web sockets. -/
def supportsLive : Strategy → Bool
  | webSocket => true
  | http => false

/-- Patches need web sockets. -/
def supportsPatch : Strategy → Bool
  | webSocket => true
  | http => false

/-- The strategy of a protocol, whose ASCII letters may have any case. -/
def parse? (s : String) : Option Strategy :=
  let name := s.toLower
  if name = "ws" ∨ name = "wss" ∨ name = "websocket" then some webSocket
  else if name = "http" ∨ name = "https" then some http
  else none

/-- The characters before the first `://`, if it occurs. -/
def scheme? : List Char → Option (List Char)
  | ':' :: '/' :: '/' :: _ => some []
  | c :: cs => (scheme? cs).map (c :: ·)
  | [] => none

/-- The strategy of the protocol of an address. -/
def ofUrl? (url : String) : Option Strategy := (scheme? url.toList).bind fun s => parse? (String.ofList s)

/-- Why a name is no strategy. -/
def unknownMessage : String := "unknown connection strategy"

end Strategy

end GraphQuery
