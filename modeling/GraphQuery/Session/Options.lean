import GraphQuery.Connection
import GraphQuery.Text.Blank
import GraphQuery.Toml.Reader

/-!
# Options of a connection

The options name the address of the database, and perhaps a namespace, a database, credentials, and whether to use web
sockets. They are read from documents and from TOML texts, where `ns` and `db` are short for `namespace` and
`database`. Options without an address are refused before anything is connected (`Options.connect`).
-/

namespace GraphQuery

/-- Who connects, perhaps for one namespace or database only. -/
structure Credentials where
  username : String
  password : String
  scope : Option String
  database : Option String
deriving DecidableEq, Repr

/-- The options of a connection. -/
structure Options where
  url : String
  scope : Option String
  database : Option String
  auth : Option Credentials
  webSocket : Option Bool
deriving DecidableEq, Repr

/-- The member of a record with a value, if it has one. -/
def Json.optionalMember {α : Type} (name : String) (f : α → Json) (a : Option α) : List (String × Json) :=
  a.toList.map fun a => (name, f a)

namespace Credentials

/-- Credentials of a user for everything. -/
def of (username password : String) : Credentials := ⟨username, password, none, none⟩

/-- The document of credentials, its members in the order of their declaration. -/
def toWire (c : Credentials) : Json :=
  .object ([("username", .string c.username), ("password", .string c.password)] ++
    Json.optionalMember "namespace" .string c.scope ++ Json.optionalMember "database" .string c.database)

/-- Credentials, of which the user and the password have to be there. -/
def decoder : Decoder Credentials := fun j => do
  let ms ← Decoder.record ["username", "password", "namespace", "database"] j
  return {
    username := ← Decoder.required "username" Decoder.string ms
    password := ← Decoder.required "password" Decoder.string ms
    scope := ← Decoder.orElse "namespace" none (Decoder.optional Decoder.string) ms
    database := ← Decoder.orElse "database" none (Decoder.optional Decoder.string) ms }

end Credentials

/-- A record whose members may be given by other names, but not by both. -/
def Decoder.renaming {α : Type} (names : List (String × String)) (d : Decoder α) : Decoder α
  | .object ms =>
    match names.find? fun n => Members.contains ms n.1 && Members.contains ms n.2 with
    | some n => .error (.repeatedMember n.2)
    | none => d (.object (ms.map fun m => ((names.lookup m.1).getD m.1, m.2)))
  | j => d j

namespace Options

/-- Options with an address only. -/
def of (url : String) : Options := ⟨url, none, none, none, none⟩

/-- The document of options, its members in the order of their declaration. -/
def toWire (o : Options) : Json :=
  .object ([("url", .string o.url)] ++ Json.optionalMember "namespace" .string o.scope ++
    Json.optionalMember "database" .string o.database ++ Json.optionalMember "auth" Credentials.toWire o.auth ++
    Json.optionalMember "websocket" .bool o.webSocket)

/-- Options, any of which may be missing. -/
def decoder : Decoder Options := Decoder.renaming [("ns", "namespace"), ("db", "database")] fun j => do
  let ms ← Decoder.record ["url", "namespace", "database", "auth", "websocket"] j
  return {
    url := ← Decoder.orElse "url" "" Decoder.string ms
    scope := ← Decoder.orElse "namespace" none (Decoder.optional Decoder.string) ms
    database := ← Decoder.orElse "database" none (Decoder.optional Decoder.string) ms
    auth := ← Decoder.orElse "auth" none (Decoder.optional Credentials.decoder) ms
    webSocket := ← Decoder.orElse "websocket" none (Decoder.optional Decoder.bool) ms }

/-- Plain requests if web sockets are declined, web sockets otherwise. -/
def strategy (o : Options) : Strategy := if o.webSocket = some false then .http else .webSocket

/-- Options need an address that is not blank. -/
def validate (o : Options) : Except ConfigError Unit := if (Text.trim o.url).isEmpty then .error .missingUrl else .ok ()

/-- The valid options of a TOML text. -/
def ofToml (text : String) : Except ConfigError Options :=
  match Toml.parse? text with
  | none => .error (.malformed "not a TOML document")
  | some v => do
    let o ← (decoder v.toJson).mapError fun e => .malformed e.message
    o.validate
    return o

/-- The valid options of a file with a path, from its bytes if it can be read. -/
def ofFile (path : String) (content : Option ByteArray) : Except ConfigError Options :=
  match content with
  | none => .error (.unreadable path "no such file")
  | some bytes =>
    match String.fromUTF8? bytes with
    | none => .error (.unreadable path "not valid UTF-8")
    | some text => ofToml text

/-- The connection that a connector makes from valid options and their strategy. A connector may have any effects, of
which failing is one. -/
def connect {μ : Type → Type} [MonadExceptOf QueryError μ] {σ : Type} (o : Options)
    (connector : Options → Strategy → μ (Connection σ)) : μ (Connection σ) :=
  match o.validate with
  | .error cause => throw (.config cause)
  | .ok _ => connector o o.strategy

end Options

end GraphQuery
