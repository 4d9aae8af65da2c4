import GraphQuery.Connection.Strategy
import GraphQuery.Number

/-!
# Errors

Why an operation fails (`QueryError`), and the wording of each cause (`QueryError.message`).
-/

namespace GraphQuery

/-- Why data cannot be made into a document. -/
inductive EncodeError
  | numberOutOfRange
  | keyNotString
  | keyNotFinite
deriving DecidableEq, Repr

/-- The wording of an encoding error. -/
def EncodeError.message : EncodeError → String
  | numberOutOfRange => "number out of range"
  | keyNotString => "key must be a string"
  | keyNotFinite => "float key must be finite (got NaN or +/-inf)"

/-- Why a document does not have the form that is asked for. -/
inductive DecodeError
  | wrongType (found expected : String)
  | missingMember (name : String)
  | repeatedMember (name : String)
  | wrongLength (length : Nat)
  | unknownVariant (name : String)
  | outOfRange (number : String)
  | notALink (text : String)
  | notAUuid (text : String)
deriving DecidableEq, Repr

/-- The wording of a decoding error. -/
def DecodeError.message : DecodeError → String
  | wrongType found expected => "invalid type: " ++ found ++ ", expected " ++ expected
  | missingMember name => "missing field \x60" ++ name ++ "\x60"
  | repeatedMember name => "duplicate field \x60" ++ name ++ "\x60"
  | wrongLength n => "invalid length " ++ Number.natText n
  | unknownVariant name => "unknown variant \x60" ++ name ++ "\x60"
  | outOfRange number => "invalid value: integer \x60" ++ number ++ "\x60"
  | notALink text => "invalid record link \x60" ++ text ++ "\x60"
  | notAUuid text => "invalid identifier \x60" ++ text ++ "\x60"

/-- Why options for a connection are not accepted. -/
inductive ConfigError
  | missingUrl
  | unreadable (path reason : String)
  | malformed (reason : String)
deriving DecidableEq, Repr

/-- The wording of a configuration error. -/
def ConfigError.message : ConfigError → String
  | missingUrl => "url is required"
  | unreadable path reason => "failed to read " ++ path ++ ": " ++ reason
  | malformed reason => "invalid config: " ++ reason

/-- An operation that not every strategy carries. -/
inductive Restricted
  | live
  | patch
deriving DecidableEq, Repr

/-- The name of a restricted operation. -/
def Restricted.text : Restricted → String
  | live => "Live"
  | patch => "Patch"

/-- An operation that needs data. -/
inductive Supplied
  | create
  | insert
deriving DecidableEq, Repr

/-- The name of an operation that needs data. -/
def Supplied.text : Supplied → String
  | create => "create"
  | insert => "insert"

/-- Why an operation fails. -/
inductive QueryError
  | fieldNotFound (table field : String)
  | unsupported (operation : Restricted) (strategy : Strategy)
  | emptyInput (operation : Supplied)
  | emptyChain
  | invalidSelection (count : Nat)
  | execution (reason : String)
  | emptyResponse
  | mapping (cause : DecodeError)
  | serialization (cause : EncodeError)
  | config (cause : ConfigError)
deriving DecidableEq, Repr

/-- The wording of an error. -/
def QueryError.message : QueryError → String
  | fieldNotFound table field => "Field " ++ field ++ " does not exist on " ++ table
  | unsupported operation strategy =>
    operation.text ++ " queries are not supported in " ++ strategy.text ++ " mode"
  | emptyInput operation => "No data supplied to " ++ operation.text
  | emptyChain => "Cannot execute an empty query chain"
  | invalidSelection count => "SELECT VALUE requires exactly one field, got " ++ Number.natText count
  | execution reason => "Execution error: " ++ reason
  | emptyResponse => "Query returned no results"
  | mapping cause => "Mapping error: " ++ cause.message
  | serialization cause => "Serialization error: " ++ cause.message
  | config cause => "Configuration error: " ++ cause.message

end GraphQuery
