import GraphQuery.Connection.Scripted
import GraphQuery.Functions
import GraphQuery.Json.Encoder
import GraphQuery.Proofs.BoundString
import GraphQuery.Proofs.Interpolation
import GraphQuery.Proofs.Lexemes
import GraphQuery.Proofs.Literal
import GraphQuery.Proofs.RecordKey
import GraphQuery.Session
import GraphQuery.Session.Options
import GraphQuery.Proofs.Declarations
import GraphQuery.Proofs.Plan
import GraphQuery.Proofs.Requests
import GraphQuery.Proofs.Migration
import GraphQuery.Proofs.Engine
import GraphQuery.Proofs.Payload
import GraphQuery.Proofs.Chain
import GraphQuery.Proofs.Interleaving
import GraphQuery.Proofs.Operations
import GraphQuery.Proofs.FirstUse
import GraphQuery.Proofs.Paths
import GraphQuery.Proofs.Selection
import GraphQuery.Proofs.TableNames
import GraphQuery.Proofs.Clauses
import GraphQuery.Proofs.LinkText
import GraphQuery.Proofs.Composition
import GraphQuery.Proofs.SafeContent
import GraphQuery.Proofs.SafeNumber
import GraphQuery.Proofs.Wildcard
import GraphQuery.Proofs.DocumentText
import GraphQuery.Proofs.LinkGrammar
import GraphQuery.Proofs.PatchWire
import GraphQuery.Proofs.PlainValues
import GraphQuery.Proofs.Rows
import GraphQuery.Proofs.Shapes
import GraphQuery.Proofs.TypePaths
