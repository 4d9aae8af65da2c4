import GraphQuery.Fragment
import GraphQuery.Text.Blank
import GraphQuery.Value.Literal

/-!
# Rendering

Rendering a fragment gives its text and the lines that declare its bindings (`Fragment.compile`). The chunks of a
fragment are separated by a blank where `Chunk.needsSpace` asks for one; the parts of a template are not separated. A
binding is written as its name after a dollar sign, and its declaration is a line `LET $name = value;` in front of the
statement. The lines of the bindings inside of its value come first, and a line that is already there is not repeated.
-/

namespace GraphQuery

/-! ## Spacing -/

namespace Chunk

/-- The chunk brings its own blank at its start, or is a verbatim text without characters. -/
def startsBlank : Chunk → Bool
  | raw s => s.isEmpty || Text.startsBlank s
  | template (.text s :: _) => Text.startsBlank s
  | _ => false

/-- The chunk brings its own blank at its end, or is a verbatim text without characters. -/
def endsBlank : Chunk → Bool
  | raw s => s.isEmpty || Text.endsBlank s
  | template parts =>
    match parts.getLast? with
    | some (.text s) => Text.endsBlank s
    | _ => false
  | _ => false

/-- A mark that follows the chunk before it without a blank. -/
def closesUp : Chunk → Bool
  | token (.mark .comma) | token (.mark .semicolon) | token (.mark .closeParen) | token (.mark .dot) => true
  | _ => false

/-- A mark that the next chunk follows without a blank. -/
def opensUp : Chunk → Bool
  | token (.mark .openParen) | token (.mark .dot) => true
  | _ => false

/-- The chunk is a keyword. -/
def isKeyword : Chunk → Bool
  | token (.keyword _) => true
  | _ => false

/-- The chunk is an opening parenthesis. -/
def isOpenParen : Chunk → Bool
  | token (.mark .openParen) => true
  | _ => false

/-- Two neighbours are separated by a blank, unless one of them brings its own, the second closes up, or the first opens
up; an opening parenthesis is set apart from a keyword only. -/
def needsSpace (current next : Chunk) : Bool :=
  if current.endsBlank || next.startsBlank then false
  else if next.closesUp || current.opensUp then false
  else if next.isOpenParen then current.isKeyword
  else true

/-- What stands between a chunk and the chunks after it. -/
def gap (current : Chunk) : List Chunk → String
  | [] => ""
  | next :: _ => if needsSpace current next then " " else ""

end Chunk

/-! ## Text and declarations -/

/-- The text of a token. -/
def Token.text : Token → String
  | keyword k => k.text
  | mark m => m.text

/-- The line that declares a name, from the text of its value. -/
def letLine (name value : String) : String := "LET $" ++ name ++ " = " ++ value ++ ";"

/-- The lines with one more line, if it is not among them. -/
def addLine (lines : List String) (line : String) : List String :=
  if lines.contains line then lines else lines ++ [line]

/-- A reference to a declared name. -/
def variableText (name : String) : String := "$" ++ name

mutual

/-- The text of a chunk, and the lines together with those of its bindings. -/
def Chunk.render : Chunk → List String → String × List String
  | .token t, lines => (t.text, lines)
  | .ident name, lines => (Text.identifier name, lines)
  | .raw text, lines => (text, lines)
  | .number n, lines => (Number.natText n, lines)
  | .value v, lines => (v.inline, lines)
  | .binding b, lines => (variableText b.name, b.declare lines)
  | .template parts, lines => Template.render parts lines

/-- The lines together with those of a binding, the lines of the bindings inside of its value first. -/
def Binding.declare : Binding → List String → List String
  | .of name (.text s), lines => addLine lines (letLine name s)
  | .of name (.value v), lines => addLine lines (letLine name v.bound)
  | .of name (.binding b), lines => addLine (b.declare lines) (letLine name (variableText b.name))
  | .of name (.fragment chunks), lines =>
    let (value, lines) := Fragment.render chunks lines
    addLine lines (letLine name value)

/-- The text of a part of a template, and the lines together with those of its bindings. -/
def Part.render : Part → List String → String × List String
  | .text s, lines => (s, lines)
  | .value v, lines => (v.inline, lines)
  | .binding b, lines => (variableText b.name, b.declare lines)
  | .fragment chunks, lines => Fragment.render chunks lines

/-- The texts of the parts with nothing in between, and the lines together with those of their bindings. -/
def Template.render : List Part → List String → String × List String
  | [], lines => ("", lines)
  | part :: parts, lines =>
    let (text, lines) := part.render lines
    let (rest, lines) := Template.render parts lines
    (text ++ rest, lines)

/-- The texts of the chunks with the gaps between them, and the lines together with those of their bindings. -/
def Fragment.render : List Chunk → List String → String × List String
  | [], lines => ("", lines)
  | chunk :: chunks, lines =>
    let (text, lines) := chunk.render lines
    let (rest, lines) := Fragment.render chunks lines
    (text ++ chunk.gap chunks ++ rest, lines)

end

/-! ## Statements -/

/-- A rendered fragment: the lines that declare its bindings, and its text. -/
structure Statement where
  bindings : List String
  text : String
deriving DecidableEq

namespace Statement

/-- The lines, each with a line end, and the text after them. -/
def script (s : Statement) : String := String.join (s.bindings.map (· ++ "\n")) ++ s.text

/-- Neither lines nor text. -/
def isEmpty (s : Statement) : Bool := s.bindings.isEmpty && s.text.isEmpty

end Statement

/-- The text of a fragment without its lines. -/
def Fragment.text (f : Fragment) : String := (Fragment.render f []).1

/-- The statement that a fragment makes. -/
def Fragment.compile (f : Fragment) : Statement :=
  let (text, lines) := Fragment.render f []
  ⟨lines, text⟩

end GraphQuery
