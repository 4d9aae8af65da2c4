import GraphQuery.Fragment.Token
import GraphQuery.Value

/-!
# Fragments of statements

A fragment is a list of chunks. A chunk is a token, a name, a verbatim text, a number, a value, a binding, or a
template; a template is a list of parts that are set next to each other with nothing in between; a part is a text, a
value, a binding or a fragment; and a binding gives a name to a part. Fragments, templates and bindings may stand
inside of each other to any depth.

The rest of the module builds fragments: fragments are put together by `Fragment.append` and `Fragment.join`, wrapped
by `Fragment.parens`, named by `Fragment.named` and called by `Fragment.call`.
-/

namespace GraphQuery

mutual

/-- A piece of a statement. -/
inductive Chunk
  | token (t : Token)
  | ident (name : String)
  | raw (text : String)
  | number (n : Nat)
  | value (v : Value)
  | binding (b : Binding)
  | template (parts : List Part)

/-- A piece of a template. -/
inductive Part
  | text (s : String)
  | value (v : Value)
  | binding (b : Binding)
  | fragment (chunks : List Chunk)

/-- A name for a part. -/
inductive Binding
  | of (name : String) (value : Part)

end

instance : Inhabited Chunk := ⟨.raw ""⟩
instance : Inhabited Part := ⟨.text ""⟩

/-- The name of a binding. -/
def Binding.name : Binding → String
  | .of name _ => name

/-- The part that a binding names. -/
def Binding.value : Binding → Part
  | .of _ value => value

/-- A part of a statement: chunks in order. -/
abbrev Fragment := List Chunk

/-- Parts that are set next to each other. -/
abbrev Template := List Part

namespace Chunk

/-- A keyword. -/
def keyword (k : Keyword) : Chunk := token (.keyword k)

/-- A punctuation mark. -/
def mark (m : Mark) : Chunk := token (.mark m)

end Chunk

namespace Template

/-- The template with a text at its end; an empty text adds no part. -/
def addText (t : Template) (s : String) : Template := if s.isEmpty then t else t ++ [.text s]

/-- The fragment that holds a template; an empty template makes an empty fragment. -/
def toFragment (t : Template) : Fragment := if t.isEmpty then [] else [.template t]

end Template

namespace Fragment

/-- A keyword. -/
def keyword (k : Keyword) : Fragment := [.keyword k]

/-- A name, quoted where it has to be. -/
def ident (name : String) : Fragment := [.ident name]

/-- A text that stands for itself. -/
def raw (text : String) : Fragment := [.raw text]

/-- A natural number. -/
def number (n : Nat) : Fragment := [.number n]

/-- A value in its inline form. -/
def value (v : Value) : Fragment := [.value v]

/-- A record link. -/
def link (l : Link) : Fragment := [.value (.link l)]

/-- A document in its compact form. -/
def json (j : Json) : Fragment := [.raw j.text]

/-- Two fragments one behind the other; beside an empty fragment, the other one as it is. -/
def append (f g : Fragment) : Fragment :=
  if f.isEmpty then g
  else if g.isEmpty then f
  else f ++ g

/-- Fragments with a token between each two of them; an empty fragment keeps its place. -/
def join (separator : Token) : List Fragment → Fragment
  | [] => []
  | [f] => f
  | f :: g :: rest => f ++ .token separator :: join separator (g :: rest)

/-- Fragments with commas between them. -/
def commas (fs : List Fragment) : Fragment := join (.mark .comma) fs

/-- The fragment between parentheses. -/
def parens (f : Fragment) : Fragment := .mark .openParen :: f ++ [.mark .closeParen]

/-- The fragment under another name. -/
def named (f : Fragment) (name : String) : Fragment := f ++ [.keyword .as_, .ident name]

/-- A function and its arguments between parentheses. -/
def call (function : String) (arguments : Fragment) : Fragment := .raw function :: parens arguments

end Fragment

end GraphQuery
