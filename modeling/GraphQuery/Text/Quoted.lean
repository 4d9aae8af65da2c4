/-!
# Quoted strings

Two written forms of a string. Between single quotes, a single quote and a backslash are written after a backslash
(`singleQuoted`); between double quotes, the JSON escapes are used in their shortest form (`doubleQuoted`).
-/

namespace GraphQuery.Text

/-- A character between single quotes. -/
def escapeSingle (c : Char) : List Char := if c = '\'' ∨ c = '\\' then ['\\', c] else [c]

/-- The string between single quotes, as characters. -/
def singleQuotedChars (s : List Char) : List Char := '\'' :: (s.flatMap escapeSingle ++ ['\''])

/-- The string between single quotes. -/
def singleQuoted (s : String) : String := String.ofList (singleQuotedChars s.toList)

/-- The lower-case hexadecimal digit of a number below sixteen. -/
def hexDigit (n : Nat) : Char := Nat.digitChar n

/-- A character between double quotes: the two-character escapes where they exist, `\u00xx` for the other control
characters below the blank, and the character itself otherwise. -/
def escapeDouble (c : Char) : List Char :=
  if c = '"' then ['\\', '"']
  else if c = '\\' then ['\\', '\\']
  else if c = '\x08' then ['\\', 'b']
  else if c = '\t' then ['\\', 't']
  else if c = '\n' then ['\\', 'n']
  else if c = '\x0c' then ['\\', 'f']
  else if c = '\r' then ['\\', 'r']
  else if c.toNat < 32 then ['\\', 'u', '0', '0', hexDigit (c.toNat / 16), hexDigit (c.toNat % 16)]
  else [c]

/-- The string between double quotes, as characters. -/
def doubleQuotedChars (s : List Char) : List Char := '"' :: (s.flatMap escapeDouble ++ ['"'])

/-- The string between double quotes, as JSON writes it. -/
def doubleQuoted (s : String) : String := String.ofList (doubleQuotedChars s.toList)

end GraphQuery.Text
