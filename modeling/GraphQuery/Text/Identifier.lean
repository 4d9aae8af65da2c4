/-!
# Names of tables, fields and indexes

A name made of letters, digits and underscores that does not start with a digit is written as it is (`isBare`); any
other name stands between backticks, where a backtick is written after a backslash (`identifier`).
-/

namespace GraphQuery.Text

/-- An ASCII letter or an underscore. -/
def isNameStart (c : Char) : Bool := c.isAlpha || c == '_'

/-- An ASCII letter, an ASCII digit or an underscore. -/
def isNameChar (c : Char) : Bool := c.isAlphanum || c == '_'

/-- A name that needs no quotes: not empty, made of name characters, and not starting with a digit. -/
def isBare : List Char → Bool
  | [] => false
  | c :: cs => isNameStart c && cs.all isNameChar

/-- The quote of names that are not bare. -/
def backtick : Char := '\x60'

/-- A character of a quoted name: a backtick is written after a backslash, all else stands for itself. -/
def escapeBacktick (c : Char) : List Char := if c = backtick then ['\\', backtick] else [c]

/-- The written form of a name, as characters. -/
def identifierChars (name : List Char) : List Char :=
  if isBare name then name else backtick :: (name.flatMap escapeBacktick ++ [backtick])

/-- The written form of a name. -/
def identifier (name : String) : String := String.ofList (identifierChars name.toList)

end GraphQuery.Text
