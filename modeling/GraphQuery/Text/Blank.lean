/-!
# Blank characters

A character is blank when it has the Unicode property `White_Space` (`isBlank`). Texts are asked whether they start or
end with a blank (`startsBlank`, `endsBlank`), and are trimmed at both ends (`trim`).
-/

namespace GraphQuery.Text

/-- The twenty-five characters with the Unicode property `White_Space`. -/
def isBlank (c : Char) : Bool :=
  let n := c.toNat
  (9 ≤ n && n ≤ 13) || n == 0x20 || n == 0x85 || n == 0xA0 || n == 0x1680 || (0x2000 ≤ n && n ≤ 0x200A) ||
    n == 0x2028 || n == 0x2029 || n == 0x202F || n == 0x205F || n == 0x3000

/-- The first character exists and is blank. -/
def startsBlank (s : String) : Bool := s.toList.head?.any isBlank

/-- The last character exists and is blank. -/
def endsBlank (s : String) : Bool := s.toList.getLast?.any isBlank

/-- The characters between the blanks at the two ends. -/
def trimChars (s : List Char) : List Char :=
  ((s.dropWhile isBlank).reverse.dropWhile isBlank).reverse

/-- The text between the blanks at the two ends. -/
def trim (s : String) : String := String.ofList (trimChars s.toList)

/-- The maximal runs of characters that are not blank. -/
def words (s : String) : List String :=
  (s.toList.splitBy fun a b => isBlank a == isBlank b).filterMap fun run =>
    if run.any isBlank then none else some (String.ofList run)

end GraphQuery.Text
