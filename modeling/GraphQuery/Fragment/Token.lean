/-!
# Keywords and marks

The fixed words of the query language (`Keyword`) and its punctuation (`Mark`), each with its one written form.
-/

namespace GraphQuery

/-- A fixed word of the query language. -/
inductive Keyword
  | select | create | insert | update | delete | relate | define | info | let_ | live
  | value | from_ | where_ | fetch | limit | start | order | by_ | as_ | into | content | merge | patch
  | index | on_ | table | columns | unique | search | analyzer | bm25 | highlights | for_ | diff
deriving DecidableEq, Repr

/-- The written form of a keyword. -/
def Keyword.text : Keyword → String
  | select => "SELECT" | create => "CREATE" | insert => "INSERT" | update => "UPDATE" | delete => "DELETE"
  | relate => "RELATE" | define => "DEFINE" | info => "INFO" | let_ => "LET" | live => "LIVE"
  | value => "VALUE" | from_ => "FROM" | where_ => "WHERE" | fetch => "FETCH" | limit => "LIMIT"
  | start => "START" | order => "ORDER" | by_ => "BY" | as_ => "AS" | into => "INTO"
  | content => "CONTENT" | merge => "MERGE" | patch => "PATCH" | index => "INDEX" | on_ => "ON"
  | table => "TABLE" | columns => "COLUMNS" | unique => "UNIQUE" | search => "SEARCH" | analyzer => "ANALYZER"
  | bm25 => "BM25" | highlights => "HIGHLIGHTS" | for_ => "FOR" | diff => "DIFF"

/-- All keywords. -/
def Keyword.all : List Keyword :=
  [select, create, insert, update, delete, relate, define, info, let_, live, value, from_, where_, fetch, limit,
    start, order, by_, as_, into, content, merge, patch, index, on_, table, columns, unique, search, analyzer, bm25,
    highlights, for_, diff]

/-- The keyword with a written form. -/
def Keyword.ofText? (s : String) : Option Keyword := Keyword.all.find? fun k => k.text == s

/-- A punctuation mark of the query language. -/
inductive Mark
  | star | comma | semicolon | openParen | closeParen | dot | equals
deriving DecidableEq, Repr

/-- The written form of a mark. -/
def Mark.text : Mark → String
  | star => "*" | comma => "," | semicolon => ";" | openParen => "(" | closeParen => ")" | dot => "." | equals => "="

/-- A keyword or a mark. -/
inductive Token
  | keyword (k : Keyword)
  | mark (m : Mark)
deriving DecidableEq, Repr

end GraphQuery
