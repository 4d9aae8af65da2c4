import GraphQuery.Fragment

/-!
# Functions of the query language

Calls of the built-in functions, by module of the language, and the few clauses that are used like functions.
-/

namespace GraphQuery.Functions

/-- The call of a function with its arguments in order. -/
def call (function : String) (arguments : List Fragment) : Fragment :=
  Fragment.call function (Fragment.commas arguments)

/-- The number of values. -/
def count (f : Fragment) : Fragment := Fragment.call "count" f

/-- A field as a plain value. -/
def value (f : Fragment) : Fragment := .keyword .value :: f

/-- At most so many records. -/
def limit (n : Nat) : Fragment := [.keyword .limit, .number n]

/-- Records from this one on. -/
def start (n : Nat) : Fragment := [.keyword .start, .number n]

/-- A text that stands for itself. -/
def verbatim (text : String) : Fragment := Fragment.raw text

/-! ## Arrays -/

namespace Array

/-- The functions of one array. -/
inductive Unary
  | len | distinct | flatten | first | last | group | sort
deriving DecidableEq, Repr

/-- The name of a function of one array. -/
def Unary.text : Unary → String
  | len => "array::len" | distinct => "array::distinct" | flatten => "array::flatten" | first => "array::first"
  | last => "array::last" | group => "array::group" | sort => "array::sort"

/-- All functions of one array. -/
def Unary.all : List Unary := [.len, .distinct, .flatten, .first, .last, .group, .sort]

/-- The call of a function of one array. -/
def unary (u : Unary) (a : Fragment) : Fragment := call u.text [a]

/-- The array with one more value. -/
def append (a v : Fragment) : Fragment := call "array::append" [a, v]

/-- The values of two arrays. -/
def union (a b : Fragment) : Fragment := call "array::union" [a, b]

end Array

/-! ## Numbers -/

namespace Math

/-- The functions of one number or array of numbers. -/
inductive Unary
  | abs | ceil | floor | max | mean | median | min | round | sqrt | sum
deriving DecidableEq, Repr

/-- The name of a function of one number. -/
def Unary.text : Unary → String
  | abs => "math::abs" | ceil => "math::ceil" | floor => "math::floor" | max => "math::max" | mean => "math::mean"
  | median => "math::median" | min => "math::min" | round => "math::round" | sqrt => "math::sqrt" | sum => "math::sum"

/-- All functions of one number. -/
def Unary.all : List Unary := [.abs, .ceil, .floor, .max, .mean, .median, .min, .round, .sqrt, .sum]

/-- The call of a function of one number. -/
def unary (u : Unary) (a : Fragment) : Fragment := call u.text [a]

/-- A number with so many decimal places. -/
def fixed (a : Fragment) (places : Nat) : Fragment := call "math::fixed" [a, Fragment.number places]

end Math

/-! ## Records -/

namespace Meta

/-- The key of a record. -/
def id (r : Fragment) : Fragment := call "meta::id" [r]

/-- The table of a record. -/
def tb (r : Fragment) : Fragment := call "meta::tb" [r]

end Meta

/-! ## Random values -/

namespace Rand

/-- A random number. -/
def rand : Fragment := call "rand" []

/-- A random identifier. -/
def uuid : Fragment := call "rand::uuid" []

/-- A random integer between two others. -/
def int (least greatest : Int) : Fragment :=
  call "rand::int" [Fragment.value (.int least), Fragment.value (.int greatest)]

end Rand

/-! ## Strings -/

namespace Text

/-- The functions of one string. -/
inductive Unary
  | len | lowercase | reverse | slug | trim | uppercase | words
deriving DecidableEq, Repr

/-- The name of a function of one string. -/
def Unary.text : Unary → String
  | len => "string::len" | lowercase => "string::lowercase" | reverse => "string::reverse" | slug => "string::slug"
  | trim => "string::trim" | uppercase => "string::uppercase" | words => "string::words"

/-- All functions of one string. -/
def Unary.all : List Unary := [.len, .lowercase, .reverse, .slug, .trim, .uppercase, .words]

/-- The call of a function of one string. -/
def unary (u : Unary) (s : Fragment) : Fragment := call u.text [s]

/-- The kinds of strings that can be asked for. -/
inductive Kind
  | alphanum | alpha | ascii | domain | email | hexadecimal | latitude | longitude | numeric | semver | url | uuid
deriving DecidableEq, Repr

/-- The name of a kind of strings. -/
def Kind.text : Kind → String
  | alphanum => "alphanum" | alpha => "alpha" | ascii => "ascii" | domain => "domain" | email => "email"
  | hexadecimal => "hexadecimal" | latitude => "latitude" | longitude => "longitude" | numeric => "numeric"
  | semver => "semver" | url => "url" | uuid => "uuid"

/-- All kinds of strings. -/
def Kind.all : List Kind :=
  [.alphanum, .alpha, .ascii, .domain, .email, .hexadecimal, .latitude, .longitude, .numeric, .semver, .url, .uuid]

/-- Is the string of a kind? -/
def is (k : Kind) (s : Fragment) : Fragment := call ("string::is::" ++ k.text) [s]

/-- Is the string a date and time of some format? -/
def isDatetime (s format : Fragment) : Fragment := call "string::is::datetime" [s, format]

/-- The strings set next to each other. -/
def concat (ss : List Fragment) : Fragment := call "string::concat" ss

/-- Does the string contain another? -/
def contains (s part : Fragment) : Fragment := call "string::contains" [s, part]

/-- Does the string end with another? -/
def endsWith (s part : Fragment) : Fragment := call "string::endsWith" [s, part]

/-- Does the string start with another? -/
def startsWith (s part : Fragment) : Fragment := call "string::startsWith" [s, part]

/-- The strings with a delimiter between them. -/
def join (delimiter : Fragment) (ss : List Fragment) : Fragment := call "string::join" (delimiter :: ss)

/-- The string repeated so many times. -/
def repeated (s : Fragment) (times : Nat) : Fragment := call "string::repeat" [s, Fragment.number times]

/-- The string with one string replaced by another. -/
def replace (s old new : Fragment) : Fragment := call "string::replace" [s, old, new]

/-- So many characters of the string from a place on. -/
def slice (s : Fragment) (start : Int) (len : Nat) : Fragment :=
  call "string::slice" [s, Fragment.value (.int start), Fragment.number len]

/-- The parts of the string between delimiters. -/
def split (s delimiter : Fragment) : Fragment := call "string::split" [s, delimiter]

end Text

/-! ## Time -/

namespace Time

/-- The present time. -/
def now : Fragment := call "time::now" []

/-- A time rounded down to a duration. -/
def floor (t : Fragment) (duration : String) : Fragment := call "time::floor" [t, Fragment.raw duration]

/-- A time written in some format. -/
def format (t format : Fragment) : Fragment := call "time::format" [t, format]

/-- A time as seconds. -/
def unix (t : Fragment) : Fragment := call "time::unix" [t]

end Time

end GraphQuery.Functions
