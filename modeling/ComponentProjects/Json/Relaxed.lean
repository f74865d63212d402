import ComponentProjects.Text.Blank

/-! JSON with comments and trailing commas. What is removed is what decorates: a block comment
leaves a blank, a line comment its line end, and a comma goes when the next character
that counts closes an array or object. Strings are left as they are. -/
namespace ComponentProjects.Json.Relaxed

/-- Where in the text a character stands. -/
inductive Mode where
  | code
  | string
  | escape
  | line
  /-- Before the star that opens a block comment. -/
  | opening
  /-- In a block comment, behind a character of it. -/
  | block (last : Char)
deriving DecidableEq, Repr

/-- The first character behind blanks and comments. A line comment has to end in a line end. -/
def nextSignificant : Mode → List Char → Option Char
  | _, [] => none
  | .line, c :: rest => nextSignificant (if c = '\n' then .code else .line) rest
  | .opening, _ :: rest => nextSignificant (.block '\x00') rest
  | .block last, c :: rest =>
    nextSignificant (if last = '*' ∧ c = '/' then .code else .block c) rest
  | _, c :: rest =>
    if Text.isBlank c then nextSignificant .code rest
    else if c = '/' ∧ rest.head? = some '/' then nextSignificant .line rest
    else if c = '/' ∧ rest.head? = some '*' then nextSignificant .opening rest
    else some c

def closes (c? : Option Char) : Bool := c? = some '\x7d' || c? = some ']'

def plainFrom : Mode → List Char → List Char
  | _, [] => []
  | .string, c :: rest =>
    if c = '\\' then c :: plainFrom .escape rest
    else if c = '\x22' then c :: plainFrom .code rest
    else c :: plainFrom .string rest
  | .escape, c :: rest => c :: plainFrom .string rest
  | .line, c :: rest => if c = '\n' then c :: plainFrom .code rest else plainFrom .line rest
  | .opening, _ :: rest => plainFrom (.block '\x00') rest
  | .block last, c :: rest =>
    plainFrom (if last = '*' ∧ c = '/' then .code else .block c) rest
  | .code, c :: rest =>
    if c = '\x22' then c :: plainFrom .string rest
    else if c = '/' ∧ rest.head? = some '/' then plainFrom .line rest
    else if c = '/' ∧ rest.head? = some '*' then ' ' :: plainFrom .opening rest
    else if c = ',' ∧ closes (nextSignificant .code rest) then plainFrom .code rest
    else c :: plainFrom .code rest

/-- The text without its comments and trailing commas. -/
def plain (text : List Char) : List Char := plainFrom .code text

end ComponentProjects.Json.Relaxed
