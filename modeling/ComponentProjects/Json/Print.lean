import ComponentProjects.Json.Value

/-! JSON text of values, on one line and spread over lines. -/
namespace ComponentProjects.Json

def hexDigits : List Char := "0123456789abcdef".toList

def hexDigit (n : Nat) : Char := hexDigits.getD n '0'

/-- A quote, a backslash and the control characters are escaped, and nothing else. -/
def escaped (c : Char) : List Char :=
  if c = '\x22' ∨ c = '\\' then ['\\', c]
  else if c = '\n' then ['\\', 'n']
  else if c = '\r' then ['\\', 'r']
  else if c = '\t' then ['\\', 't']
  else if c = '\x08' then ['\\', 'b']
  else if c = '\x0c' then ['\\', 'f']
  else if c < ' ' then
    ['\\', 'u', '0', '0', hexDigit (c.toNat / 16), hexDigit (c.toNat % 16)]
  else [c]

def quoted (s : String) : List Char := '\x22' :: (s.toList.flatMap escaped ++ ['\x22'])

def boolText (value : Bool) : List Char := (if value then "true" else "false").toList

mutual

def compact : Json → List Char
  | .null => "null".toList
  | .bool value => boolText value
  | .number value => value.text
  | .string value => quoted value
  | .array items => '[' :: (compactItems items ++ [']'])
  | .object members => '\x7b' :: (compactMembers members ++ ['\x7d'])

def compactItems : List Json → List Char
  | [] => []
  | [item] => compact item
  | item :: rest => compact item ++ ',' :: compactItems rest

def compactMembers : List (String × Json) → List Char
  | [] => []
  | [(key, value)] => quoted key ++ ':' :: compact value
  | (key, value) :: rest => quoted key ++ ':' :: (compact value ++ ',' :: compactMembers rest)

end

/-- The start of a line at a depth, two blanks a level. -/
def lineStart (depth : Nat) : List Char := '\n' :: List.replicate (2 * depth) ' '

mutual

def pretty (depth : Nat) : Json → List Char
  | .null => "null".toList
  | .bool value => boolText value
  | .number value => value.text
  | .string value => quoted value
  | .array [] => ['[', ']']
  | .array (item :: items) =>
    '[' :: (prettyItems (depth + 1) (item :: items) ++ (lineStart depth ++ [']']))
  | .object [] => ['\x7b', '\x7d']
  | .object (member :: members) =>
    '\x7b' :: (prettyMembers (depth + 1) (member :: members) ++ (lineStart depth ++ ['\x7d']))

def prettyItems (depth : Nat) : List Json → List Char
  | [] => []
  | [item] => lineStart depth ++ pretty depth item
  | item :: rest => lineStart depth ++ (pretty depth item ++ ',' :: prettyItems depth rest)

def prettyMembers (depth : Nat) : List (String × Json) → List Char
  | [] => []
  | [(key, value)] => lineStart depth ++ (quoted key ++ ':' :: ' ' :: pretty depth value)
  | (key, value) :: rest =>
    lineStart depth ++
      (quoted key ++ ':' :: ' ' :: (pretty depth value ++ ',' :: prettyMembers depth rest))

end

end ComponentProjects.Json
