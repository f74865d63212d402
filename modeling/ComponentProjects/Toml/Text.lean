/-! TOML strings: basic and literal ones, on one line and on several. Each reader begins
behind the opening quotes and gives what follows the closing ones. -/
namespace ComponentProjects.Toml

def quote : Char := '\x22'
def tick : Char := '\x27'

/-- Control characters may not stand in a document, the tab apart. -/
def isPlain (c : Char) : Bool := c = '\t' || (' ' ≤ c && c ≠ '\x7f')

def isBlank (c : Char) : Bool := c = ' ' || c = '\t'

def hexDigit? (c : Char) : Option Nat :=
  if '0' ≤ c ∧ c ≤ '9' then some (c.toNat - '0'.toNat)
  else if 'a' ≤ c ∧ c ≤ 'f' then some (c.toNat - 'a'.toNat + 10)
  else if 'A' ≤ c ∧ c ≤ 'F' then some (c.toNat - 'A'.toNat + 10)
  else none

/-- The character that some hexadecimal digits number, if there is one. -/
def numbered? (digits : List Char) : Option Char := do
  let n ← digits.foldlM (fun n c => (hexDigit? c).map fun d => 16 * n + d) 0
  if n.isValidChar then some (.ofNat n) else none

def escaped? (c : Char) : Option Char :=
  if c = 'b' then some '\x08'
  else if c = 't' then some '\t'
  else if c = 'n' then some '\n'
  else if c = 'f' then some '\x0c'
  else if c = 'r' then some '\r'
  else if c = 'e' then some '\x1b'
  else if c = quote ∨ c = '\\' then some c
  else none

/-- The escapes of a number, by how many digits it has. -/
def escapeDigits? (c : Char) : Option Nat :=
  if c = 'x' then some 2 else if c = 'u' then some 4 else if c = 'U' then some 8 else none

/-- An escape behind its backslash, and what follows it. -/
def escape? : List Char → Option (Char × List Char)
  | [] => none
  | c :: rest =>
    match escapeDigits? c with
    | some count =>
      if count ≤ rest.length then (numbered? (rest.take count)).map (·, rest.drop count) else none
    | none => (escaped? c).map (·, rest)

/-- A line end at the front of a text, and what follows it. -/
def lineEnd? : List Char → Option (List Char)
  | '\n' :: rest => some rest
  | '\r' :: '\n' :: rest => some rest
  | _ => none

def literal? : List Char → Option (List Char × List Char)
  | [] => none
  | c :: rest =>
    if c = tick then some ([], rest)
    else if isPlain c then (literal? rest).map fun (text, rest) => (c :: text, rest)
    else none

def basic? : Nat → List Char → Option (List Char × List Char)
  | 0, _ | _, [] => none
  | fuel + 1, c :: rest =>
    if c = quote then some ([], rest)
    else if c = '\\' then do
      let (e, rest) ← escape? rest
      (basic? fuel rest).map fun (text, rest) => (e :: text, rest)
    else if isPlain c then (basic? fuel rest).map fun (text, rest) => (c :: text, rest)
    else none

/-- Quotes that close a text of several lines: three of them, of which up to two more in
front belong to the text. -/
def closing? (mark : Char) (text : List Char) : Option (List Char × List Char) :=
  let count := min 5 (text.takeWhile (· = mark)).length
  if 3 ≤ count then some (List.replicate (count - 3) mark, text.drop count) else none

/-- Leave out the blanks and the whole line ends at the front. -/
def skipFolds : List Char → List Char
  | [] => []
  | '\r' :: '\n' :: rest => skipFolds rest
  | c :: rest => if isBlank c || c = '\n' then skipFolds rest else c :: rest

/-- What goes on behind a backslash that ends a line, on the next line with anything on it. -/
def folded? (text : List Char) : Option (List Char) :=
  (lineEnd? (text.dropWhile isBlank)).map skipFolds

/-- A character of a text of several lines that stands for itself. -/
def linesChar? : List Char → Option (List Char × List Char)
  | [] => none
  | '\r' :: '\n' :: rest => some (['\r', '\n'], rest)
  | c :: rest => if c = '\n' ∨ isPlain c then some ([c], rest) else none

def basicLines? : Nat → List Char → Option (List Char × List Char)
  | 0, _ | _, [] => none
  | fuel + 1, c :: rest =>
    match closing? quote (c :: rest) with
    | some closed => some closed
    | none =>
      if c = '\\' then
        match folded? rest with
        | some rest => basicLines? fuel rest
        | none => do
          let (e, rest) ← escape? rest
          (basicLines? fuel rest).map fun (text, rest) => (e :: text, rest)
      else do
        let (front, rest) ← linesChar? (c :: rest)
        (basicLines? fuel rest).map fun (text, rest) => (front ++ text, rest)

def literalLines? : Nat → List Char → Option (List Char × List Char)
  | 0, _ | _, [] => none
  | fuel + 1, c :: rest =>
    match closing? tick (c :: rest) with
    | some closed => some closed
    | none => do
      let (front, rest) ← linesChar? (c :: rest)
      (literalLines? fuel rest).map fun (text, rest) => (front ++ text, rest)

/-- A line end right behind the opening quotes does not count. -/
def withoutFirstLineEnd (text : List Char) : List Char := (lineEnd? text).getD text

def string? (text : List Char) : Option (List Char × List Char) :=
  let fuel := text.length + 1
  if [quote, quote, quote].isPrefixOf text then
    basicLines? fuel (withoutFirstLineEnd (text.drop 3))
  else if [tick, tick, tick].isPrefixOf text then
    literalLines? fuel (withoutFirstLineEnd (text.drop 3))
  else
    match text with
    | c :: rest => if c = quote then basic? fuel rest else if c = tick then literal? rest else none
    | [] => none

end ComponentProjects.Toml
