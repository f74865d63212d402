import ComponentProjects.Toml.Scalar
import ComponentProjects.Toml.Text

/-! Reading TOML documents. A reader takes what it reads off the front of the text and gives
the rest; the text's length bounds how often one reader calls another. -/
namespace ComponentProjects.Toml

/-- How deep arrays and inline tables may be nested, and how many parts a key may have. -/
def greatestDepth : Nat := 80

def isBare (c : Char) : Bool := c.isAlphanum || c = '_' || c = '-'

def skipBlanks (text : List Char) : List Char := text.dropWhile isBlank

def atLineEnd (text : List Char) : Bool := text.isEmpty || (lineEnd? text).isSome

/-- A comment, if there is one, up to the end of its line. -/
def skipComment? (text : List Char) : Option (List Char) :=
  match text with
  | '#' :: rest =>
    let rest := rest.dropWhile isPlain
    if atLineEnd rest then some rest else none
  | _ => some text

def skipLines? : Nat → List Char → Option (List Char)
  | 0, text => some text
  | fuel + 1, text => do
    let text ← skipComment? (skipBlanks text)
    match lineEnd? text with
    | some rest => skipLines? fuel rest
    | none => some text

/-- The rest of a line that has nothing more to say. -/
def finishLine? (text : List Char) : Option (List Char) := do
  let text ← skipComment? (skipBlanks text)
  if text.isEmpty then some [] else lineEnd? text

def simpleKey? (text : List Char) : Option (String × List Char) :=
  match text with
  | [] => none
  | c :: rest =>
    if c = quote ∨ c = tick then do
      if [c, c].isPrefixOf rest then none
      else
        let (key, rest) ← string? text
        return (String.ofList key, rest)
    else
      let key := text.takeWhile isBare
      if key.isEmpty then none else some (String.ofList key, text.dropWhile isBare)

/-- Keys with dots between them, at most a number of them. -/
def dotted? : Nat → List Char → Option (List String × List Char)
  | 0, _ => none
  | more + 1, text => do
    let (key, text) ← simpleKey? (skipBlanks text)
    match skipBlanks text with
    | '.' :: rest =>
      let (keys, rest) ← dotted? more rest
      return (key :: keys, rest)
    | rest => return ([key], rest)

def key? (text : List Char) : Option (List String × List Char) := dotted? greatestDepth text

def endsWord (c : Char) : Bool :=
  isBlank c || c = '\n' || c = '\r' || c = ',' || c = ']' || c = '\x7d' || c = '#'

/-- A bare word. A date takes a time behind one blank with it. -/
def word (text : List Char) : List Char × List Char :=
  let front := text.takeWhile (!endsWord ·)
  let rest := text.dropWhile (!endsWord ·)
  match date? front, rest with
  | some [], ' ' :: c :: more =>
    if c.isDigit then
      (front ++ ' ' :: (c :: more).takeWhile (!endsWord ·), (c :: more).dropWhile (!endsWord ·))
    else (front, rest)
  | _, _ => (front, rest)

mutual

def value? : Nat → Nat → List Char → Option (Toml × List Char)
  | 0, _, _ => none
  | fuel + 1, depth, text =>
    match text with
    | [] => none
    | c :: rest =>
      if c = quote ∨ c = tick then
        (string? text).map fun (value, rest) => (.string (String.ofList value), rest)
      else if c = '[' then
        match depth with
        | 0 => none
        | depth + 1 => do
          let (items, rest) ← items? fuel depth rest
          return (.array items, rest)
      else if c = '\x7b' then
        match depth with
        | 0 => none
        | depth + 1 => do
          let (grown, rest) ← members? fuel depth (.new .header) rest
          return (.table .braces grown.entries, rest)
      else
        let (front, rest) := word text
        (scalar? front).map (·, rest)

/-- The items of an array, a comma behind the last one being allowed. -/
def items? : Nat → Nat → List Char → Option (List Toml × List Char)
  | 0, _, _ => none
  | fuel + 1, depth, text => do
    match ← skipLines? text.length text with
    | ']' :: rest => return ([], rest)
    | text =>
      let (item, rest) ← value? fuel depth text
      match ← skipLines? rest.length rest with
      | ']' :: rest => return ([item], rest)
      | ',' :: rest =>
        let (items, rest) ← items? fuel depth rest
        return (item :: items, rest)
      | _ => none

/-- The entries of an inline table. A new line may begin wherever a key is not cut in two. -/
def members? : Nat → Nat → Growing → List Char → Option (Growing × List Char)
  | 0, _, _, _ => none
  | fuel + 1, depth, grown, text => do
    match ← skipLines? text.length text with
    | '\x7d' :: rest => return (grown, rest)
    | text =>
      let (keys, rest) ← key? text
      let rest ← expect? '=' (← skipLines? rest.length rest)
      let (value, rest) ← value? fuel depth (← skipLines? rest.length rest)
      let grown ← grown.added? keys.dropLast (← keys.getLast?) value
      match ← skipLines? rest.length rest with
      | '\x7d' :: rest => return (grown, rest)
      | ',' :: rest => members? fuel depth grown rest
      | _ => none

end

def header? (d : Document) (text : List Char) : Option (Document × List Char) :=
  match text with
  | '[' :: '[' :: rest => do
    let (keys, rest) ← key? rest
    let rest ← expect? ']' (← expect? ']' rest)
    return (← d.arrayHeader? keys, rest)
  | '[' :: rest => do
    let (keys, rest) ← key? rest
    return (← d.header? keys, ← expect? ']' rest)
  | _ => none

def assignment? (d : Document) (text : List Char) : Option (Document × List Char) := do
  let (keys, rest) ← key? text
  let (value, rest) ←
    value? (2 * text.length + 2) greatestDepth (skipBlanks (← expect? '=' rest))
  return (← d.assigned? keys value, rest)

def statements? : Nat → Document → List Char → Option Document
  | 0, _, _ => none
  | fuel + 1, d, text => do
    match ← skipLines? (text.length + 1) text with
    | [] => return d
    | c :: rest =>
      let (d, rest) ← if c = '[' then header? d (c :: rest) else assignment? d (c :: rest)
      statements? fuel d (← finishLine? rest)

/-- The top table of a document, which a byte order mark may come before. -/
def read? (text : List Char) : Option Growing := do
  let text := match text with
    | c :: rest => if c = '\ufeff' then rest else text
    | [] => []
  (← statements? (text.length + 1) .new text).settled?

end ComponentProjects.Toml
