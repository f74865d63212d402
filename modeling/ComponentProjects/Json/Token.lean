/-! The tokens of JSON text. The scanner is one fold over the characters, so scanning a
text in two parts is scanning it in one. Strings keep their unicode escapes as units and
numbers their digits, since whether they stand for anything is asked only of values
that are kept. -/
namespace ComponentProjects.Json

/-- What a string holds: characters, and units of four hexadecimal digits. -/
inductive TextPart where
  | char (c : Char)
  | unit (value : Nat)
deriving DecidableEq, Repr

structure Numeral where
  negative : Bool
  whole : List Nat
  fraction : List Nat
  /-- The sign and the digits of an exponent; a minus sign is true. -/
  exponent? : Option (Bool × List Nat)
deriving DecidableEq, Repr

inductive Token where
  | openObject
  | closeObject
  | openArray
  | closeArray
  | colon
  | comma
  | null
  | bool (value : Bool)
  | number (numeral : Numeral)
  | text (parts : List TextPart)
deriving DecidableEq, Repr

namespace Numeral

def digitsOf (text : List Char) : List Nat := text.map fun c => c.toNat - '0'.toNat

/-- The digits at the front of a text, at least one, and what follows them. -/
def digits? (text : List Char) : Option (List Nat × List Char) :=
  match text.takeWhile Char.isDigit with
  | [] => none
  | front => some (digitsOf front, text.dropWhile Char.isDigit)

def whole? (text : List Char) : Option (List Nat × List Char) :=
  match text with
  | '0' :: rest => some ([0], rest)
  | _ => digits? text

def fraction? (text : List Char) : Option (List Nat × List Char) :=
  match text with
  | '.' :: rest => digits? rest
  | _ => some ([], text)

def signedExponent? (text : List Char) : Option ((Bool × List Nat) × List Char) :=
  match text with
  | '-' :: rest => (digits? rest).map fun (ds, rest) => ((true, ds), rest)
  | '+' :: rest => (digits? rest).map fun (ds, rest) => ((false, ds), rest)
  | _ => (digits? text).map fun (ds, rest) => ((false, ds), rest)

def exponentPart? (text : List Char) : Option (Option (Bool × List Nat) × List Char) :=
  match text with
  | 'e' :: rest | 'E' :: rest => (signedExponent? rest).map fun (e, rest) => (some e, rest)
  | _ => some (none, text)

/-- A minus sign, a whole part without a needless zero, a fraction and an exponent. -/
def ofText? (text : List Char) : Option Numeral := do
  let (negative, text) := match text with
    | '-' :: rest => (true, rest)
    | _ => (false, text)
  let (whole, text) ← whole? text
  let (fraction, text) ← fraction? text
  let (exponent?, text) ← exponentPart? text
  if text.isEmpty then some ⟨negative, whole, fraction, exponent?⟩ else none

end Numeral

/-- The token that is being read. Its characters are kept latest first. -/
inductive Pending where
  | none
  | word (letters : List Char)
  | numeral (marks : List Char)
  | text (parts : List TextPart)
  | escape (parts : List TextPart)
  | hex (parts : List TextPart) (digits : List Nat)
deriving DecidableEq, Repr

structure Scan where
  tokens : List Token
  pending : Pending
deriving DecidableEq, Repr

namespace Scan

def start : Scan := ⟨[], .none⟩

def isBlank (c : Char) : Bool := c = ' ' || c = '\n' || c = '\t' || c = '\r'

def wordToken? (letters : List Char) : Option Token :=
  if letters = "null".toList then some .null
  else if letters = "true".toList then some (.bool true)
  else if letters = "false".toList then some (.bool false)
  else none

def punctuation? (c : Char) : Option Token :=
  if c = '\x7b' then some .openObject
  else if c = '\x7d' then some .closeObject
  else if c = '[' then some .openArray
  else if c = ']' then some .closeArray
  else if c = ':' then some .colon
  else if c = ',' then some .comma
  else none

/-- A character where no token is being read. -/
def begin? (tokens : List Token) (c : Char) : Option Scan :=
  if isBlank c then some ⟨tokens, .none⟩
  else if c = '\x22' then some ⟨tokens, .text []⟩
  else if c = '-' ∨ c.isDigit then some ⟨tokens, .numeral [c]⟩
  else if c.isAlpha then some ⟨tokens, .word [c]⟩
  else (punctuation? c).map fun token => ⟨token :: tokens, .none⟩

/-- The scan with a word or number that ends here. -/
def settled? (s : Scan) : Option (List Token) :=
  match s.pending with
  | .none => some s.tokens
  | .word letters => (wordToken? letters.reverse).map (· :: s.tokens)
  | .numeral marks => (Numeral.ofText? marks.reverse).map fun n => .number n :: s.tokens
  | _ => none

def isNumeralMark (c : Char) : Bool :=
  c.isDigit || c = '.' || c = '-' || c = '+' || c = 'e' || c = 'E'

def escaped? (c : Char) : Option Char :=
  if c = '\x22' ∨ c = '\\' ∨ c = '/' then some c
  else if c = 'b' then some '\x08'
  else if c = 'f' then some '\x0c'
  else if c = 'n' then some '\n'
  else if c = 'r' then some '\r'
  else if c = 't' then some '\t'
  else none

def hexDigit? (c : Char) : Option Nat :=
  if '0' ≤ c ∧ c ≤ '9' then some (c.toNat - '0'.toNat)
  else if 'a' ≤ c ∧ c ≤ 'f' then some (c.toNat - 'a'.toNat + 10)
  else if 'A' ≤ c ∧ c ≤ 'F' then some (c.toNat - 'A'.toNat + 10)
  else none

def hexValue (digits : List Nat) : Nat := digits.foldl (fun n d => 16 * n + d) 0

def step? (s : Scan) (c : Char) : Option Scan :=
  match s.pending with
  | .text parts =>
    if c = '\x22' then some ⟨.text parts.reverse :: s.tokens, .none⟩
    else if c = '\\' then some ⟨s.tokens, .escape parts⟩
    else if c < ' ' then none
    else some ⟨s.tokens, .text (.char c :: parts)⟩
  | .escape parts =>
    if c = 'u' then some ⟨s.tokens, .hex parts []⟩
    else (escaped? c).map fun e => ⟨s.tokens, .text (.char e :: parts)⟩
  | .hex parts digits => do
    let digits := digits ++ [← hexDigit? c]
    if digits.length = 4 then some ⟨s.tokens, .text (.unit (hexValue digits) :: parts)⟩
    else some ⟨s.tokens, .hex parts digits⟩
  | .word letters =>
    if c.isAlpha then some ⟨s.tokens, .word (c :: letters)⟩
    else do begin? (← s.settled?) c
  | .numeral marks =>
    if isNumeralMark c then some ⟨s.tokens, .numeral (c :: marks)⟩
    else do begin? (← s.settled?) c
  | .none => begin? s.tokens c

end Scan

/-- The tokens of a text; nothing when it has characters that belong to no token. -/
def tokens? (text : List Char) : Option (List Token) := do
  let s ← text.foldlM Scan.step? Scan.start
  return (← s.settled?).reverse

end ComponentProjects.Json
