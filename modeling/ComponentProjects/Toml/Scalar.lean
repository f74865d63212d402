import ComponentProjects.Number.Magnitude
import ComponentProjects.Toml.Value

/-! TOML booleans, numbers and moments of time, each read from the whole of a bare word. -/
namespace ComponentProjects.Toml

def digitValue (c : Char) : Nat :=
  if c.isDigit then c.toNat - '0'.toNat
  else if 'a' ≤ c ∧ c ≤ 'f' then c.toNat - 'a'.toNat + 10
  else c.toNat - 'A'.toNat + 10

def isHexDigit (c : Char) : Bool := c.isDigit || ('a' ≤ c && c ≤ 'f') || ('A' ≤ c && c ≤ 'F')
def isOctalDigit (c : Char) : Bool := '0' ≤ c && c ≤ '7'
def isBinaryDigit (c : Char) : Bool := c = '0' || c = '1'

/-- Digits with single underscores between them; the digits alone. -/
def digits? (isDigit : Char → Bool) : List Char → Option (List Char)
  | [] => none
  | [c] => if isDigit c then some [c] else none
  | c :: '_' :: rest => if isDigit c then (digits? isDigit rest).map (c :: ·) else none
  | c :: rest => if isDigit c then (digits? isDigit rest).map (c :: ·) else none

def numberOf (base : Nat) (digits : List Char) : Nat :=
  digits.foldl (fun n c => base * n + digitValue c) 0

/-- Decimal digits of a whole part, which has no needless zero in front. -/
def wholeDigits? (text : List Char) : Option (List Char) := do
  let digits ← digits? Char.isDigit text
  match digits with
  | '0' :: _ :: _ => none
  | _ => return digits

/-- Whole numbers that fit 128 bits, with a sign or without. -/
def inRange (n : Int) : Bool := -twoTo 127 ≤ n && n < twoTo 128

def unsign (text : List Char) : Bool × List Char :=
  match text with
  | '-' :: rest => (true, rest)
  | '+' :: rest => (false, rest)
  | _ => (false, text)

def integer? (text : List Char) : Option Int := do
  let n ← match text with
    | '0' :: 'x' :: rest => (digits? isHexDigit rest).map fun ds => (numberOf 16 ds : Int)
    | '0' :: 'o' :: rest => (digits? isOctalDigit rest).map fun ds => (numberOf 8 ds : Int)
    | '0' :: 'b' :: rest => (digits? isBinaryDigit rest).map fun ds => (numberOf 2 ds : Int)
    | _ =>
      let (minus, rest) := unsign text
      (wholeDigits? rest).map fun ds => if minus then -(numberOf 10 ds : Int) else numberOf 10 ds
  if inRange n then some n else none

/-- Whether the number digits * 10^exponent is small enough for a double. -/
def isFinite (digits : List Char) (exponent : Int) : Bool :=
  let n := numberOf 10 digits
  if n = 0 ∨ exponent + digits.length < -400 then true
  else if 400 < exponent then false
  else if exponent < 0 then (Magnitude.nearest? n (tenTo (-exponent).toNat)).isSome
  else (Magnitude.nearest? (n * tenTo exponent.toNat) 1).isSome

def isFraction (text : List Char) : Bool :=
  text.isEmpty || match text with
    | '.' :: rest => (digits? Char.isDigit rest).isSome
    | _ => false

def exponentValue? (text : List Char) : Option Int :=
  match text with
  | [] => some 0
  | _ :: rest =>
    let (minus, rest) := unsign rest
    (digits? Char.isDigit rest).map fun ds =>
      if minus then -(numberOf 10 ds : Int) else numberOf 10 ds

/-- A fraction or an exponent makes a float of a number. -/
def isFloat (text : List Char) : Bool :=
  let (_, text) := unsign text
  if text = "inf".toList ∨ text = "nan".toList then true
  else
    let mantissa := text.takeWhile fun c => c ≠ 'e' && c ≠ 'E'
    let exponent := text.dropWhile fun c => c ≠ 'e' && c ≠ 'E'
    let whole := mantissa.takeWhile (· ≠ '.')
    let fraction := mantissa.dropWhile (· ≠ '.')
    match wholeDigits? whole, exponentValue? exponent with
    | some digits, some value =>
      let decimals := (fraction.drop 1).filter Char.isDigit
      !(fraction.isEmpty && exponent.isEmpty) && isFraction fraction &&
        isFinite (digits ++ decimals) (value - decimals.length)
    | _, _ => false

/-- A number of so many digits at the front, and what follows it. -/
def fixed? (count : Nat) (text : List Char) : Option (Nat × List Char) :=
  let front := text.take count
  if front.length = count ∧ front.all Char.isDigit then some (numberOf 10 front, text.drop count)
  else none

def expect? (c : Char) : List Char → Option (List Char)
  | d :: rest => if c = d then some rest else none
  | [] => none

def daysIn (year month : Nat) : Nat :=
  if month = 2 then
    if year % 4 = 0 ∧ (year % 100 ≠ 0 ∨ year % 400 = 0) then 29 else 28
  else if month ∈ [4, 6, 9, 11] then 30
  else 31

def date? (text : List Char) : Option (List Char) := do
  let (year, text) ← fixed? 4 text
  let (month, text) ← fixed? 2 (← expect? '-' text)
  let (day, text) ← fixed? 2 (← expect? '-' text)
  if 1 ≤ month ∧ month ≤ 12 ∧ 1 ≤ day ∧ day ≤ daysIn year month then some text else none

def secondFraction? (text : List Char) : Option (List Char) :=
  match text with
  | '.' :: rest =>
    if (rest.takeWhile Char.isDigit).isEmpty then none else some (rest.dropWhile Char.isDigit)
  | _ => some text

/-- Hours and minutes, with seconds or without. -/
def time? (text : List Char) : Option (List Char) := do
  let (hour, text) ← fixed? 2 text
  let (minute, text) ← fixed? 2 (← expect? ':' text)
  if 23 < hour ∨ 59 < minute then none
  else
    match text with
    | ':' :: rest =>
      let (second, rest) ← fixed? 2 rest
      if 60 < second then none else secondFraction? rest
    | _ => some text

def isOffset (text : List Char) : Bool :=
  match text with
  | [] | ['Z'] | ['z'] => true
  | sign :: rest =>
    (sign = '+' || sign = '-') && match fixed? 2 rest with
      | some (hour, ':' :: rest) =>
        match fixed? 2 rest with
        | some (minute, []) => hour ≤ 23 && minute ≤ 59
        | _ => false
      | _ => false

/-- A date, a time, or both with an offset or without. -/
def isMoment (text : List Char) : Bool :=
  match date? text with
  | some [] => true
  | some (c :: rest) =>
    (c = 'T' || c = 't' || c = ' ') && (time? rest).any isOffset
  | none => time? text = some []

def scalar? (text : List Char) : Option Toml :=
  if text = "true".toList then some (.boolean true)
  else if text = "false".toList then some (.boolean false)
  else match integer? text with
    | some n => some (.integer n)
    | none => if isMoment text then some .moment else if isFloat text then some .float else none

end ComponentProjects.Toml
