import ComponentProjects.Json.Token
import ComponentProjects.Number.Shortest

/-! The values of JSON numbers. A numeral without fraction and exponent is a whole number
while it fits 64 bits; any other is a double. Its digits are gathered while they
fit 64 bits, and a power of ten is applied to them in double precision. -/
namespace ComponentProjects.Json

inductive Number where
  | integer (value : Int)
  | double (negative : Bool) (magnitude : Magnitude)
deriving DecidableEq, Repr

namespace Number

def greatestWord : Nat := twoTo 64 - 1

/-- The digits behind those gathered so far, up to the first one that does not fit, and
the digits left over. -/
def gather (significand : Nat) : List Nat → Nat × List Nat
  | [] => (significand, [])
  | d :: rest =>
    if 10 * significand + d ≤ greatestWord then gather (10 * significand + d) rest
    else (significand, d :: rest)

/-- The greatest power of ten that is applied at once. -/
def greatestPower : Nat := 308

def powerOfTen? (exponent : Nat) : Option Magnitude := Magnitude.ofNat? (tenTo exponent)

/-- The magnitude times a power of ten, the divisions by large powers done in turns. -/
def scaled? : Nat → Magnitude → Int → Option Magnitude
  | 0, m, _ => some m
  | turns + 1, m, exponent =>
    if exponent.natAbs ≤ greatestPower then do
      let power ← powerOfTen? exponent.natAbs
      if 0 ≤ exponent then m.mul? power else m.div? power
    else if m.significand = 0 then some m
    else if 0 ≤ exponent then none
    else do scaled? turns (← m.div? (← powerOfTen? greatestPower)) (exponent + greatestPower)

/-- A significand of 64 bits is zero after three divisions by the greatest power. -/
def divisions : Nat := 4

def double? (negative : Bool) (significand : Nat) (exponent : Int) : Option Number := do
  return .double negative (← scaled? divisions (← Magnitude.ofNat? significand) exponent)

def greatestExponent : Nat := twoTo 31 - 1

/-- Apply a written exponent; one that is too large makes zero of a zero, and of anything
when it is negative. -/
def withExponent? (n : Numeral) (significand : Nat) (exponent : Int) : Option Number :=
  match n.exponent? with
  | none => double? n.negative significand exponent
  | some (minus, digits) =>
    let written := digits.foldl (fun n d => 10 * n + d) 0
    if greatestExponent < written then
      if significand ≠ 0 ∧ !minus then none else some (.double n.negative .zero)
    else double? n.negative significand (if minus then exponent - written else exponent + written)

/-- The value of a numeral; nothing when it is out of range. -/
def ofNumeral? (n : Numeral) : Option Number :=
  let (significand, dropped) := gather 0 n.whole
  if n.fraction.isEmpty ∧ n.exponent?.isNone ∧ dropped.isEmpty then
    if !n.negative then some (.integer significand)
    else if 1 ≤ significand ∧ significand ≤ twoTo 63 then some (.integer (-significand))
    else double? true significand 0
  else
    let (significand, ignored) := gather significand n.fraction
    let taken := n.fraction.length - ignored.length
    withExponent? n significand (dropped.length - taken : Int)

/-- Doubles are positional from a hundred-thousandth up to sixteen digits. -/
def format : DecimalFormat := ⟨-5, 16⟩

def doubleText (negative : Bool) (magnitude : Magnitude) : List Char :=
  let text := magnitude.shortest.text format
  if negative then '-' :: text else text

def text : Number → List Char
  | .integer value => (toString value).toList
  | .double negative magnitude => doubleText negative magnitude

end Number

end ComponentProjects.Json
