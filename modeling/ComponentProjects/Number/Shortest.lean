import ComponentProjects.Number.Magnitude

/-! The shortest decimal of a magnitude: the fewest digits that still round to it,
and of those the nearest. -/
namespace ComponentProjects

/-- The number digits * 10^exponent. -/
structure Decimal where
  digits : Nat
  exponent : Int
deriving DecidableEq, Repr

namespace Decimal

def digitText (n : Nat) : List Char := Nat.toDigits 10 n

/-- The decimal exponent of the leading digit. -/
def leadingExponent (d : Decimal) : Int := (digitText d.digits).length - 1 + d.exponent

def stripped : Nat → Decimal → Decimal
  | 0, d => d
  | fuel + 1, d =>
    if d.digits ≠ 0 ∧ d.digits % 10 = 0 then stripped fuel ⟨d.digits / 10, d.exponent + 1⟩ else d

/-- The same number without closing zeros. -/
def withoutClosingZeros (d : Decimal) : Decimal := stripped (digitText d.digits).length d

end Decimal

namespace Magnitude

/-- The ends of the interval of reals that round to a positive magnitude, and the
magnitude itself, all over one denominator. The gap below a power of two is half as
wide as the one above it. -/
structure Neighbourhood where
  low : Nat
  value : Nat
  high : Nat
  den : Nat
  closed : Bool

def neighbourhood (m : Magnitude) : Neighbourhood :=
  let (num, den) := (⟨1, m.exponent⟩ : Magnitude).fraction
  let edge := m.significand = twoTo (precision - 1) ∧ leastExponent < m.exponent
  { low := (4 * m.significand - if edge then 1 else 2) * num
    value := 4 * m.significand * num
    high := (4 * m.significand + 2) * num
    den := 4 * den
    closed := m.significand % 2 = 0 }

/-- Whether a decimal rounds to the magnitude of the neighbourhood. -/
def Neighbourhood.holds (n : Neighbourhood) (d : Decimal) : Bool :=
  let (up, down) := if d.exponent < 0 then (1, tenTo (-d.exponent).toNat)
    else (tenTo d.exponent.toNat, 1)
  let point := d.digits * up * n.den
  if n.closed then n.low * down ≤ point ∧ point ≤ n.high * down
  else n.low * down < point ∧ point < n.high * down

/-- The exponent of the greatest power of ten that a positive quotient reaches. -/
def decimalExponent (num den : Nat) : Int :=
  let guess : Int := (Decimal.digitText num).length - (Decimal.digitText den).length
  let reached :=
    if guess < 0 then den ≤ num * tenTo (-guess).toNat else den * tenTo guess.toNat ≤ num
  if reached then guess else guess - 1

/-- The nearest of the grid points next to the value that round to it. -/
def Neighbourhood.onGrid? (n : Neighbourhood) (exponent : Int) : Option Decimal :=
  let (num, den) :=
    if exponent < 0 then (n.value * tenTo (-exponent).toNat, n.den)
    else (n.value, n.den * tenTo exponent.toNat)
  let below := num / den
  let nearer := roundedQuotient num den
  let farther := if nearer = below then below + 1 else below
  if n.holds ⟨nearer, exponent⟩ then some ⟨nearer, exponent⟩
  else if n.holds ⟨farther, exponent⟩ then some ⟨farther, exponent⟩
  else none

/-- Seventeen digits are enough for every magnitude. -/
def digitCounts : List Nat := (List.range 17).map (· + 1)

def shortest (m : Magnitude) : Decimal :=
  if m.significand = 0 then ⟨0, 0⟩
  else
    let n := m.neighbourhood
    let top := decimalExponent n.value n.den
    let found := digitCounts.findSome? fun (count : Nat) => n.onGrid? (top + 1 - count)
    (found.getD ⟨0, 0⟩).withoutClosingZeros

end Magnitude

/-- How decimals are written: positionally, always with a point, while the leading digit's
exponent is in the range, else with one digit ahead of the point and a signed exponent. -/
structure DecimalFormat where
  leastPositional : Int
  beyondPositional : Int

def Decimal.text (format : DecimalFormat) (d : Decimal) : List Char :=
  let digits := Decimal.digitText d.digits
  let lead := d.leadingExponent
  if format.leastPositional ≤ lead ∧ lead < format.beyondPositional then
    if lead < 0 then '0' :: '.' :: (List.replicate (-lead - 1).toNat '0' ++ digits)
    else
      let whole := digits.take (lead + 1).toNat
      let part := digits.drop (lead + 1).toNat
      let padded := whole ++ List.replicate ((lead + 1).toNat - digits.length) '0'
      padded ++ '.' :: (if part.isEmpty then ['0'] else part)
  else
    let sign := if lead < 0 then '-' else '+'
    let front := match digits with
      | [] => []
      | [d] => [d]
      | d :: rest => d :: '.' :: rest
    front ++ 'e' :: sign :: Decimal.digitText lead.natAbs

end ComponentProjects
