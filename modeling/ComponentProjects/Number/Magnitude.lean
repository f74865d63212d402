import ComponentProjects.Number.Power

/-! Finite magnitudes of double precision, in exact arithmetic: a whole number below
2^53 times a power of two. Every operation rounds once, to the nearest magnitude and
from a tie to the even one, and yields nothing when the result is too large. -/
namespace ComponentProjects

structure Magnitude where
  significand : Nat
  exponent : Int
deriving DecidableEq, Repr

namespace Magnitude

def precision : Nat := 53
def leastExponent : Int := -1074
def greatestExponent : Int := 971

def zero : Magnitude := ⟨0, leastExponent⟩

/-- The quotient rounded to the nearest whole number, a tie to the even one. -/
def roundedQuotient (num den : Nat) : Nat :=
  let whole := num / den
  let rest := 2 * (num % den)
  if rest < den then whole
  else if den < rest then whole + 1
  else whole + whole % 2

/-- The quotient divided by a power of two, as a fraction. -/
def scaled (num den : Nat) (exponent : Int) : Nat × Nat :=
  if exponent < 0 then (num * twoTo (-exponent).toNat, den)
  else (num, den * twoTo exponent.toNat)

/-- The exponent of the greatest power of two that a positive quotient reaches. -/
def leadingExponent (num den : Nat) : Int :=
  let guess : Int := num.log2 - den.log2
  let part := scaled num den guess
  if part.1 < part.2 then guess - 1 else guess

/-- The magnitude nearest to a quotient. -/
def nearest? (num den : Nat) : Option Magnitude :=
  if num = 0 then some zero
  else
    let exponent := max (leadingExponent num den - (precision - 1)) leastExponent
    let part := scaled num den exponent
    let significand := roundedQuotient part.1 part.2
    let rounded : Magnitude :=
      if significand = twoTo precision then ⟨twoTo (precision - 1), exponent + 1⟩
      else ⟨significand, exponent⟩
    if greatestExponent < rounded.exponent then none else some rounded

/-- The exact value as a fraction. -/
def fraction (m : Magnitude) : Nat × Nat :=
  if m.exponent < 0 then (m.significand, twoTo (-m.exponent).toNat)
  else (m.significand * twoTo m.exponent.toNat, 1)

def ofNat? (n : Nat) : Option Magnitude := nearest? n 1

def mul? (a b : Magnitude) : Option Magnitude :=
  nearest? (a.fraction.1 * b.fraction.1) (a.fraction.2 * b.fraction.2)

def div? (a b : Magnitude) : Option Magnitude :=
  nearest? (a.fraction.1 * b.fraction.2) (a.fraction.2 * b.fraction.1)

end Magnitude

end ComponentProjects
