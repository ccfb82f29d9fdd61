/-!
# Single precision numbers

The binary interchange format with a significand of 24 bits and an exponent of
8 bits. A finite number is a sign and a whole number of *units*, one unit being
the smallest positive number of the format, 2^-149. Every finite number is such
a multiple, so products and quotients are exact ratios of natural numbers until
`Single.round` chooses the nearest number of the format.
-/
namespace FrameGraph

inductive Single where
  | nan
  | infinite (negative : Bool)
  | finite (negative : Bool) (units : Nat)
deriving DecidableEq, Repr

namespace Single

def unitsPerOne : Nat := Nat.pow 2 149

/-- The least magnitude, in units, that the exponent field cannot express. -/
def overflow : Nat := Nat.pow 2 277

/-- The quotient `num / den` as a whole number, to the nearest and from the
middle to the even neighbour. -/
def nearestEven (num den : Nat) : Nat :=
  let quotient := num / den
  let twice := 2 * (num % den)
  if twice < den then quotient
  else if den < twice then quotient + 1
  else quotient + quotient % 2

def spacing (units : Nat) : Nat :=
  if units < Nat.pow 2 24 then 1 else Nat.pow 2 (units.log2 - 23)

/-- The nearest multiple of the spacing to the magnitude `num / den`, were the
exponent unbounded. -/
def roundUnits (num den : Nat) : Nat :=
  let step := spacing (num / den)
  nearestEven num (den * step) * step

/-- The number of the format nearest to the ratio `num / den` of units; from
half a step below the first inexpressible magnitude on, infinity. -/
def round (negative : Bool) (num den : Nat) : Single :=
  let units := roundUnits num den
  if units < overflow then .finite negative units else .infinite negative

/-- The number whose interchange encoding is given: sign bit, eight bits of
exponent, 23 bits of fraction. -/
def ofBits (bits : Nat) : Single :=
  let negative := bits / Nat.pow 2 31 % 2 == 1
  let exponent := bits / Nat.pow 2 23 % Nat.pow 2 8
  let fraction := bits % Nat.pow 2 23
  if exponent = Nat.pow 2 8 - 1 then
    if fraction = 0 then .infinite negative else .nan
  else if exponent = 0 then .finite negative fraction
  else .finite negative ((Nat.pow 2 23 + fraction) * Nat.pow 2 (exponent - 1))

def one : Single := .finite false unitsPerOne

def ofNat (n : Nat) : Single := round false (n * unitsPerOne) 1

def reciprocal : Single → Single
  | .nan => .nan
  | .infinite s => .finite s 0
  | .finite s units =>
      if units = 0 then .infinite s else round s (unitsPerOne * unitsPerOne) units

/-- The product. Zero times infinity is not a number. -/
def mul : Single → Single → Single
  | .nan, _ => .nan
  | _, .nan => .nan
  | .infinite s, .infinite t => .infinite (s != t)
  | .infinite s, .finite t units => if units = 0 then .nan else .infinite (s != t)
  | .finite s units, .infinite t => if units = 0 then .nan else .infinite (s != t)
  | .finite s a, .finite t b => round (s != t) (a * b) unitsPerOne

/-- The whole part, kept between zero and `bound`. What is not a number counts
as zero. -/
def truncateTo (bound : Nat) : Single → Nat
  | .nan => 0
  | .infinite negative => if negative then 0 else bound
  | .finite negative units => if negative then 0 else min (units / unitsPerOne) bound

theorem spacing_pos (units : Nat) : 0 < spacing units := by
  unfold spacing
  split
  · exact Nat.one_pos
  · exact Nat.two_pow_pos _

end Single
end FrameGraph
