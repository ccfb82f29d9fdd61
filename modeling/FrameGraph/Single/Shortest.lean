import FrameGraph.Single

/-!
# The shortest decimal text of a single precision number

A decimal reads back as a number of the format when it lies within half a step
of it; the ends of that interval count exactly when the significand is even,
since a tie goes to the even neighbour. The text of a number has the fewest
digits that read back, and of two such decimals the nearer one.

For a given count of digits only two decimals need to be tried, the neighbours
of the number on the grid of that count.
-/
namespace FrameGraph.Single

/-- Half a step below and above a magnitude, and whether the ends belong to it.
The ends are in half units. -/
structure Basin where
  low : Nat
  high : Nat
  closed : Bool
deriving DecidableEq, Repr

def basin (units : Nat) : Basin where
  low := 2 * units - spacing (units - 1)
  high := 2 * units + spacing units
  closed := units / spacing units % 2 == 0

/-- A decimal `digits * 10 ^ (exponent - digitCount + 1)`, `exponent` being that
of its first digit. -/
structure Decimal where
  digits : List Nat
  exponent : Int
deriving DecidableEq, Repr

def tenTo (k : Int) : Nat × Nat := (Nat.pow 10 k.toNat, Nat.pow 10 (-k).toNat)

/-- The exponent of the first decimal digit of a positive magnitude, searched
downwards from `top`. -/
def leadingExponent (units : Nat) : Nat → Int → Int
  | 0, k => k
  | fuel + 1, k =>
      let (up, down) := tenTo k
      if up * unitsPerOne ≤ units * down then k else leadingExponent units fuel (k - 1)

def digitsOf (n : Nat) : List Nat := (toString n).toList.map fun c => c.toNat - 48

/-- The decimal with `count` digits that reads back as the magnitude, if there
is one: the nearer of the two neighbours, in the middle the upper one. -/
def decimalOf? (units : Nat) (exponent : Int) (count : Nat) : Option Decimal :=
  let (up, down) := tenTo (count - 1 - exponent)
  let b := basin units
  let one := unitsPerOne * down
  let lower := units * up / one
  let inside (t : Nat) : Bool :=
    if b.closed then b.low * up ≤ 2 * t * one && 2 * t * one ≤ b.high * up
    else b.low * up < 2 * t * one && 2 * t * one < b.high * up
  let upper := lower + 1
  let remainder := units * up - lower * one
  let chosen :=
    if inside upper && (!inside lower || one ≤ 2 * remainder) then some upper
    else if inside lower then some lower
    else none
  chosen.map fun t =>
    let digits := digitsOf t
    ⟨digits, exponent + (digits.length - count : Int)⟩

/-- Nine digits always read back, so the search ends by then. -/
def shortest (units : Nat) : Decimal :=
  let exponent := leadingExponent units 100 38
  (((List.range 9).map (· + 1)).findSome? (decimalOf? units exponent)).getD
    ⟨[0], 0⟩

def Decimal.trimmed (d : Decimal) : List Nat :=
  (d.digits.reverse.dropWhile (· == 0)).reverse

def digitText (digits : List Nat) : String :=
  String.ofList (digits.map fun d => Char.ofNat (d + 48))

/-- Positional from `10 ^ -4` to below `10 ^ 16`, always with a point and a digit
behind it; otherwise a significand, the letter `e` and the exponent. -/
def Decimal.text (d : Decimal) : String :=
  let digits := d.trimmed
  let count := digits.length
  if -4 ≤ d.exponent ∧ d.exponent < 16 then
    if d.exponent < 0 then
      "0." ++ digitText (List.replicate (-d.exponent - 1).toNat 0 ++ digits)
    else
      let whole := d.exponent.toNat + 1
      let front := digits.take whole ++ List.replicate (whole - count) 0
      let back := digits.drop whole
      digitText front ++ "." ++ (if back.isEmpty then "0" else digitText back)
  else
    let tail := digits.drop 1
    digitText (digits.take 1) ++ (if tail.isEmpty then "" else "." ++ digitText tail) ++
      "e" ++ toString d.exponent

def text : Single → String
  | .nan => "NaN"
  | .infinite negative => if negative then "-inf" else "inf"
  | .finite negative units =>
      (if negative then "-" else "") ++ (if units = 0 then "0.0" else (shortest units).text)

end FrameGraph.Single
