/-!
# Saturating arithmetic

Placement costs are signed words of 64 bits whose sums and products stop at the
ends of the range. The functions are stated on integers; each result is the
exact one, clamped.
-/
namespace FrameGraph.Saturating

def lowest : Int := -Int.pow 2 63

def highest : Int := Int.pow 2 63 - 1

def clamp (x : Int) : Int := max lowest (min highest x)

def add (a b : Int) : Int := clamp (a + b)

def sub (a b : Int) : Int := clamp (a - b)

def mul (a b : Int) : Int := clamp (a * b)

/-- A natural number as a word. -/
def ofNat (n : Nat) : Int := clamp n

theorem lowest_eq : lowest = -9223372036854775808 := rfl

theorem highest_eq : highest = 9223372036854775807 := rfl

theorem clamp_of_mem {x : Int} (low : lowest ≤ x) (high : x ≤ highest) : clamp x = x := by
  simp only [clamp, lowest_eq, highest_eq] at *
  omega

end FrameGraph.Saturating
