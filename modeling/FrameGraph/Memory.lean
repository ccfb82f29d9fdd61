/-!
# Memory

What each place last received. A place that received nothing reads as `none`.
-/
namespace FrameGraph

structure Memory (Place : Type) where
  cells : List (Place × Nat) := []
deriving Repr

namespace Memory

variable {Place : Type} [DecidableEq Place]

def read (m : Memory Place) (p : Place) : Option Nat := m.cells.lookup p

def write (m : Memory Place) (p : Place) (b : Nat) : Memory Place :=
  ⟨(p, b) :: m.cells.filter (·.1 != p)⟩

theorem lookup_filter_ne {p q : Place} (h : q ≠ p) (cells : List (Place × Nat)) :
    (cells.filter (·.1 != p)).lookup q = cells.lookup q := by
  induction cells with
  | nil => rfl
  | cons cell rest ih =>
      obtain ⟨k, b⟩ := cell
      by_cases hk : k = p
      · subst hk
        have hq : (q == k) = false := by simpa using h
        simp [List.lookup_cons, hq, ih]
      · simp [List.lookup_cons, hk, ih]

theorem read_write (m : Memory Place) (p q : Place) (b : Nat) :
    (m.write p b).read q = if q = p then some b else m.read q := by
  by_cases h : q = p
  · subst h
    simp [write, read]
  · have hq : (q == p) = false := by simpa using h
    simp [write, read, List.lookup_cons, hq, h, lookup_filter_ne h]

end Memory
end FrameGraph
