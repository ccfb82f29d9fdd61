import FrameGraph.Extent

/-!
# Storage classes

Two buffers may share one physical resource when they have the same storage
class: the same extent and pixel format. Buffers that carry no pixels, and only
order one operation after another, form the class `dummy`.

Classes are ordered by width, height and format, in the order in which the
formats are listed here; `dummy` comes last.
-/
namespace FrameGraph

inductive Format where
  | rgba8Unorm
  | rgba8UnormSrgb
  | bgra8Unorm
  | rgba16Float
  | rgba32Float
  | rg16Float
  | r8Unorm
  | r32Float
  | depth32Float
  | depth24PlusStencil8
deriving DecidableEq, Repr

namespace Format

def all : List Format :=
  [rgba8Unorm, rgba8UnormSrgb, bgra8Unorm, rgba16Float, rgba32Float, rg16Float, r8Unorm,
    r32Float, depth32Float, depth24PlusStencil8]

/-- The place of a format in the order. -/
def rank (f : Format) : Nat := all.idxOf f

def name : Format → String
  | rgba8Unorm => "Rgba8Unorm"
  | rgba8UnormSrgb => "Rgba8UnormSrgb"
  | bgra8Unorm => "Bgra8Unorm"
  | rgba16Float => "Rgba16Float"
  | rgba32Float => "Rgba32Float"
  | rg16Float => "Rg16Float"
  | r8Unorm => "R8Unorm"
  | r32Float => "R32Float"
  | depth32Float => "Depth32Float"
  | depth24PlusStencil8 => "Depth24PlusStencil8"

def ofName? (s : String) : Option Format := all.find? fun f => f.name == s

def bytesPerPixel : Format → Nat
  | r8Unorm => 1
  | rgba16Float => 8
  | rgba32Float => 16
  | _ => 4

theorem rank_injective {f g : Format} (h : f.rank = g.rank) : f = g := by
  revert h
  cases f <;> cases g <;> decide

end Format

inductive StorageClass where
  | texture (extent : Extent) (format : Format)
  | dummy
deriving DecidableEq, Repr

namespace StorageClass

/-- The largest cost a class can have: sizes are words of 64 bits. -/
def costLimit : Nat := Nat.pow 2 64 - 1

/-- The bytes of one resource of the class, up to the limit. -/
def cost : StorageClass → Nat
  | .texture extent format => min (extent.width * extent.height * format.bytesPerPixel) costLimit
  | .dummy => 0

def text : StorageClass → String
  | .texture extent format => s!"{extent.text} {format.name}"
  | .dummy => "dummy"

/-- Whether the first class comes strictly before the second. -/
def before : StorageClass → StorageClass → Bool
  | .dummy, _ => false
  | .texture _ _, .dummy => true
  | .texture a f, .texture b g =>
      a.width < b.width || a.width = b.width &&
        (a.height < b.height || a.height = b.height && f.rank < g.rank)

/-- Classes in their order. -/
def sorted (classes : List StorageClass) : List StorageClass :=
  classes.mergeSort fun a b => !b.before a

theorem before_irrefl (c : StorageClass) : c.before c = false := by
  cases c <;> simp [before]

theorem before_trans {a b c : StorageClass} (h₁ : a.before b) (h₂ : b.before c) :
    a.before c := by
  cases a with
  | dummy => cases b <;> cases h₁
  | texture e f =>
      cases c with
      | dummy => rfl
      | texture e'' f'' =>
          cases b with
          | dummy => cases h₂
          | texture e' f' =>
              simp only [before, Bool.or_eq_true, Bool.and_eq_true, decide_eq_true_eq] at h₁ h₂ ⊢
              omega

/-- Of two different classes one comes before the other. -/
theorem before_or_before {a b : StorageClass} (h : a ≠ b) : a.before b ∨ b.before a := by
  cases a with
  | dummy => cases b with
    | dummy => exact absurd rfl h
    | texture e f => exact Or.inr rfl
  | texture e f => cases b with
    | dummy => exact Or.inl rfl
    | texture e' f' =>
      by_cases hw : e.width = e'.width
      · by_cases hh : e.height = e'.height
        · have hf : f.rank ≠ f'.rank := by
            intro hr
            apply h
            cases e
            cases e'
            simp_all [Format.rank_injective hr]
          simp [before, hw, hh]
          omega
        · simp [before, hw]
          omega
      · simp [before]
        omega

end StorageClass
end FrameGraph
