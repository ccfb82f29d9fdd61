import Mathlib.Data.List.Nodup

/-!
# Distinct keys

Pools are told apart by their classes, ports by their names and outputs by their
buffers. Where the keys of a list are distinct, an entry is the one found under
its key, and entries at different places have different keys.
-/
namespace FrameGraph

variable {α κ : Type} {f : α → κ} {xs : List α}

/-- An entry is the one found under its key. -/
theorem find?_of_nodup_map [BEq κ] [LawfulBEq κ] (h : (xs.map f).Nodup) {a : α} (ha : a ∈ xs) :
    xs.find? (fun x => f x == f a) = some a := by
  cases hfind : xs.find? (fun x => f x == f a) with
  | none =>
      have hnone := List.find?_eq_none.mp hfind a ha
      simp at hnone
  | some x =>
      have hkey : f x = f a := by simpa using List.find?_some hfind
      rw [List.inj_on_of_nodup_map h (List.mem_of_find?_eq_some hfind) ha hkey]

theorem ne_of_getElem?_ne (h : (xs.map f).Nodup) {i j : Nat} {a b : α} (hi : xs[i]? = some a)
    (hj : xs[j]? = some b) (hij : i ≠ j) : f a ≠ f b := by
  intro he
  have hlt : i < (xs.map f).length := by simpa using (List.getElem?_eq_some_iff.mp hi).choose
  apply hij
  apply (List.getElem?_inj hlt h).mp
  rw [List.getElem?_map, List.getElem?_map, hi, hj, Option.map_some, Option.map_some, he]

theorem notMem_map_of_nodup {done rest : List α} {a : α}
    (h : ((done ++ a :: rest).map f).Nodup) : f a ∉ done.map f := by
  rw [List.map_append, List.map_cons, List.nodup_append] at h
  exact fun hmem => h.2.2 _ hmem _ (by simp) rfl

end FrameGraph
