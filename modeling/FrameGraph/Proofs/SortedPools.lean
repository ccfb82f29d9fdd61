import FrameGraph.Pools
import FrameGraph.Proofs.DistinctKeys
import Mathlib.Data.List.Perm.Basic
import Mathlib.Tactic.SplitIfs

/-!
# Sorted pools

A table of pools keeps its classes in their order, so every class occurs once.
Setting or erasing the pool of one class then leaves all others alone, and the
resources of the table are those of the one class and the rest.
-/
namespace FrameGraph.Pools

variable {p : Pools} {c k : StorageClass} {resources : List Nat}

/-- The classes stand in their order. -/
def Sorted (p : Pools) : Prop := p.entries.Pairwise fun e f => e.1.before f.1 = true

theorem sorted_empty : ({} : Pools).Sorted := .nil

theorem sorted_erase (h : p.Sorted) (c : StorageClass) : (p.erase c).Sorted := h.filter _

theorem sorted_compact (h : p.Sorted) : p.compact.Sorted := h.filter _

theorem ne_of_before {a b : StorageClass} (h : a.before b = true) : a ≠ b := by
  intro hab
  rw [hab, StorageClass.before_irrefl] at h
  cases h

theorem mem_setEntry {entries : List (StorageClass × List Nat)} {e : StorageClass × List Nat}
    (h : e ∈ setEntry c resources entries) : e = (c, resources) ∨ e ∈ entries := by
  induction entries with
  | nil => simpa [setEntry] using h
  | cons f entries ih =>
      unfold setEntry at h
      split_ifs at h
      · rcases List.mem_cons.mp h with h | h
        · exact .inl h
        · exact .inr (List.mem_cons_of_mem _ h)
      · rcases List.mem_cons.mp h with h | h
        · exact .inl h
        · exact .inr h
      · rcases List.mem_cons.mp h with h | h
        · exact .inr (h ▸ List.mem_cons_self)
        · exact (ih h).imp id (List.mem_cons_of_mem _)

theorem sorted_set (h : p.Sorted) (c : StorageClass) (resources : List Nat) :
    (p.set c resources).Sorted := by
  obtain ⟨entries⟩ := p
  unfold Sorted set at *
  induction entries with
  | nil => exact List.pairwise_singleton _ _
  | cons e entries ih =>
      have hhead : ∀ f ∈ entries, e.1.before f.1 = true := fun f => List.rel_of_pairwise_cons h
      have htail := List.Pairwise.of_cons h
      simp only [setEntry]
      split_ifs with heq hlt
      · apply List.pairwise_cons.mpr
        constructor
        · intro f hf
          exact heq ▸ hhead f hf
        · exact htail
      · apply List.pairwise_cons.mpr
        constructor
        · intro f hf
          rcases List.mem_cons.mp hf with hf | hf
          · exact hf ▸ hlt
          · exact StorageClass.before_trans hlt (hhead f hf)
        · exact h
      · apply List.pairwise_cons.mpr
        constructor
        · intro f hf
          rcases mem_setEntry hf with hf | hf
          · rw [hf]
            exact (StorageClass.before_or_before heq).resolve_right hlt
          · exact hhead f hf
        · exact ih htail

theorem resourcesOf_set (p : Pools) (c : StorageClass) (resources : List Nat) (k : StorageClass) :
    (p.set c resources).resourcesOf k = if k = c then resources else p.resourcesOf k := by
  obtain ⟨entries⟩ := p
  simp only [resourcesOf, set]
  induction entries with
  | nil =>
      by_cases hk : k = c
      · simp [setEntry, hk]
      · simp [setEntry, hk, Ne.symm hk]
  | cons e entries ih =>
      unfold setEntry
      by_cases heq : e.1 = c
      · rw [if_pos heq]
        by_cases hk : k = c
        · simp [hk]
        · simp [heq, hk, Ne.symm hk]
      · rw [if_neg heq]
        by_cases hlt : c.before e.1 = true
        · rw [if_pos hlt]
          by_cases hk : k = c
          · simp [hk]
          · simp [hk, Ne.symm hk]
        · rw [if_neg hlt]
          by_cases he : e.1 = k
          · have hk : k ≠ c := he ▸ heq
            simp [he, hk]
          · simp only [List.find?_cons, beq_eq_false_iff_ne.mpr he]
            exact ih

theorem classes_nodup (h : p.Sorted) : (p.entries.map (·.1)).Nodup :=
  List.pairwise_map.mpr (h.imp fun hbefore => ne_of_before hbefore)

/-- The pool of an entry is the one found under its class. -/
theorem resourcesOf_of_mem (h : p.Sorted) {e : StorageClass × List Nat} (he : e ∈ p.entries) :
    p.resourcesOf e.1 = e.2 := by
  rw [resourcesOf, find?_of_nodup_map (classes_nodup h) he]
  rfl

/-- A class without a pool has no resources. -/
theorem resourcesOf_eq_nil (h : ∀ e ∈ p.entries, e.1 ≠ c) : p.resourcesOf c = [] := by
  have hfind : p.entries.find? (·.1 == c) = none := by simpa using h
  simp [resourcesOf, hfind]

/-- The pool of a class and the rest of the table. -/
theorem resources_perm (h : p.Sorted) (c : StorageClass) :
    p.resources.Perm (p.resourcesOf c ++ (p.erase c).resources) := by
  obtain ⟨entries⟩ := p
  unfold Sorted at h
  induction entries with
  | nil => exact .refl _
  | cons e entries ih =>
      have hhead : ∀ f ∈ entries, f.1 ≠ e.1 := by
        intro f hf
        exact (ne_of_before (List.rel_of_pairwise_cons h hf)).symm
      by_cases heq : e.1 = c
      · have hrest : entries.filter (·.1 != c) = entries := by
          rw [List.filter_eq_self]
          intro f hf
          simpa [heq] using hhead f hf
        simp [resources, resourcesOf, erase, heq, hrest]
      · have hperm := ih (List.Pairwise.of_cons h)
        simp only [resources, resourcesOf, erase, List.find?_cons, List.filter_cons,
          beq_eq_false_iff_ne.mpr heq, bne_iff_ne, ne_eq, heq, not_false_eq_true, if_true,
          List.flatMap_cons] at hperm ⊢
        apply (hperm.append_left e.2).trans
        rw [← List.append_assoc, ← List.append_assoc]
        exact List.perm_append_comm.append_right _

theorem erase_set (p : Pools) (c : StorageClass) (resources : List Nat) :
    (p.set c resources).erase c = p.erase c := by
  obtain ⟨entries⟩ := p
  simp only [erase, set, Pools.mk.injEq]
  induction entries with
  | nil => simp [setEntry]
  | cons e entries ih =>
      simp only [setEntry]
      split_ifs with heq hlt
      · simp [heq]
      · simp
      · simp only [List.filter_cons, ih]

/-- Setting a pool exchanges the resources of its class. -/
theorem resources_set_perm (h : p.Sorted) (c : StorageClass) (resources : List Nat) :
    (p.set c resources).resources.Perm (resources ++ (p.erase c).resources) := by
  have hperm := resources_perm (sorted_set h c resources) c
  rwa [resourcesOf_set, if_pos rfl, erase_set] at hperm

/-- What a pool gives away and takes in, the table gives away and takes in. -/
theorem resources_set_exchange (h : p.Sorted) {resources given taken : List Nat}
    (hperm : (resources ++ given).Perm (p.resourcesOf c ++ taken)) :
    ((p.set c resources).resources ++ given).Perm (p.resources ++ taken) := by
  apply ((resources_set_perm h c resources).append_right given).trans
  refine .trans ?_ ((resources_perm h c).append_right taken).symm
  rw [List.append_assoc, List.append_assoc]
  apply (List.perm_append_comm_assoc _ _ _).trans
  apply (hperm.append_left _).trans
  exact List.perm_append_comm_assoc _ _ _

theorem resources_compact (p : Pools) : p.compact.resources = p.resources := by
  obtain ⟨entries⟩ := p
  simp only [resources, compact]
  induction entries with
  | nil => rfl
  | cons e entries ih =>
      cases hresources : e.2 with
      | nil => simp [hresources, ih]
      | cons r rest => simp [hresources, ih]

theorem resourcesOf_compact (h : p.Sorted) (c : StorageClass) :
    p.compact.resourcesOf c = p.resourcesOf c := by
  obtain ⟨entries⟩ := p
  unfold Sorted at h
  induction entries with
  | nil => rfl
  | cons e entries ih =>
      have htail := ih (List.Pairwise.of_cons h)
      simp only [resourcesOf, compact] at htail ⊢
      cases hresources : e.2 with
      | nil =>
          rw [List.filter_cons_of_neg (by simp [hresources]), htail]
          by_cases heq : e.1 = c
          · have hnone : (Pools.mk entries).resourcesOf c = [] := by
              apply resourcesOf_eq_nil
              intro f hf
              exact heq ▸ (ne_of_before (List.rel_of_pairwise_cons h hf)).symm
            unfold resourcesOf at hnone
            simp [heq, hresources, hnone]
          · simp [heq]
      | cons r rest =>
          rw [List.filter_cons_of_pos (by simp [hresources])]
          by_cases heq : e.1 = c
          · simp [heq]
          · simp only [List.find?_cons, beq_eq_false_iff_ne.mpr heq]
            exact htail

theorem resourcesOf_erase_self (p : Pools) (c : StorageClass) : (p.erase c).resourcesOf c = [] := by
  apply resourcesOf_eq_nil
  intro e he
  simpa using (List.mem_filter.mp he).2

theorem resourcesOf_erase (p : Pools) (hk : k ≠ c) :
    (p.erase c).resourcesOf k = p.resourcesOf k := by
  unfold resourcesOf erase
  rw [List.find?_filter]
  have hpred : ∀ e : StorageClass × List Nat,
      decide ((e.1 != c) = true ∧ (e.1 == k) = true) = (e.1 == k) := by
    intro e
    by_cases he : e.1 = k
    · simp [he, hk]
    · simp [he]
  simp only [hpred]

theorem mem_resources_of_resourcesOf {r : Nat} (h : r ∈ p.resourcesOf c) : r ∈ p.resources := by
  unfold resourcesOf at h
  cases hfind : p.entries.find? (·.1 == c) with
  | none => simp [hfind] at h
  | some e =>
      rw [hfind] at h
      exact List.mem_flatMap.mpr ⟨e, List.mem_of_find?_eq_some hfind, h⟩

/-- No resource stands in the pools of two classes. -/
theorem class_unique (h : p.Sorted) (hnodup : p.resources.Nodup) {r : Nat}
    (hc : r ∈ p.resourcesOf c) (hk : r ∈ p.resourcesOf k) : c = k := by
  by_contra hne
  have hsplit := (resources_perm h c).nodup_iff.mp hnodup
  rw [← resourcesOf_erase p (Ne.symm hne)] at hk
  exact (List.nodup_append.mp hsplit).2.2 r hc r (mem_resources_of_resourcesOf hk) rfl

end FrameGraph.Pools
