import FrameGraph.Slots
import Mathlib.Data.List.Nodup
import Mathlib.Tactic.SplitIfs

/-!
# Slots in use

Which slots an allocator has handed out and not taken back. In a valid pool the
flags and the stack say the same: the stack holds the slots whose flag is not set,
each once. In a valid allocator, besides, the map finds for each class the place
where it stands in the table, and there is a pool for every class.

Handing out a slot adds one that was not in use; taking one back is possible
exactly while it is in use. A slot once handed out stays minted, and a new one is
minted only for a class that is full.
-/
namespace FrameGraph

theorem getElem?_append_singleton {α : Type} (xs : List α) (x : α) (i : Nat) :
    (xs ++ [x])[i]? = if i = xs.length then some x else xs[i]? := by
  split_ifs with hi
  · rw [hi, List.getElem?_concat_length]
  · rcases Nat.lt_or_gt_of_ne hi with hlt | hgt
    · exact List.getElem?_append_left hlt
    · have hlength : (xs ++ [x]).length ≤ i := by
        rw [List.length_append]
        exact hgt
      rw [List.getElem?_eq_none hlength, List.getElem?_eq_none (Nat.le_of_lt hgt)]

namespace SlotPool

variable {pool : SlotPool} {slot : Nat}

/-- The stack holds the slots whose flag is not set, each once. -/
structure Valid (pool : SlotPool) : Prop where
  nodup : pool.free.Nodup
  mem_free : ∀ slot, slot ∈ pool.free ↔ pool.live[slot]? = some false

theorem Live.lt (h : pool.Live slot) : slot < pool.minted :=
  (List.getElem?_eq_some_iff.mp h).choose

theorem Valid.lt (h : pool.Valid) (hslot : slot ∈ pool.free) : slot < pool.minted :=
  (List.getElem?_eq_some_iff.mp ((h.mem_free slot).mp hslot)).choose

theorem Valid.live_iff (h : pool.Valid) :
    pool.Live slot ↔ slot < pool.minted ∧ slot ∉ pool.free := by
  rw [h.mem_free, Live, minted]
  by_cases hlt : slot < pool.live.length
  · simp [hlt]
  · simp [hlt]

theorem Valid.mem_free_iff (h : pool.Valid) :
    slot ∈ pool.free ↔ slot < pool.minted ∧ ¬pool.Live slot := by
  rw [h.live_iff]
  constructor
  · exact fun hslot => ⟨h.lt hslot, fun hlive => hlive.2 hslot⟩
  · rintro ⟨hlt, hdead⟩
    by_contra hslot
    exact hdead ⟨hlt, hslot⟩

theorem valid_empty : empty.Valid := ⟨.nil, by simp [empty]⟩

theorem minted_le_acquire (pool : SlotPool) : pool.minted ≤ pool.acquire.2.minted := by
  unfold acquire minted
  split <;> simp

/-- The slot handed out last is the only one that can be new. -/
theorem lt_minted_acquire (h : pool.Valid) (slot : Nat) :
    slot < pool.acquire.2.minted ↔ slot < pool.minted ∨ slot = pool.acquire.1 := by
  cases hf : pool.free with
  | nil =>
      rw [acquire_of_full hf]
      simp only [minted, List.length_append, List.length_singleton]
      exact Nat.lt_succ_iff_lt_or_eq
  | cons top rest =>
      rw [acquire_of_free hf]
      have htop : top < pool.minted := h.lt (by simp [hf])
      simp only [minted, List.length_set]
      constructor
      · exact .inl
      · intro hslot
        rcases hslot with hs | rfl
        · exact hs
        · exact htop

theorem acquire_spec (h : pool.Valid) :
    pool.acquire.2.Valid ∧ ¬pool.Live pool.acquire.1 ∧
      ∀ slot, pool.acquire.2.Live slot ↔ pool.Live slot ∨ slot = pool.acquire.1 := by
  have hfree := h.mem_free
  cases hf : pool.free with
  | nil =>
      rw [acquire_of_full hf]
      rw [hf] at hfree
      refine ⟨⟨by simp [hf], fun slot => ?_⟩, fun hlive => Nat.lt_irrefl _ hlive.lt, fun slot => ?_⟩
      · rw [getElem?_append_singleton, hf, hfree]
        split_ifs with hs
        · simp [hs]
        · rfl
      · simp only [Live, getElem?_append_singleton, minted]
        split_ifs with hs
        · simp [hs]
        · simp [hs]
  | cons top rest =>
      rw [acquire_of_free hf]
      have hnodup := h.nodup
      rw [hf] at hnodup hfree
      obtain ⟨htop, hrest⟩ := List.nodup_cons.mp hnodup
      have hoff : pool.live[top]? = some false := (hfree top).mp List.mem_cons_self
      have hlt : top < pool.live.length := (List.getElem?_eq_some_iff.mp hoff).choose
      refine ⟨⟨hrest, fun slot => ?_⟩, by simp [Live, hoff], fun slot => ?_⟩
      · by_cases hs : slot = top
        · subst hs
          simp [htop, hlt]
        · rw [List.getElem?_set_ne (Ne.symm hs), ← hfree]
          simp [hs]
      · by_cases hs : slot = top
        · subst hs
          simp [Live, hlt]
        · simp [Live, List.getElem?_set_ne (Ne.symm hs), hs]

/-- The flag is set back and the slot stacked. A slot in use is on no stack, so
it is there only once. -/
theorem release_spec (h : pool.Valid) (hlive : pool.Live slot) :
    (pool.release slot).1 = true ∧ (pool.release slot).2.Valid ∧
      (pool.release slot).2.minted = pool.minted ∧
      ∀ other, (pool.release slot).2.Live other ↔ pool.Live other ∧ other ≠ slot := by
  rw [release_of_live hlive]
  have hlt : slot < pool.live.length := hlive.lt
  have hfree : slot ∉ pool.free := (h.live_iff.mp hlive).2
  refine ⟨rfl, ⟨List.nodup_cons.mpr ⟨hfree, h.nodup⟩, fun other => ?_⟩,
    by simp [minted], fun other => ?_⟩
  · by_cases ho : other = slot
    · subst ho
      simp [hlt]
    · rw [List.getElem?_set_ne (Ne.symm ho), ← h.mem_free]
      simp [ho]
  · by_cases ho : other = slot
    · subst ho
      simp [Live, hlt]
    · simp [Live, List.getElem?_set_ne (Ne.symm ho), ho]

end SlotPool

namespace SlotAllocator

/-- A slot that has been handed out and not taken back. -/
def Live (a : SlotAllocator) (x : Allocation) : Prop :=
  ∃ pool, a.pool? x.classId = some pool ∧ pool.Live x.slot

/-- A slot that has been handed out, in use or not. -/
def Minted (a : SlotAllocator) (x : Allocation) : Prop :=
  ∃ pool, a.pool? x.classId = some pool ∧ x.slot < pool.minted

theorem Live.minted {a : SlotAllocator} {x : Allocation} (h : a.Live x) : a.Minted x := by
  obtain ⟨pool, hpool, hlive⟩ := h
  exact ⟨pool, hpool, hlive.lt⟩

/-- The map finds for each class its place in the table, and there are as many
pools as classes. -/
structure Numbered (a : SlotAllocator) : Prop where
  length_slotPools : a.slotPools.length = a.classes.length
  lookup_ids : ∀ c id, a.ids.lookup c = some id ↔ a.class? id = some c

/-- Map and tables agree, and so do the flags and the stack of every pool. -/
structure Valid (a : SlotAllocator) : Prop where
  numbered : a.Numbered
  pools : ∀ id pool, a.pool? id = some pool → pool.Valid

namespace Numbered

variable {a : SlotAllocator} {c : StorageClass} {id : Nat}

theorem class?_inj (h : a.Numbered) {j : Nat} (hid : a.class? id = some c)
    (hj : a.class? j = some c) : id = j :=
  Option.some.inj (((h.lookup_ids c id).mpr hid).symm.trans ((h.lookup_ids c j).mpr hj))

theorem nodup_classes (h : a.Numbered) : a.classes.Nodup := by
  rw [List.nodup_iff_getElem?_ne_getElem?]
  intro i j hij hj heq
  have hlast : a.class? j = some a.classes[j] := List.getElem?_eq_getElem hj
  have hfirst : a.class? i = some a.classes[j] := heq.trans hlast
  exact Nat.ne_of_lt hij (h.class?_inj hfirst hlast)

theorem lookup_eq_none (h : a.Numbered) : a.ids.lookup c = none ↔ c ∉ a.classes := by
  rw [List.mem_iff_getElem?, Option.eq_none_iff_forall_ne_some, not_exists]
  simp only [ne_eq, h.lookup_ids, class?]

theorem idOf_eq_idxOf (h : a.Numbered) (c : StorageClass) : a.idOf c = a.classes.idxOf c := by
  by_cases hc : c ∈ a.classes
  · have hid : a.class? (a.classes.idxOf c) = some c := List.getElem?_idxOf hc
    rw [idOf, (h.lookup_ids c _).mpr hid, Option.getD_some]
  · rw [idOf, h.lookup_eq_none.mpr hc, Option.getD_none, List.idxOf_eq_length hc]

theorem pool?_isSome (h : a.Numbered) :
    (∃ pool, a.pool? id = some pool) ↔ id < a.classes.length := by
  rw [← h.length_slotPools, ← Option.isSome_iff_exists]
  simp [pool?]

theorem pool?_eq_none (h : a.Numbered) : a.pool? id = none ↔ a.class? id = none := by
  simp [pool?, class?, h.length_slotPools]

theorem setPool (h : a.Numbered) (pool : SlotPool) : (a.setPool id pool).Numbered where
  length_slotPools := by simp [SlotAllocator.setPool, h.length_slotPools]
  lookup_ids := h.lookup_ids

theorem meet_of_class? (h : a.Numbered) (hid : a.class? id = some c) : a.meet c = (id, a) := by
  rw [meet, (h.lookup_ids c id).mpr hid]

theorem meet_of_not_mem (h : a.Numbered) (hc : c ∉ a.classes) :
    a.meet c = (a.classes.length,
      ⟨(c, a.classes.length) :: a.ids, a.classes ++ [c], a.slotPools ++ [SlotPool.empty]⟩) := by
  rw [meet, h.lookup_eq_none.mpr hc]

theorem intern_of_mem (h : a.Numbered) (hc : c ∈ a.classes) : a.intern c = a := by
  obtain ⟨id, hid⟩ := List.mem_iff_getElem?.mp hc
  rw [SlotAllocator.intern, h.meet_of_class? hid]

theorem intern_of_not_mem (h : a.Numbered) (hc : c ∉ a.classes) :
    a.intern c =
      ⟨(c, a.classes.length) :: a.ids, a.classes ++ [c], a.slotPools ++ [SlotPool.empty]⟩ := by
  rw [SlotAllocator.intern, h.meet_of_not_mem hc]

/-- A class that has not been met takes the next number, and no other number changes. -/
theorem intern (h : a.Numbered) (c : StorageClass) : (a.intern c).Numbered := by
  by_cases hc : c ∈ a.classes
  · rw [h.intern_of_mem hc]
    exact h
  · rw [h.intern_of_not_mem hc]
    refine ⟨by simp [h.length_slotPools], fun d id => ?_⟩
    have hnew : a.class? id ≠ some c := fun hid => hc (List.mem_of_getElem? hid)
    rw [class?, getElem?_append_singleton, ← class?]
    by_cases hd : d = c
    · subst hd
      rw [List.lookup_cons_self]
      split_ifs with hid
      · simp [hid]
      · simp [hnew, Ne.symm hid]
    · rw [List.lookup_cons, beq_false_of_ne hd, h.lookup_ids]
      split_ifs with hid
      · simp [hid, class?, Ne.symm hd]
      · rfl

theorem classes_intern (h : a.Numbered) (c : StorageClass) :
    (a.intern c).classes = if c ∈ a.classes then a.classes else a.classes ++ [c] := by
  split_ifs with hc
  · rw [h.intern_of_mem hc]
  · rw [h.intern_of_not_mem hc]

end Numbered

/-- A class that is met for the first time has no slots yet. -/
theorem pool?_intern {a : SlotAllocator} (h : a.Numbered) (c : StorageClass) (id : Nat) :
    (a.intern c).pool? id = a.pool? id ∨
      a.pool? id = none ∧ (a.intern c).pool? id = some SlotPool.empty := by
  by_cases hc : c ∈ a.classes
  · rw [h.intern_of_mem hc]
    exact .inl rfl
  · rw [h.intern_of_not_mem hc, pool?, pool?, getElem?_append_singleton, h.length_slotPools]
    split_ifs with hid
    · right
      exact ⟨List.getElem?_eq_none (Nat.le_of_eq (h.length_slotPools.trans hid.symm)), rfl⟩
    · exact .inl rfl

theorem Valid.intern {a : SlotAllocator} (h : a.Valid) (c : StorageClass) :
    (a.intern c).Valid := by
  refine ⟨h.numbered.intern c, fun id pool hpool => ?_⟩
  rcases pool?_intern h.numbered c id with hsame | ⟨-, hnew⟩
  · exact h.pools id pool (hsame ▸ hpool)
  · cases hnew.symm.trans hpool
    exact SlotPool.valid_empty

theorem pool?_setPool (a : SlotAllocator) (id : Nat) (pool : SlotPool) (j : Nat) :
    (a.setPool id pool).pool? j = if j = id then (a.pool? id).map fun _ => pool else a.pool? j := by
  simp only [pool?, setPool]
  by_cases h : j = id
  · subst h
    rw [List.getElem?_set_self', if_pos rfl]
    rfl
  · rw [List.getElem?_set_ne (Ne.symm h), if_neg h]

@[simp] theorem classes_setPool (a : SlotAllocator) (id : Nat) (pool : SlotPool) :
    (a.setPool id pool).classes = a.classes := rfl

theorem valid_setPool {a : SlotAllocator} (ha : a.Valid) {id : Nat} {pool : SlotPool}
    (hp : pool.Valid) : (a.setPool id pool).Valid := by
  refine ⟨ha.numbered.setPool pool, fun j other hj => ?_⟩
  rw [pool?_setPool] at hj
  split_ifs at hj
  · obtain ⟨_, -, rfl⟩ := Option.map_eq_some_iff.mp hj
    exact hp
  · exact ha.pools j other hj

theorem live_setPool {a : SlotAllocator} {id : Nat} {pool pool' : SlotPool}
    (hid : a.pool? id = some pool) (x : Allocation) :
    (a.setPool id pool').Live x ↔ if x.classId = id then pool'.Live x.slot else a.Live x := by
  simp only [Live, pool?_setPool]
  split_ifs with h
  · simp [hid]
  · rfl

theorem minted_setPool {a : SlotAllocator} {id : Nat} {pool pool' : SlotPool}
    (hid : a.pool? id = some pool) (x : Allocation) :
    (a.setPool id pool').Minted x ↔
      if x.classId = id then x.slot < pool'.minted else a.Minted x := by
  simp only [Minted, pool?_setPool]
  split_ifs with h
  · simp [hid]
  · rfl

/-- Handing out a slot of a known class. -/
theorem acquire_spec {a : SlotAllocator} (ha : a.Valid) {id : Nat} (hid : id < a.classes.length) :
    (a.acquire id).1.classId = id ∧ (a.acquire id).2.Valid ∧
      (a.acquire id).2.classes = a.classes ∧ ¬a.Live (a.acquire id).1 ∧
      (∀ x, (a.acquire id).2.Live x ↔ a.Live x ∨ x = (a.acquire id).1) ∧
      ∀ x, (a.acquire id).2.Minted x ↔ a.Minted x ∨ x = (a.acquire id).1 := by
  obtain ⟨pool, hpool⟩ := ha.numbered.pool?_isSome.mpr hid
  obtain ⟨hvalid, hfresh, hlive⟩ := SlotPool.acquire_spec (ha.pools id pool hpool)
  have hminted := SlotPool.lt_minted_acquire (ha.pools id pool hpool)
  simp only [acquire, hpool]
  refine ⟨trivial, valid_setPool ha hvalid, classes_setPool .., ?_, ?_, ?_⟩
  · intro hlive
    rcases hlive with ⟨other, hother, hl⟩
    obtain rfl : pool = other := Option.some.inj (hpool.symm.trans hother)
    exact hfresh hl
  · intro x
    obtain ⟨classId, slot⟩ := x
    rw [live_setPool hpool]
    simp only [Live, Allocation.mk.injEq]
    split_ifs with h
    · subst h
      simp [hpool, hlive]
    · simp [h]
  · intro x
    obtain ⟨classId, slot⟩ := x
    rw [minted_setPool hpool]
    simp only [Minted, Allocation.mk.injEq]
    split_ifs with h
    · subst h
      simp [hpool, hminted]
    · simp [h]

/-- Putting a pool back where it was. -/
theorem setPool_self {a : SlotAllocator} {id : Nat} {pool : SlotPool}
    (hpool : a.pool? id = some pool) : a.setPool id pool = a := by
  obtain ⟨hlt, rfl⟩ := List.getElem?_eq_some_iff.mp hpool
  simp [setPool]

theorem giveBack_of_live {a : SlotAllocator} {x : Allocation} {pool : SlotPool}
    (hpool : a.pool? x.classId = some pool) (hlive : pool.Live x.slot) :
    a.giveBack x = (.ok (), a.setPool x.classId (pool.release x.slot).2) := by
  simp [giveBack, hpool, SlotPool.release_of_live hlive]

/-- A slot that is not in use is not taken back, and nothing is written. -/
theorem giveBack_of_not_live {a : SlotAllocator} {x : Allocation} (hx : ¬a.Live x) :
    a.giveBack x =
      (.error (.inconsistent (.releasedUnallocated x.slot x.classId)), a) := by
  cases hpool : a.pool? x.classId with
  | none => simp [giveBack, hpool]
  | some pool =>
      have hslot : ¬pool.Live x.slot := fun hlive => hx ⟨pool, hpool, hlive⟩
      simp [giveBack, hpool, SlotPool.release_of_not_live hslot, setPool_self hpool]

theorem giveBack_accepts {a : SlotAllocator} {x : Allocation} :
    (a.giveBack x).1 = .ok () ↔ a.Live x := by
  constructor
  · intro hok
    by_contra hx
    rw [giveBack_of_not_live hx] at hok
    cases hok
  · intro hx
    obtain ⟨pool, hpool, hlive⟩ := hx
    rw [giveBack_of_live hpool hlive]

/-- Where it is refused, a release leaves the allocator as it was. -/
theorem giveBack_refuses {a : SlotAllocator} {x : Allocation} {e : GraphError}
    (h : (a.giveBack x).1 = .error e) : (a.giveBack x).2 = a := by
  by_cases hx : a.Live x
  · rw [giveBack_accepts.mpr hx] at h
    cases h
  · rw [giveBack_of_not_live hx]

theorem pool?_acquire_of_ne (a : SlotAllocator) {id other : Nat} (h : other ≠ id) :
    (a.acquire id).2.pool? other = a.pool? other := by
  unfold acquire
  split
  · rw [pool?_setPool, if_neg h]
  · rfl

theorem pool?_giveBack_of_ne (a : SlotAllocator) {x : Allocation} {other : Nat}
    (h : other ≠ x.classId) : (a.giveBack x).2.pool? other = a.pool? other := by
  unfold giveBack
  cases a.pool? x.classId with
  | none => rfl
  | some pool =>
      dsimp only
      rw [pool?_setPool, if_neg h]

theorem release_eq_ok {a b : SlotAllocator} {x : Allocation} :
    a.release x = .ok b ↔ ∃ pool, a.pool? x.classId = some pool ∧ pool.Live x.slot ∧
      b = a.setPool x.classId (pool.release x.slot).2 := by
  rw [← giveBack_eq_ok]
  constructor
  · intro h
    by_cases hx : a.Live x
    · obtain ⟨pool, hpool, hlive⟩ := hx
      rw [giveBack_of_live hpool hlive] at h
      exact ⟨pool, hpool, hlive, (Prod.mk.inj h).2.symm⟩
    · rw [giveBack_of_not_live hx] at h
      cases h
  · rintro ⟨pool, hpool, hlive, rfl⟩
    exact giveBack_of_live hpool hlive

/-- Taking back a slot in use. -/
theorem release_spec {a : SlotAllocator} (ha : a.Valid) {x : Allocation} (hx : a.Live x) :
    ∃ a', a.release x = .ok a' ∧ a'.Valid ∧ a'.classes = a.classes ∧
      (∀ y, a'.Live y ↔ a.Live y ∧ y ≠ x) ∧ ∀ y, a'.Minted y ↔ a.Minted y := by
  obtain ⟨pool, hpool, hl⟩ := hx
  obtain ⟨-, hvalid, hminted, hlive⟩ := SlotPool.release_spec (ha.pools _ pool hpool) hl
  refine ⟨_, release_eq_ok.mpr ⟨pool, hpool, hl, rfl⟩, valid_setPool ha hvalid,
    classes_setPool .., ?_, ?_⟩
  · intro y
    obtain ⟨classId, slot⟩ := x
    obtain ⟨classId', slot'⟩ := y
    rw [live_setPool hpool]
    simp only [ne_eq, Allocation.mk.injEq, not_and]
    split_ifs with h
    · subst h
      simp only [Live, hpool, Option.some.injEq, exists_eq_left', hlive, forall_const, ne_eq]
    · simp [h]
  · intro y
    rw [minted_setPool hpool, hminted]
    split_ifs with h
    · simp [Minted, h, hpool]
    · rfl

theorem getElem?_peaks (a : SlotAllocator) (id : Nat) :
    a.peaks[id]? = (a.class? id).bind fun c => (a.pool? id).map fun pool => (c, pool.peak) := by
  cases hc : a.classes[id]? <;> cases hpool : a.slotPools[id]? <;>
    simp [peaks, pools, class?, pool?, List.zip, List.getElem?_zipWith, hc, hpool]

theorem Numbered.map_peaks {a : SlotAllocator} (h : a.Numbered) :
    a.peaks.map (·.1) = a.classes := by
  have hfst : ((·.1) ∘ fun e : StorageClass × SlotPool => (e.1, e.2.peak)) = Prod.fst := rfl
  rw [peaks, List.map_map, hfst, pools, List.map_fst_zip (Nat.le_of_eq h.length_slotPools.symm)]

/-- Every slot of a class is in use. -/
def Full (a : SlotAllocator) (id : Nat) : Prop := ∀ x, x.classId = id → a.Minted x → a.Live x

/-- What handing out slots makes of an allocator. A class gets a new slot only
when it is full, and a full class stays full. -/
structure HandsOut (a a' : SlotAllocator) : Prop where
  live : ∀ x, a.Live x → a'.Live x
  filled : ∀ id, a'.Full id ∨ ¬a.Full id ∧ ∀ x, x.classId = id → (a'.Minted x ↔ a.Minted x)

namespace HandsOut

variable {a b c : SlotAllocator} {id : Nat}

theorem refl (a : SlotAllocator) : a.HandsOut a where
  live _ hx := hx
  filled id := by
    by_cases hfull : a.Full id
    · exact .inl hfull
    · exact .inr ⟨hfull, fun _ _ => Iff.rfl⟩

theorem full (h : a.HandsOut b) (ha : a.Full id) : b.Full id := by
  rcases h.filled id with hfull | ⟨hfree, -⟩
  · exact hfull
  · exact (hfree ha).elim

theorem trans (hab : a.HandsOut b) (hbc : b.HandsOut c) : a.HandsOut c where
  live x hx := hbc.live x (hab.live x hx)
  filled id := by
    rcases hbc.filled id with hfull | ⟨hfree, hsame⟩
    · exact .inl hfull
    · rcases hab.filled id with hfull | ⟨hfree', hsame'⟩
      · exact (hfree hfull).elim
      · exact .inr ⟨hfree', fun x hx => (hsame x hx).trans (hsame' x hx)⟩

end HandsOut

/-- A class with a free slot hands out a slot that it has. -/
theorem minted_acquire_of_not_full {a : SlotAllocator} (ha : a.Valid) {id : Nat}
    (hid : id < a.classes.length) (hfree : ¬a.Full id) : a.Minted (a.acquire id).1 := by
  obtain ⟨pool, hpool⟩ := ha.numbered.pool?_isSome.mpr hid
  cases hf : pool.free with
  | nil =>
      exfalso
      apply hfree
      intro x hx hminted
      obtain ⟨other, hother, hlt⟩ := hminted
      rw [hx, hpool] at hother
      cases hother
      exact ⟨pool, hx ▸ hpool, (ha.pools id pool hpool).live_iff.mpr ⟨hlt, by simp [hf]⟩⟩
  | cons top rest =>
      have hslot : (a.acquire id).1 = ⟨id, top⟩ := by
        simp only [acquire, hpool, SlotPool.acquire_of_free hf]
      rw [hslot]
      exact ⟨pool, hpool, (ha.pools id pool hpool).lt (by simp [hf])⟩

theorem handsOut_acquire {a : SlotAllocator} (ha : a.Valid) {id : Nat}
    (hid : id < a.classes.length) : a.HandsOut (a.acquire id).2 := by
  obtain ⟨hclass, -, -, -, hlive, hminted⟩ := acquire_spec ha hid
  constructor
  · exact fun x hx => (hlive x).mpr (.inl hx)
  · intro k
    by_cases hfull : a.Full k
    · left
      intro x hx hmint
      rw [hlive]
      rw [hminted] at hmint
      exact hmint.imp_left (hfull x hx)
    · right
      refine ⟨hfull, fun x hx => ?_⟩
      rw [hminted, or_iff_left_of_imp]
      intro hnew
      have hk : k = id := by rw [← hx, hnew, hclass]
      rw [hnew]
      exact minted_acquire_of_not_full ha hid (hk ▸ hfull)

end SlotAllocator
end FrameGraph
