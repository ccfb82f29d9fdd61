import FrameGraph.Proofs.RenamedPlacement

/-!
# The slots of required buffers

At the start of a placement the required buffers get their slots, one after
another: a buffer gets the slot whose number is its place among the required
buffers of its class. So the ledger at the start is known from the list of
required buffers, and two such ledgers are renamed when the lists are the same up
to their order and the renaming takes places to places.
-/
namespace FrameGraph

theorem idxOf_map {f : Nat → Nat} (hf : f.Injective) (xs : List Nat) (x : Nat) :
    (xs.map f).idxOf (f x) = xs.idxOf x := by
  induction xs with
  | nil => rfl
  | cons y xs ih =>
      have hbeq : (f y == f x) = (y == x) := by
        rw [Bool.eq_iff_iff, beq_iff_eq, beq_iff_eq, hf.eq_iff]
      rw [List.map_cons, List.idxOf_cons, List.idxOf_cons, ih, hbeq]

/-- The pool after a number of slots have been handed out and none taken back. -/
def SlotPool.handedOut (n : Nat) : SlotPool := ⟨List.replicate n true, []⟩

namespace SlotPool

theorem acquire_handedOut (n : Nat) : (handedOut n).acquire = (n, handedOut (n + 1)) := by
  simp [acquire_of_full, handedOut, minted, List.replicate_succ']

theorem minted_handedOut (n : Nat) : (handedOut n).minted = n := List.length_replicate

/-- All slots being in use, they may change places. -/
theorem renamed_handedOut {σ : Equiv.Perm Nat} {n : Nat} (hfixed : ∀ k, n ≤ k → σ k = k) :
    (handedOut n).Renamed σ (handedOut n) where
  live := by
    intro k
    simp only [handedOut, List.getElem?_replicate, lt_iff_of_fixed hfixed, Option.map_id']
  free := rfl

end SlotPool

namespace Workload

variable {w : Workload} {b : Nat}

/-- The listed buffers of a class. -/
def ofClass (w : Workload) (bs : List Nat) (id : Nat) : List Nat :=
  bs.filter fun b => w.classId b = id

/-- The slot of a buffer when the listed ones get their slots one after another. -/
def slotInTurn (w : Workload) (bs : List Nat) (b : Nat) : Allocation :=
  ⟨w.classId b, (w.ofClass bs (w.classId b)).idxOf b⟩

theorem ofClass_append_singleton (bs : List Nat) (b id : Nat) :
    w.ofClass (bs ++ [b]) id =
      if id = w.classId b then w.ofClass bs id ++ [b] else w.ofClass bs id := by
  unfold ofClass
  rw [List.filter_append]
  split_ifs with hid
  · simp [hid]
  · simp [Ne.symm hid]

theorem mem_ofClass {bs : List Nat} {id : Nat} :
    b ∈ w.ofClass bs id ↔ b ∈ bs ∧ w.classId b = id := by
  simp [ofClass]

/-- A buffer keeps its slot when others get theirs. -/
theorem slotInTurn_append_of_mem {bs : List Nat} (hb : b ∈ bs) (c : Nat) :
    w.slotInTurn (bs ++ [c]) b = w.slotInTurn bs b := by
  unfold slotInTurn
  rw [ofClass_append_singleton]
  split_ifs with hid
  · rw [List.idxOf_append, if_pos (mem_ofClass.mpr ⟨hb, rfl⟩)]
  · rfl

/-- The next buffer gets the first slot that has not been handed out. -/
theorem slotInTurn_append_self {bs : List Nat} (hb : b ∉ bs) :
    w.slotInTurn (bs ++ [b]) b = ⟨w.classId b, (w.ofClass bs (w.classId b)).length⟩ := by
  have hnew : b ∉ w.ofClass bs (w.classId b) := fun hmem => hb (mem_ofClass.mp hmem).1
  unfold slotInTurn
  rw [ofClass_append_singleton, if_pos rfl, List.idxOf_append, if_neg hnew]
  simp

/-- The ledger after the listed buffers got their slots. -/
structure Filling (w : Workload) (done : List Nat) (l : Ledger) : Prop where
  opening : w.Opening done l
  openCount : l.openCount = done.length
  slots : ∀ b d, l.demand? b = some d → d.allocation = w.slotInTurn done b
  pools : ∀ id, l.slots.pool? id =
    (w.slots.pool? id).map fun _ => .handedOut (w.ofClass done id).length

theorem filling_blank (hw : w.WellFormed) : w.Filling [] (.blank w.slots w.tableSize) where
  opening := opening_blank hw
  openCount := rfl
  slots := by
    intro b d hd
    have hdemanded := ((opening_blank hw).demanded b).mp (Option.isSome_of_mem hd)
    cases hdemanded
  pools := by
    intro id
    have hslots : (Ledger.blank w.slots w.tableSize).slots = w.slots := rfl
    rw [hslots]
    cases hpool : w.slots.pool? id with
    | none => rfl
    | some pool =>
        rw [hw.unused.pools id pool hpool]
        rfl

/-- The next buffer gets its slot in turn. -/
theorem Filling.acquire {done : List Nat} {l : Ledger} (h : w.Filling done l) (hnew : b ∉ done)
    (hid : w.classId b < w.slots.classes.length) :
    (l.acquire (w.classId b)).1 = w.slotInTurn (done ++ [b]) b ∧
      ∀ id, (l.acquire (w.classId b)).2.slots.pool? id =
        (w.slots.pool? id).map fun _ => .handedOut (w.ofClass (done ++ [b]) id).length := by
  obtain ⟨pool, hpool⟩ := h.opening.balanced.valid.numbered.pool?_isSome.mpr
    (h.opening.balanced.classes ▸ hid)
  obtain ⟨first, hfirst, rfl⟩ := Option.map_eq_some_iff.mp ((h.pools _).symm.trans hpool)
  rw [Ledger.acquire, SlotAllocator.acquire, hpool]
  dsimp only
  rw [SlotPool.acquire_handedOut]
  constructor
  · exact (slotInTurn_append_self hnew).symm
  · intro id
    rw [SlotAllocator.pool?_setPool, ofClass_append_singleton]
    by_cases heq : id = w.classId b
    · rw [if_pos heq, if_pos heq, hpool, heq, hfirst, List.length_append]
      rfl
    · rw [if_neg heq, if_neg heq, h.pools]

theorem Filling.openRequired {done : List Nat} {l : Ledger} (h : w.Filling done l)
    (hlt : b < w.tableSize) (hnew : b ∉ done) (hid : w.classId b < w.slots.classes.length) :
    w.Filling (done ++ [b]) (w.openRequired l b) := by
  obtain ⟨hslot, hpools⟩ := h.acquire hnew hid
  constructor
  · exact h.opening.openRequired hlt hnew hid
  · rw [List.length_append, List.length_singleton, ← h.openCount]
    rfl
  · intro c d hd
    have hdemands : b < l.demands.length := h.opening.balanced.demands_length ▸ hlt
    have hdemand : (w.openRequired l b).demand? c =
        if c = b then some ⟨1, (l.acquire (w.classId b)).1⟩ else l.demand? c :=
      Ledger.demand?_openDemand (l := (l.acquire (w.classId b)).2) hdemands c
    rw [hdemand] at hd
    split_ifs at hd with hc
    · cases hd
      rw [hslot, hc]
    · have hmem : c ∈ done := (h.opening.demanded c).mp (Option.isSome_of_mem hd)
      rw [slotInTurn_append_of_mem hmem]
      exact h.slots c d hd
  · exact hpools

theorem filling_startLedger (hw : w.WellFormed) : w.Filling w.required w.startLedger := by
  have hrest : ∀ rest done l, done ++ rest = w.required → w.Filling done l →
      w.Filling w.required (rest.foldl w.openRequired l) := by
    intro rest
    induction rest with
    | nil =>
        intro done l hdone hl
        rw [List.append_nil] at hdone
        exact hdone ▸ hl
    | cons b rest ih =>
        intro done l hdone hl
        have hb : b ∈ w.required := by simp [← hdone]
        have hnew : b ∉ done := by
          have hnodup := hw.required_nodup
          rw [← hdone] at hnodup
          exact fun hmem => (List.nodup_append.mp hnodup).2.2 b hmem b List.mem_cons_self rfl
        apply ih (done ++ [b]) _ (by simpa using hdone)
        exact hl.openRequired (hw.required_lt b hb) hnew (hw.class_lt b (.inl hb))
  exact hrest w.required [] _ rfl (filling_blank hw)

namespace Filling

variable {done : List Nat} {l : Ledger}

theorem demand?_eq (h : w.Filling done l) (b : Nat) :
    l.demand? b = if b ∈ done then some ⟨1, w.slotInTurn done b⟩ else none := by
  have hdemanded := h.opening.demanded b
  cases hd : l.demand? b with
  | none =>
      rw [hd] at hdemanded
      rw [if_neg (by simpa using hdemanded)]
  | some d =>
      rw [hd] at hdemanded
      rw [if_pos (by simpa using hdemanded), ← h.slots b d hd, ← h.opening.uses b d hd]

theorem allocation?_eq (h : w.Filling done l) (b : Nat) :
    l.allocation? b = if b ∈ done then some (w.slotInTurn done b) else none := by
  have hdemand := h.demand?_eq b
  split_ifs at hdemand ⊢ with hb
  · exact h.opening.balanced.recorded b _ hdemand
  · have hmet := h.opening.met b
    rw [← Option.not_isSome_iff_eq_none, hmet]
    exact hb

end Filling

/-- The required buffers are the same but for their order, and the renaming takes
the slots in turn to the slots in turn. -/
structure StartsRenamed (ρ : Renaming) (w w' : Workload) : Prop where
  buffers : ∀ b, ρ.buffer b < w'.tableSize ↔ b < w.tableSize
  required : w'.required.Perm (w.required.map ρ.buffer)
  classes : ∀ id, w'.slots.class? (ρ.classId id) = w.slots.class? id
  slots : ∀ b ∈ w.required,
    w'.slotInTurn w'.required (ρ.buffer b) = ρ.allocation (w.slotInTurn w.required b)
  fixed : ∀ id k, (w.ofClass w.required id).length ≤ k → ρ.slot id k = k

namespace Renamed

variable {ρ : Renaming} {w' : Workload}

/-- The buffers of a class are those of the renamed class. -/
theorem ofClass_map (h : w.Renamed ρ w') {bs : List Nat} (hbs : ∀ b ∈ bs, b < w.tableSize)
    (id : Nat) : w'.ofClass (bs.map ρ.buffer) (ρ.classId id) = (w.ofClass bs id).map ρ.buffer := by
  unfold ofClass
  rw [List.filter_map]
  apply congrArg
  apply List.filter_congr
  intro b hb
  simp [h.classId_eq b (hbs b hb)]

theorem slotInTurn_map (h : w.Renamed ρ w') {bs : List Nat} (hbs : ∀ b ∈ bs, b < w.tableSize)
    (hb : b ∈ bs) : w'.slotInTurn (bs.map ρ.buffer) (ρ.buffer b) =
      ⟨ρ.classId (w.classId b), (w.slotInTurn bs b).slot⟩ := by
  unfold slotInTurn
  rw [h.classId_eq b (hbs b hb), h.ofClass_map hbs, idxOf_map ρ.buffer.injective]

theorem ofClass_perm (h : w.Renamed ρ w') (hlt : ∀ b ∈ w.required, b < w.tableSize)
    (hrequired : w'.required.Perm (w.required.map ρ.buffer)) (id : Nat) :
    (w'.ofClass w'.required (ρ.classId id)).Perm ((w.ofClass w.required id).map ρ.buffer) := by
  rw [← h.ofClass_map hlt]
  exact hrequired.filter _

theorem startSlots (h : w.Renamed ρ w') (hw : w.WellFormed) (hw' : w'.WellFormed)
    (hs : StartsRenamed ρ w w') : w.startLedger.slots.Renamed ρ w'.startLedger.slots where
  classes := by
    intro id
    rw [Option.map_id', (filling_startLedger hw).opening.balanced.classes,
      (filling_startLedger hw').opening.balanced.classes]
    exact hs.classes id
  pools := by
    intro id
    have hlength := (h.ofClass_perm hw.required_lt hs.required id).length_eq
    rw [(filling_startLedger hw).pools, (filling_startLedger hw').pools, hlength, List.length_map]
    by_cases hclass : w.slots.class? id = none
    · have hclass' := (hs.classes id).trans hclass
      rw [hw.unused.numbered.pool?_eq_none.mpr hclass,
        hw'.unused.numbered.pool?_eq_none.mpr hclass']
      exact .none
    · have hclass' : w'.slots.class? (ρ.classId id) ≠ none := hs.classes id ▸ hclass
      obtain ⟨pool, hpool⟩ := Option.ne_none_iff_exists'.mp
        (mt hw.unused.numbered.pool?_eq_none.mp hclass)
      obtain ⟨pool', hpool'⟩ := Option.ne_none_iff_exists'.mp
        (mt hw'.unused.numbered.pool?_eq_none.mp hclass')
      rw [hpool, hpool']
      exact .some (SlotPool.renamed_handedOut (hs.fixed id))
  fixed := by
    intro x hx
    apply hs.fixed
    by_contra hlt
    obtain ⟨b, hb⟩ := List.exists_mem_of_length_pos (Nat.zero_lt_of_lt (Nat.not_le.mp hlt))
    obtain ⟨hrequired, hid⟩ := mem_ofClass.mp hb
    have hclass := hw.class_lt b (.inl hrequired)
    rw [hid] at hclass
    obtain ⟨pool, hpool⟩ := hw.unused.numbered.pool?_isSome.mpr hclass
    have hfilled := (filling_startLedger hw).pools x.classId
    rw [hpool, Option.map_some] at hfilled
    refine hx ⟨_, hfilled, ?_⟩
    rw [SlotPool.minted_handedOut]
    exact Nat.not_le.mp hlt

theorem startLedger (h : w.Renamed ρ w') (hw : w.WellFormed) (hw' : w'.WellFormed)
    (hs : StartsRenamed ρ w w') : w.startLedger.Renamed ρ w'.startLedger := by
  have hfilling := filling_startLedger hw
  have hfilling' := filling_startLedger hw'
  have hmem : ∀ b, ρ.buffer b ∈ w'.required ↔ b ∈ w.required := by
    intro b
    rw [hs.required.mem_iff, List.mem_map_of_injective ρ.buffer.injective]
  constructor
  · exact h.startSlots hw hw' hs
  · apply Moved.of_join
    · rw [hfilling.opening.balanced.demands_length, hfilling'.opening.balanced.demands_length]
      exact hs.buffers
    · intro b
      refine (hfilling'.demand?_eq (ρ.buffer b)).trans ?_
      refine .trans ?_ (congrArg (Option.map ρ.demand) (hfilling.demand?_eq b)).symm
      by_cases hb : b ∈ w.required
      · rw [if_pos hb, if_pos ((hmem b).mpr hb), hs.slots b hb]
        rfl
      · rw [if_neg hb, if_neg (mt (hmem b).mp hb)]
        rfl
  · rw [hfilling.openCount, hfilling'.openCount, hs.required.length_eq, List.length_map]
  · apply Moved.of_join
    · rw [hfilling.opening.balanced.allocations_length,
        hfilling'.opening.balanced.allocations_length]
      exact hs.buffers
    · intro b
      refine (hfilling'.allocation?_eq (ρ.buffer b)).trans ?_
      refine .trans ?_ (congrArg (Option.map ρ.allocation) (hfilling.allocation?_eq b)).symm
      by_cases hb : b ∈ w.required
      · rw [if_pos hb, if_pos ((hmem b).mpr hb), hs.slots b hb]
        rfl
      · rw [if_neg hb, if_neg (mt (hmem b).mp hb)]
        rfl

end Renamed
end Workload
end FrameGraph
