import FrameGraph.Error

/-!
# Slots

A slot is a place for one buffer at a time. The slots of a storage class are
numbered from zero as they are first handed out; a released slot goes to the top
of a stack and is the next to be handed out again. The number of slots ever
handed out is the most that were in use at one time.

A slot allocator has one pool of slots for each storage class it has met. The
number of a class is its place in the order of first meeting; a map finds it.

That flags and stack, and map and tables, say the same is nothing that the types
see to. It is the invariant `SlotAllocator.Valid`.
-/
namespace FrameGraph

/-- A slot of a class, both by number. -/
structure Allocation where
  classId : Nat
  slot : Nat
deriving DecidableEq, Repr

/-- A flag for every slot handed out so far tells whether it is in use; those
that are not are stacked. -/
structure SlotPool where
  live : List Bool := []
  free : List Nat := []
deriving DecidableEq, Repr

namespace SlotPool

def empty : SlotPool := {}

def Live (pool : SlotPool) (slot : Nat) : Prop := pool.live[slot]? = some true

instance (pool : SlotPool) (slot : Nat) : Decidable (pool.Live slot) :=
  inferInstanceAs (Decidable (_ = _))

/-- The number of slots handed out so far, in use or not. -/
def minted (pool : SlotPool) : Nat := pool.live.length

/-- Hand out the slot released last, or a new one. -/
def acquire (pool : SlotPool) : Nat × SlotPool :=
  match pool.free with
  | slot :: rest => (slot, ⟨pool.live.set slot true, rest⟩)
  | [] => (pool.live.length, { pool with live := pool.live ++ [true] })

/-- Take back a slot if its flag says that it is in use. -/
def release (pool : SlotPool) (slot : Nat) : Bool × SlotPool :=
  match pool.live[slot]? with
  | some true => (true, ⟨pool.live.set slot false, slot :: pool.free⟩)
  | _ => (false, pool)

/-- The most slots in use at one time so far. -/
def peak (pool : SlotPool) : Nat := pool.minted

def freeCount (pool : SlotPool) : Nat := pool.free.length

def liveCount (pool : SlotPool) : Nat := pool.minted - pool.free.length

theorem acquire_of_free {pool : SlotPool} {slot : Nat} {rest : List Nat}
    (h : pool.free = slot :: rest) : pool.acquire = (slot, ⟨pool.live.set slot true, rest⟩) := by
  simp [acquire, h]

theorem acquire_of_full {pool : SlotPool} (h : pool.free = []) :
    pool.acquire = (pool.minted, { pool with live := pool.live ++ [true] }) := by
  simp [acquire, h, minted]

theorem release_of_live {pool : SlotPool} {slot : Nat} (h : pool.Live slot) :
    pool.release slot = (true, ⟨pool.live.set slot false, slot :: pool.free⟩) := by
  unfold release
  rw [h]

theorem release_of_not_live {pool : SlotPool} {slot : Nat} (h : ¬pool.Live slot) :
    pool.release slot = (false, pool) := by
  unfold release
  split
  · contradiction
  · rfl

end SlotPool

/-- A map from the classes met so far to their numbers, and by number the classes
and their slots. -/
structure SlotAllocator where
  ids : List (StorageClass × Nat) := []
  classes : List StorageClass := []
  slotPools : List SlotPool := []
deriving DecidableEq, Repr

namespace SlotAllocator

def class? (a : SlotAllocator) (id : Nat) : Option StorageClass := a.classes[id]?

def pool? (a : SlotAllocator) (id : Nat) : Option SlotPool := a.slotPools[id]?

def pools (a : SlotAllocator) : List (StorageClass × SlotPool) := a.classes.zip a.slotPools

/-- The number of a class; the number of classes where it has not been met. -/
def idOf (a : SlotAllocator) (c : StorageClass) : Nat := (a.ids.lookup c).getD a.classes.length

/-- The number of a class, which is given one where it has not been met. -/
def meet (a : SlotAllocator) (c : StorageClass) : Nat × SlotAllocator :=
  match a.ids.lookup c with
  | some id => (id, a)
  | none =>
      (a.classes.length,
        ⟨(c, a.classes.length) :: a.ids, a.classes ++ [c], a.slotPools ++ [SlotPool.empty]⟩)

def intern (a : SlotAllocator) (c : StorageClass) : SlotAllocator := (a.meet c).2

def setPool (a : SlotAllocator) (id : Nat) (pool : SlotPool) : SlotAllocator :=
  { a with slotPools := a.slotPools.set id pool }

/-- Hand out a slot of a class. A number that no class has gets slot zero and
changes nothing. -/
def acquire (a : SlotAllocator) (id : Nat) : Allocation × SlotAllocator :=
  match a.pool? id with
  | some pool => (⟨id, pool.acquire.1⟩, a.setPool id pool.acquire.2)
  | none => (⟨id, 0⟩, a)

/-- Take back a slot. What the allocator is then is told also where it refuses. -/
def giveBack (a : SlotAllocator) (x : Allocation) : Except GraphError Unit × SlotAllocator :=
  let (released, slots) := match a.pool? x.classId with
    | some pool => ((pool.release x.slot).1, a.setPool x.classId (pool.release x.slot).2)
    | none => (false, a)
  (if released then .ok () else .error (.inconsistent (.releasedUnallocated x.slot x.classId)),
    slots)

/-- Take back a slot for a caller that gives up where it is refused. -/
def release (a : SlotAllocator) (x : Allocation) : Except GraphError SlotAllocator :=
  match a.giveBack x with
  | (.ok (), slots) => .ok slots
  | (.error e, _) => .error e

theorem giveBack_eq_ok {a b : SlotAllocator} {x : Allocation} :
    a.giveBack x = (.ok (), b) ↔ a.release x = .ok b := by
  unfold release
  split
  · rename_i slots hgive
    simp [hgive]
  · rename_i e slots hgive
    simp [hgive]

def freeCount (a : SlotAllocator) (id : Nat) : Nat := ((a.pool? id).map (·.freeCount)).getD 0

def liveCount (a : SlotAllocator) (id : Nat) : Nat := ((a.pool? id).map (·.liveCount)).getD 0

def peak (a : SlotAllocator) (id : Nat) : Nat := ((a.pool? id).map (·.peak)).getD 0

/-- Every class with the most slots of it in use at one time. -/
def peaks (a : SlotAllocator) : List (StorageClass × Nat) :=
  a.pools.map fun (c, pool) => (c, pool.peak)

end SlotAllocator
end FrameGraph
