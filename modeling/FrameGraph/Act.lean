import FrameGraph.Error
import FrameGraph.Event

/-!
# Acts

An act runs on a state, emits events and may fail. A failure keeps the state and
the events reached so far: what a failed act did stays done.
-/
namespace FrameGraph

structure Outcome (σ α : Type) where
  result : Except GraphError α
  state : σ
  events : List Event
deriving Repr

def Act (σ α : Type) : Type := σ → Outcome σ α

namespace Act

variable {σ τ α β : Type}

def run (a : Act σ α) (s : σ) : Outcome σ α := a s

/-- Go on with the value of an act, from the state it left. -/
def andThen (a : Act σ α) (next : α → Act σ β) : Act σ β := fun s =>
  let first := a.run s
  match first.result with
  | .error e => ⟨.error e, first.state, first.events⟩
  | .ok value =>
      let second := (next value).run first.state
      ⟨second.result, second.state, first.events ++ second.events⟩

instance : Monad (Act σ) where
  pure value := fun s => ⟨.ok value, s, []⟩
  bind := andThen

def get : Act σ σ := fun s => ⟨.ok s, s, []⟩

def modify (f : σ → σ) : Act σ Unit := fun s => ⟨.ok (), f s, []⟩

def emit (e : Event) : Act σ Unit := fun s => ⟨.ok (), s, [e]⟩

def emitAll (es : List Event) : Act σ Unit := fun s => ⟨.ok (), s, es⟩

def fail (e : GraphError) : Act σ α := fun s => ⟨.error e, s, []⟩

/-- A computation that touches no state. -/
def ofExcept (x : Except GraphError α) : Act σ α := fun s => ⟨x, s, []⟩

/-- Run an act on a part of the state. -/
def on (view : σ → τ) (update : σ → τ → σ) (a : Act τ α) : Act σ α := fun s =>
  let part := a.run (view s)
  ⟨part.result, update s part.state, part.events⟩

@[simp] theorem run_pure (value : α) (s : σ) :
    (pure value : Act σ α).run s = ⟨.ok value, s, []⟩ := rfl

@[simp] theorem run_get (s : σ) : (get : Act σ σ).run s = ⟨.ok s, s, []⟩ := rfl

@[simp] theorem run_modify (f : σ → σ) (s : σ) : (modify f).run s = ⟨.ok (), f s, []⟩ := rfl

@[simp] theorem run_emit (e : Event) (s : σ) : (emit e).run s = ⟨.ok (), s, [e]⟩ := rfl

@[simp] theorem run_emitAll (es : List Event) (s : σ) :
    (emitAll es).run s = ⟨.ok (), s, es⟩ := rfl

theorem run_bind_ok {a : Act σ α} {next : α → Act σ β} {s t : σ} {value : α}
    {events : List Event} (h : a.run s = ⟨.ok value, t, events⟩) :
    (a >>= next).run s =
      ⟨((next value).run t).result, ((next value).run t).state,
        events ++ ((next value).run t).events⟩ := by
  change andThen a next s = _
  simp [andThen, h]

theorem run_bind_error {a : Act σ α} {next : α → Act σ β} {s t : σ} {e : GraphError}
    {events : List Event} (h : a.run s = ⟨.error e, t, events⟩) :
    (a >>= next).run s = ⟨.error e, t, events⟩ := by
  change andThen a next s = _
  simp [andThen, h]

@[simp] theorem run_on (view : σ → τ) (update : σ → τ → σ) (a : Act τ α) (s : σ) :
    (on view update a).run s =
      ⟨(a.run (view s)).result, update s (a.run (view s)).state, (a.run (view s)).events⟩ := rfl

end Act
end FrameGraph
