import FrameGraph.Act

/-!
# Postconditions

What an act leaves behind when it is started in a given state, whether it
succeeds or fails, and the events that it emits on the way. There is one rule
for each way in which acts are put together.
-/
namespace FrameGraph.Act

variable {σ τ α β : Type} {s : σ} {a : Act σ α}

/-- Started in a state, the act ends with a result and a state, and emits events,
for which the postcondition holds. -/
def Ends (a : Act σ α) (s : σ) (post : Except GraphError α → σ → List Event → Prop) : Prop :=
  post (a.run s).result (a.run s).state (a.run s).events

theorem Ends.mono {P Q : Except GraphError α → σ → List Event → Prop} (h : a.Ends s P)
    (hpq : ∀ r t es, P r t es → Q r t es) : a.Ends s Q :=
  hpq _ _ _ h

theorem Ends.and {P Q : Except GraphError α → σ → List Event → Prop} (hp : a.Ends s P)
    (hq : a.Ends s Q) : a.Ends s fun r t es => P r t es ∧ Q r t es :=
  ⟨hp, hq⟩

/-- After a success the second act takes over, a failure ends the whole. -/
theorem Ends.bind {next : α → Act σ β} {P : Except GraphError α → σ → List Event → Prop}
    {Q : Except GraphError β → σ → List Event → Prop} (h : a.Ends s P)
    (hok : ∀ v t es, P (.ok v) t es → (next v).Ends t fun r u es' => Q r u (es ++ es'))
    (herror : ∀ e t es, P (.error e) t es → Q (.error e) t es) : (a >>= next).Ends s Q := by
  unfold Ends at h ⊢
  cases hrun : a.run s with
  | mk result t events =>
      rw [hrun] at h
      cases result with
      | ok v =>
          rw [run_bind_ok hrun]
          exact hok v t events h
      | error e =>
          rw [run_bind_error hrun]
          exact herror e t events h

/-- An act that always succeeds hands its state on. -/
theorem Ends.bind_of_ok {v : α} {next : α → Act σ β} {P : σ → List Event → Prop}
    {Q : Except GraphError β → σ → List Event → Prop}
    (h : a.Ends s fun r t es => r = .ok v ∧ P t es)
    (hnext : ∀ t es, P t es → (next v).Ends t fun r u es' => Q r u (es ++ es')) :
    (a >>= next).Ends s Q := by
  apply h.bind
  · intro w t es ht
    obtain ⟨hv, ht⟩ := ht
    cases hv
    exact hnext t es ht
  · intro e t es ht
    cases ht.1

section
variable {Q : Except GraphError β → σ → List Event → Prop}

theorem ends_pure {v : β} : (pure v : Act σ β).Ends s Q ↔ Q (.ok v) s [] := Iff.rfl

/-- The value of an act is passed on changed. -/
theorem ends_bind_pure {f : α → β} :
    (a >>= fun v => pure (f v)).Ends s Q ↔ a.Ends s fun r t es => Q (r.map f) t es := by
  unfold Ends
  cases hrun : a.run s with
  | mk result t events =>
      cases result with
      | ok v =>
          rw [run_bind_ok hrun, run_pure, List.append_nil]
          rfl
      | error e =>
          rw [run_bind_error hrun]
          rfl

theorem ends_get_bind {next : σ → Act σ β} : (get >>= next).Ends s Q ↔ (next s).Ends s Q := Iff.rfl

theorem ends_modify {f : σ → σ} {Q : Except GraphError Unit → σ → List Event → Prop} :
    (modify f).Ends s Q ↔ Q (.ok ()) (f s) [] := Iff.rfl

theorem ends_modify_bind {f : σ → σ} {next : Unit → Act σ β} :
    (modify f >>= next).Ends s Q ↔ (next ()).Ends (f s) Q := Iff.rfl

theorem ends_emit {e : Event} {Q : Except GraphError Unit → σ → List Event → Prop} :
    (emit e).Ends s Q ↔ Q (.ok ()) s [e] := Iff.rfl

theorem ends_emit_bind {e : Event} {next : Unit → Act σ β} :
    (emit e >>= next).Ends s Q ↔ (next ()).Ends s fun r t es => Q r t (e :: es) := Iff.rfl

theorem ends_emitAll_bind {es : List Event} {next : Unit → Act σ β} :
    (emitAll es >>= next).Ends s Q ↔ (next ()).Ends s fun r t es' => Q r t (es ++ es') := Iff.rfl

theorem ends_ofExcept_ok_bind {v : α} {next : α → Act σ β} :
    (ofExcept (.ok v) >>= next).Ends s Q ↔ (next v).Ends s Q := Iff.rfl

theorem ends_ofExcept_error_bind {e : GraphError} {next : α → Act σ β} :
    (ofExcept (.error e) >>= next).Ends s Q ↔ Q (.error e) s [] := Iff.rfl

theorem ends_on {view : σ → τ} {update : σ → τ → σ} {b : Act τ β} :
    (on view update b).Ends s Q ↔ b.Ends (view s) fun r t es => Q r (update s t) es := Iff.rfl

end

end FrameGraph.Act
