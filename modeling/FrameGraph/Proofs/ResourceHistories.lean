import FrameGraph.Proofs.FrameRuns

/-!
# Resources in a run

What becomes of the resources of a renderer over any sequence of commands. A
`History` keeps, besides the session, everything that was seen of it and the
resources that were created directly in the backend.

The events of a history are a ledger of all resources that ever existed: it
starts with nothing and ends with what is in the pools and what was created
directly. Every command adds to it, whether it succeeds or fails, and from the
ledger follows what `History.Conserved` says.
-/
namespace FrameGraph

namespace Session

variable {session : Session} {others : List Nat}

def inventory (session : Session) : Inventory := session.renderer.inventory

/-- What is seen of a command. -/
def seen (session : Session) : Command → List Event
  | .setup d required => ((Renderer.setup d required).run session.renderer).events
  | .render => (Renderer.render.run session.renderer).events
  | .resize resolution => ((Renderer.resize resolution).run session.renderer).events
  | .dispose => (Renderer.dispose.run session.renderer).events
  | .limit capacity => ((Renderer.limit capacity).run session.renderer).events
  | .createForeign c => ((Renderer.createForeign c).run session.renderer).events

/-- The resource that a command creates directly in the backend. -/
def granted (session : Session) : Command → List Nat
  | .createForeign c => ((Renderer.createForeign c).run session.renderer).result.toOption.toList
  | _ => []

theorem step_setup (session : Session) (d : Description) (required : List Nat) :
    (session.step (.setup d required)).renderer =
      ((Renderer.setup d required).run session.renderer).state := by
  unfold step
  dsimp only
  split <;> rfl

/-- Every command keeps the books, and what is seen of it accounts for the change
of the pools and for the resource created directly. -/
theorem step_accounts (h : session.inventory.Booked others) (command : Command) :
    (session.step command).inventory.Booked (session.granted command ++ others) ∧
      Event.Accounts session.inventory.backend.nextId session.inventory.pools.resources
        (session.seen command) (session.step command).inventory.backend.nextId
        (session.granted command ++ (session.step command).inventory.pools.resources) := by
  have hkeeps : ∀ j es, session.inventory.Conserves others es j → j.Booked ([] ++ others) ∧
      Event.Accounts session.inventory.backend.nextId session.inventory.pools.resources es
        j.backend.nextId ([] ++ j.pools.resources) :=
    fun j es hj => ⟨hj.booked, hj.accounts⟩
  cases command with
  | setup d required =>
      have hends := Renderer.setup_ends h d required
      unfold Session.inventory
      rw [step_setup]
      exact hkeeps _ _ hends.1
  | render =>
      have hends := Renderer.render_ends session.renderer
      exact hkeeps _ _ (.of_eq h (congrArg _ hends.1) (congrArg _ hends.1) hends.2.2.2)
  | resize resolution =>
      have hends := Renderer.resize_ends session.renderer resolution
      exact hkeeps _ _ (.of_eq h (congrArg _ hends.1) (congrArg _ hends.1) hends.2.2.2)
  | dispose => exact hkeeps _ _ (Renderer.dispose_ends h).1
  | limit capacity => exact hkeeps _ _ (Renderer.limit_ends h capacity).1
  | createForeign c =>
      have hends := Renderer.createForeign_ends h c
      refine ⟨hends.1, ?_⟩
      have hpools : (session.step (.createForeign c)).inventory.pools = session.inventory.pools :=
        hends.2.2.1
      rw [hpools]
      exact hends.2.1.frame session.inventory.pools.resources

end Session

/-- A session, everything seen of it so far, and the resources created directly
in its backend, the last one first. -/
structure History where
  session : Session
  events : List Event := []
  foreign : List Nat := []

namespace History

variable {h : History}

def inventory (h : History) : Inventory := h.session.inventory

def step (h : History) (command : Command) : History where
  session := h.session.step command
  events := h.events ++ h.session.seen command
  foreign := h.session.granted command ++ h.foreign

/-- The history of a new renderer through a sequence of commands. -/
def run (config : Config) (commands : List Command) : History :=
  commands.foldl step { session := .start config }

/-- The ledger of all resources. -/
structure Sound (h : History) : Prop where
  booked : h.inventory.Booked h.foreign
  accounts : Event.Accounts 0 [] h.events h.inventory.backend.nextId
    (h.inventory.pools.resources ++ h.foreign)

theorem sound_start (config : Config) : Sound { session := .start config } where
  booked := ⟨Pools.sorted_empty, Backend.holds_empty none⟩
  accounts := .refl _ _

theorem Sound.step (hs : h.Sound) (command : Command) : (h.step command).Sound := by
  obtain ⟨hbooked, haccounts⟩ := Session.step_accounts hs.booked command
  refine ⟨hbooked, hs.accounts.append ((haccounts.frame h.foreign).perm_right ?_)⟩
  rw [List.append_assoc]
  exact List.perm_append_comm_assoc _ _ _

theorem run_sound (config : Config) (commands : List Command) : (run config commands).Sound := by
  have hsteps : ∀ h : History, h.Sound → (commands.foldl History.step h).Sound := by
    induction commands with
    | nil => exact fun _ hs => hs
    | cons command commands ih => exact fun _ hs => ih _ (hs.step command)
  exact hsteps _ (sound_start config)

/-- A history follows the session that it is about. -/
theorem session_run (config : Config) (commands : List Command) :
    (run config commands).session = Session.run config commands :=
  (List.foldl_hom History.session fun _ _ => rfl).symm

/-- What is alive is what the pools hold and what was created directly. A
resource is only destroyed if it was created by the renderer and is still
alive. Once the renderer is disposed of, only what was created directly is
left. -/
structure Conserved (h : History) : Prop where
  alive : (h.inventory.backend.live.map (·.1)).Perm (h.inventory.pools.resources ++ h.foreign)
  distinct : (h.inventory.pools.resources ++ h.foreign).Nodup
  known : ∀ r, .unknownDestroyed r ∉ h.events
  destroyed : ∀ before r after, h.events = before ++ .destroyed r :: after →
    r ∈ Event.createdIn before ∧ r ∉ Event.destroyedIn before ∧ r ∉ h.foreign
  counted : h.inventory.backend.createdCount =
    h.inventory.backend.destroyedCount + h.inventory.backend.liveCount
  disposed : (h.step .dispose).inventory.pools = {} ∧
    ((h.step .dispose).inventory.backend.live.map (·.1)).Perm h.foreign

theorem Sound.conserved (hs : h.Sound) : h.Conserved where
  alive := hs.booked.holds.perm
  distinct := hs.booked.holds.nodup
  known := hs.accounts.known
  destroyed := by
    intro before r after hevents
    have haccounts := hs.accounts
    rw [hevents] at haccounts
    obtain ⟨hcreated, honce, hgone⟩ := haccounts.destroyed_once
    exact ⟨hcreated, honce, fun hforeign => hgone (List.mem_append_right _ hforeign)⟩
  counted := by
    rw [hs.booked.holds.counted, ← hs.booked.holds.perm.length_eq, List.length_map]
    rfl
  disposed := by
    have hempty : (h.step .dispose).inventory.pools = {} :=
      (Renderer.dispose_ends hs.booked).2.1
    have hperm := (hs.step .dispose).booked.holds.perm
    rw [hempty] at hperm
    exact ⟨hempty, hperm⟩

end History

/-- Whatever is done with a renderer, its resources are conserved. -/
theorem resources_conserved (config : Config) (commands : List Command) :
    (History.run config commands).session = Session.run config commands ∧
      (History.run config commands).Conserved :=
  ⟨History.session_run config commands, (History.run_sound config commands).conserved⟩

end FrameGraph
