import LocalBolt.App.Lemmas.Simulation
import LocalBolt.Session.Lemmas.Inert

/-!
This module contains the events that the daemon emitted before a reset of the session manager and
that a poll handles after it.
-/

namespace LocalBolt

namespace App

/--
The next line of the running poll, which captured the generation `gen`, was emitted in an earlier
generation than the current one.
-/
def StaleLine (s : App) (gen : Nat) (queued : Queued) : Prop :=
  ∃ lines, s.polling = some { gen, lines := queued :: lines } ∧ queued.emittedIn < s.ipc.generation

def RejectsStale (t : Transition App Action) : Prop :=
  ∀ now gen queued, t.action = .ipcLine now → StaleLine t.source gen queued →
    t.target.ipc.sessionState = t.source.ipc.sessionState

def StaleIsInert (t : Transition App Action) : Prop :=
  ∀ now gen queued, t.action = .ipcLine now → StaleLine t.source gen queued →
    gen = t.source.ipc.generation → ∀ event, DaemonEvent.ofLine queued.line = some event →
      t.source.ipc.Inert event

theorem next_ipcLine {s s' : App} {now : Date} {gen : Nat} {queued : Queued} {lines : List Queued}
    (h : s.next (.ipcLine now) = some s') (hpolling : s.polling = some { gen, lines := queued :: lines }) :
    (s'.ipc = s.ipc ∧ (gen ≠ s.ipc.generation ∨ DaemonEvent.ofLine queued.line = none))
      ∨ (gen = s.ipc.generation ∧ ∃ event, DaemonEvent.ofLine queued.line = some event
          ∧ s.ipc.handleEvent event now = some s'.ipc) := by
  simp only [next, step, Option.map_map, ipcLine, hpolling] at h
  split at h
  . next hgen =>
    have hgen : gen = s.ipc.generation := by simpa [IpcManager.isCurrentGeneration] using hgen
    split at h
    . next hline =>
      obtain rfl := Option.some.inj h
      exact .inl ⟨rfl, .inr hline⟩
    . next event hline =>
      rw [Option.map_map] at h
      obtain ⟨ipc, hipc, rfl⟩ := Option.map_eq_some_iff.mp h
      exact .inr ⟨hgen, event, hline, hipc⟩
  . next hgen =>
    obtain rfl := Option.some.inj h
    exact .inl ⟨rfl, .inl (by simpa [IpcManager.isCurrentGeneration] using hgen)⟩

theorem rejectsStale_iff {s s' : App} {action : Action} (h : s.next action = some s') :
    RejectsStale ⟨s, action, s'⟩ ↔ StaleIsInert ⟨s, action, s'⟩ := by
  unfold RejectsStale StaleIsInert
  refine forall₃_congr fun now gen queued => forall_congr' fun haction => forall_congr' fun hstale => ?_
  dsimp only at haction hstale ⊢
  subst haction
  obtain ⟨lines, hpolling, -⟩ := hstale
  rcases next_ipcLine h hpolling with ⟨hsame, hskipped⟩ | ⟨hgen, event, hline, hevent⟩
  . rw [hsame]
    apply iff_of_true rfl
    intro hgen event hline
    rcases hskipped with hold | hnone
    . exact absurd hgen hold
    . simp [hnone] at hline
  . rw [IpcManager.sessionState_handleEvent hevent]
    constructor
    . intro hinert _ event' hline'
      rw [hline, Option.some.injEq] at hline'
      subst hline'
      exact hinert
    . intro hinert
      exact hinert hgen event hline

def cancelledRequest : List Action :=
  let bob : DiscoveredPeer := ⟨"B7H2MN", "Bob", "laptop", none, none⟩
  let carol : DiscoveredPeer := ⟨"C8J3PQ", "Carol", "phone", none, none⟩
  launch [bob, carol]
    ++ [.initiateConnection bob ⟨"192.168.1.5", none⟩,
      .ipcCallback sessionConnectedEvent.1 sessionConnectedEvent.2,
      .cancelRequest]

end App

end LocalBolt
