import LocalBolt.App.Lemmas.DialOut

/-!
This module contains what a signaling message can do to an attempt or a session with somebody else
than its sender.
-/

namespace LocalBolt

namespace App

/--
A signaling message is handled, and the view reacts if it has raised the flag for a declined
connection.
-/
def receive (s : App) (signal : IncomingSignal) : App × List Command :=
  let (s', commands) := s.handleSignal signal
  if s'.signaling.connectionDeclined ≠ s.signaling.connectionDeclined
      ∧ s'.seen.connectionDeclined ≠ s'.signaling.connectionDeclined then
    (s'.onConnectionDeclined, commands)
  else
    (s', commands)

theorem exec_receive {s : App} (h : s.polling.isNone = true) (signal : IncomingSignal)
    : Machine.exec next s [.incomingSignal signal] = some (s.receive signal).1
      ∨ Machine.exec next s [.incomingSignal signal, .onConnectionDeclined]
          = some (s.receive signal).1 := by
  have hpolling : (s.handleSignal signal).1.polling.isNone = true := by
    rw [handleSignal_polling]
    exact h
  unfold receive
  dsimp only
  split
  . next hraised =>
    right
    simp [Machine.exec, next, step, h, hpolling, onMain, hraised.2]
  . left
    simp [Machine.exec, next, step, h, onMain]

def InProgress (s : App) (c : Counterpart) (peerCode : String) : Prop :=
  (s.ipc.sessionPhase = .requesting ∨ s.ipc.sessionPhase = .connecting
      ∨ s.ipc.sessionPhase = .connected)
    ∧ c.peerCode = some peerCode

structure Undisturbed (s : App) (signal : IncomingSignal) : Prop where
  attempt : (s.receive signal).1.ipc.attempt = s.ipc.attempt
  transferPhase : (s.receive signal).1.ipc.transferPhase = s.ipc.transferPhase
  generation : (s.receive signal).1.ipc.generation = s.ipc.generation
  commands : ∀ command ∈ (s.receive signal).2, command.isDaemon = false

def Harmless (s : App) (signal : IncomingSignal) : Prop :=
  (signal.signalType = "connection_accepted" → s.ipc.sessionPhase ≠ .requesting)
    ∧ (signal.signalType = "connection_declined" →
      s.signaling.connectionDeclined = true ∨ s.seen.connectionDeclined = true)

instance (s : App) (c : Counterpart) (peerCode : String) : Decidable (InProgress s c peerCode) := by
  unfold InProgress
  infer_instance

instance (s : App) (signal : IncomingSignal) : Decidable (Harmless s signal) := by
  unfold Harmless
  infer_instance

theorem handleSignal_declined {signal : IncomingSignal}
    (h : signal.signalType = "connection_declined") (s : App)
    : s.handleSignal signal
        =
      ({ s with signaling := { s.signaling with connectionDeclined := true } }, []) := by
  simp [handleSignal, h]

theorem handleSignal_declined_flag {s : App} {signal : IncomingSignal}
    (h : signal.signalType ≠ "connection_declined")
    : (s.handleSignal signal).1.signaling.connectionDeclined = s.signaling.connectionDeclined := by
  unfold handleSignal
  split
  . unfold connectionRequest
    dsimp only
    split <;> rfl
  . unfold connectionAccepted
    dsimp only
    split
    . split <;> rfl
    . rfl
  . contradiction
  . rfl

theorem receive_of_not_declined {s : App} {signal : IncomingSignal}
    (h : signal.signalType ≠ "connection_declined") : s.receive signal = s.handleSignal signal := by
  simp [receive, handleSignal_declined_flag h]

theorem receive_of_lost_decline {s : App} {signal : IncomingSignal}
    (h : signal.signalType = "connection_declined")
    (hflag : s.signaling.connectionDeclined = true ∨ s.seen.connectionDeclined = true) :
    (s.receive signal).1.ipc = s.ipc ∧ (s.receive signal).2 = [] := by
  unfold receive
  rw [handleSignal_declined h]
  rcases hflag with hflag | hseen
  . simp [hflag]
  . simp [hseen]

theorem receive_of_raised_decline {s : App} {signal : IncomingSignal}
    (h : signal.signalType = "connection_declined") (hflag : s.signaling.connectionDeclined = false)
    (hseen : s.seen.connectionDeclined = false) :
    (s.receive signal).1.ipc = s.ipc.resetSession := by
  unfold receive
  rw [handleSignal_declined h]
  simp [hflag, hseen, onConnectionDeclined]

theorem Undisturbed.of_same {s : App} {signal : IncomingSignal}
    (h : (s.receive signal).1.ipc = s.ipc ∧ (s.receive signal).2 = []) : Undisturbed s signal := by
  constructor <;> simp [h]

theorem undisturbed_iff_harmless {s : App} {signal : IncomingSignal}
    (hphase : s.ipc.sessionPhase = .requesting ∨ s.ipc.sessionPhase = .connecting
      ∨ s.ipc.sessionPhase = .connected) : Undisturbed s signal ↔ Harmless s signal := by
  -- a decline works through the flag, an acceptance through the phase, the rest not at all
  by_cases hdeclined : signal.signalType = "connection_declined"
  . have hacc : signal.signalType ≠ "connection_accepted" := by simp [hdeclined]
    constructor
    . intro h
      refine ⟨fun h => absurd h hacc, fun _ => ?_⟩
      by_contra hraised
      obtain ⟨hflag, hseen⟩ := not_or.mp hraised
      have hgeneration := h.generation
      rw [receive_of_raised_decline hdeclined (by simpa using hflag) (by simpa using hseen)]
        at hgeneration
      simp [IpcManager.resetSession] at hgeneration
    . intro h
      exact .of_same (receive_of_lost_decline hdeclined (h.2 hdeclined))
  . have hreceive := receive_of_not_declined (s := s) hdeclined
    by_cases hacc : signal.signalType = "connection_accepted"
    . constructor
      . intro h
        refine ⟨fun _ hrequesting => ?_, fun h => absurd h hdeclined⟩
        have hattempt := congrArg Attempt.sessionPhase h.attempt
        rw [hreceive] at hattempt
        simp only [IpcManager.attempt_sessionPhase, hrequesting,
          handleSignal_accepted_phase hacc (.inl hrequesting)] at hattempt
        simp at hattempt
      . intro h
        have hawaits : ¬ s.AwaitsAcceptance := by
          have := h.1 hacc
          rintro (hrequesting | hincoming)
          . exact this hrequesting
          . simp [hincoming] at hphase
        apply Undisturbed.of_same
        rw [hreceive, handleSignal_accepted hacc, connectionAccepted_of_not hawaits]
        exact ⟨rfl, rfl⟩
    . have hopen : ¬ s.ipc.sessionPhase.canStartFreshConnection = true := by
        rcases hphase with hphase | hphase | hphase <;>
          simp [hphase, SessionPhase.canStartFreshConnection]
      have hsame : Undisturbed s signal := by
        apply Undisturbed.of_same
        rw [hreceive]
        exact handleSignal_ipc_of_not_accepted hacc hopen
      have hharmless : Harmless s signal := ⟨fun h => absurd h hacc, fun h => absurd h hdeclined⟩
      exact iff_of_true hsame hharmless

theorem bystander_cannot_disturb_iff (peerCode : String) (daemonBinaryPath : Option String)
    {tr : List (Transition (App × Counterpart) Action)} {q : App × Counterpart}
    (h : (watched IpcManager.counterpart peerCode daemonBinaryPath).Run tr q)
    : (∀ t ∈ tr, ∀ signal peer, t.action = .incomingSignal signal →
          InProgress t.source.1 t.source.2 peer → signal.fromPeer ≠ peer →
            Undisturbed t.source.1 signal)
        ↔
      ∀ t ∈ tr, ∀ signal peer, t.action = .incomingSignal signal →
        InProgress t.source.1 t.source.2 peer → signal.fromPeer ≠ peer →
          Harmless t.source.1 signal := by
  refine Machine.Run.forall_iff ?_ h
  rintro ⟨s, c⟩ action ⟨s', c'⟩ - -
  refine forall₂_congr fun signal peer => forall_congr' fun _ => forall_congr' fun hprogress => ?_
  exact forall_congr' fun _ => undisturbed_iff_harmless hprogress.1

def bobConnected : List Action :=
  let bob : DiscoveredPeer := ⟨"B7H2MN", "Bob", "laptop", none, none⟩
  launch [bob] ++ .initiateConnection bob ⟨"192.168.1.5", none⟩ :: deliver [sessionConnectedEvent] ⟨0⟩

theorem bystander_requests_and_accepts
    : let tr := Machine.trace
        (Machine.observedFun
          (IpcManager.counterpart.comap (simulation "A3F9KQ" (some "bolt-daemon"))) next)
        (init "A3F9KQ" (some "bolt-daemon"), .nobody)
        (bobConnected
          ++ [.incomingSignal ⟨"X0Z4WW", "connection_request", []⟩,
            .incomingSignal ⟨"X0Z4WW", "connection_accepted", []⟩])
      (∃ t ∈ tr, InProgress t.source.1 t.source.2 "B7H2MN"
          ∧ (t.action matches .incomingSignal ⟨"X0Z4WW", _, _⟩) = true)
        ∧ ∀ t ∈ tr, ∀ signal peer, t.action = .incomingSignal signal →
            InProgress t.source.1 t.source.2 peer → signal.fromPeer ≠ peer →
              Undisturbed t.source.1 signal := by
  intro tr
  have hpresent : tr.any (fun t => InProgress t.source.1 t.source.2 "B7H2MN"
      ∧ (t.action matches .incomingSignal ⟨"X0Z4WW", _, _⟩) = true) = true := by decide
  have hharmless : tr.all (fun t =>
      match t.action with
      | .incomingSignal signal => Harmless t.source.1 signal
      | _ => true) = true := by decide
  obtain ⟨q, h⟩ := Machine.observed_run_trace
    (IpcManager.counterpart.comap (simulation "A3F9KQ" (some "bolt-daemon")))
    (M := machine "A3F9KQ" (some "bolt-daemon")) rfl (fun _ _ _ => id)
    (bobConnected
      ++ [.incomingSignal ⟨"X0Z4WW", "connection_request", []⟩,
        .incomingSignal ⟨"X0Z4WW", "connection_accepted", []⟩])
  constructor
  . obtain ⟨t, ht, hpresent⟩ := List.any_eq_true.mp hpresent
    exact ⟨t, ht, of_decide_eq_true hpresent⟩
  . apply (bystander_cannot_disturb_iff _ _ h).mpr
    intro t ht signal peer hsignal _ _
    have := List.all_eq_true.mp hharmless t ht
    rw [hsignal] at this
    exact of_decide_eq_true this

theorem bystander_declines
    : ∃ tr q, (renderedWatched IpcManager.counterpart "A3F9KQ" (some "bolt-daemon")).Run tr q
        ∧ ∃ t ∈ tr, ∃ signal, t.action = .incomingSignal signal
          ∧ InProgress t.source.1 t.source.2 "B7H2MN" ∧ signal.fromPeer = "X0Z4WW"
          ∧ t.source.1.ipc.sessionPhase = .connected
          ∧ (t.source.1.receive signal).1.ipc.sessionPhase = .idle := by
  obtain ⟨tr, q, h, t, ht, hdeclines⟩ := Machine.exists_observed_transition
    (IpcManager.counterpart.comap (simulation "A3F9KQ" (some "bolt-daemon")))
    (M := rendered "A3F9KQ" (some "bolt-daemon")) rfl (fun _ _ _ => id)
    (bobConnected ++ [.incomingSignal ⟨"X0Z4WW", "connection_declined", []⟩])
    (P := fun t =>
      match t.action with
      | .incomingSignal signal =>
        InProgress t.source.1 t.source.2 "B7H2MN" ∧ signal.fromPeer = "X0Z4WW"
          ∧ t.source.1.ipc.sessionPhase = .connected
          ∧ (t.source.1.receive signal).1.ipc.sessionPhase = .idle
      | _ => false)
    (by decide)
  refine ⟨tr, q, h, t, ht, ?_⟩
  split at hdeclines
  . next signal hsignal => exact ⟨signal, hsignal, of_decide_eq_true hdeclines⟩
  . simp at hdeclines

end App

end LocalBolt
