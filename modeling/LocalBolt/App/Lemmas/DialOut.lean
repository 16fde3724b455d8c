import LocalBolt.App.Lemmas.Simulation
import LocalBolt.Session.Lemmas.Counterpart

/-!
This module contains the handling of signaling messages: what each of them does to the session
manager, and when the app dials out because of one.
-/

namespace LocalBolt

namespace App

def AwaitsAcceptance (s : App) : Prop :=
  s.ipc.sessionPhase = .requesting ∨ s.ipc.sessionPhase = .incomingRequest

theorem connectionAccepted_of_awaits {s : App} (h : s.AwaitsAcceptance) (signal : IncomingSignal)
    : s.connectionAccepted signal
        =
      ({ s with ipc := { s.ipc with sessionPhase := .connecting } },
        ((dialUrl signal).map fun wsUrl =>
          Command.connectToRemote wsUrl (signal.data.string? "quicAddr")
            (signal.data.string? "quicCertHash")).toList) := by
  unfold connectionAccepted
  rw [IpcManager.beginConnecting_of h]
  cases dialUrl signal <;> rfl

theorem connectionAccepted_of_not {s : App} (h : ¬ s.AwaitsAcceptance) (signal : IncomingSignal) :
    s.connectionAccepted signal = (s, []) := by
  unfold connectionAccepted
  rw [IpcManager.beginConnecting_of_not h]
  rfl

theorem connectionRequest_commands (s : App) (signal : IncomingSignal) :
    (s.connectionRequest signal).2 = [] := by
  unfold connectionRequest
  dsimp only
  split <;> rfl

theorem handleSignal_dial {s : App} {signal : IncomingSignal} {wsUrl : String}
    {quicAddr quicCertHash : Option String}
    (h : .connectToRemote wsUrl quicAddr quicCertHash ∈ (s.handleSignal signal).2) :
    signal.signalType = "connection_accepted" ∧ s.AwaitsAcceptance ∧ dialUrl signal = some wsUrl
      ∧ quicAddr = signal.data.string? "quicAddr"
      ∧ quicCertHash = signal.data.string? "quicCertHash" := by
  by_cases hreq : signal.signalType = "connection_request"
  . rw [handleSignal_request hreq, connectionRequest_commands] at h
    simp at h
  . by_cases hacc : signal.signalType = "connection_accepted"
    . rw [handleSignal_accepted hacc] at h
      by_cases hawaits : s.AwaitsAcceptance
      . rw [connectionAccepted_of_awaits hawaits] at h
        simp only [Option.mem_toList, Option.map_eq_some_iff] at h
        obtain ⟨wsUrl', hurl, hcommand⟩ := h
        cases hcommand
        exact ⟨hacc, hawaits, hurl, rfl, rfl⟩
      . rw [connectionAccepted_of_not hawaits] at h
        simp at h
    . rw [(handleSignal_other hreq hacc s).2] at h
      simp at h

theorem sendFirstFile_commands (s : App) :
    s.sendFirstFile.2 = (s.fileQueue.head?.map fun url => Command.sendFile url.path).toList := by
  unfold sendFirstFile
  cases s.fileQueue <;> rfl

theorem sendNextOrClear_commands (s : App) :
    s.sendNextOrClear.2 = (s.fileQueue.head?.map fun url => Command.sendFile url.path).toList := by
  unfold sendNextOrClear
  split
  . next h => simp [List.isEmpty_iff.mp h]
  . exact sendFirstFile_commands s

theorem handleSignal_no_sendFile (s : App) (signal : IncomingSignal) (path : String) :
    .sendFile path ∉ (s.handleSignal signal).2 := by
  unfold handleSignal
  split
  . unfold connectionRequest
    dsimp only
    split <;> simp
  . unfold connectionAccepted
    dsimp only
    split
    . split <;> simp
    . simp
  . simp
  . simp

/--
What stands behind a command that the main thread has issued: the files and the addresses that leave
the device.
-/
def Issued (s : App) (action : Action) (p : App × List Command) : Command → Prop
  | .connectToRemote _ _ _ => ∃ signal, action = .incomingSignal signal ∧ p = s.handleSignal signal
  | .sendFile path =>
    (action = .sendFirstFile ∨ action = .sendNextOrClear) ∧ s.fileQueue.head? = some ⟨path⟩
  | _ => True

theorem issued_of_head {s : App} {action : Action} {p : App × List Command} {command : Command}
    (haction : action = .sendFirstFile ∨ action = .sendNextOrClear)
    (h : command ∈ (s.fileQueue.head?.map fun url => Command.sendFile url.path).toList) :
    Issued s action p command := by
  simp only [Option.mem_toList, Option.map_eq_some_iff] at h
  obtain ⟨url, hurl, rfl⟩ := h
  exact ⟨haction, hurl⟩

theorem onMain_issued {s : App} {action : Action} {p : App × List Command}
    (h : s.onMain action = some p) : ∀ command ∈ p.2, Issued s action p command := by
  intro command hmem
  cases action with
  | incomingSignal signal =>
    obtain rfl := Option.some.inj h
    cases command with
    | connectToRemote => exact ⟨signal, rfl, rfl⟩
    | sendFile path => exact absurd hmem (handleSignal_no_sendFile s signal path)
    | _ => trivial
  | ipcCallback | ipcLine => simp [onMain] at h
  | onConnectionDeclined | onWtSessionActive | onWtSessionSAS | removeFile =>
    simp only [onMain] at h
    split at h
    . obtain rfl := Option.some.inj h
      simp at hmem
    . simp at h
  | initiateConnection | acceptRequest | cancelRequest | sendPairingDecision =>
    obtain rfl := Option.some.inj h
    simp only [initiateConnection, acceptRequest, cancelRequest, sendPairingDecision] at hmem
    split at hmem <;> cases command <;> trivial
  | sendFirstFile =>
    obtain rfl := Option.some.inj h
    rw [sendFirstFile_commands] at hmem
    exact issued_of_head (.inl rfl) hmem
  | sendNextOrClear =>
    obtain rfl := Option.some.inj h
    rw [sendNextOrClear_commands] at hmem
    exact issued_of_head (.inr rfl) hmem
  | togglePause =>
    obtain rfl := Option.some.inj h
    simp only [togglePause, List.mem_singleton] at hmem
    subst hmem
    split <;> trivial
  | _ =>
    obtain rfl := Option.some.inj h
    -- what these actions issue neither dials nor sends a file
    cases command <;> trivial

theorem next_incomingSignal {s s' : App} {signal : IncomingSignal}
    (h : s.next (.incomingSignal signal) = some s') :
    s' = (s.handleSignal signal).1 ∧ s.commands (.incomingSignal signal) = (s.handleSignal signal).2 := by
  unfold next at h
  unfold commands
  simp only [step] at h ⊢
  split at h
  . next hpolling =>
    simp only [onMain, Option.map_some, Option.some.injEq] at h
    simp [hpolling, onMain, h]
  . simp at h

theorem onMain_of_mem_commands {s : App} {action : Action} {command : Command}
    (h : command ∈ s.commands action) : ∃ p, s.onMain action = some p ∧ command ∈ p.2 := by
  unfold commands at h
  cases hstep : s.step action with
  | none => simp [hstep] at h
  | some p =>
    simp only [hstep, Option.map_some, Option.getD_some] at h
    unfold step at hstep
    split at hstep
    . obtain rfl := Option.some.inj hstep
      simp at h
    . obtain ⟨s', -, rfl⟩ := Option.map_eq_some_iff.mp hstep
      simp at h
    . split at hstep
      . exact ⟨p, hstep, h⟩
      . simp at hstep

theorem commands_dial {s : App} {action : Action} {wsUrl : String}
    {quicAddr quicCertHash : Option String}
    (h : .connectToRemote wsUrl quicAddr quicCertHash ∈ s.commands action) :
    ∃ signal, action = .incomingSignal signal
      ∧ .connectToRemote wsUrl quicAddr quicCertHash ∈ (s.handleSignal signal).2 := by
  obtain ⟨p, hp, hmem⟩ := onMain_of_mem_commands h
  obtain ⟨signal, hsignal, rfl⟩ := onMain_issued hp _ hmem
  exact ⟨signal, hsignal, hmem⟩

/-! ### Dialing out -/

/--
The app dials out with the metadata of an acceptance only, sent by the peer the user selected for the
attempt while it waits for that peer; and no message takes the place of the user's answer.
-/
def DialsByChoice (t : Transition (App × Counterpart) Action) : Prop :=
  (∀ wsUrl quicAddr quicCertHash,
      .connectToRemote wsUrl quicAddr quicCertHash ∈ t.source.1.commands t.action →
        ∃ signal, t.action = .incomingSignal signal
          ∧ signal.signalType = "connection_accepted"
          ∧ dialUrl signal = some wsUrl
          ∧ quicAddr = signal.data.string? "quicAddr"
          ∧ quicCertHash = signal.data.string? "quicCertHash"
          ∧ t.source.1.ipc.sessionPhase = .requesting
          ∧ t.source.2.peerCode = some signal.fromPeer)
    ∧ ∀ signal, t.action = .incomingSignal signal →
        t.source.1.ipc.sessionPhase = .incomingRequest →
          t.target.1.ipc.sessionPhase ≠ .connecting

def AcceptedByChoice (s : App) (c : Counterpart) (signal : IncomingSignal) : Prop :=
  signal.signalType = "connection_accepted" →
    s.ipc.sessionPhase ≠ .incomingRequest
      ∧ (s.ipc.sessionPhase = .requesting → (dialUrl signal).isSome = true →
          c.peerCode = some signal.fromPeer)

instance (s : App) (c : Counterpart) (signal : IncomingSignal) :
    Decidable (AcceptedByChoice s c signal) := by
  unfold AcceptedByChoice
  infer_instance

theorem handleSignal_accepted_phase {s : App} {signal : IncomingSignal}
    (hacc : signal.signalType = "connection_accepted") (hawaits : s.AwaitsAcceptance) :
    (s.handleSignal signal).1.ipc.sessionPhase = .connecting := by
  rw [handleSignal_accepted hacc, connectionAccepted_of_awaits hawaits]

theorem mem_handleSignal_accepted {s : App} {signal : IncomingSignal} {wsUrl : String}
    (hacc : signal.signalType = "connection_accepted") (hawaits : s.AwaitsAcceptance)
    (hurl : dialUrl signal = some wsUrl) :
    .connectToRemote wsUrl (signal.data.string? "quicAddr") (signal.data.string? "quicCertHash")
      ∈ (s.handleSignal signal).2 := by
  rw [handleSignal_accepted hacc, connectionAccepted_of_awaits hawaits, hurl]
  simp

theorem handleSignal_ipc_of_not_accepted {s : App} {signal : IncomingSignal}
    (hacc : signal.signalType ≠ "connection_accepted")
    (hopen : ¬ s.ipc.sessionPhase.canStartFreshConnection = true) :
    (s.handleSignal signal).1.ipc = s.ipc ∧ (s.handleSignal signal).2 = [] := by
  by_cases hreq : signal.signalType = "connection_request"
  . rw [handleSignal_request hreq, connectionRequest_ipc, IpcManager.receiveRequest_of_not hopen,
      connectionRequest_commands]
    exact ⟨rfl, rfl⟩
  . exact handleSignal_other hreq hacc s

theorem dialsByChoice_iff {s s' : App} {c c' : Counterpart} {action : Action}
    (h : s.next action = some s')
    : DialsByChoice ⟨(s, c), action, (s', c')⟩
        ↔
      ∀ signal, action = .incomingSignal signal → AcceptedByChoice s c signal := by
  unfold DialsByChoice AcceptedByChoice
  dsimp only
  constructor
  . rintro ⟨hdial, hphase⟩ signal rfl hacc
    obtain ⟨rfl, hcommands⟩ := next_incomingSignal h
    constructor
    . intro hincoming
      exact hphase signal rfl hincoming (handleSignal_accepted_phase hacc (.inr hincoming))
    . intro hrequesting hurl
      obtain ⟨wsUrl, hurl⟩ := Option.isSome_iff_exists.mp hurl
      have hmem := mem_handleSignal_accepted hacc (.inl hrequesting) hurl
      rw [← hcommands] at hmem
      obtain ⟨signal', hsignal, -, -, -, -, -, hpeer⟩ := hdial _ _ _ hmem
      cases hsignal
      exact hpeer
  . intro hchoice
    constructor
    . intro wsUrl quicAddr quicCertHash hcommand
      obtain ⟨signal, rfl, hmem⟩ := commands_dial hcommand
      obtain ⟨hacc, hawaits, hurl, hquic, hcert⟩ := handleSignal_dial hmem
      obtain ⟨hincoming, hpeer⟩ := hchoice signal rfl hacc
      have hrequesting : s.ipc.sessionPhase = .requesting := hawaits.resolve_right hincoming
      exact ⟨signal, rfl, hacc, hurl, hquic, hcert, hrequesting,
        hpeer hrequesting (by simp [hurl])⟩
    . rintro signal rfl hincoming
      obtain ⟨rfl, -⟩ := next_incomingSignal h
      by_cases hacc : signal.signalType = "connection_accepted"
      . exact absurd hincoming (hchoice signal rfl hacc).1
      . have hopen : ¬ s.ipc.sessionPhase.canStartFreshConnection = true := by
          simp [hincoming, SessionPhase.canStartFreshConnection]
        rw [(handleSignal_ipc_of_not_accepted hacc hopen).1, hincoming]
        simp

theorem dial_out_by_choice_iff (peerCode : String) (daemonBinaryPath : Option String)
    {tr : List (Transition (App × Counterpart) Action)} {q : App × Counterpart}
    (h : (watched IpcManager.counterpart peerCode daemonBinaryPath).Run tr q)
    : (∀ t ∈ tr, DialsByChoice t)
        ↔
      ∀ t ∈ tr, ∀ signal, t.action = .incomingSignal signal →
        AcceptedByChoice t.source.1 t.source.2 signal := by
  refine Machine.Run.forall_iff ?_ h
  rintro ⟨s, c⟩ action ⟨s', c'⟩ - ⟨hnext, -⟩
  exact dialsByChoice_iff hnext

def selectedPeerAccepts : List Action :=
  let bob : DiscoveredPeer := ⟨"B7H2MN", "Bob", "laptop", none, none⟩
  launch [bob]
    ++ [.initiateConnection bob ⟨"192.168.1.5", none⟩,
      .incomingSignal ⟨"B7H2MN", "connection_accepted", [("wsUrl", .str "ws://192.168.1.7:9100")]⟩]

theorem dial_out_to_selected_peer
    : let tr := Machine.trace
        (Machine.observedFun
          (IpcManager.counterpart.comap (simulation "A3F9KQ" (some "bolt-daemon"))) next)
        (init "A3F9KQ" (some "bolt-daemon"), .nobody) selectedPeerAccepts
      (∃ t ∈ tr, t.source.1.commands t.action
          = [.connectToRemote "ws://192.168.1.7:9100" none none])
        ∧ ∀ t ∈ tr, DialsByChoice t := by
  intro tr
  have hdials : tr.any (fun t => t.source.1.commands t.action
      = [.connectToRemote "ws://192.168.1.7:9100" none none]) = true := by decide
  have hchoice : tr.all (fun t =>
      match t.action with
      | .incomingSignal signal => AcceptedByChoice t.source.1 t.source.2 signal
      | _ => true) = true := by decide
  obtain ⟨q, h⟩ := Machine.observed_run_trace
    (IpcManager.counterpart.comap (simulation "A3F9KQ" (some "bolt-daemon")))
    (M := machine "A3F9KQ" (some "bolt-daemon")) rfl (fun _ _ _ => id) selectedPeerAccepts
  constructor
  . obtain ⟨t, ht, hdials⟩ := List.any_eq_true.mp hdials
    exact ⟨t, ht, of_decide_eq_true hdials⟩
  . apply (dial_out_by_choice_iff _ _ h).mpr
    intro t ht signal hsignal
    have := List.all_eq_true.mp hchoice t ht
    rw [hsignal] at this
    exact of_decide_eq_true this

theorem unasked_acceptance_dials
    : ∃ tr q, (renderedWatched IpcManager.counterpart "A3F9KQ" (some "bolt-daemon")).Run tr q
        ∧ ∃ t ∈ tr, t.source.1.ipc.sessionPhase = .incomingRequest
          ∧ t.target.1.ipc.sessionPhase = .connecting
          ∧ t.source.1.commands t.action
            = [.connectToRemote "ws://203.0.113.7:9100" none none] := by
  obtain ⟨tr, q, h, t, ht, hdials⟩ := Machine.exists_observed_transition
    (IpcManager.counterpart.comap (simulation "A3F9KQ" (some "bolt-daemon")))
    (M := rendered "A3F9KQ" (some "bolt-daemon")) rfl (fun _ _ _ => id)
    (launch []
      ++ [.incomingSignal ⟨"B7H2MN", "connection_request", []⟩,
        .incomingSignal ⟨"X0Z4WW", "connection_accepted", [("wsUrl", .str "ws://203.0.113.7:9100")]⟩])
    (P := fun t => t.source.1.ipc.sessionPhase = .incomingRequest
      ∧ t.target.1.ipc.sessionPhase = .connecting
      ∧ t.source.1.commands t.action = [.connectToRemote "ws://203.0.113.7:9100" none none])
    (by decide)
  exact ⟨tr, q, h, t, ht, of_decide_eq_true hdials⟩

end App

end LocalBolt
