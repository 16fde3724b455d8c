import LocalBolt.App.Impl.Network
import LocalBolt.App.Lemmas.DialOut
import LocalBolt.Machine.Origin

/-!
This module contains what stands behind a handshake between two devices: whatever the network and
foreign clients do, a device dials another one only after the users of both have said so, and then with
the addresses and the certificate that the other one had when its user did.
-/

namespace LocalBolt

/-! ### Fields of the signals -/

theorem Dict.string?_setField_of_ne {d : Dict} {key key' : String} {v : Json} (h : key' ≠ key) :
    Dict.string? (App.setField d key v) key' = d.string? key' := by
  have hlookup : (d.filter fun f => f.1 ≠ key).lookup key' = d.lookup key' := by
    induction d with
    | nil => rfl
    | cons f d ih =>
      by_cases hf : f.1 = key
      . have hne : (key' == f.1) = false := by simpa [hf] using h
        rw [List.filter_cons_of_neg (by simpa using hf), List.lookup_cons, hne, ih]
      . rw [List.filter_cons_of_pos (by simpa using hf), List.lookup_cons, List.lookup_cons, ih]
  unfold Dict.string? Dict.get? App.setField
  rw [List.lookup_cons, beq_false_of_ne h, hlookup]

namespace App

/--
The data of a connection request.
-/
def offer (s : App) (host : Host) : Dict :=
  [("deviceName", .str (host.localizedName.getD "Mac")), ("deviceType", .str "desktop"),
    ("wsUrl", .str (s.wsUrl host))] ++ transportFields s.daemon

/--
The data of an acceptance.
-/
def answer (s : App) (host : Host) : Dict :=
  [("wsUrl", .str (s.wsUrl host))] ++ transportFields s.daemon

theorem transportFields_quicAddr (d : DaemonManager) :
    Dict.string? (transportFields d) "quicAddr" = d.quicAddr := by
  unfold transportFields
  rcases d.wtUrl <;> rcases d.wtCertHash <;> rcases d.quicAddr <;> rcases d.quicCertHash <;> rfl

theorem transportFields_quicCertHash (d : DaemonManager) :
    Dict.string? (transportFields d) "quicCertHash" = d.quicCertHash := by
  unfold transportFields
  rcases d.wtUrl <;> rcases d.wtCertHash <;> rcases d.quicAddr <;> rcases d.quicCertHash <;> rfl

@[simp]
theorem offer_quicCertHash (s : App) (host : Host) :
    Dict.string? (s.offer host) "quicCertHash" = s.daemon.quicCertHash :=
  transportFields_quicCertHash s.daemon

@[simp]
theorem answer_quicAddr (s : App) (host : Host) :
    Dict.string? (s.answer host) "quicAddr" = s.daemon.quicAddr :=
  transportFields_quicAddr s.daemon

@[simp]
theorem answer_quicCertHash (s : App) (host : Host) :
    Dict.string? (s.answer host) "quicCertHash" = s.daemon.quicCertHash :=
  transportFields_quicCertHash s.daemon

@[simp]
theorem answer_wsUrl (s : App) (host : Host) :
    Dict.string? (s.answer host) "wsUrl" = some (s.wsUrl host) :=
  rfl

/-! ### Signals an app sends -/

/--
What stands behind a signal that the main thread has sent.
-/
def SentBy (s : App) (action : Action) (p : App × List Command) : Command → Prop
  | .sendSignal toPeerCode signalType dataJson =>
    (∃ peer host, action = .initiateConnection peer host ∧ toPeerCode = peer.peerCode
        ∧ signalType = "connection_request" ∧ dataJson = some (.obj (s.offer host)))
      ∨ (∃ request host, action = .acceptRequest request host ∧ toPeerCode = request.fromPeer
        ∧ signalType = "connection_accepted" ∧ dataJson = some (.obj (s.answer host))
        ∧ .allowQuicPeerCertHash (request.data.string? "quicCertHash") ∈ p.2)
      ∨ signalType = "connection_declined"
  | _ => True

theorem handleSignal_no_sendSignal (s : App) (signal : IncomingSignal)
    (toPeerCode signalType : String) (dataJson : Option Json) :
    .sendSignal toPeerCode signalType dataJson ∉ (s.handleSignal signal).2 := by
  unfold handleSignal
  split
  . rw [connectionRequest_commands]
    exact List.not_mem_nil
  . unfold connectionAccepted
    dsimp only
    split
    . split <;> simp
    . simp
  . simp
  . simp

theorem onMain_sentBy {s : App} {action : Action} {p : App × List Command}
    (h : s.onMain action = some p) : ∀ command ∈ p.2, SentBy s action p command := by
  intro command hmem
  cases action with
  | incomingSignal signal =>
    obtain rfl := Option.some.inj h
    cases command with
    | sendSignal => exact absurd hmem (handleSignal_no_sendSignal s signal _ _ _)
    | _ => trivial
  | ipcCallback | ipcLine => simp [onMain] at h
  | onConnectionDeclined | onWtSessionActive | onWtSessionSAS | removeFile =>
    simp only [onMain] at h
    split at h
    . obtain rfl := Option.some.inj h
      simp at hmem
    . simp at h
  | initiateConnection peer host =>
    obtain rfl := Option.some.inj h
    simp only [initiateConnection] at hmem ⊢
    split at hmem
    . obtain rfl := List.mem_singleton.mp hmem
      exact .inl ⟨peer, host, rfl, rfl, rfl, rfl⟩
    . simp at hmem
  | acceptRequest request host =>
    obtain rfl := Option.some.inj h
    simp only [acceptRequest] at hmem ⊢
    split at hmem
    . next haccepted =>
      rw [if_pos haccepted]
      rcases List.mem_cons.mp hmem with rfl | hmem
      . trivial
      . obtain rfl := List.mem_singleton.mp hmem
        exact .inr (.inl ⟨request, host, rfl, rfl, rfl, rfl, List.mem_cons_self⟩)
    . simp at hmem
  | cancelRequest =>
    obtain rfl := Option.some.inj h
    simp only [cancelRequest] at hmem
    split at hmem
    . obtain rfl := List.mem_singleton.mp hmem
      exact .inr (.inr rfl)
    . simp at hmem
  | declineRequest request =>
    obtain rfl := Option.some.inj h
    obtain rfl := List.mem_singleton.mp hmem
    exact .inr (.inr rfl)
  | sendPairingDecision =>
    obtain rfl := Option.some.inj h
    simp only [sendPairingDecision] at hmem
    split at hmem
    . simp at hmem
    . obtain rfl := List.mem_singleton.mp hmem
      trivial
  | sendFirstFile =>
    obtain rfl := Option.some.inj h
    rw [sendFirstFile_commands] at hmem
    simp only [Option.mem_toList, Option.map_eq_some_iff] at hmem
    obtain ⟨url, -, rfl⟩ := hmem
    trivial
  | sendNextOrClear =>
    obtain rfl := Option.some.inj h
    rw [sendNextOrClear_commands] at hmem
    simp only [Option.mem_toList, Option.map_eq_some_iff] at hmem
    obtain ⟨url, -, rfl⟩ := hmem
    trivial
  | disconnect | disconnectMismatch | rejectSas | cancelTransfer =>
    obtain rfl := Option.some.inj h
    obtain rfl := List.mem_singleton.mp hmem
    trivial
  | togglePause =>
    obtain rfl := Option.some.inj h
    simp only [togglePause, List.mem_singleton] at hmem
    subst hmem
    split <;> trivial
  | _ =>
    -- what is left issues no command
    obtain rfl := Option.some.inj h
    cases hmem

theorem commands_of_mem {s : App} {action : Action} {command : Command} (h : command ∈ s.commands action) :
    ∃ p, s.onMain action = some p ∧ s.commands action = p.2 := by
  obtain ⟨p, hp, -⟩ := onMain_of_mem_commands h
  refine ⟨p, hp, ?_⟩
  unfold commands step at h ⊢
  split at h
  . simp [onMain] at hp
  . simp [onMain] at hp
  . split at h
    . next hpolling => simp [hpolling, hp]
    . simp at h

theorem commands_sentBy {s : App} {action : Action} {toPeerCode signalType : String}
    {dataJson : Option Json} (h : .sendSignal toPeerCode signalType dataJson ∈ s.commands action)
    : (∃ peer host, action = .initiateConnection peer host ∧ toPeerCode = peer.peerCode
          ∧ signalType = "connection_request" ∧ dataJson = some (.obj (s.offer host)))
        ∨ (∃ request host, action = .acceptRequest request host ∧ toPeerCode = request.fromPeer
          ∧ signalType = "connection_accepted" ∧ dataJson = some (.obj (s.answer host))
          ∧ .allowQuicPeerCertHash (request.data.string? "quicCertHash") ∈ s.commands action)
        ∨ signalType = "connection_declined" := by
  obtain ⟨p, hp, hcommands⟩ := commands_of_mem h
  rw [hcommands] at h ⊢
  exact onMain_sentBy hp _ h

/-! ### Requests an app shows -/

/--
A request as `connectionRequest` keeps it for the screen.
-/
def shownRequest (signal : IncomingSignal) : IncomingSignal :=
  { signal with
    data :=
      setField (setField signal.data "deviceName" (.str (requestDeviceName signal))) "deviceType"
        (.str (requestDeviceType signal)) }

theorem shownRequest_quicCertHash (signal : IncomingSignal) :
    (shownRequest signal).data.string? "quicCertHash" = signal.data.string? "quicCertHash" := by
  simp only [shownRequest]
  rw [Dict.string?_setField_of_ne (by decide), Dict.string?_setField_of_ne (by decide)]

theorem handleSignal_incoming {s : App} {signal request : IncomingSignal}
    (h : (s.handleSignal signal).1.signaling.incomingConnectionRequest = some request)
    : s.signaling.incomingConnectionRequest = some request
        ∨ signal.signalType = "connection_request" ∧ request = shownRequest signal := by
  by_cases hreq : signal.signalType = "connection_request"
  . rw [handleSignal_request hreq] at h
    unfold connectionRequest at h
    dsimp only at h
    split at h
    . exact .inr ⟨hreq, (Option.some.inj h).symm⟩
    . exact .inl h
  . left
    by_cases hacc : signal.signalType = "connection_accepted"
    . rw [handleSignal_accepted hacc] at h
      unfold connectionAccepted at h
      dsimp only at h
      split at h
      . split at h <;> exact h
      . exact h
    . unfold handleSignal at h
      split at h
      . contradiction
      . contradiction
      . exact h
      . exact h

/--
Apart from the signals, nothing puts a request on the screen.
-/
theorem onMain_incoming {s : App} {action : Action} {p : App × List Command} {request : IncomingSignal}
    (h : s.onMain action = some p) (haction : ∀ signal, action ≠ .incomingSignal signal)
    (hp : p.1.signaling.incomingConnectionRequest = some request) :
    s.signaling.incomingConnectionRequest = some request := by
  cases action with
  | incomingSignal signal => exact absurd rfl (haction signal)
  | ipcCallback | ipcLine => simp [onMain] at h
  | onConnectionDeclined | onWtSessionActive | onWtSessionSAS | removeFile =>
    simp only [onMain] at h
    split at h
    . obtain rfl := Option.some.inj h
      simp only [onConnectionDeclined] at hp
      first
        | exact hp
        | (split at hp <;> exact hp)
    . simp at h
  | signalingPoll isConnected updated =>
    obtain rfl := Option.some.inj h
    simp only [SignalingManager.poll] at hp
    split at hp <;> exact hp
  | daemonStart started =>
    obtain rfl := Option.some.inj h
    simp only [autoStart] at hp
    split at hp <;> exact hp
  | initiateConnection peer host =>
    obtain rfl := Option.some.inj h
    simp only [initiateConnection] at hp
    split at hp <;> exact hp
  | acceptRequest request host =>
    obtain rfl := Option.some.inj h
    simp only [acceptRequest] at hp
    split at hp <;> cases hp
  | declineRequest =>
    obtain rfl := Option.some.inj h
    cases hp
  | ipcPoll connected =>
    obtain rfl := Option.some.inj h
    simp only [ipcPoll] at hp
    split at hp <;> exact hp
  | dropFile url =>
    obtain rfl := Option.some.inj h
    simp only [dropFile] at hp
    split at hp <;> exact hp
  | sendFirstFile =>
    obtain rfl := Option.some.inj h
    simp only [sendFirstFile] at hp
    split at hp <;> exact hp
  | sendNextOrClear =>
    obtain rfl := Option.some.inj h
    simp only [sendNextOrClear, sendFirstFile] at hp
    split at hp
    . exact hp
    . split at hp <;> exact hp
  | _ =>
    obtain rfl := Option.some.inj h
    exact hp

theorem ipcLine_signaling {s s' : App} {now : Date} (h : s.ipcLine now = some s') :
    s'.signaling = s.signaling := by
  unfold ipcLine at h
  split at h
  . simp at h
  . obtain rfl := Option.some.inj h
    rfl
  . split at h
    . dsimp only at h
      split at h
      . obtain rfl := Option.some.inj h
        rfl
      . obtain ⟨ipc, -, rfl⟩ := Option.map_eq_some_iff.mp h
        rfl
    . obtain rfl := Option.some.inj h
      rfl

theorem next_incoming {s s' : App} {action : Action} {request : IncomingSignal}
    (h : s.next action = some s') (haction : ∀ signal, action ≠ .incomingSignal signal)
    (hs' : s'.signaling.incomingConnectionRequest = some request) :
    s.signaling.incomingConnectionRequest = some request := by
  obtain ⟨p, hp, rfl⟩ := Option.map_eq_some_iff.mp h
  unfold step at hp
  split at hp
  . obtain rfl := Option.some.inj hp
    exact hs'
  . obtain ⟨s', hline, rfl⟩ := Option.map_eq_some_iff.mp hp
    rwa [← ipcLine_signaling hline]
  . split at hp
    . exact onMain_incoming hp haction hs'
    . simp at hp

end App

namespace Network

variable {device : String → Bool} {daemonBinaryPath : String → Option String}

/-! ### Steps of the network -/

/--
A request that has been on the screen of `code`, or is there now.
-/
def Shows (s : Network) (code : String) (request : IncomingSignal) : Prop :=
  request ∈ s.shown code ∨ (s.apps code).signaling.incomingConnectionRequest = some request

theorem letter?_eq_some_iff {code : String} {command : Command} {letter : Letter}
    : letter? code command = some letter
        ↔
      letter.signal.fromPeer = code ∧ ∃ dataJson,
        command = .sendSignal letter.recipient letter.signal.signalType dataJson
          ∧ letter.signal.data = (dataJson.bind Json.object?).getD [] := by
  obtain ⟨recipient, fromPeer, signalType, data⟩ := letter
  cases command with
  | sendSignal toPeerCode signalType' dataJson =>
    simp only [letter?, Option.some.injEq, Letter.mk.injEq, IncomingSignal.mk.injEq,
      Command.sendSignal.injEq]
    constructor
    . rintro ⟨rfl, rfl, rfl, rfl⟩
      exact ⟨rfl, dataJson, ⟨rfl, rfl, rfl⟩, rfl⟩
    . rintro ⟨rfl, dataJson, ⟨rfl, rfl, rfl⟩, rfl⟩
      exact ⟨rfl, rfl, rfl, rfl⟩
  | _ => simp [letter?]

/--
A signal under the code of a device has been sent by its app.
-/
theorem next_sent {s s' : Network} {action : Action} {letter : Letter}
    (h : s.next device action = some s') (hdevice : device letter.signal.fromPeer = true)
    (hsent : letter ∉ s.sent) (hsent' : letter ∈ s'.sent)
    : ∃ appAction dataJson, action = .act letter.signal.fromPeer appAction
        ∧ s.mayAct letter.signal.fromPeer appAction = true
        ∧ .sendSignal letter.recipient letter.signal.signalType dataJson
          ∈ (s.apps letter.signal.fromPeer).commands appAction
        ∧ letter.signal.data = (dataJson.bind Json.object?).getD [] := by
  cases action with
  | act code appAction =>
    simp only [next] at h
    split at h
    . next hact =>
      obtain ⟨app, -, rfl⟩ := Option.map_eq_some_iff.mp h
      have hnew := (List.mem_append.mp hsent').resolve_left hsent
      obtain ⟨command, hcommand, hletter⟩ := List.mem_filterMap.mp hnew
      obtain ⟨rfl, dataJson, rfl, hdata⟩ := letter?_eq_some_iff.mp hletter
      rw [Bool.and_eq_true] at hact
      exact ⟨appAction, dataJson, rfl, hact.2, hcommand, hdata⟩
    . simp at h
  | deliver other =>
    simp only [next] at h
    split at h
    . obtain ⟨app, -, rfl⟩ := Option.map_eq_some_iff.mp h
      exact absurd hsent' hsent
    . simp at h
  | foreign other =>
    simp only [next] at h
    split at h
    . simp at h
    . next hforeign =>
      obtain rfl := Option.some.inj h
      have hnew := (List.mem_append.mp hsent').resolve_left hsent
      obtain rfl := List.mem_singleton.mp hnew
      exact absurd hdevice hforeign

/--
A request comes on a screen because a signal asks for it.
-/
theorem next_shows {s s' : Network} {action : Action} {code : String} {request : IncomingSignal}
    (h : s.next device action = some s') (hshows : ¬ s.Shows code request)
    (hshows' : s'.Shows code request)
    : ∃ signal, ⟨code, signal⟩ ∈ s.sent ∧ signal.signalType = "connection_request"
        ∧ request = App.shownRequest signal := by
  unfold Shows at hshows hshows'
  rw [not_or] at hshows
  cases action with
  | act code' appAction =>
    simp only [next] at h
    split at h
    . next hact =>
      obtain ⟨app, happ, rfl⟩ := Option.map_eq_some_iff.mp h
      have hincoming := hshows'.resolve_left hshows.1
      exfalso
      apply hshows.2
      by_cases hcode : code = code'
      . subst hcode
        simp only [Function.update_self] at hincoming
        refine App.next_incoming happ ?_ hincoming
        rintro signal rfl
        simp [mayAct] at hact
      . simpa only [Function.update_of_ne hcode] using hincoming
    . simp at h
  | deliver letter =>
    simp only [next] at h
    split at h
    . next hdeliver =>
      obtain ⟨app, happ, rfl⟩ := Option.map_eq_some_iff.mp h
      by_cases hcode : code = letter.recipient
      . subst hcode
        simp only [Function.update_self, List.mem_append, Option.mem_toList] at hshows'
        have hincoming : app.signaling.incomingConnectionRequest = some request := by
          rcases hshows' with (hshown | hincoming) | hincoming
          . exact absurd hshown hshows.1
          . exact hincoming
          . exact hincoming
        obtain ⟨rfl, -⟩ := App.next_incomingSignal happ
        obtain ⟨hreq, heq⟩ := (App.handleSignal_incoming hincoming).resolve_left hshows.2
        rw [Bool.and_eq_true, decide_eq_true_eq] at hdeliver
        exact ⟨letter.signal, hdeliver.2, hreq, heq⟩
      . simp only [Function.update_of_ne hcode] at hshows'
        exact absurd hshows' (not_or.mpr hshows)
    . simp at h
  | foreign letter =>
    simp only [next] at h
    split at h
    . simp at h
    . obtain rfl := Option.some.inj h
      exact absurd hshows' (not_or.mpr hshows)

/-! ### Handshakes -/

/--
A request from a device is on the screen only after the user of that device has chosen to send it here,
with the certificate that device had then.
-/
theorem shows_selected {tr : List (Transition Network Action)} {s : Network}
    (h : (machine device daemonBinaryPath).Run tr s) {code : String} {request : IncomingSignal}
    (hdevice : device request.fromPeer = true) (hshows : s.Shows code request)
    : ∃ pre t peer host, Machine.At tr pre t
        ∧ t.action = .act request.fromPeer (.initiateConnection peer host)
        ∧ peer.peerCode = code
        ∧ request.data.string? "quicCertHash"
          = (t.source.apps request.fromPeer).daemon.quicCertHash := by
  -- the step in which the request came on the screen, and before that the one in which it was sent
  obtain ⟨pre, t, hat, hrun, hstep, hbefore, hafter⟩ := h.origin
    (fun s => s.Shows code request) (by rintro s rfl; simp [Shows, init, App.init]) hshows
  obtain ⟨signal, hsent, htype, rfl⟩ := next_shows hstep hbefore hafter
  obtain ⟨pre', t', hat', -, hstep', hbefore', hafter'⟩ := hrun.origin
    (fun s => ⟨code, signal⟩ ∈ s.sent) (by rintro s rfl; simp [init]) hsent
  obtain ⟨action, dataJson, haction, -, hcommand, hdata⟩ := next_sent hstep' hdevice hbefore' hafter'
  rcases App.commands_sentBy hcommand with
    ⟨peer, host, rfl, hpeer, -, rfl⟩ | ⟨-, -, -, -, hother, -⟩ | hother
  . refine ⟨pre', t', peer, host, hat.trans hat', haction, hpeer.symm, ?_⟩
    rw [App.shownRequest_quicCertHash, hdata]
    exact App.offer_quicCertHash _ host
  . rw [htype] at hother
    exact absurd hother (by decide)
  . rw [htype] at hother
    exact absurd hother (by decide)

/--
In the run `tr` the user of `b` accepted a request of `a` while `b` had the given addresses and
certificate; before that, the user of `a` had selected `b`, and `b` let in the certificate of `a`.
-/
def Agreed (tr : List (Transition Network Action)) (a b wsUrl : String)
    (quicAddr quicCertHash : Option String) : Prop :=
  ∃ pre t request host, Machine.At tr pre t
    ∧ t.action = .act b (.acceptRequest request host)
    ∧ request.fromPeer = a
    ∧ wsUrl = (t.source.apps b).wsUrl host
    ∧ quicAddr = (t.source.apps b).daemon.quicAddr
    ∧ quicCertHash = (t.source.apps b).daemon.quicCertHash
    ∧ ∃ pre' t' peer host', Machine.At pre pre' t'
      ∧ t'.action = .act a (.initiateConnection peer host')
      ∧ peer.peerCode = b
      ∧ .allowQuicPeerCertHash (t'.source.apps a).daemon.quicCertHash
        ∈ (t.source.apps b).commands (.acceptRequest request host)

theorem dial_agreed {tr : List (Transition Network Action)} {s : Network}
    (h : (machine device daemonBinaryPath).Run tr s) {letter : Letter} (hsent : letter ∈ s.sent)
    (hrecipient : device letter.recipient = true) (hdevice : device letter.signal.fromPeer = true)
    {wsUrl : String} {quicAddr quicCertHash : Option String}
    (hdial : .connectToRemote wsUrl quicAddr quicCertHash
      ∈ (s.apps letter.recipient).commands (.incomingSignal letter.signal))
    : Agreed tr letter.recipient letter.signal.fromPeer wsUrl quicAddr quicCertHash := by
  obtain ⟨signal, hsignal, hmem⟩ := App.commands_dial hdial
  cases hsignal
  obtain ⟨htype, -, hurl, rfl, rfl⟩ := App.handleSignal_dial hmem
  obtain ⟨pre, t, hat, hrun, hstep, hbefore, hafter⟩ := h.origin
    (fun s => letter ∈ s.sent) (by rintro s rfl; simp [init]) hsent
  obtain ⟨action, dataJson, haction, hmay, hcommand, hdata⟩ := next_sent hstep hdevice hbefore hafter
  rcases App.commands_sentBy hcommand with
    ⟨-, -, -, -, hother, -⟩ | ⟨request, host, rfl, hpeer, -, rfl, hallow⟩ | hother
  . rw [htype] at hother
    exact absurd hother (by decide)
  . simp only [mayAct, decide_eq_true_eq] at hmay
    rw [hpeer] at hrecipient
    obtain ⟨pre', t', peer, host', hat', haction', hcode, hhash⟩ :=
      shows_selected hrun hrecipient (.inl hmay)
    simp only [Option.bind_some, Json.object?, Option.getD_some] at hdata
    rw [hdata]
    refine ⟨pre, t, request, host, hat, haction, hpeer.symm, ?_, App.answer_quicAddr _ host,
      App.answer_quicCertHash _ host, pre', t', peer, host', hat', ?_, hcode, ?_⟩
    . rw [App.dialUrl, hdata, App.answer_wsUrl] at hurl
      exact (Option.some.inj (Option.eq_some_of_filter_eq_some hurl)).symm
    . rw [hpeer]
      exact haction'
    . rw [hpeer, ← hhash]
      exact hallow
  . rw [htype] at hother
    exact absurd hother (by decide)

def alice : DiscoveredPeer := ⟨"A3F9KQ", "Alice", "desktop", none, none⟩

def bob : DiscoveredPeer := ⟨"B7H2MN", "Bob", "desktop", none, none⟩

def bobAnswer : Letter where
  recipient := "A3F9KQ"
  signal := {
    fromPeer := "B7H2MN"
    signalType := "connection_accepted"
    data := [("wsUrl", .str "ws://192.168.1.7:9100"), ("quicAddr", .str "192.168.1.7:4433"),
      ("quicCertHash", .str "b0b")] }

/--
Alice selects Bob, and Bob accepts.
-/
def bobAccepts : List Action :=
  let aliceRequest : Letter := {
    recipient := "B7H2MN"
    signal := {
      fromPeer := "A3F9KQ"
      signalType := "connection_request"
      data := [("deviceName", .str "Alice"), ("deviceType", .str "desktop"),
        ("wsUrl", .str "ws://192.168.1.5:9100"), ("quicCertHash", .str "a11ce")] } }
  [.act "A3F9KQ" (.daemonStart (some 9100)), .act "A3F9KQ" (.daemonInfo none none none (some "a11ce")),
    .act "B7H2MN" (.daemonStart (some 9100)),
    .act "B7H2MN" (.daemonInfo none none (some "192.168.1.7:4433") (some "b0b")),
    .act "A3F9KQ" (.initiateConnection bob ⟨"192.168.1.5", some "Alice"⟩),
    .deliver aliceRequest,
    .act "B7H2MN" (.acceptRequest (App.shownRequest aliceRequest.signal) ⟨"192.168.1.7", some "Bob"⟩)]

theorem dial_agreed_by_alice_and_bob
    : ∃ tr s, (machine (fun code => code = alice.peerCode ∨ code = bob.peerCode)
        (fun _ => some "bolt-daemon")).Run tr s
      ∧ Agreed tr "A3F9KQ" "B7H2MN" "ws://192.168.1.7:9100" (some "192.168.1.7:4433") (some "b0b") := by
  obtain ⟨s, hexec, hs⟩ := (Option.any_eq_true _ _).mp (show
    (Machine.exec (next fun code => code = alice.peerCode ∨ code = bob.peerCode)
        (init fun _ => some "bolt-daemon") bobAccepts).any (fun s =>
      bobAnswer ∈ s.sent
        ∧ .connectToRemote "ws://192.168.1.7:9100" (some "192.168.1.7:4433") (some "b0b")
          ∈ (s.apps "A3F9KQ").commands (.incomingSignal bobAnswer.signal)) = true by decide +kernel)
  have hs := of_decide_eq_true hs
  have hrun := Machine.run_of_exec hexec
  exact ⟨_, s, hrun, dial_agreed hrun hs.1 (by decide) (by decide) hs.2⟩

end Network

end LocalBolt
