import LocalBolt.PinStore.Lemmas.Reopen
import LocalBolt.Session.Lemmas.Mismatch
import LocalBolt.Tofu.Basic

/-!
This module contains the identity keys of a run: what the pin store remembers of the keys that were
accepted, and when it notices that a device name comes with another key.
-/

namespace LocalBolt

namespace IpcManager

/--
The device name and the key of a session-sas event that carries a key, or falls back to the one the
session already has.
-/
def sighting (m : IpcManager) : Move → Option (Option String × String)
  | .event (.sessionSas (some _) remoteIdentityPkB64) _ =>
    (remoteIdentityPkB64.or (m.connectedPeer.bind (·.identityKeyB64))).map fun key =>
      (m.connectedPeer.map (·.deviceName), key)
  | _ => none

def acceptedKeys : Observer IpcManager Move (List (Option String × String)) where
  start := []
  next log m move m' :=
    match m.sighting move with
    | some sighting => if m'.showsMismatch then log else log ++ [sighting]
    | none => log

def emptyStoreMachine : Machine IpcManager Move where
  init m := ∃ file connects, (PinStore.init file).pins = ∅ ∧ m = ({} : IpcManager).start file connects
  step m move m' := m.step move = some m'

def RemembersFirst (m : IpcManager) (log : List (Option String × String)) : Prop :=
  ∃ store, m.pinStore = some store ∧ ∀ key, store.pins.name key = Tofu.owner log key

/-! ### What a session-sas event does -/

theorem identityMismatch_eq {m : IpcManager} {store : PinStore} (hstore : m.pinStore = some store)
    (key : String)
    : m.identityMismatch (some key)
        =
      m.connectedPeer.bind fun peer =>
        (store.checkMismatch key peer.deviceName).map fun oldKey => (key, peer.deviceName, oldKey) := by
  unfold identityMismatch
  cases m.connectedPeer with
  | none => rfl
  | some peer =>
    cases hcheck : store.checkMismatch key peer.deviceName <;> simp [hstore, hcheck]

theorem sessionSas_mismatch {m : IpcManager} {store : PinStore} {peer : PeerSession}
    {remote : Option String} {key oldKey : String} (hstore : m.pinStore = some store)
    (hpeer : m.connectedPeer = some peer) (hkey : remote.or peer.identityKeyB64 = some key)
    (hcheck : store.checkMismatch key peer.deviceName = some oldKey) (sas : String) (now : Date)
    : m.sessionSas (some sas) remote now
        =
      (m.setTrust (.mismatch peer.deviceName oldKey)).setIdentityKey key := by
  simp [sessionSas, identityMismatch_eq hstore, hpeer, hkey, hcheck]

theorem sessionSas_accepted {m : IpcManager} {store : PinStore} {remote : Option String}
    {key : String} (hstore : m.pinStore = some store)
    (hkey : remote.or (m.connectedPeer.bind (·.identityKeyB64)) = some key)
    (hcheck : ∀ peer, m.connectedPeer = some peer → store.checkMismatch key peer.deviceName = none)
    (sas : String) (now : Date)
    : m.sessionSas (some sas) remote now
        =
      { (m.setTrust (.unverified sas)).setIdentityKey key with
        pinStore := some (store.pin key (m.connectedPeer.map (·.deviceName)) now) } := by
  have hnone : m.identityMismatch (some key) = none := by
    rw [identityMismatch_eq hstore]
    cases hpeer : m.connectedPeer with
    | none => rfl
    | some peer => simp [hcheck peer hpeer]
  simp [sessionSas, hkey, hnone, setIdentityKey, setTrust, hstore]

theorem sessionSas_of_no_sighting {m : IpcManager} {sas remote : Option String} {now : Date}
    (h : m.sighting (.event (.sessionSas sas remote) now) = none) :
    (m.sessionSas sas remote now).pinStore = m.pinStore := by
  cases sas with
  | none => rfl
  | some sas =>
    have hkey : remote.or (m.connectedPeer.bind (·.identityKeyB64)) = none := by
      simpa [sighting] using h
    simp [sessionSas, hkey, identityMismatch, setTrust]

/-! ### What leaves the pin store alone -/

@[simp]
theorem resetDisconnected_pinStore (m : IpcManager) :
    m.resetDisconnectedPresentationIfNeeded.pinStore = m.pinStore := by
  unfold resetDisconnectedPresentationIfNeeded
  split <;> rfl

@[simp]
theorem beginRequest_pinStore (m : IpcManager) (peer : DiscoveredPeer) :
    (m.beginRequest peer).2.pinStore = m.pinStore := by
  unfold beginRequest
  dsimp only
  split <;> simp

@[simp]
theorem receiveRequest_pinStore (m : IpcManager) : m.receiveRequest.2.pinStore = m.pinStore := by
  unfold receiveRequest
  dsimp only
  split <;> simp

@[simp]
theorem beginConnecting_pinStore (m : IpcManager) : m.beginConnecting.2.pinStore = m.pinStore := by
  unfold beginConnecting
  split <;> rfl

@[simp]
theorem markConnected_pinStore (m : IpcManager) : m.markConnected.2.pinStore = m.pinStore := by
  unfold markConnected
  split <;> rfl

@[simp]
theorem accept_pinStore (m : IpcManager) (peerCode deviceName deviceType : String) :
    (ContentView.accept m peerCode deviceName deviceType).2.pinStore = m.pinStore := by
  unfold ContentView.accept
  dsimp only
  split <;> simp

@[simp]
theorem sendPairingDecision_pinStore (m : IpcManager) (requestId : String)
    (decision : PairingDecision) :
    (m.sendPairingDecision requestId decision).pinStore = m.pinStore := by
  obtain ⟨peer, request, hframe⟩ := sendPairingDecision_frame m requestId decision
  rw [hframe]

@[simp]
theorem resolvePeer_pinStore (m : IpcManager) (key : Option String) :
    (m.resolvePeer key).pinStore = m.pinStore := by
  unfold resolvePeer
  split <;> rfl

@[simp]
theorem sessionConnected_pinStore (m : IpcManager) (key : Option String) :
    (m.sessionConnected key).pinStore = m.pinStore := by
  unfold sessionConnected
  dsimp only
  split <;> split <;> simp

@[simp]
theorem applyWtVerificationCode_pinStore (m : IpcManager) (sas : Option String) :
    (ContentView.applyWtVerificationCode m sas).pinStore = m.pinStore := by
  unfold ContentView.applyWtVerificationCode
  split
  . rfl
  . split <;> rfl

@[simp]
theorem resolveWtPeer_pinStore (m : IpcManager) :
    (ContentView.resolveWtPeer m).pinStore = m.pinStore := by
  unfold ContentView.resolveWtPeer
  split <;> rfl

@[simp]
theorem onWtSessionActive_pinStore (m : IpcManager) (active : Bool) (sas : Option String) :
    (ContentView.onWtSessionActive m active sas).pinStore = m.pinStore := by
  unfold ContentView.onWtSessionActive
  dsimp only
  split <;> split <;> simp [disconnectSession]

@[simp]
theorem dismissDisconnect_pinStore (m : IpcManager) : m.dismissDisconnect.pinStore = m.pinStore := by
  unfold dismissDisconnect
  split <;> rfl

@[simp]
theorem poll_pinStore (m : IpcManager) (connected : Bool) :
    (m.poll connected).pinStore = m.pinStore := by
  unfold poll
  split <;> rfl

theorem start_pinStore {m : IpcManager} (h : m.pinStore.isSome = true) (file : Option Json)
    (connects : Bool) : (m.start file connects).pinStore = m.pinStore := by
  obtain ⟨store, hstore⟩ := Option.isSome_iff_exists.mp h
  simp only [start, hstore, Option.isNone_some, Bool.false_eq_true, if_false]
  split
  . exact hstore
  . split <;> rfl

theorem handleEvent_pinStore {m m' : IpcManager} {event : DaemonEvent} {now : Date}
    (h : m.handleEvent event now = some m') (hmove : m.sighting (.event event now) = none) :
    m'.pinStore = m.pinStore := by
  cases event with
  | sessionSas sas remote =>
    obtain rfl := Option.some.inj h
    exact sessionSas_of_no_sighting hmove
  | statusUpdate connectedPeers =>
    simp only [handleEvent, statusUpdate] at h
    split at h
    . simp at h
    . split at h <;>
      . obtain rfl := Option.some.inj h
        rfl
  | sessionConnected key =>
    obtain rfl := Option.some.inj h
    simp
  | transferStarted fileName transferId direction fileSizeBytes =>
    simp only [handleEvent] at h
    split at h <;>
    . obtain rfl := Option.some.inj h
      rfl
  | transferProgress progress transferId =>
    obtain rfl := Option.some.inj h
    unfold transferProgress
    split <;> rfl
  | _ =>
    obtain rfl := Option.some.inj h
    rfl

theorem pinStore_of_step {m m' : IpcManager} {move : Move} (h : m.step move = some m')
    (hstore : m.pinStore.isSome = true) (hmove : m.sighting move = none) :
    m'.pinStore = m.pinStore := by
  cases move with
  | event event now => exact handleEvent_pinStore h hmove
  | start file connects =>
    obtain rfl := Option.some.inj h
    exact start_pinStore hstore file connects
  | resetSession | disconnectSession | dismissRequest | clearTransfer | markVerified | callback | sendFile
      | skip =>
    obtain rfl := Option.some.inj h
    rfl
  | _ =>
    obtain rfl := Option.some.inj h
    simp

/-! ### The table and the log -/

theorem start_emptyStore {file : Option Json} (h : (PinStore.init file).pins = ∅) (connects : Bool) :
    RemembersFirst (({} : IpcManager).start file connects) [] := by
  refine ⟨PinStore.init file, ?_, ?_⟩
  . cases connects <;> rfl
  . simp [h, Pins.name, Tofu.owner]

theorem sighting_eq_some {m : IpcManager} {move : Move} {name : Option String} {key : String}
    (h : m.sighting move = some (name, key)) :
    ∃ sas remote now, move = .event (.sessionSas (some sas) remote) now
      ∧ remote.or (m.connectedPeer.bind (·.identityKeyB64)) = some key
      ∧ m.connectedPeer.map (·.deviceName) = name := by
  unfold sighting at h
  split at h
  . next sas remote now =>
    obtain ⟨key', hkey, hname⟩ := Option.map_eq_some_iff.mp h
    cases hname
    exact ⟨sas, remote, now, rfl, hkey, rfl⟩
  . simp at h

theorem checkMismatch_iff_flagged {store : PinStore} {log : List (Option String × String)}
    (h : ∀ key, store.pins.name key = Tofu.owner log key) (key name : String)
    : store.checkMismatch key name ≠ none ↔ Tofu.Flagged log (some name) key := by
  rw [ne_eq, PinStore.checkMismatch_eq_none_iff]
  simp only [h, Tofu.Flagged]
  push Not
  constructor
  . rintro ⟨other, hother, howner⟩
    exact ⟨other, howner, hother⟩
  . rintro ⟨other, howner, hother⟩
    exact ⟨other, hother, howner⟩

theorem name_pin {store : PinStore} {log : List (Option String × String)}
    (h : ∀ key, store.pins.name key = Tofu.owner log key) (key : String) (name : Option String)
    (now : Date) (other : String)
    : (store.pin key name now).pins.name other = Tofu.owner (log ++ [(name, key)]) other := by
  rw [Tofu.owner_append]
  split
  . next hother =>
    subst hother
    -- a key that is pinned keeps its first name in the store as in the log
    cases hname : store.pins.name other with
    | none =>
      rw [PinStore.name_pin_self (PinStore.notMem_pins_of_name hname), ← h, hname]
      rfl
    | some first =>
      rw [PinStore.pin_of_mem (PinStore.mem_pins_of_name hname), hname, ← h, hname]
      rfl
  . next hother => rw [PinStore.name_pin_ne hother, h]

theorem showsMismatch_mismatch {m : IpcManager} {peer : PeerSession} (hpeer : m.connectedPeer = some peer)
    (name oldKey key : String) :
    ((m.setTrust (.mismatch name oldKey)).setIdentityKey key).showsMismatch = true := by
  simp [showsMismatch, setIdentityKey, setTrust, hpeer]

theorem showsMismatch_unverified (m : IpcManager) (sas key : String) (pinStore : Option PinStore)
    : showsMismatch { (m.setTrust (.unverified sas)).setIdentityKey key with pinStore }
        =
      false := by
  cases hpeer : m.connectedPeer <;> simp [showsMismatch, setIdentityKey, setTrust, hpeer]

theorem step_of_sighting {m m' : IpcManager} {move : Move} {log : List (Option String × String)}
    {name : Option String} {key : String} (hm : RemembersFirst m log) (h : m.step move = some m')
    (hsighting : m.sighting move = some (name, key)) :
    (m'.showsMismatch = true ↔ ∃ n, name = some n ∧ Tofu.Flagged log (some n) key)
      ∧ RemembersFirst m' (acceptedKeys.next log m move m') := by
  obtain ⟨store, hstore, hpins⟩ := hm
  obtain ⟨sas, remote, now, rfl, hkey, hname⟩ := sighting_eq_some hsighting
  obtain rfl := Option.some.inj h
  -- a mismatch leaves the store and the log alone, everything else goes into both
  by_cases hcheck : ∃ peer oldKey, m.connectedPeer = some peer
      ∧ store.checkMismatch key peer.deviceName = some oldKey
  . obtain ⟨peer, oldKey, hpeer, hold⟩ := hcheck
    simp only [hpeer, Option.bind_some] at hkey
    simp only [hpeer, Option.map_some] at hname
    rw [sessionSas_mismatch hstore hpeer hkey hold]
    have hshows := showsMismatch_mismatch hpeer peer.deviceName oldKey key
    have hflagged := (checkMismatch_iff_flagged hpins key peer.deviceName).mp (by simp [hold])
    constructor
    . simp only [hshows, true_iff]
      exact ⟨peer.deviceName, hname.symm, hflagged⟩
    . refine ⟨store, hstore, ?_⟩
      simp only [acceptedKeys, hsighting, hshows, if_true]
      exact hpins
  . have hnone : ∀ peer, m.connectedPeer = some peer →
        store.checkMismatch key peer.deviceName = none := by
      intro peer hpeer
      by_contra hne
      obtain ⟨oldKey, hold⟩ := Option.ne_none_iff_exists'.mp hne
      exact hcheck ⟨peer, oldKey, hpeer, hold⟩
    rw [sessionSas_accepted hstore hkey hnone]
    constructor
    . rw [showsMismatch_unverified]
      simp only [Bool.false_eq_true, false_iff, not_exists, not_and]
      rintro n rfl hflagged
      obtain ⟨peer, hpeer, rfl⟩ := Option.map_eq_some_iff.mp hname
      exact (checkMismatch_iff_flagged hpins key peer.deviceName).mpr hflagged (hnone peer hpeer)
    . refine ⟨store.pin key (m.connectedPeer.map (·.deviceName)) now, rfl, ?_⟩
      simp only [acceptedKeys, hsighting, showsMismatch_unverified, Bool.false_eq_true, if_false]
      rw [hname]
      exact name_pin hpins key name now

theorem remembersFirst {m : IpcManager} {log : List (Option String × String)}
    (h : (emptyStoreMachine.observed acceptedKeys).Reachable (m, log)) : RemembersFirst m log := by
  refine Machine.Reachable.invariant (I := fun p => RemembersFirst p.1 p.2) ?_ ?_ h
  . rintro ⟨m, log⟩ ⟨⟨file, connects, hfile, hm⟩, hlog⟩
    dsimp only at hm hlog ⊢
    subst hm hlog
    exact start_emptyStore hfile connects
  . rintro ⟨m, log⟩ move ⟨m', log'⟩ - ih ⟨hstep, hnext⟩
    dsimp only at ih hstep hnext ⊢
    subst hnext
    cases hsighting : m.sighting move with
    | some sighting => exact (step_of_sighting ih hstep hsighting).2
    | none =>
      obtain ⟨store, hstore, hpins⟩ := ih
      have hkept := pinStore_of_step hstep (by simp [hstore]) hsighting
      simp only [acceptedKeys, hsighting]
      exact ⟨store, hkept.trans hstore, hpins⟩

def sightedSession (peer : DiscoveredPeer) (key : String) (now : Date) : List Move :=
  [.beginRequest peer, .event (.sessionConnected none) now,
    .event (.sessionSas (some "402913") (some key)) now, .event (.sessionEnded "closed") now]

end IpcManager

end LocalBolt
