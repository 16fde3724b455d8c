import LocalBolt.Session.Lemmas.Connected

/-!
This module contains the transfer state of the session manager: what each move does to it, and when
it is confined to a connected session.
-/

namespace LocalBolt

structure Transfer where
  phase : TransferPhase
  fileSizeBytes : UInt64
  paused : Bool
  deriving DecidableEq

namespace Transfer

def none : Transfer where
  phase := .idle
  fileSizeBytes := 0
  paused := false

def started (t : Transfer) (fileName transferId direction : String) (fileSizeBytes : UInt64) :
    Transfer where
  phase :=
    if direction = "receive" then .receiving fileName transferId 0 else .sending fileName transferId 0
  fileSizeBytes
  paused := t.paused

def progressed (t : Transfer) (progress : ℚ) (transferId : String) : Transfer :=
  match t.phase with
  | .sending fn _ _ => { t with phase := .sending fn transferId progress }
  | .receiving fn _ _ => { t with phase := .receiving fn transferId progress }
  | _ => t

/--
What the transfer events, a pressed Send and a cleared transfer make of the transfer state. None of
them looks at the session.
-/
def after (t : Transfer) : Move → Transfer
  | .event (.transferStarted fileName transferId direction fileSizeBytes) _ =>
    t.started fileName transferId direction fileSizeBytes
  | .event (.transferProgress progress transferId) _ => t.progressed progress transferId
  | .event (.transferComplete fileName savePath) _ => { t with phase := .complete fileName savePath }
  | .event (.transferError fileName reason) _ => { t with phase := .failed fileName reason }
  | .event .transferPaused _ => { t with paused := true }
  | .event .transferResumed _ => { t with paused := false }
  | .sendFile fileName => { t with phase := .sending fileName "pending" 0 }
  | .clearTransfer => .none
  | _ => t

end Transfer

def Move.raisesTransfer : Move → Bool
  | .event (.transferStarted _ _ _ _) _ => true
  | .event (.transferComplete _ _) _ => true
  | .event (.transferError _ _) _ => true
  | .event .transferPaused _ => true
  | .sendFile _ => true
  | _ => false

theorem Transfer.after_none_of_not_raises {move : Move} (h : move.raisesTransfer = false) :
    Transfer.none.after move = .none := by
  cases move with
  | event event now =>
    cases event with
    | transferStarted | transferComplete | transferError | transferPaused =>
      simp [Move.raisesTransfer] at h
    | _ => rfl
  | sendFile => simp [Move.raisesTransfer] at h
  | _ => rfl

theorem Transfer.after_ne_none_of_raises {move : Move} (h : move.raisesTransfer = true)
    (t : Transfer) : t.after move ≠ .none := by
  cases move with
  | event event now =>
    cases event with
    | transferStarted fileName transferId direction fileSizeBytes =>
      simp only [Transfer.after, Transfer.started, Transfer.none]
      split <;> simp
    | transferComplete | transferError | transferPaused => simp [Transfer.after, Transfer.none]
    | _ => simp [Move.raisesTransfer] at h
  | sendFile => simp [Transfer.after, Transfer.none]
  | _ => simp [Move.raisesTransfer] at h

namespace IpcManager

def transfer (m : IpcManager) : Transfer where
  phase := m.transferPhase
  fileSizeBytes := m.transferFileSizeBytes
  paused := m.transferPaused

/-! ### Spec lemmas of the transitions -/

@[simp]
theorem transfer_resetSession (m : IpcManager) : m.resetSession.transfer = .none := by rfl

@[simp]
theorem transfer_disconnectSession (m : IpcManager) (reason : String) :
    (m.disconnectSession reason).transfer = .none := by rfl

@[simp]
theorem transfer_start (m : IpcManager) (file : Option Json) (connects : Bool) :
    (m.start file connects).transfer = m.transfer := by
  unfold start
  dsimp only
  split <;> split <;> (try split) <;> rfl

@[simp]
theorem transfer_poll (m : IpcManager) (connected : Bool) :
    (m.poll connected).transfer = m.transfer := by
  unfold poll
  split <;> rfl

@[simp]
theorem transfer_sessionSas (m : IpcManager) (sas key : Option String) (now : Date) :
    (m.sessionSas sas key now).transfer = m.transfer := by
  obtain ⟨peer, store, hframe⟩ := sessionSas_frame m sas key now
  rw [hframe]
  rfl

@[simp]
theorem transfer_resolvePeer (m : IpcManager) (key : Option String) :
    (m.resolvePeer key).transfer = m.transfer := by
  unfold resolvePeer
  split <;> rfl

@[simp]
theorem transfer_resolveWtPeer (m : IpcManager) :
    (ContentView.resolveWtPeer m).transfer = m.transfer := by
  unfold ContentView.resolveWtPeer
  split <;> rfl

@[simp]
theorem transfer_applyWtVerificationCode (m : IpcManager) (sas : Option String) :
    (ContentView.applyWtVerificationCode m sas).transfer = m.transfer := by
  unfold ContentView.applyWtVerificationCode
  split
  . rfl
  . split <;> rfl

theorem transfer_sessionConnected (m : IpcManager) (key : Option String) :
    (m.sessionConnected key).transfer = m.transfer := by
  by_cases hopen : m.sessionPhase.Opening
  . rw [sessionConnected_of_opening hopen, transfer_resolvePeer]
    rfl
  . rw [sessionConnected_of_not_opening hopen]

theorem transfer_sendPairingDecision (m : IpcManager) (requestId : String)
    (decision : PairingDecision) :
    (m.sendPairingDecision requestId decision).transfer = m.transfer := by
  obtain ⟨peer, request, hframe⟩ := sendPairingDecision_frame m requestId decision
  rw [hframe]
  rfl

@[simp]
theorem sessionSas_sessionPhase (m : IpcManager) (sas key : Option String) (now : Date) :
    (m.sessionSas sas key now).sessionPhase = m.sessionPhase := by
  obtain ⟨peer, store, hframe⟩ := sessionSas_frame m sas key now
  rw [hframe]

@[simp]
theorem sendPairingDecision_sessionPhase (m : IpcManager) (requestId : String)
    (decision : PairingDecision) :
    (m.sendPairingDecision requestId decision).sessionPhase = m.sessionPhase := by
  obtain ⟨peer, request, hframe⟩ := sendPairingDecision_frame m requestId decision
  rw [hframe]

theorem resetDisconnected_transfer (m : IpcManager) :
    m.resetDisconnectedPresentationIfNeeded.transfer = m.transfer
      ∨ m.resetDisconnectedPresentationIfNeeded.transfer = .none := by
  unfold resetDisconnectedPresentationIfNeeded
  split
  . exact .inr rfl
  . exact .inl rfl

/-! ### The inversion lemma -/

/--
A move does to the transfer what it says, and then a connected session goes on, or it clears the
transfer.
-/
def TransferChange (m : IpcManager) (move : Move) (m' : IpcManager) : Prop :=
  (m'.transfer = m.transfer.after move
      ∧ (m.sessionPhase = .connected → m'.sessionPhase = .connected))
    ∨ m'.transfer = .none

theorem handleEvent_transferChange {m m' : IpcManager} {event : DaemonEvent} {now : Date}
    (h : m.handleEvent event now = some m') : m.TransferChange (.event event now) m' := by
  cases event with
  | statusUpdate connectedPeers =>
    simp only [handleEvent, statusUpdate] at h
    split at h
    . simp at h
    . split at h
      . obtain rfl := Option.some.inj h
        exact .inr rfl
      . obtain rfl := Option.some.inj h
        exact .inl ⟨rfl, id⟩
  | sessionConnected key =>
    obtain rfl := Option.some.inj h
    refine .inl ⟨transfer_sessionConnected m key, ?_⟩
    intro hphase
    rw [sessionConnected_of_not_opening]
    . exact hphase
    . intro hopen
      exact hopen.ne_connected hphase
  | sessionSas sas key =>
    obtain rfl := Option.some.inj h
    refine .inl ⟨transfer_sessionSas m sas key now, ?_⟩
    intro hphase
    rw [sessionSas_sessionPhase]
    exact hphase
  | sessionEnded reason | sessionError reason =>
    obtain rfl := Option.some.inj h
    exact .inr rfl
  | transferStarted fileName transferId direction fileSizeBytes =>
    simp only [handleEvent] at h
    refine .inl ⟨?_, ?_⟩
    . split at h <;>
        . next hdirection =>
          obtain rfl := Option.some.inj h
          simp [transfer, Transfer.after, Transfer.started, hdirection]
    . intro hphase
      split at h <;>
        . obtain rfl := Option.some.inj h
          exact hphase
  | transferProgress progress transferId =>
    simp only [handleEvent, transferProgress, Option.some.injEq] at h
    subst h
    refine .inl ⟨?_, ?_⟩
    . simp only [transfer, Transfer.after, Transfer.progressed]
      split <;> simp_all
    . intro hphase
      split <;> exact hphase
  | bridgeDisconnected =>
    obtain rfl := Option.some.inj h
    exact .inr rfl
  | _ =>
    obtain rfl := Option.some.inj h
    exact .inl ⟨rfl, id⟩

theorem transferChange_of_fresh {m m' : IpcManager} {move : Move}
    (hfresh : m.sessionPhase.canStartFreshConnection = true)
    (hafter : m.transfer.after move = m.transfer)
    (h : m'.transfer = m.resetDisconnectedPresentationIfNeeded.transfer) :
    m.TransferChange move m' := by
  rcases resetDisconnected_transfer m with hsame | hnone
  . refine .inl ⟨h.trans (hsame.trans hafter.symm), ?_⟩
    intro hphase
    simp [hphase, SessionPhase.canStartFreshConnection] at hfresh
  . exact .inr (h.trans hnone)

theorem onWtSessionActive_transferChange (m : IpcManager) (active : Bool) (sas : Option String) :
    m.TransferChange (.wtSessionActive active sas) (ContentView.onWtSessionActive m active sas) := by
  cases active with
  | true =>
    by_cases hphase : m.sessionPhase = .connecting
    . rw [onWtSessionActive_connecting hphase]
      refine .inl ⟨?_, ?_⟩
      . rw [transfer_applyWtVerificationCode, transfer_resolveWtPeer]
        rfl
      . intro hconnected
        simp [hphase] at hconnected
    . rw [onWtSessionActive_of_not hphase]
      exact .inl ⟨rfl, id⟩
  | false =>
    by_cases hphase : m.sessionPhase = .connected
    . rw [onWtSessionActive_connected hphase]
      exact .inr rfl
    . rw [onWtSessionActive_false_of_not hphase]
      exact .inl ⟨rfl, id⟩

theorem step_transferChange {m m' : IpcManager} {move : Move} (h : m.step move = some m') :
    m.TransferChange move m' := by
  cases move with
  | event event now => exact handleEvent_transferChange h
  | start file connects =>
    obtain rfl := Option.some.inj h
    have hattempt := congrArg Attempt.sessionPhase (attempt_start m file connects)
    exact .inl ⟨transfer_start m file connects, fun hphase => hattempt.trans hphase⟩
  | poll connected =>
    obtain rfl := Option.some.inj h
    have hattempt := congrArg Attempt.sessionPhase (attempt_poll m connected)
    exact .inl ⟨transfer_poll m connected, fun hphase => hattempt.trans hphase⟩
  | beginRequest peer =>
    obtain rfl := Option.some.inj h
    by_cases hfresh : m.sessionPhase.canStartFreshConnection = true
    . rw [beginRequest_of_fresh hfresh]
      exact transferChange_of_fresh hfresh rfl rfl
    . rw [beginRequest_of_not hfresh]
      exact .inl ⟨rfl, id⟩
  | receiveRequest =>
    obtain rfl := Option.some.inj h
    by_cases hfresh : m.sessionPhase.canStartFreshConnection = true
    . rw [receiveRequest_of_fresh hfresh]
      exact transferChange_of_fresh hfresh rfl rfl
    . rw [receiveRequest_of_not hfresh]
      exact .inl ⟨rfl, id⟩
  | beginConnecting =>
    obtain rfl := Option.some.inj h
    by_cases hasking : m.sessionPhase = .requesting ∨ m.sessionPhase = .incomingRequest
    . rw [beginConnecting_of hasking]
      exact .inl ⟨rfl, fun hphase => absurd hphase (ne_connected_of_asking hasking)⟩
    . rw [beginConnecting_of_not hasking]
      exact .inl ⟨rfl, id⟩
  | accept peerCode deviceName deviceType =>
    obtain rfl := Option.some.inj h
    by_cases hasking : m.sessionPhase = .requesting ∨ m.sessionPhase = .incomingRequest
    . rw [accept_of hasking]
      exact .inl ⟨rfl, fun hphase => absurd hphase (ne_connected_of_asking hasking)⟩
    . rw [accept_of_not hasking]
      exact .inl ⟨rfl, id⟩
  | resetSession | disconnectSession =>
    obtain rfl := Option.some.inj h
    exact .inr rfl
  | dismissDisconnect =>
    obtain rfl := Option.some.inj h
    unfold dismissDisconnect
    split
    . exact .inr rfl
    . exact .inl ⟨rfl, id⟩
  | sendPairingDecision requestId decision =>
    obtain rfl := Option.some.inj h
    refine .inl ⟨transfer_sendPairingDecision m requestId decision, ?_⟩
    intro hphase
    rw [sendPairingDecision_sessionPhase]
    exact hphase
  | wtSessionActive active sas =>
    obtain rfl := Option.some.inj h
    exact onWtSessionActive_transferChange m active sas
  | wtSessionSAS sas =>
    obtain rfl := Option.some.inj h
    refine .inl ⟨transfer_applyWtVerificationCode m sas, ?_⟩
    intro hphase
    simpa using hphase
  | clearTransfer =>
    obtain rfl := Option.some.inj h
    exact .inr rfl
  | _ =>
    obtain rfl := Option.some.inj h
    exact .inl ⟨rfl, id⟩

theorem step_raisesTransfer {m m' : IpcManager} {move : Move} (h : m.step move = some m')
    (hmove : move.raisesTransfer = true) :
    m'.transfer = m.transfer.after move ∧ m'.sessionPhase = m.sessionPhase := by
  cases move with
  | event event now =>
    cases event with
    | transferStarted fileName transferId direction fileSizeBytes =>
      simp only [step, handleEvent] at h
      split at h <;>
        . next hdirection =>
          obtain rfl := Option.some.inj h
          simp [transfer, Transfer.after, Transfer.started, hdirection]
    | transferComplete | transferError | transferPaused =>
      obtain rfl := Option.some.inj h
      exact ⟨rfl, rfl⟩
    | _ => simp [Move.raisesTransfer] at hmove
  | sendFile fileName =>
    obtain rfl := Option.some.inj h
    exact ⟨rfl, rfl⟩
  | _ => simp [Move.raisesTransfer] at hmove

/-! ### Transfer state outside a session -/

def TransferConfined (m : IpcManager) : Prop :=
  m.sessionPhase ≠ .connected →
    m.transferPhase = .idle ∧ m.transferFileSizeBytes = 0 ∧ m.transferPaused = false

instance : DecidablePred TransferConfined := fun m =>
  inferInstanceAs (Decidable (m.sessionPhase ≠ .connected →
    m.transferPhase = .idle ∧ m.transferFileSizeBytes = 0 ∧ m.transferPaused = false))

theorem transferConfined_iff (m : IpcManager) :
    m.TransferConfined ↔ (m.sessionPhase ≠ .connected → m.transfer = .none) := by
  simp [TransferConfined, transfer, Transfer.none]

theorem transferConfined_step_iff {m m' : IpcManager} {move : Move} (hm : m.TransferConfined)
    (h : m.step move = some m') :
    m'.TransferConfined ↔ (move.raisesTransfer = true → m.sessionPhase = .connected) := by
  rw [transferConfined_iff] at hm ⊢
  constructor
  . intro hm' hmove
    obtain ⟨htransfer, hphase⟩ := step_raisesTransfer h hmove
    by_contra hsource
    rw [hphase, htransfer] at hm'
    exact Transfer.after_ne_none_of_raises hmove _ (hm' hsource)
  . intro hmove htarget
    rcases step_transferChange h with ⟨htransfer, hstays⟩ | hnone
    . have hsource : m.sessionPhase ≠ .connected := fun hsource => htarget (hstays hsource)
      have hraises : move.raisesTransfer = false := by
        rw [← Bool.not_eq_true]
        exact fun hraises => hsource (hmove hraises)
      rw [htransfer, hm hsource]
      exact Transfer.after_none_of_not_raises hraises
    . exact hnone

theorem transfer_confined_to_session_iff {tr : List (Transition IpcManager Move)} {m : IpcManager}
    (h : machine.Run tr m)
    : (∀ t ∈ tr, t.target.TransferConfined)
        ↔
      ∀ t ∈ tr, t.action.raisesTransfer = true → t.source.sessionPhase = .connected := by
  refine Machine.Run.forall_iff_of_good TransferConfined ?_ ?_ ?_ h
  . intro m hm
    simp only [machine, Machine.ofFun] at hm
    subst hm
    simp [TransferConfined]
  . intro m move m' _ _ _ htarget
    exact htarget
  . intro m move m' _ hm hstep
    exact transferConfined_step_iff hm hstep

def sessionWithTransfer : List Move :=
  [.start none true, .beginRequest ⟨"B7H2MN", "Bob", "laptop", none, none⟩,
    .event (.sessionConnected none) ⟨0⟩, .event (.transferStarted "photo.jpg" "t1" "receive" 1048576) ⟨0⟩,
    .event .transferPaused ⟨0⟩, .event (.sessionEnded "peer left") ⟨1⟩]

theorem transfer_confined_in_session
    : let tr := Machine.trace step {} sessionWithTransfer
      (∃ t ∈ tr, t.target.transferPhase ≠ .idle) ∧ ∀ t ∈ tr, t.target.TransferConfined := by
  intro tr
  obtain ⟨m, h⟩ := Machine.run_trace (M := machine) rfl (fun _ _ _ => id) sessionWithTransfer
  have hraised : tr.any (fun t => t.target.transferPhase ≠ .idle) = true := by decide
  have hsession : tr.all (fun t =>
      !t.action.raisesTransfer || t.source.sessionPhase = .connected) = true := by decide
  refine ⟨?_, (transfer_confined_to_session_iff h).mpr ?_⟩
  . simpa using List.any_eq_true.mp hraised
  . intro t ht hmove
    have := List.all_eq_true.mp hsession t ht
    simpa [hmove] using this

theorem late_error_outlives_session : ∃ m, machine.Reachable m ∧ ¬ m.TransferConfined := by
  have hlate : (Machine.exec step {}
      (sessionWithTransfer ++ [.event (.transferError "photo.jpg" "cancelled") ⟨1⟩])).any
        (fun m => !decide m.TransferConfined) = true := by decide
  obtain ⟨m, h, hlate⟩ := Machine.exists_reachable_of_exec hlate
  exact ⟨m, h, by simpa using hlate⟩

end IpcManager

end LocalBolt
