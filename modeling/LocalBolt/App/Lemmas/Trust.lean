import LocalBolt.App.Lemmas.Simulation
import LocalBolt.Session.Lemmas.Approval
import LocalBolt.Session.Lemmas.SasReview

/-!
This module contains what the runs of the app keep of the trust in a peer: how long an approval
lasts, how long a mismatch blocks transfers, and whether transfers wait for the review of the SAS.
-/

namespace LocalBolt

namespace App

theorem signalMove_ne_markVerified (signal : IncomingSignal) : signalMove signal ≠ .markVerified := by
  unfold signalMove
  split <;> simp

theorem lineMove_ne_markVerified (s : App) (now : Date) : s.lineMove now ≠ .markVerified := by
  unfold lineMove
  split
  . split
    . split <;> simp
    . simp
  . simp

theorem move_eq_markVerified {s : App} {action : Action} :
    s.move action = .markVerified ↔ action = .markVerified := by
  cases action with
  | incomingSignal signal => simp [move, signalMove_ne_markVerified]
  | ipcLine now => simp [move, lineMove_ne_markVerified]
  | onConnectionDeclined =>
    simp only [move]
    split <;> simp
  | sendFirstFile | sendNextOrClear =>
    simp only [move, queueMove]
    split <;> simp
  | _ => simp [move]

/-! ### Approvals -/

theorem approval_is_session_scoped (peerCode : String) (daemonBinaryPath : Option String) {s : App}
    {approved : Bool}
    (h : (watched IpcManager.approval peerCode daemonBinaryPath).Reachable (s, approved)) :
    (s.ipc.connectedPeer.isSome = true → s.ipc.sessionPhase = .connected)
      ∧ (s.ipc.connectedPeer.map (·.trust) = some .verified → approved = true)
      ∧ ∀ action s', s.next action = some s' →
          s'.ipc.connectedPeer.map (·.trust) = some .verified →
            action = .markVerified ∨ s.ipc.connectedPeer.map (·.trust) = some .verified := by
  have hwatched : (IpcManager.machine.observed IpcManager.approval).Reachable (s.ipc, approved) :=
    h.simulate (watchedSimulation IpcManager.approval peerCode daemonBinaryPath)
  have hm : s.ipc.attempt.Valid := IpcManager.Reachable.valid hwatched.of_observed
  refine ⟨?_, IpcManager.approved_of_verified hwatched, ?_⟩
  . intro hpeer
    obtain ⟨peer, hpeer⟩ := Option.isSome_iff_exists.mp hpeer
    exact hm.connected peer hpeer
  . intro action s' hnext hverified
    rcases IpcManager.verified_of_step hm (next_ipc hnext) hverified with hmove | ⟨-, hverified⟩
    . exact .inl (move_eq_markVerified.mp hmove)
    . exact .inr hverified

def reviewedSession (peer : DiscoveredPeer) (host : Host) (sas remoteIdentityPkB64 : String)
    (now : Date) : List Action :=
  .initiateConnection peer host
    :: deliver [sessionConnectedEvent, sessionSasEvent sas remoteIdentityPkB64] now

theorem approval_of_reviewed_session
    : ∃ s,
        (watched IpcManager.approval "A3F9KQ" (some "bolt-daemon")).Reachable (s, true)
          ∧ s.ipc.connectedPeer.map (·.trust) = some .verified := by
  let bob : DiscoveredPeer := ⟨"B7H2MN", "Bob", "laptop", none, none⟩
  obtain ⟨⟨s, approved⟩, hrendered, hP⟩ := exists_renderedWatched IpcManager.approval "A3F9KQ"
    (some "bolt-daemon")
    (launch [bob] ++ reviewedSession bob ⟨"192.168.1.5", none⟩ "402913" "a2V5MQ==" ⟨0⟩
      ++ [.markVerified])
    (fun q => q.1.ipc.connectedPeer.map (·.trust) = some .verified) (by decide)
  have hverified : s.ipc.connectedPeer.map (·.trust) = some .verified := of_decide_eq_true hP
  have h := watched_of_rendered hrendered
  obtain rfl := (approval_is_session_scoped _ _ h).2.1 hverified
  exact ⟨s, h, hverified⟩

/-! ### Mismatches -/

theorem mismatch_blocks_session_iff (peerCode : String) (daemonBinaryPath : Option String)
    {tr : List (Transition (App × Bool) Action)} {q : App × Bool}
    (h : (watched IpcManager.mismatchSeen peerCode daemonBinaryPath).Run tr q)
    : (∀ t ∈ tr, t.target.2 = true → t.target.1.ipc.transferGate = false)
        ↔
      ∀ t ∈ tr, t.source.2 = true → t.action ≠ .markVerified := by
  have hsession := IpcManager.mismatch_blocks_iff
    (h.simulate (watchedSimulation IpcManager.mismatchSeen peerCode daemonBinaryPath))
  simp only [List.forall_mem_map] at hsession
  refine hsession.trans (forall₂_congr fun t _ => ?_)
  exact imp_congr_right fun _ => not_congr move_eq_markVerified

def changedIdentity : List Action :=
  let bob : DiscoveredPeer := ⟨"B7H2MN", "Bob", "laptop", none, none⟩
  let host : Host := ⟨"192.168.1.5", none⟩
  launch [bob]
    ++ reviewedSession bob host "402913" "a2V5MQ==" ⟨0⟩
    ++ [.disconnect, .dismissDisconnect]
    ++ reviewedSession bob host "771025" "a2V5Mg==" ⟨60⟩
    ++ [.daemonPoll true (some "[SAS] 118342\n[WT_SESSION] ACTIVE_SESSION registered"),
        .onWtSessionActive, .onWtSessionSAS]

theorem mismatch_then_approve_opens_gate
    : ∃ s,
        (renderedWatched IpcManager.mismatchSeen "A3F9KQ" (some "bolt-daemon")).Reachable (s, true)
          ∧ s.ipc.transferGate = true := by
  obtain ⟨⟨s, seen⟩, h, hP⟩ := exists_renderedWatched IpcManager.mismatchSeen "A3F9KQ"
    (some "bolt-daemon") (changedIdentity ++ [.markVerified])
    (fun q => q.2 && q.1.ipc.transferGate) (by decide)
  obtain ⟨rfl, hgate⟩ := Bool.and_eq_true_iff.mp hP
  exact ⟨s, h, hgate⟩

theorem mismatch_blocks_rejected_session
    : let tr := Machine.trace
        (Machine.observedFun
          (IpcManager.mismatchSeen.comap (simulation "A3F9KQ" (some "bolt-daemon"))) next)
        (init "A3F9KQ" (some "bolt-daemon"), false) (changedIdentity ++ [.rejectSas])
      (∃ t ∈ tr, t.target.2 = true)
        ∧ ∀ t ∈ tr, t.target.2 = true → t.target.1.ipc.transferGate = false := by
  intro tr
  have hseen : tr.any (fun t => t.target.2) = true := by decide
  have hmove : tr.all (fun t => !(t.action matches .markVerified)) = true := by decide
  obtain ⟨q, h⟩ := Machine.observed_run_trace
    (IpcManager.mismatchSeen.comap (simulation "A3F9KQ" (some "bolt-daemon")))
    (M := machine "A3F9KQ" (some "bolt-daemon")) rfl (fun _ _ _ => id) (changedIdentity ++ [.rejectSas])
  refine ⟨List.any_eq_true.mp hseen, (mismatch_blocks_session_iff _ _ h).mpr ?_⟩
  rintro t ht - hverified
  have := List.all_eq_true.mp hmove t ht
  simp [hverified] at this

/-! ### Reviews -/

theorem transfers_wait_for_review_iff (peerCode : String) (daemonBinaryPath : Option String)
    {tr : List (Transition (App × SasReview) Action)} {q : App × SasReview}
    (h : (watched IpcManager.sasReview peerCode daemonBinaryPath).Run tr q)
    : (∀ t ∈ tr, t.target.2.reported = true → t.target.2.opened = false)
        ↔
      ∀ t ∈ tr, t.target.2.reported = true → t.target.2.guarded = true := by
  have hsession := IpcManager.review_precedes_transfer_iff
    (h.simulate (watchedSimulation IpcManager.sasReview peerCode daemonBinaryPath))
  simp only [List.forall_mem_map] at hsession
  exact hsession

theorem gate_opens_before_sas
    : ∃ s review,
        (renderedWatched IpcManager.sasReview "A3F9KQ" (some "bolt-daemon")).Reachable (s, review)
          ∧ review.reported = true ∧ review.opened = true ∧ review.approved = false := by
  let bob : DiscoveredPeer := ⟨"B7H2MN", "Bob", "laptop", none, none⟩
  obtain ⟨⟨s, review⟩, h, hP⟩ := exists_renderedWatched IpcManager.sasReview "A3F9KQ"
    (some "bolt-daemon")
    (launch [bob] ++ reviewedSession bob ⟨"192.168.1.5", none⟩ "402913" "a2V5MQ==" ⟨0⟩)
    (fun q => q.2.reported = true ∧ q.2.opened = true ∧ q.2.approved = false) (by decide)
  exact ⟨s, review, h, of_decide_eq_true hP⟩

def pairedSession : List Action :=
  let request : IncomingSignal := ⟨"B7H2MN", "connection_request", []⟩
  launch []
    ++ [.incomingSignal request, .acceptRequest request ⟨"192.168.1.5", none⟩]
    ++ deliver [("daemon://pairing-request", .obj [("request_id", .str "r1"), ("sas", .str "402913")])]
      ⟨0⟩
    ++ [.sendPairingDecision "r1" .allowOnce]
    ++ deliver [sessionConnectedEvent, sessionSasEvent "402913" "a2V5MQ=="] ⟨1⟩

theorem paired_session_waits_for_review
    : let tr := Machine.trace
        (Machine.observedFun
          (IpcManager.sasReview.comap (simulation "A3F9KQ" (some "bolt-daemon"))) next)
        (init "A3F9KQ" (some "bolt-daemon"), IpcManager.sasReview.start) pairedSession
      (∃ t ∈ tr, t.target.2.reported = true)
        ∧ ∀ t ∈ tr, t.target.2.reported = true → t.target.2.opened = false := by
  intro tr
  have hreported : tr.any (fun t => t.target.2.reported) = true := by decide
  have hguarded : tr.all (fun t => !t.target.2.reported || t.target.2.guarded) = true := by decide
  obtain ⟨q, h⟩ := Machine.observed_run_trace
    (IpcManager.sasReview.comap (simulation "A3F9KQ" (some "bolt-daemon")))
    (M := machine "A3F9KQ" (some "bolt-daemon")) rfl (fun _ _ _ => id) pairedSession
  refine ⟨List.any_eq_true.mp hreported, (transfers_wait_for_review_iff _ _ h).mpr ?_⟩
  intro t ht hsas
  have := List.all_eq_true.mp hguarded t ht
  simpa [hsas] using this

end App

end LocalBolt
