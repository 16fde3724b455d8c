import LocalBolt.Session.Impl.Move

/-!
This module contains what the operations of the session that have many branches leave alone.
-/

namespace LocalBolt

namespace IpcManager

theorem sendPairingDecision_frame (m : IpcManager) (requestId : String) (decision : PairingDecision)
    : ∃ peer request, m.sendPairingDecision requestId decision
        =
      { m with pendingAcceptPeer := peer, pendingRequest := request } := by
  unfold sendPairingDecision
  split
  . exact ⟨_, _, rfl⟩
  . dsimp only
    split
    . split <;> exact ⟨_, _, rfl⟩
    . exact ⟨_, _, rfl⟩

theorem sessionSas_frame (m : IpcManager) (sas key : Option String) (now : Date)
    : ∃ peer store, m.sessionSas sas key now
        =
      { m with connectedPeer := peer, pinStore := store } := by
  unfold sessionSas
  split
  . exact ⟨_, _, rfl⟩
  . dsimp only
    split
    . exact ⟨_, _, rfl⟩
    . split <;> exact ⟨_, _, rfl⟩

end IpcManager

end LocalBolt
