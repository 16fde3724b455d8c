import LocalBolt.Rendezvous.Impl.RoomManager

/-!
This module contains the members of the rooms: what each operation on the room table does to them.
-/

namespace LocalBolt

namespace Rendezvous

namespace RoomManager

theorem room_insert (m : RoomManager) (ip : String) (peers : List PeerInfo) (ip' : String) :
    room { m with rooms := m.rooms.insert ip peers } ip' = if ip' = ip then peers else m.room ip' := by
  unfold room
  split
  . next h => rw [h, AList.lookup_insert, Option.getD_some]
  . next h => rw [AList.lookup_insert_ne h]

theorem room_dropRoom (m : RoomManager) (ip ip' : String) :
    (m.dropRoom ip).room ip' = if ip' = ip then [] else m.room ip' := by
  unfold room dropRoom
  split
  . next h => rw [h, AList.lookup_erase, Option.getD_none]
  . next h => rw [AList.lookup_erase_ne h]

def WellFormed (m : RoomManager) : Prop :=
  ∀ ip, ((m.room ip).map (·.peerCode)).Nodup ∧ (m.room ip).length ≤ maxPeersPerRoom

theorem eraseP_peerCode {peers : List PeerInfo} (h : (peers.map (·.peerCode)).Nodup) (code : String)
    : peers.eraseP (fun p => p.peerCode = code)
        =
      peers.filter fun p => p.peerCode ≠ code := by
  induction peers with
  | nil => rfl
  | cons p peers ih =>
    rw [List.map_cons, List.nodup_cons] at h
    by_cases hcode : p.peerCode = code
    . have hothers : ∀ p' ∈ peers, p'.peerCode ≠ code := by
        rintro p' hp' rfl
        exact h.1 (hcode ▸ List.mem_map_of_mem hp')
      rw [List.eraseP_cons_of_pos (by simpa using hcode), List.filter_cons_of_neg (by simpa using hcode),
        List.filter_eq_self.mpr (by simpa using hothers)]
    . rw [List.eraseP_cons_of_neg (by simpa using hcode), List.filter_cons_of_pos (by simpa using hcode),
        ih h.2]

def others (m : RoomManager) (ip code : String) : List PeerInfo :=
  (m.room ip).filter fun p => p.peerCode ≠ code

theorem room_enterRoom_of_full {m : RoomManager} (hm : m.WellFormed) {ip : String} {peer : PeerInfo}
    (hfull : maxPeersPerRoom ≤ (m.others ip peer.peerCode).length) (ip' : String) :
    (m.enterRoom ip peer).manager.room ip' = m.room ip' := by
  have hsame : m.others ip peer.peerCode = m.room ip := by
    apply List.filter_sublist.eq_of_length_le
    exact (hm ip).2.trans hfull
  unfold enterRoom
  rw [eraseP_peerCode (hm ip).1, ← others]
  simp only [ge_iff_le, if_pos hfull]
  rw [room_insert, hsame]
  split
  . next h => rw [h]
  . rfl

theorem room_enterRoom_of_not_full {m : RoomManager} (hm : m.WellFormed) {ip : String}
    {peer : PeerInfo} (hroom : ¬ maxPeersPerRoom ≤ (m.others ip peer.peerCode).length) (ip' : String)
    : (m.enterRoom ip peer).manager.room ip'
        =
      if ip' = ip then m.others ip peer.peerCode ++ [peer] else m.room ip' := by
  unfold enterRoom
  rw [eraseP_peerCode (hm ip).1, ← others]
  simp only [ge_iff_le, if_neg hroom, room_insert]

theorem enterRoom_isOk_iff {m : RoomManager} (hm : m.WellFormed) {ip : String} {peer : PeerInfo} :
    (m.enterRoom ip peer).result.isOk = true
      ↔ ¬ maxPeersPerRoom ≤ (m.others ip peer.peerCode).length := by
  unfold enterRoom
  rw [eraseP_peerCode (hm ip).1, ← others]
  simp only [ge_iff_le]
  split
  . next hfull => simp [hfull, Except.isOk, Except.toBool]
  . next hroom => simp [hroom, Except.isOk, Except.toBool]

def remaining (m : RoomManager) (ip code : String) (sessionId : UInt64) : List PeerInfo :=
  (m.room ip).filter fun p => ¬ (p.peerCode = code ∧ p.sessionId = sessionId)

theorem room_leaveRoom (m : RoomManager) (ip code : String) (sessionId : UInt64) (ip' : String)
    : (m.leaveRoom ip code sessionId).manager.room ip'
        =
      if ip' = ip then m.remaining ip code sessionId else m.room ip' := by
  unfold leaveRoom remaining
  split
  . next hnone =>
    have hempty : m.room ip = [] := by simp [room, hnone]
    split
    . next h => rw [h, hempty, List.filter_nil]
    . rfl
  . next peers hpeers =>
    have hroom : m.room ip = peers := by simp [room, hpeers]
    rw [hroom]
    dsimp only
    split <;> exact room_insert m ip _ ip'

theorem nodup_others_append {m : RoomManager} (hm : m.WellFormed) (ip : String) (peer : PeerInfo) :
    ((m.others ip peer.peerCode ++ [peer]).map (·.peerCode)).Nodup := by
  rw [List.map_append, List.map_singleton]
  refine List.Nodup.append ((List.filter_sublist.map _).nodup (hm ip).1) (by simp) ?_
  rw [List.disjoint_singleton]
  intro hcode
  obtain ⟨p, hp, hcode⟩ := List.mem_map.mp hcode
  simp [others, hcode] at hp

theorem wellFormed_new : new.WellFormed := by
  intro ip
  simp [room, new]

theorem wellFormed_enterRoom {m : RoomManager} (hm : m.WellFormed) (ip : String) (peer : PeerInfo) :
    (m.enterRoom ip peer).manager.WellFormed := by
  intro ip'
  by_cases hfull : maxPeersPerRoom ≤ (m.others ip peer.peerCode).length
  . rw [room_enterRoom_of_full hm hfull]
    exact hm ip'
  . rw [room_enterRoom_of_not_full hm hfull]
    split
    . refine ⟨nodup_others_append hm ip peer, ?_⟩
      rw [List.length_append, List.length_singleton]
      omega
    . exact hm ip'

theorem wellFormed_leaveRoom {m : RoomManager} (hm : m.WellFormed) (ip code : String)
    (sessionId : UInt64) : (m.leaveRoom ip code sessionId).manager.WellFormed := by
  intro ip'
  rw [room_leaveRoom]
  split
  . have hsublist : (m.remaining ip code sessionId).Sublist (m.room ip) := List.filter_sublist
    exact ⟨(hsublist.map _).nodup (hm ip).1, hsublist.length_le.trans (hm ip).2⟩
  . exact hm ip'

theorem wellFormed_dropRoom {m : RoomManager} (hm : m.WellFormed) (ip : String) :
    (m.dropRoom ip).WellFormed := by
  intro ip'
  rw [room_dropRoom]
  split
  . simp
  . exact hm ip'

theorem wellFormed_step {m : RoomManager} {pc : Pc} {p : RoomManager × Pc} (hm : m.WellFormed)
    (h : m.step pc = some p) : p.1.WellFormed := by
  cases pc with
  | returned => simp [step] at h
  | containsKey =>
    obtain rfl := Option.some.inj h
    exact hm
  | len =>
    simp only [step] at h
    split at h <;>
      . obtain rfl := Option.some.inj h
        exact hm
  | entry ip peer =>
    obtain rfl := Option.some.inj h
    exact wellFormed_enterRoom hm ip peer
  | getMut ip code sessionId =>
    obtain rfl := Option.some.inj h
    exact wellFormed_leaveRoom hm ip code sessionId
  | remove ip =>
    obtain rfl := Option.some.inj h
    exact wellFormed_dropRoom hm ip

theorem wellFormed {τ : Type} [DecidableEq τ] {s : Tasks τ RoomManager Pc}
    (h : (machine τ).Reachable s) : s.shared.WellFormed := by
  refine Tasks.invariant ?_ ?_ ?_ h
  . exact wellFormed_new
  . intro m method hm
    cases method <;> exact hm
  . intro m pc p hm hp
    exact wellFormed_step hm hp

theorem findPeer_of_mem {m : RoomManager} (hm : m.WellFormed) {ip : String} {p : PeerInfo}
    (hp : p ∈ m.room ip) : m.findPeer ip p.peerCode = some p.sender := by
  unfold findPeer
  cases hfind : (m.room ip).find? fun peer => peer.peerCode = p.peerCode with
  | none =>
    rw [List.find?_eq_none] at hfind
    exact absurd (decide_eq_true rfl) (hfind p hp)
  | some p' =>
    have hcode : p'.peerCode = p.peerCode := by simpa using List.find?_some hfind
    obtain rfl := List.inj_on_of_nodup_map (hm ip).1 (List.mem_of_find?_eq_some hfind) hp hcode
    rfl

def device (code : String) (sender : PeerSender) : PeerInfo where
  peerCode := code
  deviceName := code
  deviceType := .laptop
  sender
  sessionId := 0
  wtUrl := none
  wtCertHash := none

end RoomManager

end Rendezvous

end LocalBolt
