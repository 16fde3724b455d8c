import LocalBolt.Rendezvous.Lemmas.Rooms

/-!
This module contains what a whole call of `add_peer` or `remove_peer` does to the room table, what it
enqueues and what it returns, when nothing else happens meanwhile.
-/

namespace LocalBolt

namespace Rendezvous

namespace RoomManager

def SameRooms (m m' : RoomManager) : Prop := ∀ ip, m'.rooms.lookup ip = m.rooms.lookup ip

theorem SameRooms.room {m m' : RoomManager} (h : SameRooms m m') (ip : String) :
    m'.room ip = m.room ip := by
  unfold RoomManager.room
  rw [h ip]

theorem SameRooms.mem_iff {m m' : RoomManager} (h : SameRooms m m') (ip : String) :
    ip ∈ m'.rooms ↔ ip ∈ m.rooms := by
  rw [← AList.lookup_isSome, ← AList.lookup_isSome, h ip]

theorem SameRooms.perm {m m' : RoomManager} (h : SameRooms m m') :
    m'.rooms.entries.Perm m.rooms.entries := by
  apply List.lookup_ext m'.rooms.nodupKeys m.rooms.nodupKeys
  intro ip peers
  have := h ip
  unfold AList.lookup at this
  rw [this]

theorem SameRooms.roomCount {m m' : RoomManager} (h : SameRooms m m') :
    m'.roomCount = m.roomCount := by
  unfold RoomManager.roomCount AList.keys
  apply List.Perm.length_eq
  exact h.perm.map _

theorem lookup_of_room_ne_nil {m : RoomManager} {ip : String} (h : m.room ip ≠ []) :
    m.rooms.lookup ip = some (m.room ip) := by
  unfold room at h ⊢
  cases hlookup : m.rooms.lookup ip with
  | none => simp [hlookup] at h
  | some peers => rfl

theorem mem_rooms_of_mem_room {m : RoomManager} {ip : String} {peer : PeerInfo}
    (h : peer ∈ m.room ip) : ip ∈ m.rooms := by
  rw [← AList.lookup_isSome, lookup_of_room_ne_nil (List.ne_nil_of_mem h)]
  rfl

theorem lookup_eq_some_nil_iff {m : RoomManager} {ip : String} :
    m.rooms.lookup ip = some [] ↔ ip ∈ m.rooms ∧ m.room ip = [] := by
  rw [← AList.lookup_isSome]
  unfold room
  cases m.rooms.lookup ip <;> simp

theorem sameRooms_insert {m : RoomManager} {ip : String} {peers : List PeerInfo}
    (h : m.rooms.lookup ip = some peers) :
    SameRooms m { m with rooms := m.rooms.insert ip peers } := by
  intro ip'
  by_cases hip : ip' = ip
  . rw [hip, AList.lookup_insert, h]
  . exact AList.lookup_insert_ne hip

theorem roomCount_insert (m : RoomManager) (ip : String) (peers : List PeerInfo)
    : roomCount { m with rooms := m.rooms.insert ip peers }
        =
      if ip ∈ m.rooms then m.roomCount else m.roomCount + 1 := by
  unfold roomCount
  rw [AList.keys_insert, List.length_cons]
  split
  . next hip =>
    have hip := AList.mem_keys.mp hip
    have hpos := List.length_pos_of_mem hip
    rw [List.length_erase_of_mem hip]
    omega
  . next hip => rw [List.erase_of_not_mem (AList.mem_keys.not.mp hip)]

theorem roomCount_dropRoom_le (m : RoomManager) (ip : String) :
    (m.dropRoom ip).roomCount ≤ m.roomCount := by
  unfold roomCount dropRoom
  rw [AList.keys_erase]
  exact List.length_erase_le

/-! ### `add_peer` -/

structure Refuses (m : RoomManager) (g : Guarded (Except String (List PeerData × UInt64))) : Prop where
  rooms : SameRooms m g.manager
  sent : g.sent = []
  result : ∃ e, g.result = .error e

/--
The entry guard of `add_peer` was held for the registration of `peer`.
-/
structure Registers (m : RoomManager) (ip : String) (peer : PeerInfo)
    (g : Guarded (Except String (List PeerData × UInt64))) : Prop where
  room : ∀ ip', g.manager.room ip'
    = if ip' = ip then m.others ip peer.peerCode ++ [peer] else m.room ip'
  mem_iff : ∀ ip', ip' ∈ g.manager.rooms ↔ ip' = ip ∨ ip' ∈ m.rooms
  roomCount : g.manager.roomCount = if ip ∈ m.rooms then m.roomCount else m.roomCount + 1
  sent : g.sent
    = (m.others ip peer.peerCode).map fun p => (p.sender, .peerJoined peer.toPeerData)
  result : g.result = .ok ((m.others ip peer.peerCode).map (·.toPeerData), peer.sessionId)

theorem Registers.others_of_ne {m : RoomManager} {ip : String} {peer : PeerInfo}
    {g : Guarded (Except String (List PeerData × UInt64))} (h : Registers m ip peer g) {code : String}
    (hcode : peer.peerCode ≠ code)
    : g.manager.others ip code
        =
      ((m.others ip code).filter fun p => p.peerCode ≠ peer.peerCode) ++ [peer] := by
  unfold others
  rw [h.room, if_pos rfl, List.filter_append]
  unfold others
  rw [List.filter_filter, List.filter_filter]
  congr 1
  . congr 1
    funext p
    apply Bool.and_comm
  . simp [hcode]

theorem enterRoom_refuses {m : RoomManager} (hm : m.WellFormed) {ip : String} {peer : PeerInfo}
    (hfull : maxPeersPerRoom ≤ (m.others ip peer.peerCode).length) :
    Refuses m (m.enterRoom ip peer) := by
  have hsame : m.others ip peer.peerCode = m.room ip := by
    apply List.filter_sublist.eq_of_length_le
    exact (hm ip).2.trans hfull
  have hlookup : m.rooms.lookup ip = some (m.room ip) := by
    apply lookup_of_room_ne_nil
    rw [← hsame]
    apply List.ne_nil_of_length_pos
    exact Nat.lt_of_lt_of_le (by decide) hfull
  have henter : m.enterRoom ip peer = {
      manager := { m with rooms := m.rooms.insert ip (m.room ip) }
      sent := []
      result := .error ("room full (" ++ toString maxPeersPerRoom ++ " peers)") } := by
    unfold enterRoom
    rw [eraseP_peerCode (hm ip).1, ← others]
    simp only [ge_iff_le, if_pos hfull]
    rw [hsame]
  rw [henter]
  exact ⟨sameRooms_insert hlookup, rfl, _, rfl⟩

theorem enterRoom_registers {m : RoomManager} (hm : m.WellFormed) {ip : String} {peer : PeerInfo}
    (hroom : ¬ maxPeersPerRoom ≤ (m.others ip peer.peerCode).length) :
    Registers m ip peer (m.enterRoom ip peer) := by
  have henter : m.enterRoom ip peer = {
      manager := { m with rooms := m.rooms.insert ip (m.others ip peer.peerCode ++ [peer]) }
      sent := (m.others ip peer.peerCode).map fun p => (p.sender, .peerJoined peer.toPeerData)
      result := .ok ((m.others ip peer.peerCode).map (·.toPeerData), peer.sessionId) } := by
    unfold enterRoom
    rw [eraseP_peerCode (hm ip).1, ← others]
    simp only [ge_iff_le, if_neg hroom]
  rw [henter]
  exact {
    room := room_insert m ip _
    mem_iff := fun ip' => AList.mem_insert m.rooms
    roomCount := roomCount_insert m ip _
    sent := rfl
    result := rfl }

def Accepts (m : RoomManager) (ip code : String) : Prop :=
  (ip ∈ m.rooms ∨ m.roomCount < maxRooms) ∧ (m.others ip code).length < maxPeersPerRoom

instance (m : RoomManager) (ip code : String) : Decidable (m.Accepts ip code) :=
  inferInstanceAs (Decidable (_ ∧ _))

theorem WellFormed.fetchSessionId {m : RoomManager} (hm : m.WellFormed) (peer : PeerInfo) :
    (m.fetchSessionId peer).1.WellFormed := by
  exact hm

theorem addPeer_refuses {m : RoomManager} (hm : m.WellFormed) {ip : String} {peer : PeerInfo}
    (h : ¬ m.Accepts ip peer.peerCode) : Refuses m (m.addPeer ip peer) := by
  unfold addPeer
  dsimp only [RoomManager.fetchSessionId]
  split
  . exact ⟨fun _ => rfl, rfl, _, rfl⟩
  . next hlimit =>
    have hfull : maxPeersPerRoom ≤ (m.others ip peer.peerCode).length := by
      by_contra hroom
      apply h
      refine ⟨?_, Nat.lt_of_not_le hroom⟩
      by_contra hnew
      rw [not_or, Nat.not_lt] at hnew
      exact hlimit hnew
    have hrefuses : Refuses _ (enterRoom (m.fetchSessionId peer).1 ip
        { peer with sessionId := m.nextSessionId }) :=
      enterRoom_refuses (hm.fetchSessionId peer) hfull
    exact ⟨hrefuses.rooms, hrefuses.sent, hrefuses.result⟩

theorem addPeer_registers {m : RoomManager} (hm : m.WellFormed) {ip : String} {peer : PeerInfo}
    (h : m.Accepts ip peer.peerCode) :
    Registers m ip { peer with sessionId := m.nextSessionId } (m.addPeer ip peer) := by
  have hadd : m.addPeer ip peer
      = enterRoom (m.fetchSessionId peer).1 ip { peer with sessionId := m.nextSessionId } := by
    unfold addPeer
    dsimp only [RoomManager.fetchSessionId]
    rw [if_neg]
    rintro ⟨hnew, hlimit⟩
    rcases h.1 with hip | hcount
    . exact hnew hip
    . exact Nat.not_lt.mpr hlimit hcount
  rw [hadd]
  have hregisters : Registers _ ip _ (enterRoom (m.fetchSessionId peer).1 ip
      { peer with sessionId := m.nextSessionId }) :=
    enterRoom_registers (hm.fetchSessionId peer) (Nat.not_le.mpr h.2)
  exact ⟨hregisters.room, hregisters.mem_iff, hregisters.roomCount, hregisters.sent,
    hregisters.result⟩

theorem addPeer_of_roomCount_lt {m : RoomManager} (hlimit : m.roomCount < maxRooms) (ip : String)
    (peer : PeerInfo)
    : m.addPeer ip peer
        =
      (m.fetchSessionId peer).1.enterRoom ip { peer with sessionId := m.nextSessionId } := by
  unfold addPeer
  dsimp only [RoomManager.fetchSessionId]
  rw [if_neg]
  exact fun hnew => Nat.not_lt.mpr hnew.2 hlimit

theorem result_addPeer_of_full {m : RoomManager} (hm : m.WellFormed) (hlimit : m.roomCount < maxRooms)
    {ip : String} {peer : PeerInfo}
    (hfull : maxPeersPerRoom ≤ (m.others ip peer.peerCode).length)
    : (m.addPeer ip peer).result
        =
      .error ("room full (" ++ toString maxPeersPerRoom ++ " peers)") := by
  have hfull : maxPeersPerRoom ≤ ((m.fetchSessionId peer).1.others ip peer.peerCode).length := hfull
  rw [addPeer_of_roomCount_lt hlimit, enterRoom]
  dsimp only
  rw [eraseP_peerCode (hm.fetchSessionId peer ip).1, ← others, if_pos hfull]

@[simp]
theorem nextSessionId_enterRoom (m : RoomManager) (ip : String) (peer : PeerInfo) :
    (m.enterRoom ip peer).manager.nextSessionId = m.nextSessionId := by
  unfold enterRoom
  dsimp only
  split <;> rfl

@[simp]
theorem nextSessionId_addPeer (m : RoomManager) (ip : String) (peer : PeerInfo) :
    (m.addPeer ip peer).manager.nextSessionId = m.nextSessionId + 1 := by
  unfold addPeer enterRoom
  dsimp only [RoomManager.fetchSessionId]
  split
  . rfl
  . split <;> rfl

theorem wellFormed_addPeer {m : RoomManager} (hm : m.WellFormed) (ip : String) (peer : PeerInfo) :
    (m.addPeer ip peer).manager.WellFormed := by
  unfold addPeer
  dsimp only
  split
  . exact hm.fetchSessionId peer
  . exact wellFormed_enterRoom (hm.fetchSessionId peer) ip _

/--
A call of `add_peer` for a room that exists leaves the others and the number of rooms alone.
-/
theorem addPeer_elsewhere {m : RoomManager} (hm : m.WellFormed) {ip : String} (hip : ip ∈ m.rooms)
    (peer : PeerInfo)
    : (m.addPeer ip peer).manager.roomCount = m.roomCount
        ∧ ip ∈ (m.addPeer ip peer).manager.rooms
        ∧ ∀ ip', ip' ≠ ip → (m.addPeer ip peer).manager.room ip' = m.room ip' := by
  by_cases haccepts : m.Accepts ip peer.peerCode
  . have hregisters := addPeer_registers hm haccepts
    refine ⟨?_, (hregisters.mem_iff ip).mpr (.inl rfl), ?_⟩
    . rw [hregisters.roomCount, if_pos hip]
    . intro ip' hne
      rw [hregisters.room, if_neg hne]
  . have hrefuses := addPeer_refuses hm haccepts
    exact ⟨hrefuses.rooms.roomCount, (hrefuses.rooms.mem_iff ip).mpr hip,
      fun ip' _ => hrefuses.rooms.room ip'⟩

/-! ### `remove_peer` -/

def IsMember (m : RoomManager) (ip code : String) (sessionId : UInt64) : Prop :=
  ∃ p ∈ m.room ip, p.peerCode = code ∧ p.sessionId = sessionId

theorem remaining_eq_room_iff (m : RoomManager) (ip code : String) (sessionId : UInt64) :
    m.remaining ip code sessionId = m.room ip ↔ ¬ m.IsMember ip code sessionId := by
  unfold remaining IsMember
  rw [List.filter_eq_self]
  simp [imp_iff_not_or]

theorem remaining_length_lt_iff (m : RoomManager) (ip code : String) (sessionId : UInt64) :
    (m.remaining ip code sessionId).length < (m.room ip).length ↔ m.IsMember ip code sessionId := by
  have hsublist : (m.remaining ip code sessionId).Sublist (m.room ip) := List.filter_sublist
  rw [← not_iff_not, ← remaining_eq_room_iff, Nat.not_lt]
  constructor
  . exact hsublist.eq_of_length_le
  . intro h
    rw [h]

theorem remaining_of_isMember {m : RoomManager} (hm : m.WellFormed) {ip code : String}
    {sessionId : UInt64} (h : m.IsMember ip code sessionId) :
    m.remaining ip code sessionId = m.others ip code := by
  obtain ⟨p, hp, rfl, rfl⟩ := h
  unfold remaining others
  apply List.filter_congr
  intro p' hp'
  rw [decide_eq_decide, not_iff_not]
  constructor
  . exact fun hsame => hsame.1
  . intro hcode
    obtain rfl := List.inj_on_of_nodup_map (hm ip).1 hp' hp hcode
    exact ⟨rfl, rfl⟩

theorem leaveRoom_of_not_isMember {m : RoomManager} {ip code : String} {sessionId : UInt64}
    (h : ¬ m.IsMember ip code sessionId)
    : SameRooms m (m.leaveRoom ip code sessionId).manager
        ∧ (m.leaveRoom ip code sessionId).sent = []
        ∧ (m.leaveRoom ip code sessionId).result = false := by
  unfold leaveRoom
  split
  . exact ⟨fun _ => rfl, rfl, rfl⟩
  . next peers hpeers =>
    have hroom : m.room ip = peers := by simp [room, hpeers]
    have hremaining := (remaining_eq_room_iff m ip code sessionId).mpr h
    unfold remaining at hremaining
    rw [hroom] at hremaining
    simp only [hremaining, Nat.lt_irrefl, if_false, and_true]
    exact sameRooms_insert hpeers

theorem leaveRoom_of_isMember {m : RoomManager} {ip code : String} {sessionId : UInt64}
    (h : m.IsMember ip code sessionId)
    : m.leaveRoom ip code sessionId
        =
      { manager := { m with rooms := m.rooms.insert ip (m.remaining ip code sessionId) }
        sent := (m.remaining ip code sessionId).map fun p => (p.sender, .peerLeft code)
        result := (m.remaining ip code sessionId).isEmpty } := by
  have hlookup : m.rooms.lookup ip = some (m.room ip) := by
    obtain ⟨p, hp, -⟩ := h
    exact lookup_of_room_ne_nil (List.ne_nil_of_mem hp)
  unfold leaveRoom
  rw [hlookup]
  dsimp only
  rw [← remaining, if_pos ((remaining_length_lt_iff m ip code sessionId).mpr h)]

theorem lookup_leaveRoom_nil {m : RoomManager} {ip code : String} {sessionId : UInt64} {ip' : String}
    (h : (m.leaveRoom ip code sessionId).manager.rooms.lookup ip' = some [])
    : m.rooms.lookup ip' = some [] ∨ (ip' = ip ∧ (m.leaveRoom ip code sessionId).result = true) := by
  by_cases hmember : m.IsMember ip code sessionId
  . rw [leaveRoom_of_isMember hmember] at h ⊢
    by_cases hip : ip' = ip
    . rw [hip, AList.lookup_insert, Option.some.injEq] at h
      exact .inr ⟨hip, List.isEmpty_iff.mpr h⟩
    . rw [AList.lookup_insert_ne hip] at h
      exact .inl h
  . rw [(leaveRoom_of_not_isMember hmember).1] at h
    exact .inl h

theorem roomCount_leaveRoom (m : RoomManager) (ip code : String) (sessionId : UInt64) :
    (m.leaveRoom ip code sessionId).manager.roomCount = m.roomCount := by
  by_cases hmember : m.IsMember ip code sessionId
  . have hip : ip ∈ m.rooms := by
      obtain ⟨p, hp, -⟩ := hmember
      exact mem_rooms_of_mem_room hp
    rw [leaveRoom_of_isMember hmember, roomCount_insert, if_pos hip]
  . exact (leaveRoom_of_not_isMember hmember).1.roomCount

theorem room_removePeer (m : RoomManager) (ip code : String) (sessionId : UInt64) (ip' : String)
    : (m.removePeer ip code sessionId).manager.room ip'
        =
      if ip' = ip then m.remaining ip code sessionId else m.room ip' := by
  unfold removePeer
  dsimp only
  split
  . next hempty =>
    have hmember : m.IsMember ip code sessionId := by
      by_contra hmember
      simp [leaveRoom_of_not_isMember hmember] at hempty
    rw [room_dropRoom, room_leaveRoom]
    split
    . rw [leaveRoom_of_isMember hmember, List.isEmpty_iff] at hempty
      exact hempty.symm
    . rfl
  . rw [room_leaveRoom]

theorem removePeer_of_not_isMember {m : RoomManager} {ip code : String} {sessionId : UInt64}
    (h : ¬ m.IsMember ip code sessionId)
    : SameRooms m (m.removePeer ip code sessionId).manager
        ∧ (m.removePeer ip code sessionId).sent = [] := by
  obtain ⟨hrooms, hsent, hresult⟩ := leaveRoom_of_not_isMember h
  unfold removePeer
  simp only [hresult, Bool.false_eq_true, if_false]
  exact ⟨hrooms, hsent⟩

theorem sent_removePeer {m : RoomManager} {ip code : String} {sessionId : UInt64}
    (h : m.IsMember ip code sessionId)
    : (m.removePeer ip code sessionId).sent
        =
      (m.remaining ip code sessionId).map fun p => (p.sender, .peerLeft code) := by
  unfold removePeer
  rw [leaveRoom_of_isMember h]

theorem nextSessionId_leaveRoom (m : RoomManager) (ip code : String) (sessionId : UInt64) :
    (m.leaveRoom ip code sessionId).manager.nextSessionId = m.nextSessionId := by
  unfold leaveRoom
  split
  . rfl
  . dsimp only
    split <;> rfl

theorem roomCount_removePeer_le (m : RoomManager) (ip code : String) (sessionId : UInt64) :
    (m.removePeer ip code sessionId).manager.roomCount ≤ m.roomCount := by
  rw [← roomCount_leaveRoom m ip code sessionId]
  unfold removePeer
  dsimp only
  split
  . apply roomCount_dropRoom_le
  . apply Nat.le_refl

@[simp]
theorem nextSessionId_removePeer (m : RoomManager) (ip code : String) (sessionId : UInt64) :
    (m.removePeer ip code sessionId).manager.nextSessionId = m.nextSessionId := by
  unfold removePeer
  dsimp only
  split
  . exact nextSessionId_leaveRoom m ip code sessionId
  . exact nextSessionId_leaveRoom m ip code sessionId

theorem wellFormed_removePeer {m : RoomManager} (hm : m.WellFormed) (ip code : String)
    (sessionId : UInt64) : (m.removePeer ip code sessionId).manager.WellFormed := by
  have hleft := wellFormed_leaveRoom hm ip code sessionId
  unfold removePeer
  dsimp only
  split
  . exact wellFormed_dropRoom hleft ip
  . exact hleft

end RoomManager

end Rendezvous

end LocalBolt
