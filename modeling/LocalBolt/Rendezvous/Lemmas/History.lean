import LocalBolt.LastWrite.Basic
import LocalBolt.Rendezvous.Lemmas.Calls

/-!
This module contains what the rooms hold after any sequence of calls of `add_peer` and `remove_peer`,
each of them uninterrupted, in terms of what these calls were and what they returned.
-/

open LastWrite

namespace LocalBolt

namespace Rendezvous

namespace RoomManager

def afterCall (m : RoomManager) : Method → RoomManager
  | .addPeer ip peer => (m.addPeer ip peer).manager
  | .removePeer ip peerCode sessionId => (m.removePeer ip peerCode sessionId).manager

def recordCall (m : RoomManager) : Method → List (Op (String × String) UInt64)
  | .addPeer ip peer =>
    match (m.addPeer ip peer).result with
    | .ok (_, sessionId) => [.put (ip, peer.peerCode) sessionId]
    | .error _ => []
  | .removePeer ip peerCode sessionId => [.drop (ip, peerCode) sessionId]

def serve (p : RoomManager × List (Op (String × String) UInt64)) (call : Method) :
    RoomManager × List (Op (String × String) UInt64) :=
  (p.1.afterCall call, p.2 ++ p.1.recordCall call)

def served (calls : List Method) : RoomManager × List (Op (String × String) UInt64) :=
  calls.foldl serve (new, [])

def afterCalls (calls : List Method) : RoomManager := (served calls).1

/--
The sessions that `add_peer` returned for a room and a code, and the calls of `remove_peer`.
-/
def history (calls : List Method) : List (Op (String × String) UInt64) := (served calls).2

def Method.isAddPeer : Method → Bool
  | .addPeer _ _ => true
  | .removePeer _ _ _ => false

theorem afterCalls_append (calls : List Method) (call : Method) :
    afterCalls (calls ++ [call]) = (afterCalls calls).afterCall call := by
  simp only [afterCalls, served, List.foldl_append, List.foldl_cons, List.foldl_nil, serve]

theorem history_append (calls : List Method) (call : Method) :
    history (calls ++ [call]) = history calls ++ (afterCalls calls).recordCall call := by
  simp only [history, afterCalls, served, List.foldl_append, List.foldl_cons, List.foldl_nil, serve]

theorem recordCall_of_refuses {m : RoomManager} {ip : String} {peer : PeerInfo}
    (h : Refuses m (m.addPeer ip peer)) : m.recordCall (.addPeer ip peer) = [] := by
  obtain ⟨e, he⟩ := h.result
  simp only [recordCall, he]

theorem recordCall_of_registers {m : RoomManager} {ip : String} {peer : PeerInfo}
    (h : Registers m ip { peer with sessionId := m.nextSessionId } (m.addPeer ip peer)) :
    m.recordCall (.addPeer ip peer) = [.put (ip, peer.peerCode) m.nextSessionId] := by
  simp only [recordCall, h.result]

/-! ### Members -/

theorem wellFormed_afterCalls (calls : List Method) : (afterCalls calls).WellFormed := by
  induction calls using List.reverseRecOn with
  | nil => exact wellFormed_new
  | append_singleton calls call ih =>
    rw [afterCalls_append]
    cases call with
    | addPeer ip peer => exact wellFormed_addPeer ih ip peer
    | removePeer ip code sessionId => exact wellFormed_removePeer ih ip code sessionId

theorem isMember_of_sameRooms {m m' : RoomManager} (h : SameRooms m m') (ip code : String)
    (sessionId : UInt64) : m'.IsMember ip code sessionId ↔ m.IsMember ip code sessionId := by
  unfold IsMember
  rw [h.room]

theorem isMember_of_registers {m : RoomManager} {ip : String} {peer : PeerInfo}
    {g : Guarded (Except String (List PeerData × UInt64))} (h : Registers m ip peer g)
    (ip' code : String) (sessionId : UInt64)
    : g.manager.IsMember ip' code sessionId
        ↔
      if ip' = ip ∧ code = peer.peerCode then sessionId = peer.sessionId
      else m.IsMember ip' code sessionId := by
  unfold IsMember
  rw [h.room]
  by_cases hip : ip' = ip
  . subst hip
    by_cases hcode : code = peer.peerCode
    . subst hcode
      simp only [and_self, if_true, List.mem_append, List.mem_singleton]
      constructor
      . rintro ⟨p, hp | rfl, hcode, rfl⟩
        . simp [others, hcode] at hp
        . rfl
      . rintro rfl
        exact ⟨peer, .inr rfl, rfl, rfl⟩
    . simp only [if_true, hcode, and_false, if_false, List.mem_append, List.mem_singleton, others,
        List.mem_filter, decide_not, Bool.not_eq_true', decide_eq_false_iff_not]
      constructor
      . rintro ⟨p, ⟨hp, -⟩ | rfl, rfl, hsession⟩
        . exact ⟨p, hp, rfl, hsession⟩
        . exact absurd rfl hcode
      . rintro ⟨p, hp, rfl, hsession⟩
        exact ⟨p, .inl ⟨hp, hcode⟩, rfl, hsession⟩
  . simp [hip]

theorem isMember_removePeer (m : RoomManager) (ip code : String) (sessionId : UInt64) (ip' code' : String) (sessionId' : UInt64)
    : (m.removePeer ip code sessionId).manager.IsMember ip' code' sessionId'
        ↔
      m.IsMember ip' code' sessionId' ∧ ¬ (ip' = ip ∧ code' = code ∧ sessionId' = sessionId) := by
  unfold IsMember
  rw [room_removePeer]
  by_cases hip : ip' = ip
  . subst hip
    simp only [if_true, remaining, List.mem_filter, decide_eq_true_eq, true_and]
    constructor
    . rintro ⟨p, ⟨hp, hne⟩, rfl, rfl⟩
      exact ⟨⟨p, hp, rfl, rfl⟩, hne⟩
    . rintro ⟨⟨p, hp, rfl, rfl⟩, hne⟩
      exact ⟨p, ⟨hp, hne⟩, rfl, rfl⟩
  . simp [hip]

/--
The session of the member with a code, as a store that the calls put into and drop from.
-/
theorem isMember_iff_holds (calls : List Method) (ip code : String) (sessionId : UInt64)
    : (afterCalls calls).IsMember ip code sessionId
        ↔
      Holds (history calls) (ip, code) sessionId := by
  induction calls using List.reverseRecOn with
  | nil =>
    constructor
    . rintro ⟨p, hp, -⟩
      simp [afterCalls, served, new, room] at hp
    . rintro ⟨before, after, hops, -⟩
      simp [history, served] at hops
  | append_singleton calls call ih =>
    have hm := wellFormed_afterCalls calls
    rw [afterCalls_append, history_append]
    cases call with
    | addPeer ip' peer =>
      by_cases haccepts : (afterCalls calls).Accepts ip' peer.peerCode
      . have hregisters := addPeer_registers hm haccepts
        rw [recordCall_of_registers hregisters, holds_append_iff, ← ih]
        refine (isMember_of_registers hregisters ip code sessionId).trans ?_
        simp only [Op.put.injEq, Prod.mk.injEq, ne_eq, reduceCtorEq, not_false_eq_true, and_true,
          not_and]
        split
        . next hkey => simp [hkey, eq_comm]
        . next hkey =>
          have hkey : ¬ (ip' = ip ∧ peer.peerCode = code) := by
            rintro ⟨rfl, rfl⟩
            exact hkey ⟨rfl, rfl⟩
          simp [hkey]
      . have hrefuses := addPeer_refuses hm haccepts
        rw [recordCall_of_refuses hrefuses, List.append_nil, ← ih]
        exact isMember_of_sameRooms hrefuses.rooms ip code sessionId
    | removePeer ip' code' sessionId' =>
      rw [recordCall, holds_append_iff, ← ih]
      refine (isMember_removePeer _ ip' code' sessionId' ip code sessionId).trans ?_
      simp only [reduceCtorEq, false_or, ne_eq, not_false_eq_true, implies_true, true_and,
        Op.drop.injEq, Prod.mk.injEq]
      simp only [and_assoc, eq_comm]

/-! ### Rooms -/

structure Bounded (m : RoomManager) : Prop where
  inhabited : ∀ ip ∈ m.rooms, m.room ip ≠ []
  roomCount_le : m.roomCount ≤ maxRooms

theorem Bounded.of_sameRooms {m m' : RoomManager} (hm : m.Bounded) (h : SameRooms m m') :
    m'.Bounded where
  inhabited ip hip := by
    rw [h.room]
    exact hm.inhabited ip ((h.mem_iff ip).mp hip)
  roomCount_le := by
    rw [h.roomCount]
    exact hm.roomCount_le

theorem bounded_addPeer {m : RoomManager} (hm : m.WellFormed) (hbounded : m.Bounded) (ip : String)
    (peer : PeerInfo) : (m.addPeer ip peer).manager.Bounded := by
  by_cases haccepts : m.Accepts ip peer.peerCode
  . have hregisters := addPeer_registers hm haccepts
    constructor
    . intro ip' hip'
      rw [hregisters.room]
      split
      . simp
      . next hip =>
        apply hbounded.inhabited
        exact ((hregisters.mem_iff ip').mp hip').resolve_left hip
    . rw [hregisters.roomCount]
      split
      . exact hbounded.roomCount_le
      . next hnew => exact haccepts.1.resolve_left hnew
  . exact hbounded.of_sameRooms (addPeer_refuses hm haccepts).rooms

theorem bounded_removePeer {m : RoomManager} (hbounded : m.Bounded) (ip code : String)
    (sessionId : UInt64) : (m.removePeer ip code sessionId).manager.Bounded := by
  by_cases hmember : m.IsMember ip code sessionId
  . have hip : ip ∈ m.rooms := by
      obtain ⟨p, hp, -⟩ := hmember
      exact mem_rooms_of_mem_room hp
    have hcount := roomCount_insert m ip (m.remaining ip code sessionId)
    rw [if_pos hip] at hcount
    constructor
    . intro ip' hip'
      rw [room_removePeer]
      unfold removePeer at hip'
      rw [leaveRoom_of_isMember hmember] at hip'
      dsimp only at hip'
      split at hip'
      . obtain ⟨hne, hip'⟩ := AList.mem_erase.mp hip'
        rw [if_neg hne]
        exact hbounded.inhabited ip' (((AList.mem_insert _).mp hip').resolve_left hne)
      . next hremaining =>
        split
        . rw [ne_eq, ← List.isEmpty_iff]
          exact hremaining
        . next hne => exact hbounded.inhabited ip' (((AList.mem_insert _).mp hip').resolve_left hne)
    . unfold removePeer
      rw [leaveRoom_of_isMember hmember]
      dsimp only
      have hle := hbounded.roomCount_le
      split
      . apply Nat.le_trans (roomCount_dropRoom_le _ _)
        rw [hcount]
        exact hle
      . rw [hcount]
        exact hle
  . exact hbounded.of_sameRooms (removePeer_of_not_isMember hmember).1

theorem bounded_afterCalls (calls : List Method) : (afterCalls calls).Bounded := by
  induction calls using List.reverseRecOn with
  | nil =>
    constructor
    . intro ip hip
      exact absurd hip (AList.notMem_empty ip)
    . exact Nat.zero_le _
  | append_singleton calls call ih =>
    rw [afterCalls_append]
    cases call with
    | addPeer ip peer => exact bounded_addPeer (wellFormed_afterCalls calls) ih ip peer
    | removePeer ip code sessionId => exact bounded_removePeer ih ip code sessionId

/-! ### Calls that fail -/

def IsFull (m : RoomManager) (ip code : String) : Prop :=
  (m.room ip).length = maxPeersPerRoom ∧ ∀ p ∈ m.room ip, p.peerCode ≠ code

theorem isFull_iff {m : RoomManager} (hm : m.WellFormed) (ip code : String) :
    m.IsFull ip code ↔ maxPeersPerRoom ≤ (m.others ip code).length := by
  have hle := (hm ip).2
  constructor
  . rintro ⟨hlength, hcode⟩
    have hothers : m.others ip code = m.room ip := by
      unfold others
      rw [List.filter_eq_self]
      intro p hp
      exact decide_eq_true (hcode p hp)
    rw [hothers, hlength]
  . intro hfull
    have hothers : m.others ip code = m.room ip := by
      apply List.filter_sublist.eq_of_length_le
      exact hle.trans hfull
    refine ⟨?_, ?_⟩
    . rw [← hothers] at hle ⊢
      omega
    . intro p hp
      rw [← hothers] at hp
      simpa using List.of_mem_filter hp

theorem not_accepts_iff {m : RoomManager} (hm : m.WellFormed) (hbounded : m.Bounded) (ip code : String)
    : ¬ m.Accepts ip code ↔ (ip ∉ m.rooms ∧ m.roomCount = maxRooms) ∨ m.IsFull ip code := by
  have hcount := hbounded.roomCount_le
  have hlimit : m.roomCount = maxRooms ↔ ¬ m.roomCount < maxRooms := by omega
  rw [isFull_iff hm, hlimit, Accepts, not_and_or, not_or, Nat.not_lt, Nat.not_lt]

structure FailsCleanly (m : RoomManager) (ip : String) (peer : PeerInfo) : Prop where
  error_iff : (∃ e, (m.addPeer ip peer).result = .error e)
    ↔ (ip ∉ m.rooms ∧ m.roomCount = maxRooms) ∨ m.IsFull ip peer.peerCode
  unchanged : ∀ e, (m.addPeer ip peer).result = .error e →
    SameRooms m (m.addPeer ip peer).manager ∧ (m.addPeer ip peer).sent = []
      ∧ (m.addPeer ip peer).manager.nextSessionId = m.nextSessionId + 1

theorem add_peer_fails_cleanly (calls : List Method) (ip : String) (peer : PeerInfo) :
    FailsCleanly (afterCalls calls) ip peer := by
  have hm := wellFormed_afterCalls calls
  have herror : (∃ e, ((afterCalls calls).addPeer ip peer).result = .error e)
      ↔ ¬ (afterCalls calls).Accepts ip peer.peerCode := by
    constructor
    . rintro ⟨e, he⟩ haccepts
      rw [(addPeer_registers hm haccepts).result] at he
      contradiction
    . intro hrefused
      exact (addPeer_refuses hm hrefused).result
  constructor
  . rw [herror]
    exact not_accepts_iff hm (bounded_afterCalls calls) ip peer.peerCode
  . intro e he
    have hrefuses := addPeer_refuses hm (herror.mp ⟨e, he⟩)
    exact ⟨hrefuses.rooms, hrefuses.sent, nextSessionId_addPeer ..⟩

/-! ### Sessions -/

/--
How many session ids were taken before this one, as long as the counter has not come round.
-/
def sessionIndex (sessionId : UInt64) : Nat := (sessionId - 1).toNat

theorem sessionIndex_ofNat {n : Nat} (h : n < 2 ^ 64) : sessionIndex (.ofNat (n + 1)) = n := by
  have hsub : UInt64.ofNat (n + 1) - 1 = UInt64.ofNat n := by
    rw [UInt64.ofNat_add]
    simp
  rw [sessionIndex, hsub, UInt64.toNat_ofNat', Nat.mod_eq_of_lt h]

/--
After `n` calls of `add_peer`, the sessions put so far are in the order in which they were taken.
-/
structure Numbered (m : RoomManager) (ops : List (Op (String × String) UInt64)) (n : Nat) : Prop where
  next : m.nextSessionId = .ofNat (n + 1)
  lt : ∀ s ∈ puts ops, sessionIndex s < n
  increasing : (puts ops).Pairwise (sessionIndex · < sessionIndex ·)

theorem Numbered.nodup {m : RoomManager} {ops : List (Op (String × String) UInt64)} {n : Nat}
    (h : Numbered m ops n) : (puts ops).Nodup := by
  refine h.increasing.imp ?_
  rintro s s' hlt rfl
  exact Nat.lt_irrefl _ hlt

theorem puts_recordCall (m : RoomManager) (hm : m.WellFormed) (ip : String) (peer : PeerInfo) :
    puts (m.recordCall (.addPeer ip peer)) = []
      ∨ puts (m.recordCall (.addPeer ip peer)) = [m.nextSessionId] := by
  by_cases haccepts : m.Accepts ip peer.peerCode
  . rw [recordCall_of_registers (addPeer_registers hm haccepts)]
    exact .inr rfl
  . rw [recordCall_of_refuses (addPeer_refuses hm haccepts)]
    exact .inl rfl

theorem numbered (calls : List Method) (hcalls : calls.countP Method.isAddPeer ≤ 2 ^ 64) :
    Numbered (afterCalls calls) (history calls) (calls.countP Method.isAddPeer) := by
  induction calls using List.reverseRecOn with
  | nil =>
    constructor
    . rfl
    . intro s hs
      simp [history, served, puts] at hs
    . exact .nil
  | append_singleton calls call ih =>
    rw [List.countP_append, List.countP_singleton] at hcalls ⊢
    rw [afterCalls_append, history_append]
    have hbefore := ih (by omega)
    cases call with
    | removePeer ip code sessionId =>
      have hputs : puts (history calls ++ [.drop (ip, code) sessionId]) = puts (history calls) := by
        simp [puts]
      simp only [afterCall, recordCall, Method.isAddPeer, Bool.false_eq_true, if_false, Nat.add_zero]
      constructor
      . rw [nextSessionId_removePeer]
        exact hbefore.next
      . rw [hputs]
        exact hbefore.lt
      . rw [hputs]
        exact hbefore.increasing
    | addPeer ip peer =>
      simp only [Method.isAddPeer, if_true] at hcalls ⊢
      have hindex : sessionIndex (afterCalls calls).nextSessionId
          = calls.countP Method.isAddPeer := by
        rw [hbefore.next]
        exact sessionIndex_ofNat (by omega)
      have hnext : (afterCall (afterCalls calls) (.addPeer ip peer)).nextSessionId
          = .ofNat (calls.countP Method.isAddPeer + 1 + 1) := by
        rw [afterCall, nextSessionId_addPeer, hbefore.next]
        exact (UInt64.ofNat_add _ 1).symm
      have hlt : ∀ s ∈ puts (history calls), sessionIndex s < calls.countP Method.isAddPeer + 1 := by
        intro s hs
        exact Nat.lt_succ_of_lt (hbefore.lt s hs)
      rcases puts_recordCall (afterCalls calls) (wellFormed_afterCalls calls) ip peer with hnil | hput
      . refine ⟨hnext, ?_, ?_⟩ <;> rw [puts_append, hnil, List.append_nil]
        . exact hlt
        . exact hbefore.increasing
      . refine ⟨hnext, ?_, ?_⟩ <;> rw [puts_append, hput]
        . rw [List.forall_mem_append, List.forall_mem_singleton, hindex]
          exact ⟨hlt, Nat.lt_succ_self _⟩
        . rw [List.pairwise_append]
          refine ⟨hbefore.increasing, List.pairwise_singleton _ _, ?_⟩
          intro s hs s' hs'
          rw [List.mem_singleton.mp hs', hindex]
          exact hbefore.lt s hs

/-! ### The rooms and the history -/

structure DeterminedByHistory (calls : List Method) : Prop where
  isMember_iff : ∀ ip code sessionId,
    (afterCalls calls).IsMember ip code sessionId ↔ Holds (history calls) (ip, code) sessionId
  codes : ∀ ip, (((afterCalls calls).room ip).map (·.peerCode)).Nodup
  sessions : calls.countP Method.isAddPeer ≤ 2 ^ 64 →
    ∀ ip code ip' code' sessionId, (afterCalls calls).IsMember ip code sessionId →
      (afterCalls calls).IsMember ip' code' sessionId → ip = ip' ∧ code = code'
  length_le : ∀ ip, ((afterCalls calls).room ip).length ≤ maxPeersPerRoom
  roomCount_le : (afterCalls calls).roomCount ≤ maxRooms
  inhabited : ∀ ip ∈ (afterCalls calls).rooms, (afterCalls calls).room ip ≠ []
  stale : ∀ ip code sessionId, ¬ Holds (history calls) (ip, code) sessionId →
    SameRooms (afterCalls calls) ((afterCalls calls).removePeer ip code sessionId).manager
      ∧ ((afterCalls calls).removePeer ip code sessionId).sent = []
  replaced : calls.countP Method.isAddPeer ≤ 2 ^ 64 →
    ∀ before between after key old new,
      history calls = before ++ .put key old :: between ++ .put key new :: after →
        ¬ Holds (history calls) key old

theorem rooms_determined_by_history (calls : List Method) : DeterminedByHistory calls where
  isMember_iff := isMember_iff_holds calls
  codes ip := (wellFormed_afterCalls calls ip).1
  sessions := by
    intro hcalls ip code ip' code' sessionId hmember hmember'
    obtain ⟨before, after, hops, -⟩ := (isMember_iff_holds calls ip code sessionId).mp hmember
    obtain ⟨before', after', hops', -⟩ := (isMember_iff_holds calls ip' code' sessionId).mp hmember'
    have hput : .put (ip, code) sessionId ∈ history calls := by simp [hops]
    have hput' : .put (ip', code') sessionId ∈ history calls := by simp [hops']
    exact Prod.mk.inj (key_eq_of_nodup (numbered calls hcalls).nodup hput hput')
  length_le ip := (wellFormed_afterCalls calls ip).2
  roomCount_le := (bounded_afterCalls calls).roomCount_le
  inhabited := (bounded_afterCalls calls).inhabited
  stale := by
    intro ip code sessionId hheld
    rw [← isMember_iff_holds] at hheld
    exact removePeer_of_not_isMember hheld
  replaced := by
    intro hcalls before between after key old new hops
    have hnodup := (numbered calls hcalls).nodup
    rw [hops] at hnodup ⊢
    exact not_holds_of_overwritten hnodup

def rejoins (n : Nat) : List Method :=
  .addPeer "203.0.113.1" (device "B7H2MN" 1)
    :: List.replicate n (.addPeer "203.0.113.2" (device "C8J3PQ" 2))

theorem afterCalls_rejoins (n : Nat)
    : (afterCalls (rejoins n)).nextSessionId = .ofNat (n + 2)
        ∧ (afterCalls (rejoins n)).room "203.0.113.1" = [{ device "B7H2MN" 1 with sessionId := 1 }]
        ∧ (afterCalls (rejoins n)).room "203.0.113.2"
          = (if n = 0 then [] else [{ device "C8J3PQ" 2 with sessionId := .ofNat (n + 1) }])
        ∧ (afterCalls (rejoins n)).roomCount
          = if "203.0.113.2" ∈ (afterCalls (rejoins n)).rooms then 2 else 1 := by
  induction n with
  | zero => decide
  | succ n ih =>
    obtain ⟨hnext, hfirst, hsecond, hcount⟩ := ih
    have hothers : (afterCalls (rejoins n)).others "203.0.113.2" "C8J3PQ" = [] := by
      rw [others, hsecond]
      split
      . rfl
      . simp [device]
    have hcalls : rejoins (n + 1) = rejoins n ++ [.addPeer "203.0.113.2" (device "C8J3PQ" 2)] := by
      rw [rejoins, List.replicate_succ', ← List.cons_append]
      rfl
    have haccepts : (afterCalls (rejoins n)).Accepts "203.0.113.2" "C8J3PQ" := by
      refine ⟨?_, ?_⟩
      . right
        rw [hcount]
        split <;> decide
      . rw [hothers]
        decide
    have hregisters : Registers _ "203.0.113.2" _
        ((afterCalls (rejoins n)).addPeer "203.0.113.2" (device "C8J3PQ" 2)) :=
      addPeer_registers (wellFormed_afterCalls _) haccepts
    rw [hcalls, afterCalls_append, afterCall]
    refine ⟨?_, ?_, ?_, ?_⟩
    . rw [nextSessionId_addPeer, hnext]
      exact (UInt64.ofNat_add _ 1).symm
    . rw [hregisters.room, if_neg (by decide), hfirst]
    . rw [hregisters.room, if_pos rfl, hnext, if_neg (Nat.succ_ne_zero n)]
      dsimp only [device]
      rw [hothers, List.nil_append]
    . rw [hregisters.roomCount, hcount, if_pos ((hregisters.mem_iff _).mpr (.inl rfl))]
      split <;> simp

/--
The counter is back at its first value after 2^64 sessions.
-/
theorem session_id_taken_twice
    : (afterCalls (rejoins (2 ^ 64))).IsMember "203.0.113.1" "B7H2MN" 1
        ∧ (afterCalls (rejoins (2 ^ 64))).IsMember "203.0.113.2" "C8J3PQ" 1 := by
  have hround : UInt64.ofNat (2 ^ 64 + 1) = 1 := by decide
  constructor
  . rw [IsMember, (afterCalls_rejoins (2 ^ 64)).2.1]
    simp [device]
  . rw [IsMember, (afterCalls_rejoins (2 ^ 64)).2.2.1, if_neg (by decide), hround]
    simp [device]

end RoomManager

end Rendezvous

end LocalBolt
