import LocalBolt.Rendezvous.Lemmas.Calls

/-!
This module contains the limit on the number of rooms. `add_peer` checks it in one step and inserts
the room in a later one, between which other tasks insert rooms of their own.
-/

namespace LocalBolt

namespace Rendezvous

namespace RoomManager

/--
The entry step of `add_peer` inserts a new room only while there are fewer than the limit.
-/
def InsertsBelowLimit {τ : Type} (s : Tasks τ RoomManager Pc) : Tasks.Action τ Method → Prop
  | .call _ _ => True
  | .step task => ∀ ip peer, s.pc task = .entry ip peer →
      ip ∉ s.shared.rooms → s.shared.roomCount < maxRooms

theorem roomCount_enterRoom {m : RoomManager} (hm : m.WellFormed) (ip : String) (peer : PeerInfo)
    : (m.enterRoom ip peer).manager.roomCount
        =
      if ip ∈ m.rooms then m.roomCount else m.roomCount + 1 := by
  by_cases hfull : maxPeersPerRoom ≤ (m.others ip peer.peerCode).length
  . have hip : ip ∈ m.rooms := by
      have hlength : 0 < (m.others ip peer.peerCode).length :=
        Nat.lt_of_lt_of_le (by decide) hfull
      obtain ⟨p, hp⟩ := List.exists_mem_of_length_pos hlength
      exact mem_rooms_of_mem_room (List.mem_of_mem_filter hp)
    rw [(enterRoom_refuses hm hfull).rooms.roomCount, if_pos hip]
  . exact (enterRoom_registers hm hfull).roomCount

theorem roomCount_step_le_iff {m : RoomManager} {pc : Pc} {p : RoomManager × Pc} (hm : m.WellFormed)
    (hcount : m.roomCount ≤ maxRooms) (h : m.step pc = some p)
    : p.1.roomCount ≤ maxRooms
        ↔
      ∀ ip peer, pc = .entry ip peer → ip ∉ m.rooms → m.roomCount < maxRooms := by
  cases pc with
  | returned => simp [step] at h
  | entry ip peer =>
    obtain rfl := Option.some.inj h
    simp only [roomCount_enterRoom hm, Pc.entry.injEq]
    split
    . next hip =>
      refine iff_of_true hcount ?_
      rintro ip' peer' ⟨rfl, rfl⟩ hnew
      exact absurd hip hnew
    . next hnew =>
      constructor
      . intro hle _ _ _ _
        exact hle
      . intro hlt
        exact hlt ip peer ⟨rfl, rfl⟩ hnew
  | containsKey ip peer =>
    obtain rfl := Option.some.inj h
    exact iff_of_true hcount (by simp)
  | len ip peer =>
    simp only [step] at h
    split at h <;>
      . obtain rfl := Option.some.inj h
        exact iff_of_true hcount (by simp)
  | getMut ip code sessionId =>
    obtain rfl := Option.some.inj h
    refine iff_of_true ?_ (by simp)
    dsimp only
    rw [roomCount_leaveRoom]
    exact hcount
  | remove ip =>
    obtain rfl := Option.some.inj h
    exact iff_of_true ((roomCount_dropRoom_le m ip).trans hcount) (by simp)

def twoJoin : List (Tasks.Action Nat Method) :=
  [.call 1 (.addPeer "203.0.113.1" (device "B7H2MN" 1)),
    .call 2 (.addPeer "203.0.113.2" (device "C8J3PQ" 2))]
    ++ [1, 2, 1, 2, 1, 2].map .step

def nthRoom (n : Nat) : String := .ofList (List.replicate n '1')

theorem nthRoom_inj {m n : Nat} (h : nthRoom m = nthRoom n) : m = n := by
  have := congrArg String.length h
  simpa [nthRoom] using this

theorem roomCount_congr {m m' : RoomManager} (h : m'.rooms = m.rooms) : m'.roomCount = m.roomCount := by
  rw [roomCount, roomCount, h]

theorem exists_checked {s : Tasks Nat RoomManager Pc} (hs : (machine Nat).Reachable s) {task : Nat}
    (hpc : s.pc task = .returned none) {ip : String} (hip : ip ∉ s.shared.rooms)
    (hcount : s.shared.roomCount < maxRooms)
    : ∃ s', (machine Nat).Reachable s' ∧ s'.shared.rooms = s.shared.rooms
        ∧ (∃ peer, s'.pc task = .entry ip peer)
        ∧ ∀ other, other ≠ task → s'.pc other = s.pc other := by
  let m : RoomManager := { s.shared with nextSessionId := s.shared.nextSessionId + 1 }
  let peer : PeerInfo := { device "B7H2MN" task with sessionId := s.shared.nextSessionId }
  have hcall : (Tasks.next methods s (.call task (.addPeer ip (device "B7H2MN" task))))
      = some (s.move task (m, .containsKey ip peer)) := by
    simp [Tasks.next, methods, step, hpc, call, fetchSessionId, m, peer]
  have hkey : (Tasks.next methods (s.move task (m, .containsKey ip peer)) (.step task))
      = some (s.move task (m, .len ip peer)) := by
    have hip : ip ∉ m.rooms := hip
    simp [Tasks.next, Tasks.move, methods, step, hip]
  have hlen : (Tasks.next methods (s.move task (m, .len ip peer)) (.step task))
      = some (s.move task (m, .entry ip peer)) := by
    have hcount : ¬ m.roomCount ≥ maxRooms := Nat.not_le.mpr hcount
    simp [Tasks.next, Tasks.move, methods, step, hcount]
  refine ⟨s.move task (m, .entry ip peer), .step (.step (.step hs hcall) hkey) hlen, rfl, ⟨peer, ?_⟩, ?_⟩
  . exact Function.update_self task _ s.pc
  . intro other hother
    exact Function.update_of_ne hother _ s.pc

theorem exists_inserted {s : Tasks Nat RoomManager Pc} (hs : (machine Nat).Reachable s) {task : Nat}
    {ip : String} {peer : PeerInfo} (hpc : s.pc task = .entry ip peer) (hip : ip ∉ s.shared.rooms)
    : ∃ s', (machine Nat).Reachable s' ∧ s'.shared.roomCount = s.shared.roomCount + 1
        ∧ (∀ ip', ip' ∈ s'.shared.rooms ↔ ip' = ip ∨ ip' ∈ s.shared.rooms)
        ∧ ∀ other, other ≠ task → s'.pc other = s.pc other := by
  have hentry : (Tasks.next methods s (.step task))
      = some (s.move task ((s.shared.enterRoom ip peer).manager,
          .returned (some (s.shared.enterRoom ip peer).result))) := by
    simp [Tasks.next, methods, step, hpc]
  have hroom : ¬ maxPeersPerRoom ≤ (s.shared.others ip peer.peerCode).length := by
    have hempty : s.shared.room ip = [] := by
      by_contra hroom
      obtain ⟨p, hp⟩ := List.exists_mem_of_ne_nil _ hroom
      exact hip (mem_rooms_of_mem_room hp)
    simp [others, hempty, maxPeersPerRoom]
  have hregisters := enterRoom_registers (wellFormed hs) hroom
  refine ⟨_, .step hs hentry, ?_, hregisters.mem_iff, ?_⟩
  . exact hregisters.roomCount.trans (if_neg hip)
  . intro other hother
    exact Function.update_of_ne hother _ s.pc

/--
The first `n` tasks have each put a peer into a room of its own.
-/
theorem exists_rooms (n : Nat) (hn : n ≤ maxRooms)
    : ∃ s, (machine Nat).Reachable s ∧ s.shared.roomCount = n
        ∧ (∀ i, n ≤ i → s.pc i = .returned none) ∧ ∀ i, n ≤ i → nthRoom i ∉ s.shared.rooms := by
  induction n with
  | zero =>
    refine ⟨.start new (.returned none), .init rfl, rfl, fun _ _ => rfl, ?_⟩
    intro i _
    exact AList.notMem_empty _
  | succ n ih =>
    obtain ⟨s, hs, hcount, hpc, hrooms⟩ := ih (Nat.le_of_succ_le hn)
    obtain ⟨s₁, hs₁, hrooms₁, ⟨peer, hentry⟩, hpc₁⟩ := exists_checked hs (hpc n le_rfl)
      (hrooms n le_rfl) (by omega)
    have hnew : nthRoom n ∉ s₁.shared.rooms := by
      rw [hrooms₁]
      exact hrooms n le_rfl
    obtain ⟨s₂, hs₂, hcount₂, hmem₂, hpc₂⟩ := exists_inserted hs₁ hentry hnew
    have hcount₁ : s₁.shared.roomCount = n := by
      rw [← hcount]
      exact roomCount_congr hrooms₁
    refine ⟨s₂, hs₂, by rw [hcount₂, hcount₁], ?_, ?_⟩
    . intro i hi
      rw [hpc₂ i (by omega), hpc₁ i (by omega)]
      exact hpc i (by omega)
    . intro i hi
      rw [hmem₂, hrooms₁, not_or]
      refine ⟨?_, hrooms i (by omega)⟩
      intro hsame
      have := nthRoom_inj hsame
      omega

end RoomManager

end Rendezvous

end LocalBolt
