import LocalBolt.Rendezvous.Lemmas.Sessions
import Mathlib.Data.List.Nodup
import Mathlib.Data.Set.Card

/-!
This module contains that no member of a room outlives the handler that added it.
-/

namespace LocalBolt

namespace Rendezvous

namespace Server

/--
The handler has completed `add_peer` with this outcome, and has not completed `remove_peer`.
-/
def Registered (s : Server) (conn : PeerSender) (ip : String) (me : Identity) : Prop :=
  ∃ h, s.handlers conn = some h ∧ h.clientIp = ip ∧ h.pc.identity = some me

def AboutToDrop (s : Server) (conn : PeerSender) (ip : String) : Prop :=
  ∃ h me, s.handlers conn = some h ∧ h.clientIp = ip ∧ h.pc = .removing me
    ∧ s.calls conn = some (.remove ip)

def Live (s : Server) (conn : PeerSender) : Prop := ∃ h, s.handlers conn = some h ∧ h.pc ≠ .returned

/--
Two handlers can only be registered with one session id after the counter has come round.
-/
structure NoGhosts (tr : List (Transition Server Action)) (s : Server) : Prop where
  belongs : ∀ ip, ∀ p ∈ s.manager.room ip,
    ∃! conn, p.sender = conn ∧ s.Registered conn ip ⟨p.peerCode, p.sessionId⟩
  unique : (addPeerCalls tr).length ≤ 2 ^ 64 → ∀ ip, ∀ p ∈ s.manager.room ip,
    ∃! conn, s.Registered conn ip ⟨p.peerCode, p.sessionId⟩
  empty : ∀ ip, s.manager.rooms.lookup ip = some [] → ∃ conn, s.AboutToDrop conn ip
  peerCount : (s.manager.peerCount : ℕ∞) ≤ {conn | s.Live conn}.encard
  returned : (∀ conn, ¬ s.Live conn) → s.manager.roomCount = 0

variable {s : Server}

theorem live_of_registered {conn : PeerSender} {ip : String} {me : Identity}
    (h : s.Registered conn ip me) : s.Live conn := by
  obtain ⟨h, hh, -, hidentity⟩ := h
  refine ⟨h, hh, ?_⟩
  intro hpc
  rw [hpc] at hidentity
  contradiction

theorem Consistent.registered_sender (hs : s.Consistent) {ip : String} {p : PeerInfo}
    (hp : p ∈ s.manager.room ip) : s.Registered p.sender ip ⟨p.peerCode, p.sessionId⟩ := by
  exact (hs.owned ip p hp).1

/--
A connection is one member of one room at most.
-/
theorem Consistent.sender_inj (hs : s.Consistent) {ip ip' : String} {p p' : PeerInfo}
    (hp : p ∈ s.manager.room ip) (hp' : p' ∈ s.manager.room ip') (hsender : p.sender = p'.sender) :
    ip = ip' ∧ p = p' := by
  obtain ⟨h, hh, rfl, hidentity⟩ := hs.registered_sender hp
  obtain ⟨h', hh', rfl, hidentity'⟩ := hs.registered_sender hp'
  rw [← hsender, hh] at hh'
  obtain rfl := Option.some.inj hh'
  rw [hidentity] at hidentity'
  have hcode : p.peerCode = p'.peerCode := congrArg Identity.peerCode (Option.some.inj hidentity')
  exact ⟨rfl, List.inj_on_of_nodup_map (hs.wellFormed h.clientIp).1 hp hp' hcode⟩

theorem Consistent.nodup_room_senders (hs : s.Consistent) (ip : String) :
    ((s.manager.room ip).map (·.sender)).Nodup := by
  apply List.Nodup.map_on
  . intro p hp p' hp' hsender
    exact (hs.sender_inj hp hp' hsender).2
  . exact List.Nodup.of_map _ (hs.wellFormed ip).1

def members (m : RoomManager) : List PeerInfo := m.rooms.entries.flatMap (·.2)

theorem length_members (m : RoomManager) : (members m).length = m.peerCount := by
  unfold members RoomManager.peerCount
  rw [List.length_flatMap]

theorem room_of_mem_entries {m : RoomManager} {e : (_ : String) × List PeerInfo}
    (he : e ∈ m.rooms.entries) : m.room e.1 = e.2 := by
  have hlookup : m.rooms.lookup e.1 = some e.2 := AList.mem_lookup_iff.mpr he
  unfold RoomManager.room
  rw [hlookup, Option.getD_some]

theorem Consistent.nodup_senders (hs : s.Consistent) :
    ((members s.manager).map (·.sender)).Nodup := by
  unfold members
  rw [List.map_flatMap, List.nodup_flatMap]
  constructor
  . intro e he
    rw [← room_of_mem_entries he]
    apply hs.nodup_room_senders
  . apply s.manager.rooms.nodupKeys.pairwise_ne.imp_of_mem
    intro e e' he he' hne
    rw [Function.onFun, List.disjoint_left]
    rintro sender hsender hsender'
    obtain ⟨p, hp, rfl⟩ := List.mem_map.mp hsender
    obtain ⟨p', hp', hsame⟩ := List.mem_map.mp hsender'
    rw [← room_of_mem_entries he] at hp
    rw [← room_of_mem_entries he'] at hp'
    exact hne (hs.sender_inj hp hp' hsame.symm).1

theorem Consistent.peerCount_le_live (hs : s.Consistent) :
    (s.manager.peerCount : ℕ∞) ≤ {conn | s.Live conn}.encard := by
  let senders := (members s.manager).map (·.sender)
  have hcard : senders.toFinset.card = s.manager.peerCount := by
    rw [List.toFinset_card_of_nodup hs.nodup_senders, List.length_map, length_members]
  rw [← hcard, ← Set.encard_coe_eq_coe_finsetCard]
  apply Set.encard_le_encard
  intro sender hsender
  obtain ⟨p, hp, rfl⟩ := List.mem_map.mp (List.mem_toFinset.mp hsender)
  obtain ⟨e, he, hp⟩ := List.mem_flatMap.mp hp
  rw [← room_of_mem_entries he] at hp
  exact live_of_registered (hs.registered_sender hp)

theorem Consistent.aboutToDrop (hs : s.Consistent) {ip : String}
    (hlookup : s.manager.rooms.lookup ip = some []) : ∃ conn, s.AboutToDrop conn ip := by
  obtain ⟨conn, hcall⟩ := hs.empty ip hlookup
  obtain ⟨h, hh, hip, me, hpc⟩ := hs.calls conn _ hcall
  exact ⟨conn, h, me, hh, hip, hpc, hcall⟩

theorem Consistent.no_room (hs : s.Consistent) (hreturned : ∀ conn, ¬ s.Live conn) :
    s.manager.roomCount = 0 := by
  unfold RoomManager.roomCount
  rw [List.length_eq_zero_iff, List.eq_nil_iff_forall_not_mem]
  intro ip hip
  have hmem : ip ∈ s.manager.rooms := AList.mem_keys.mpr hip
  cases hroom : s.manager.room ip with
  | nil =>
    obtain ⟨conn, h, me, hh, -, hpc, -⟩ :=
      hs.aboutToDrop (RoomManager.lookup_eq_some_nil_iff.mpr ⟨hmem, hroom⟩)
    apply hreturned conn
    exact ⟨h, hh, by simp [hpc]⟩
  | cons p ps =>
    apply hreturned p.sender
    apply live_of_registered
    apply hs.registered_sender
    rw [hroom]
    apply List.mem_cons_self

def twoJoin : List Action :=
  connects 1 "10.0.0.1" "B7H2MN" ++ connects 2 "10.0.0.1" "C8J3PQ" ++ List.replicate 4 (.step 1)
    ++ List.replicate 4 (.step 2)

end Server

end Rendezvous

end LocalBolt
