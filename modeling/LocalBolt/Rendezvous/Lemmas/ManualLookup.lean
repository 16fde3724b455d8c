import LocalBolt.Rendezvous.Impl.ManualLookup
import LocalBolt.Rendezvous.Lemmas.Relay

/-!
This module contains what the manual lookup can promise although it does not see all rooms at one
instant: a peer it finds has been there while it ran, and it does not miss a peer that was there all the
time.
-/

namespace LocalBolt

namespace Rendezvous

namespace RoomManager

def withCode (peerCode : String) (entries : List (String × PeerInfo)) : List (String × PeerInfo) :=
  entries.filter fun entry => entry.2.peerCode = peerCode

theorem mem_withCode_iff {peerCode : String} {entries : List (String × PeerInfo)}
    {entry : String × PeerInfo}
    : entry ∈ withCode peerCode entries ↔ entry ∈ entries ∧ entry.2.peerCode = peerCode := by
  unfold withCode
  rw [List.mem_filter, decide_eq_true_eq]

theorem manualResult_foldlM (peerCode : String) (found : Option PeerSender)
    (entries : List (String × PeerInfo))
    : manualResult (entries.foldlM (visitPeer peerCode) found)
        =
      lookupManual peerCode found (entries.map (·.2)) := by
  induction entries generalizing found with
  | nil => cases found <;> rfl
  | cons entry entries ih =>
    rw [List.foldlM_cons, List.map_cons]
    unfold visitPeer
    by_cases hcode : entry.2.peerCode = peerCode
    . cases found with
      | none =>
        simp only [hcode, if_true, Option.isSome_none, Bool.false_eq_true, if_false, lookupManual]
        exact ih (some entry.2.sender)
      | some sender =>
        simp only [hcode, if_true, Option.isSome_some, lookupManual]
        rfl
    . rw [if_neg hcode]
      simp only [lookupManual, if_neg hcode]
      exact ih found

theorem foldlM_visitPeer_error {peerCode : String} {found : Option PeerSender}
    {entries : List (String × PeerInfo)} {result : ManualPeerLookup}
    (h : entries.foldlM (visitPeer peerCode) found = .error result) : result = .ambiguous := by
  induction entries generalizing found with
  | nil => cases h
  | cons entry entries ih =>
    rw [List.foldlM_cons] at h
    unfold visitPeer at h
    split at h
    . split at h
      . cases h
        rfl
      . exact ih h
    . exact ih h

theorem mem_shardPeers_iff {shard : String → Nat} {i : Nat} {m : RoomManager} {ip : String}
    {peer : PeerInfo} : (ip, peer) ∈ shardPeers shard i m ↔ shard ip = i ∧ peer ∈ m.room ip := by
  unfold shardPeers
  simp only [List.mem_flatMap, List.mem_filter, decide_eq_true_eq, List.mem_map, Prod.mk.injEq]
  constructor
  . rintro ⟨room, ⟨hroom, hshard⟩, peer', hpeer, rfl, rfl⟩
    rw [Server.room_of_mem_entries hroom]
    exact ⟨hshard, hpeer⟩
  . rintro ⟨hshard, hpeer⟩
    obtain ⟨peers, hlookup⟩ := Option.isSome_iff_exists.mp
      (AList.lookup_isSome.mpr (mem_rooms_of_mem_room hpeer))
    have hroom : peer ∈ peers := by simpa [room, hlookup] using hpeer
    exact ⟨⟨ip, peers⟩, ⟨AList.mem_lookup_iff.mp hlookup, hshard⟩, peer, hroom, rfl, rfl⟩

/--
No room of a shard holds two peers with one code.
-/
theorem nodup_shardRooms {m : RoomManager} (hm : m.WellFormed) (shard : String → Nat) (i : Nat)
    (peerCode : String) : ((withCode peerCode (shardPeers shard i m)).map (·.1)).Nodup := by
  unfold withCode shardPeers
  rw [List.filter_flatMap, List.map_flatMap, List.nodup_flatMap]
  constructor
  . intro room hroom
    have hmem := List.mem_of_mem_filter hroom
    have hcodes := (hm room.1).1
    rw [Server.room_of_mem_entries hmem] at hcodes
    -- all the peers that are left have the same code, so there is one at most
    have hsame : (room.2.filter fun peer => peer.peerCode = peerCode).map (·.peerCode)
        = List.replicate (room.2.filter fun peer => peer.peerCode = peerCode).length peerCode := by
      rw [← List.map_const']
      apply List.map_congr_left
      intro peer hpeer
      simpa using (List.mem_filter.mp hpeer).2
    have hle : ((room.2.filter fun peer => peer.peerCode = peerCode).map (·.peerCode)).Nodup :=
      hcodes.sublist (List.filter_sublist.map _)
    rw [hsame, List.nodup_replicate] at hle
    rw [List.filter_map, List.map_map, Function.comp_def, List.map_const', List.nodup_replicate]
    exact hle
  . apply (m.rooms.nodupKeys.pairwise_ne.filter _).imp
    intro room room' hne
    rw [Function.onFun, List.disjoint_left]
    intro ip hip hip'
    simp only [List.mem_map, List.mem_filter] at hip hip'
    obtain ⟨_, ⟨⟨peer, -, rfl⟩, -⟩, rfl⟩ := hip
    obtain ⟨_, ⟨⟨peer', -, rfl⟩, -⟩, heq⟩ := hip'
    exact hne heq.symm

variable {τ : Type} [DecidableEq τ] {shards : Nat} {shard : String → Nat} {peerCode : String}
  {tr : List (Transition (Scan (Tasks τ RoomManager Pc) (Option PeerSender) ManualPeerLookup)
    (Scan.Action (Tasks.Action τ Method)))}
  {s : Scan (Tasks τ RoomManager Pc) (Option PeerSender) ManualPeerLookup}

/--
No room is counted twice: its shard is read once, and then it holds one peer with the code at most.
-/
theorem nodup_roomsRead (h : (manualScan τ shards shard peerCode).Run tr s)
    {read : List (List (String × PeerInfo))}
    (hread : ∀ i l, read[i]? = some l →
      Scan.Read (fun i s => shardPeers shard i s.shared) tr i l)
    : ((withCode peerCode read.flatten).map (·.1)).Nodup := by
  have hflatten : withCode peerCode read.flatten = (read.map (withCode peerCode)).flatten := by
    exact List.filter_flatten
  rw [hflatten, List.map_flatten, List.map_map, List.nodup_flatten]
  constructor
  . intro rooms hrooms
    obtain ⟨l, hl, rfl⟩ := List.mem_map.mp hrooms
    obtain ⟨i, hi⟩ := List.getElem?_of_mem hl
    obtain ⟨t, ht, -, -, rfl⟩ := hread i l hi
    exact nodup_shardRooms (wellFormed (Scan.reachable_shared (h.reachable_source ht))) shard i peerCode
  . rw [List.pairwise_map, List.pairwise_iff_getElem]
    intro i j hi hj hij
    rw [List.disjoint_left]
    intro ip hip hip'
    obtain ⟨⟨_, peer⟩, hentry, rfl⟩ := List.mem_map.mp hip
    obtain ⟨⟨_, peer'⟩, hentry', heq⟩ := List.mem_map.mp hip'
    have hpeer := (mem_withCode_iff.mp hentry).1
    have hpeer' := (mem_withCode_iff.mp hentry').1
    obtain ⟨t, -, -, -, hl⟩ := hread i _ (List.getElem?_eq_getElem hi)
    obtain ⟨t', -, -, -, hl'⟩ := hread j _ (List.getElem?_eq_getElem hj)
    rw [hl, mem_shardPeers_iff] at hpeer
    rw [hl', mem_shardPeers_iff] at hpeer'
    dsimp only at heq
    rw [heq] at hpeer'
    omega

theorem manual_lookup_misses_no_steady_peer (hshard : ∀ ip, shard ip < shards)
    (h : (manualScan τ shards shard peerCode).Run tr s) (hdone : Scan.Done shards s)
    : (∀ sender, manualResult s.loop = .found sender →
          ∃ t ∈ tr, ∃ ip, ∃ peer ∈ t.source.shared.shared.room ip,
            peer.peerCode = peerCode ∧ peer.sender = sender)
        ∧ (manualResult s.loop = .ambiguous →
          ∃ t ∈ tr, ∃ t' ∈ tr, ∃ ip ip', ip ≠ ip'
            ∧ (∃ peer ∈ t.source.shared.shared.room ip, peer.peerCode = peerCode)
            ∧ ∃ peer ∈ t'.source.shared.shared.room ip', peer.peerCode = peerCode)
        ∧ ∀ ip peer, peer.peerCode = peerCode →
          (∀ t ∈ tr, peer ∈ t.source.shared.shared.room ip) →
            manualResult s.loop = .found peer.sender ∨ manualResult s.loop = .ambiguous := by
  obtain ⟨read, hlength, -, hread, hloop⟩ := Scan.exists_parts h
  have hresult : manualResult s.loop = resolve ((withCode peerCode read.flatten).map (·.2)) := by
    rw [hloop, manualResult_foldlM, lookupManual_none, List.filter_map]
    rfl
  rw [hresult]
  refine ⟨?_, ?_, ?_⟩
  . intro sender hfound
    obtain ⟨peer, hpeers, rfl⟩ := resolve_eq_found_iff.mp hfound
    have hmem : peer ∈ (withCode peerCode read.flatten).map (·.2) := by
      rw [hpeers]
      exact List.mem_singleton_self peer
    obtain ⟨entry, hentry, rfl⟩ := List.mem_map.mp hmem
    obtain ⟨hread', hcode⟩ := mem_withCode_iff.mp hentry
    obtain ⟨i, t, ht, hpart⟩ := Scan.exists_read_of_mem hread hread'
    exact ⟨t, ht, entry.1, entry.2, (mem_shardPeers_iff.mp hpart).2, hcode, rfl⟩
  . intro hambiguous
    have hrooms := nodup_roomsRead h hread
    match hentries : withCode peerCode read.flatten with
    | [] => simp [hentries, resolve] at hambiguous
    | [entry] => simp [hentries, resolve] at hambiguous
    | entry :: entry' :: rest =>
      rw [hentries] at hrooms
      have hne : entry.1 ≠ entry'.1 := by
        intro heq
        simp [heq] at hrooms
      have hentry : entry ∈ withCode peerCode read.flatten := by simp [hentries]
      have hentry' : entry' ∈ withCode peerCode read.flatten := by simp [hentries]
      obtain ⟨hmem, hcode⟩ := mem_withCode_iff.mp hentry
      obtain ⟨hmem', hcode'⟩ := mem_withCode_iff.mp hentry'
      obtain ⟨i, t, ht, hpart⟩ := Scan.exists_read_of_mem hread hmem
      obtain ⟨i', t', ht', hpart'⟩ := Scan.exists_read_of_mem hread hmem'
      exact ⟨t, ht, t', ht', entry.1, entry'.1, hne,
        ⟨entry.2, (mem_shardPeers_iff.mp hpart).2, hcode⟩,
        ⟨entry'.2, (mem_shardPeers_iff.mp hpart').2, hcode'⟩⟩
  . intro ip peer hcode hsteady
    rcases hdone with hindex | ⟨result, herror⟩
    . have hmem : (ip, peer) ∈ read.flatten := by
        apply Scan.mem_flatten_of_forall hread (shard ip)
        . have := hshard ip
          omega
        . intro t ht
          exact mem_shardPeers_iff.mpr ⟨rfl, hsteady t ht⟩
      have hentry : (ip, peer) ∈ withCode peerCode read.flatten := mem_withCode_iff.mpr ⟨hmem, hcode⟩
      match hentries : withCode peerCode read.flatten with
      | [] => simp [hentries] at hentry
      | [entry] =>
        left
        rw [hentries, List.mem_singleton] at hentry
        rw [← hentry]
        rfl
      | entry :: entry' :: rest => exact .inr rfl
    . right
      rw [← hresult, herror]
      rw [herror] at hloop
      exact foldlM_visitPeer_error hloop.symm

def lengthParity (ip : String) : Nat := ip.length % 2

def registerAlpha : List (Tasks.Action Nat Method) :=
  [.call 0 (.addPeer "203.0.113.7" (device "ALPHA" 0)), .step 0, .step 0, .step 0]

theorem steady_peer_found
    : ∃ tr s, (manualScan Nat 2 lengthParity "ALPHA").Run tr s
        ∧ (manualResult s.loop = .found 0 ∨ manualResult s.loop = .ambiguous) := by
  let M := manualScan Nat 2 lengthParity "ALPHA"
  let alpha : PeerInfo := { device "ALPHA" 0 with sessionId := 1 }
  obtain ⟨s, hs, hP⟩ := Machine.exists_reachable_of_exec (f := Tasks.next methods)
    (P := fun s => shardPeers lengthParity 0 s.shared = [] ∧ alpha ∈ s.shared.room "203.0.113.7")
    (show (Machine.exec (Tasks.next methods) (.start new (.returned none)) registerAlpha).any _ = true
      by decide)
  obtain ⟨hshard, halpha⟩ := of_decide_eq_true hP
  -- alone with the rooms, the scan reads the empty shard and then the other one
  have hbegin : M.Run [] ⟨s, 0, .ok none⟩ := .init ⟨hs, rfl, rfl⟩
  have hfirst : M.step ⟨s, 0, .ok none⟩ .visit ⟨s, 1, .ok none⟩ := by
    refine ⟨Nat.zero_lt_two, none, rfl, ?_⟩
    dsimp only
    rw [hshard]
    rfl
  have hsecond : M.step ⟨s, 1, .ok none⟩ .visit
      ⟨s, 2, (shardPeers lengthParity 1 s.shared).foldlM (visitPeer "ALPHA") none⟩ :=
    ⟨Nat.one_lt_two, none, rfl, rfl⟩
  have hrun := (hbegin.step hfirst).step hsecond
  refine ⟨_, _, hrun, ?_⟩
  apply (manual_lookup_misses_no_steady_peer (fun ip => Nat.mod_lt _ (by decide)) hrun
    (.inl rfl)).2.2 "203.0.113.7" alpha rfl
  intro t ht
  simp only [List.nil_append, List.cons_append, List.mem_cons, List.not_mem_nil, or_false] at ht
  rcases ht with rfl | rfl <;> exact halpha

end RoomManager

end Rendezvous

end LocalBolt
