import LocalBolt.Bridge.Impl.Poll
import LocalBolt.Bridge.Lemmas.Planes
import LocalBolt.IndexedRead.Basic

/-!
This module contains the reading of the list of peers by one poll, between whose calls discovery
events change the list.
-/

namespace LocalBolt

namespace Bridge

theorem readPeer_eq (s : BoltSignaling) (updated : List DiscoveredPeer) (index : UInt32)
    : readPeer s updated index
        =
      updated ++ (s.peers[index.toNat]?.map PeerInfo.discovered).toList := by
  unfold readPeer BoltSignaling.getPeer
  cases s.peers[index.toNat]? <;> simp [PeerInfo.discovered]

namespace PeerPoll

def instants (s : BoltSignaling) : Observer PeerPoll Action (List (List PeerInfo)) where
  start := [s.peers]
  next seen _ _ p := seen ++ [p.bridge.peers]

def readAction (toJson : Json → Option String) (p : PeerPoll) :
    Action → IndexedRead.Action PeerInfo
  | .event event => .change (p.bridge.callback toJson event).peers
  | .getPeer => .get

theorem toNat_index_succ {index count : UInt32} (h : index < count) :
    (index + 1).toNat = index.toNat + 1 := by
  have hcount := count.toNat_lt
  rw [UInt32.lt_iff_toNat_lt] at h
  rw [UInt32.toNat_add, UInt32.toNat_one, Nat.mod_eq_of_lt (by omega)]

def simulation (toJson : Json → Option String) {s : BoltSignaling}
    (hcount : s.peers.length < 2 ^ 32) :
    Simulation (machine toJson s)
      (IndexedRead.machine PeerInfo.discovered s.peers s.peers.length) where
  state p :=
    { items := p.bridge.peers, count := p.count.toNat, index := p.index.toNat, read := p.updated }
  action := readAction toJson
  init p hp := by
    obtain rfl : p = start s := hp
    simpa [IndexedRead.machine, Machine.ofFun, IndexedRead.start, start, BoltSignaling.peerCount]
      using hcount
  step p action p' h := by
    simp only [machine, Machine.ofFun] at h
    cases action with
    | event event =>
      simp only [next] at h
      split at h
      . next hindex =>
        obtain rfl := Option.some.inj h
        simp [IndexedRead.machine, Machine.ofFun, readAction, IndexedRead.next,
          UInt32.lt_iff_toNat_lt.mp hindex]
      . simp at h
    | getPeer =>
      simp only [next] at h
      split at h
      . next hindex =>
        obtain rfl := Option.some.inj h
        simp [IndexedRead.machine, Machine.ofFun, readAction, IndexedRead.next,
          UInt32.lt_iff_toNat_lt.mp hindex, toNat_index_succ hindex, readPeer_eq]
      . simp at h

def SteadyEvent (toJson : Json → Option String)
    (t : Transition (PeerPoll × List (List PeerInfo)) Action) : Prop :=
  ∀ discovery, t.action = .event discovery →
    IndexedRead.Steady t.source.1.index.toNat t.source.1.count.toNat t.source.1.bridge.peers
      (t.source.1.bridge.callback toJson discovery).peers

theorem reads_instant {toJson : Json → Option String} {s : BoltSignaling}
    (hcount : s.peers.length < 2 ^ 32)
    {tr : List (Transition (PeerPoll × List (List PeerInfo)) Action)}
    {q : PeerPoll × List (List PeerInfo)}
    (h : ((machine toJson s).observed (instants s)).Run tr q)
    (hsteady : ∀ t ∈ tr, SteadyEvent toJson t) (hdone : q.1.index = q.1.count) :
    ∃ peers ∈ q.2, q.1.updated = peers.map PeerInfo.discovered := by
  have hrun := h.simulate
    (Machine.simulationObserved (simulation toJson hcount) (IndexedRead.instants s.peers))
  refine IndexedRead.reads_instant hrun ?_ ?_
  . intro t ht items' haction
    obtain ⟨t, hmem, rfl⟩ := List.mem_map.mp ht
    obtain ⟨⟨p, seen⟩, action, q⟩ := t
    cases action with
    | event discovery =>
      obtain rfl : (p.bridge.callback toJson discovery).peers = items' := by
        simpa [Simulation.transition, Machine.simulationObserved, simulation, readAction]
          using haction
      exact hsteady _ hmem discovery rfl
    | getPeer =>
      simp [Simulation.transition, Machine.simulationObserved, simulation, readAction] at haction
  . exact congrArg UInt32.toNat hdone

theorem instants_nodup {toJson : Json → Option String} {s : BoltSignaling} (hs : s.codes.Nodup)
    {tr : List (Transition (PeerPoll × List (List PeerInfo)) Action)}
    {q : PeerPoll × List (List PeerInfo)}
    (h : ((machine toJson s).observed (instants s)).Run tr q) :
    ∀ peers ∈ q.2, (peers.map (·.peerCode)).Nodup := by
  have hnodup : q.1.bridge.codes.Nodup ∧ ∀ peers ∈ q.2, (peers.map (·.peerCode)).Nodup := by
    refine h.invariant (I := fun q => q.1.bridge.codes.Nodup
      ∧ ∀ peers ∈ q.2, (peers.map (·.peerCode)).Nodup) ?_ ?_
    . rintro ⟨p, seen⟩ ⟨hp, hseen⟩
      obtain rfl : p = start s := hp
      obtain rfl : seen = [s.peers] := hseen
      exact ⟨hs, List.forall_mem_singleton.mpr hs⟩
    . rintro ⟨⟨p, seen⟩, action, ⟨p', seen'⟩⟩ - ⟨hstep, hseen⟩ ⟨hp, hall⟩
      obtain rfl : seen' = seen ++ [p'.bridge.peers] := hseen
      have hp' : p'.bridge.codes.Nodup := by
        simp only [machine, Machine.ofFun] at hstep
        cases action with
        | event discovery =>
          simp only [next] at hstep
          split at hstep
          . obtain rfl := Option.some.inj hstep
            exact BoltSignaling.nodup_codes_next hp toJson (.event discovery)
          . simp at hstep
        | getPeer =>
          simp only [next] at hstep
          split at hstep
          . obtain rfl := Option.some.inj hstep
            exact hp
          . simp at hstep
      exact ⟨hp', List.forall_mem_append.mpr ⟨hall, List.forall_mem_singleton.mpr hp'⟩⟩
  exact hnodup.2

theorem discovered_peerCode {peer : PeerInfo} (h : Char.ofNat 0 ∉ peer.peerCode.toList) :
    peer.discovered.peerCode = peer.peerCode := by
  simp [PeerInfo.discovered, BoltPeer.discovered, BoltPeer.ofInfo, cString?, h]

theorem poll_reads_instant {toJson : Json → Option String} {peerCode : String} {s : BoltSignaling}
    (hs : (BoltSignaling.machine toJson peerCode).Reachable s)
    (hcount : s.peers.length < 2 ^ 32)
    {tr : List (Transition (PeerPoll × List (List PeerInfo)) Action)}
    {q : PeerPoll × List (List PeerInfo)}
    (h : ((machine toJson s).observed (instants s)).Run tr q)
    (hclean : ∀ peers ∈ q.2, ∀ peer ∈ peers, Char.ofNat 0 ∉ peer.peerCode.toList)
    (hsteady : ∀ t ∈ tr, SteadyEvent toJson t) (hdone : q.1.index = q.1.count)
    : (q.1.updated.map (·.peerCode)).Nodup
        ∧ ∃ peers ∈ q.2, q.1.updated.map (·.peerCode) = peers.map (·.peerCode) := by
  obtain ⟨peers, hpeers, hupdated⟩ := reads_instant hcount h hsteady hdone
  have hcodes : q.1.updated.map (·.peerCode) = peers.map (·.peerCode) := by
    rw [hupdated, List.map_map]
    apply List.map_congr_left
    intro peer hpeer
    exact discovered_peerCode (hclean peers hpeers peer hpeer)
  refine ⟨?_, peers, hpeers, hcodes⟩
  rw [hcodes]
  exact instants_nodup (BoltSignaling.nodup_codes hs) h peers hpeers

def named (code : String) : PeerInfo where
  peerCode := code
  deviceName := code
  deviceType := "laptop"
  wtUrl := none
  wtCertHash := none

def listed (codes : List String) : BoltSignaling :=
  (BoltSignaling.start "A3F9KQ").next (fun _ => none)
    (.event (.peerList (codes.map named) .localPlane))

theorem listed_reachable (codes : List String) :
    (BoltSignaling.machine (fun _ => none) "A3F9KQ").Reachable (listed codes) := by
  exact .step (.init rfl) rfl

def threePeers : BoltSignaling := listed ["B1", "C2", "D3"]

def pollDuring (leaving : DiscoveryEvent) (rejoining : List DiscoveryEvent) : List Action :=
  [.getPeer, .event leaving] ++ rejoining.map .event ++ [.getPeer, .getPeer]

theorem unread_peer_leaves
    : ∃ q, ((machine (fun _ => none) threePeers).observed (instants threePeers)).Reachable q
        ∧ q.1.updated.map (·.peerCode) = ["B1", "D3"]
        ∧ (q.1.updated.map (·.peerCode)).Nodup
        ∧ ∃ peers ∈ q.2, q.1.updated.map (·.peerCode) = peers.map (·.peerCode) := by
  have hrun : (Machine.exec (Machine.observedFun (instants threePeers) (next (fun _ => none)))
      (start threePeers, (instants threePeers).start) (pollDuring (.peerLeft "C2" .localPlane) [])).any
      (fun q => q.1.updated.map (·.peerCode) = ["B1", "D3"] ∧ q.1.index = q.1.count
        ∧ ∀ peers ∈ q.2, ∀ peer ∈ peers, Char.ofNat 0 ∉ peer.peerCode.toList) = true := by decide
  have hsteady : (Machine.trace (Machine.observedFun (instants threePeers) (next (fun _ => none)))
      (start threePeers, (instants threePeers).start) (pollDuring (.peerLeft "C2" .localPlane) [])).all
      (fun t =>
        match t.action with
        | .event discovery =>
          IndexedRead.Steady t.source.1.index.toNat t.source.1.count.toNat t.source.1.bridge.peers
            (t.source.1.bridge.callback (fun _ => none) discovery).peers
        | .getPeer => true) = true := by decide
  obtain ⟨q, hq, hread⟩ := (Option.any_eq_true _ _).mp hrun
  obtain ⟨hupdated, hdone, hclean⟩ := of_decide_eq_true hread
  have h := Machine.observed_run_of_exec hq
  refine ⟨q, h.reachable, hupdated, poll_reads_instant (listed_reachable _) (by decide) h hclean ?_ hdone⟩
  intro t ht discovery haction
  have := List.all_eq_true.mp hsteady t ht
  rw [haction] at this
  exact of_decide_eq_true this

theorem rejoining_peer_read_twice
    : (BoltSignaling.machine (fun _ => none) "A3F9KQ").Reachable threePeers
        ∧ ∃ q, ((machine (fun _ => none) threePeers).observed (instants threePeers)).Reachable q
        ∧ q.1.index = q.1.count
        ∧ q.1.updated.map (·.peerCode) = ["B1", "D3", "B1"]
        ∧ ¬ (q.1.updated.map (·.peerCode)).Nodup
        ∧ ∀ peers ∈ q.2, q.1.updated.map (·.peerCode) ≠ peers.map (·.peerCode) := by
  have hrun : (Machine.exec (Machine.observedFun (instants threePeers) (next (fun _ => none)))
      (start threePeers, (instants threePeers).start)
      (pollDuring (.peerLeft "B1" .localPlane) [.peerJoined (named "B1") .localPlane])).any
      (fun q => q.1.index = q.1.count
        ∧ q.1.updated.map (·.peerCode) = ["B1", "D3", "B1"]
        ∧ ¬ (q.1.updated.map (·.peerCode)).Nodup
        ∧ ∀ peers ∈ q.2, q.1.updated.map (·.peerCode) ≠ peers.map (·.peerCode)) = true := by decide
  obtain ⟨q, hq, hread⟩ := Machine.exists_observed_of_exec hrun
  exact ⟨listed_reachable _, q, hq, of_decide_eq_true hread⟩

end PeerPoll

end Bridge

end LocalBolt
