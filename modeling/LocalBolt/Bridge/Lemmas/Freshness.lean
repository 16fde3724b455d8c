import LocalBolt.App.Impl.App
import LocalBolt.Bridge.Lemmas.Snapshot

/-!
This module contains the metadata of the peers on the screen, against what the peers have announced
last. It can be lost twice: the bridge keeps the entry of a peer that is listed, and the poll keeps
the list on the screen when the codes are the same.
-/

namespace LocalBolt

namespace Bridge

def readable (s : BoltSignaling) : List PeerInfo := s.peers.take s.peerCount.toNat

theorem readPeers_eq (s : BoltSignaling) :
    readPeers s = (readable s).map PeerInfo.discovered := by
  have hcount : s.peerCount.toNat < 2 ^ 32 := s.peerCount.toNat_lt
  suffices hloop : ∀ n, n < 2 ^ 32 →
      (List.range n).foldl (fun updated i => readPeer s updated (.ofNat i)) []
        = (s.peers.take n).map PeerInfo.discovered by
    exact hloop _ hcount
  intro n
  induction n with
  | zero => simp
  | succ n ih =>
    intro hn
    have hindex : (UInt32.ofNat n).toNat = n := by
      rw [UInt32.toNat_ofNat']
      exact Nat.mod_eq_of_lt (by omega)
    rw [List.range_succ, List.foldl_append, List.foldl_cons, List.foldl_nil, ih (by omega),
      readPeer_eq, hindex, List.take_add_one, List.map_append, Option.toList_map]

/--
A poll that no event interrupts reads the list as a whole.
-/
theorem PeerPoll.exec_getPeer (toJson : Json → Option String) (s : BoltSignaling)
    : Machine.exec (next toJson) (start s) (List.replicate s.peerCount.toNat .getPeer)
        =
      some { bridge := s, count := s.peerCount, index := s.peerCount, updated := readPeers s } := by
  suffices hloop : ∀ n, n ≤ s.peerCount.toNat →
      Machine.exec (next toJson) (start s) (List.replicate n .getPeer)
        = some {
            bridge := s
            count := s.peerCount
            index := .ofNat n
            updated := (List.range n).foldl (fun updated i => readPeer s updated (.ofNat i)) [] } by
    rw [hloop _ le_rfl, UInt32.ofNat_toNat]
    rfl
  intro n
  induction n with
  | zero =>
    intro _
    rfl
  | succ n ih =>
    intro hn
    have hindex : UInt32.ofNat n < s.peerCount := by
      rw [UInt32.lt_iff_toNat_lt, UInt32.toNat_ofNat']
      have := Nat.mod_le n (2 ^ 32)
      omega
    rw [List.replicate_succ', Machine.exec_append, ih (by omega), Option.bind_some, List.range_succ,
      List.foldl_append]
    simp [Machine.exec, next, hindex, UInt32.ofNat_add]

namespace Discovery

/--
What each code was last announced with, and what the listed peers looked like at the last poll
according to that.
-/
structure Announced where
  latest : String → Option PeerInfo
  polled : List (Option DiscoveredPeer)

def Announced.add (a : Announced) (peer : PeerInfo) : Announced :=
  { a with latest := fun code => if code = peer.peerCode then some peer else a.latest code }

def upToDate (latest : String → Option PeerInfo) (s : BoltSignaling) :
    List (Option DiscoveredPeer) :=
  (readable s).map fun peer => (latest peer.peerCode).map PeerInfo.discovered

def announcements : Observer Discovery Action Announced where
  start := { latest := fun _ => none, polled := [] }
  next a s action _ :=
    match action with
    | .event (.peerList list _) => list.foldl .add a
    | .event (.peerJoined peer _) => a.add peer
    | .event _ => a
    | .poll => { a with polled := upToDate a.latest s.bridge }

theorem addAll_polled (list : List PeerInfo) (a : Announced) :
    (list.foldl .add a).polled = a.polled := by
  induction list generalizing a with
  | nil => rfl
  | cons peer list ih => exact ih (a.add peer)

def ShowsLatest (t : Transition (Discovery × Announced) Action) : Prop :=
  t.action = .poll →
    t.target.1.manager.peers.map some = upToDate t.target.2.latest t.target.1.bridge

/--
A poll that finds the codes it has on the screen finds nothing else announced for them than the last
poll did, and one that finds other codes finds each entry as it was last announced.
-/
def KeepsUp (t : Transition (Discovery × Announced) Action) : Prop :=
  t.action = .poll →
    if (readable t.source.1.bridge).map (·.discovered.peerCode)
        = t.source.1.manager.peers.map (·.peerCode) then
      upToDate t.source.2.latest t.source.1.bridge = t.source.2.polled
    else
      ∀ peer ∈ readable t.source.1.bridge,
        (t.source.2.latest peer.peerCode).map PeerInfo.discovered = some peer.discovered

theorem polled_peers (m : SignalingManager) (isConnected : Bool) (updated : List DiscoveredPeer)
    : (m.poll isConnected updated).peers
        =
      if updated.map (·.peerCode) = m.peers.map (·.peerCode) then m.peers else updated := by
  unfold SignalingManager.poll
  dsimp only
  split
  . next hchanged =>
    rw [if_neg]
    intro hsame
    rcases hchanged with hlength | hcodes
    . apply hlength
      simpa using congrArg List.length hsame
    . exact hcodes hsame
  . next hchanged =>
    simp only [not_or, not_not] at hchanged
    rw [if_pos hchanged.2]

theorem poll_peers (s : Discovery)
    : s.poll.manager.peers
        =
      if (readable s.bridge).map (·.discovered.peerCode) = s.manager.peers.map (·.peerCode) then
        s.manager.peers
      else
        (readable s.bridge).map PeerInfo.discovered := by
  have hread : readPeers s.bridge.drainEvents.2.drainSignals.2
      = (readable s.bridge).map PeerInfo.discovered := readPeers_eq _
  simp only [poll, polled_peers, hread, List.map_map]
  rfl

theorem showsLatest_poll_iff {s : Discovery} {a : Announced}
    (hgood : s.manager.peers.map some = a.polled)
    : s.poll.manager.peers.map some = upToDate a.latest s.bridge
        ↔
      if (readable s.bridge).map (·.discovered.peerCode) = s.manager.peers.map (·.peerCode) then
        upToDate a.latest s.bridge = a.polled
      else
        ∀ peer ∈ readable s.bridge,
          (a.latest peer.peerCode).map PeerInfo.discovered = some peer.discovered := by
  rw [poll_peers]
  split
  . rw [hgood]
    exact eq_comm
  . rw [List.map_map, eq_comm]
    exact List.map_inj_left

theorem shows_latest_iff (toJson : Json → Option String) (peerCode : String)
    {tr : List (Transition (Discovery × Announced) Action)} {q : Discovery × Announced}
    (h : ((machine toJson peerCode).observed announcements).Run tr q)
    : (∀ t ∈ tr, ShowsLatest t)
        ↔
      ∀ t ∈ tr, KeepsUp t := by
  refine Machine.observed_total_forall_iff_of_good
    (fun p => p.1.manager.peers.map some = p.2.polled) rfl ?_ ?_ h
  . rintro ⟨s, a⟩ action hgood hshows
    cases action with
    | event event =>
      cases event with
      | peerList list => exact hgood.trans (addAll_polled list a).symm
      | _ => exact hgood
    | poll => exact hshows rfl
  . rintro ⟨s, a⟩ action hgood
    cases action with
    | event => simp [ShowsLatest, KeepsUp]
    | poll =>
      simp only [ShowsLatest, KeepsUp, forall_const]
      exact showsLatest_poll_iff hgood

/--
The signaling poll of the app is the poll of the bridge.
-/
theorem signalingPoll_signaling {s : App} {d : Discovery} (hidle : s.polling = none)
    (hmanager : s.signaling = d.manager)
    : (s.next (.signalingPoll (d.bridge.isConnected = 1) (readPeers d.bridge))).map (·.signaling)
        =
      some d.poll.manager := by
  have hread : readPeers d.bridge.drainEvents.2.drainSignals.2 = readPeers d.bridge := by
    rw [readPeers_eq, readPeers_eq]
    rfl
  simp [App.next, App.step, App.onMain, hidle, hmanager, poll, hread]

def bobWith (wtCertHash : String) : PeerInfo where
  peerCode := "B7H2MN"
  deviceName := "Bob"
  deviceType := "laptop"
  wtUrl := some "https://192.168.1.7:9871"
  wtCertHash := some wtCertHash

def rejoins (wtCertHash : String) : List Action :=
  [.event (.peerLeft "B7H2MN" .localPlane), .event (.peerJoined (bobWith wtCertHash) .localPlane),
    .poll]

theorem rejoined_with_new_hash
    : let tr := Machine.trace
        (Machine.observedFun announcements (fun s a => some (s.next (fun _ => none) a)))
        (start "A3F9KQ", announcements.start)
        ([.event (.peerJoined (bobWith "a1") .localPlane), .poll,
          .event (.peerLeft "B7H2MN" .localPlane), .poll] ++ rejoins "b2")
      (∃ t ∈ tr, t.target.1.manager.peers.map (·.wtCertHash) = [some "b2"])
        ∧ ∀ t ∈ tr, ShowsLatest t := by
  intro tr
  have hshown : tr.any (fun t => t.target.1.manager.peers.map (·.wtCertHash) = [some "b2"])
      = true := by decide
  have hkeeps : tr.all (fun t =>
      match t.action with
      | .poll =>
        if (readable t.source.1.bridge).map (·.discovered.peerCode)
            = t.source.1.manager.peers.map (·.peerCode) then
          upToDate t.source.2.latest t.source.1.bridge = t.source.2.polled
        else
          ∀ peer ∈ readable t.source.1.bridge,
            (t.source.2.latest peer.peerCode).map PeerInfo.discovered = some peer.discovered
      | .event _ => true) = true := by decide
  obtain ⟨q, h⟩ := Machine.observed_run_trace announcements (M := machine (fun _ => none) "A3F9KQ")
    rfl (fun _ _ _ => id) _
  constructor
  . obtain ⟨t, ht, hshown⟩ := List.any_eq_true.mp hshown
    exact ⟨t, ht, of_decide_eq_true hshown⟩
  . apply (shows_latest_iff _ _ h).mpr
    intro t ht haction
    have := List.all_eq_true.mp hkeeps t ht
    rw [haction] at this
    dsimp only at this
    split at this
    . next hsame =>
      rw [if_pos hsame]
      exact of_decide_eq_true this
    . next hnew =>
      rw [if_neg hnew]
      exact of_decide_eq_true this

theorem rejoined_with_old_hash
    : ∃ tr q, ((machine (fun _ => none) "A3F9KQ").observed announcements).Run tr q
        ∧ ∃ t ∈ tr, t.action = .poll
          ∧ t.target.1.manager.peers.map (·.wtCertHash) = [some "a1"]
          ∧ t.target.2.latest "B7H2MN" = some (bobWith "b2")
          ∧ ¬ ShowsLatest t := by
  obtain ⟨tr, q, h, t, ht, hstale⟩ := Machine.exists_observed_transition announcements
    (M := machine (fun _ => none) "A3F9KQ") rfl (fun _ _ _ => id)
    ([.event (.peerJoined (bobWith "a1") .localPlane), .poll] ++ rejoins "b2")
    (P := fun t => (t.action matches .poll) = true
      ∧ t.target.1.manager.peers.map (·.wtCertHash) = [some "a1"]
      ∧ t.target.2.latest "B7H2MN" = some (bobWith "b2")
      ∧ t.target.1.manager.peers.map some ≠ upToDate t.target.2.latest t.target.1.bridge)
    (by decide)
  obtain ⟨haction, hshown, hlatest, hstale⟩ := of_decide_eq_true hstale
  have haction : t.action = .poll := by
    split at haction
    . assumption
    . simp at haction
  exact ⟨tr, q, h, t, ht, haction, hshown, hlatest, fun hshows => hstale (hshows haction)⟩

end Discovery

end Bridge

end LocalBolt
