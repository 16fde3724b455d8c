import LocalBolt.Bridge.Impl.Signaling
import LocalBolt.Machine.Observer
import LocalBolt.Presence.Basic

/-!
This module contains what the bridge keeps of the two planes: the list of peers, against the peers
present on each plane, and the flag for being online, against the planes that are up.
-/

namespace LocalBolt

namespace Bridge

instance : Fintype Plane where
  elems := {.localPlane, .cloudPlane}
  complete plane := by cases plane <;> simp

namespace BoltSignaling

def codes (s : BoltSignaling) : List String := s.peers.map (·.peerCode)

@[simp]
theorem mergePeer_peerCode (s : BoltSignaling) (peer : PeerInfo) :
    (s.mergePeer peer).peerCode = s.peerCode := by
  unfold mergePeer
  split <;> rfl

@[simp]
theorem mergePeers_peerCode (list : List PeerInfo) (s : BoltSignaling) :
    (list.foldl mergePeer s).peerCode = s.peerCode := by
  induction list generalizing s with
  | nil => rfl
  | cons peer list ih => simp [ih]

theorem isListed_iff {s : BoltSignaling} {code : String} :
    isListed s.peers code = true ↔ code ∈ s.codes := by
  simp [isListed, codes]

theorem codes_mergePeer (s : BoltSignaling) (peer : PeerInfo)
    : (s.mergePeer peer).codes
        =
      if peer.peerCode ≠ s.peerCode ∧ peer.peerCode ∉ s.codes then
        s.codes ++ [peer.peerCode]
      else
        s.codes := by
  simp only [mergePeer, isListed_iff]
  split <;> simp [codes]

theorem mem_codes_mergePeer {s : BoltSignaling} {peer : PeerInfo} {code : String} :
    code ∈ (s.mergePeer peer).codes
      ↔ code ∈ s.codes ∨ (code ≠ s.peerCode ∧ code = peer.peerCode) := by
  rw [codes_mergePeer]
  split
  . next h =>
    rw [List.mem_append, List.mem_singleton]
    refine or_congr_right ⟨fun hcode => ⟨hcode ▸ h.1, hcode⟩, fun hcode => hcode.2⟩
  . next h =>
    refine ⟨.inl, ?_⟩
    rintro (hcode | ⟨hown, rfl⟩)
    . exact hcode
    . by_contra hlisted
      exact h ⟨hown, hlisted⟩

theorem nodup_codes_mergePeer {s : BoltSignaling} (h : s.codes.Nodup) (peer : PeerInfo) :
    (s.mergePeer peer).codes.Nodup := by
  rw [codes_mergePeer]
  split
  . next hnew => exact List.Nodup.append h (by simp) (by simpa using hnew.2)
  . exact h

theorem mem_codes_mergePeers {list : List PeerInfo} {s : BoltSignaling} {code : String} :
    code ∈ (list.foldl mergePeer s).codes
      ↔ code ∈ s.codes ∨ (code ≠ s.peerCode ∧ code ∈ list.map (·.peerCode)) := by
  induction list generalizing s with
  | nil => simp
  | cons peer list ih =>
    rw [List.foldl_cons, ih, mem_codes_mergePeer, mergePeer_peerCode, List.map_cons, List.mem_cons]
    tauto

theorem nodup_codes_mergePeers {s : BoltSignaling} (h : s.codes.Nodup) (list : List PeerInfo) :
    (list.foldl mergePeer s).codes.Nodup := by
  induction list generalizing s with
  | nil => exact h
  | cons peer list ih => exact ih (nodup_codes_mergePeer h peer)

end BoltSignaling

/-! ### The peers of the planes -/

def DiscoveryEvent.change : DiscoveryEvent → Option (Plane × Presence.Change String)
  | .peerList list plane => some (plane, .snapshot (list.map (·.peerCode)))
  | .peerJoined peer plane => some (plane, .join peer.peerCode)
  | .peerLeft code plane => some (plane, .leave code)
  | .disconnected _ plane => some (plane, .drop)
  | _ => none

namespace BoltSignaling

def Action.change : Action → Option (Plane × Presence.Change String)
  | .event discovery => discovery.change
  | _ => none

def presence : Observer BoltSignaling Action (Plane → Finset String) where
  start _ := ∅
  next present _ action _ :=
    match action.change with
    | some (plane, change) => Presence.update present plane change
    | none => present

theorem next_peerCode (toJson : Json → Option String) (s : BoltSignaling) (action : Action) :
    (s.next toJson action).peerCode = s.peerCode := by
  cases action with
  | event event =>
    cases event with
    | peerList list => exact mergePeers_peerCode list s
    | peerJoined peer =>
      simp only [next, callback]
      split
      . exact mergePeer_peerCode s peer
      . rfl
    | signal =>
      simp only [next, callback]
      split <;> rfl
    | _ => rfl
  | drainEvents => rfl
  | drainSignals => rfl

theorem next_peers_of_no_change {action : Action} (h : action.change = none)
    (toJson : Json → Option String) (s : BoltSignaling) :
    (s.next toJson action).peers = s.peers := by
  cases action with
  | event event =>
    cases event with
    | signal =>
      simp only [next, callback]
      split <;> rfl
    | connected | error => rfl
    | _ => simp [Action.change, DiscoveryEvent.change] at h
  | drainEvents => rfl
  | drainSignals => rfl

theorem mem_codes_next {action : Action} {plane : Plane} {change : Presence.Change String}
    (h : action.change = some (plane, change)) (toJson : Json → Option String) (s : BoltSignaling)
    (code : String) :
    code ∈ (s.next toJson action).codes ↔ code ∈ change.merge s.peerCode {c | c ∈ s.codes} := by
  cases action with
  | event event =>
    cases event <;>
      simp only [Action.change, DiscoveryEvent.change, Option.some.injEq, Prod.mk.injEq, reduceCtorEq]
        at h
    case peerList list _ =>
      obtain ⟨-, rfl⟩ := h
      exact mem_codes_mergePeers
    case peerJoined peer _ =>
      obtain ⟨-, rfl⟩ := h
      simp only [next, callback]
      split
      . exact mem_codes_mergePeer
      . next hown =>
        simp only [ne_eq, not_not] at hown
        simp [Presence.Change.merge, hown]
    case peerLeft left _ =>
      obtain ⟨-, rfl⟩ := h
      simp only [next, callback, pushEvent, codes, Presence.Change.merge, List.mem_map,
        List.mem_filter, decide_eq_true_eq, Set.mem_ofPred_eq]
      constructor
      . rintro ⟨peer, ⟨hpeer, hne⟩, rfl⟩
        exact ⟨⟨peer, hpeer, rfl⟩, hne⟩
      . rintro ⟨⟨peer, hpeer, rfl⟩, hne⟩
        exact ⟨peer, ⟨hpeer, hne⟩, rfl⟩
    case disconnected =>
      obtain ⟨-, rfl⟩ := h
      exact Iff.rfl
  | drainEvents | drainSignals => simp [Action.change] at h

theorem nodup_codes_next {s : BoltSignaling} (h : s.codes.Nodup) (toJson : Json → Option String)
    (action : Action) : (s.next toJson action).codes.Nodup := by
  cases hchange : action.change with
  | none =>
    unfold codes at h ⊢
    rwa [next_peers_of_no_change hchange]
  | some change =>
    cases action with
    | event event =>
      cases event with
      | peerList list => exact nodup_codes_mergePeers h list
      | peerJoined peer =>
        simp only [next, callback]
        split
        . exact nodup_codes_mergePeer h peer
        . exact h
      | peerLeft code => exact (List.filter_sublist.map _).nodup h
      | disconnected => exact h
      | _ => simp [Action.change, DiscoveryEvent.change] at hchange
    | _ => simp [Action.change] at hchange

theorem nodup_codes {toJson : Json → Option String} {peerCode : String} {s : BoltSignaling}
    (h : (machine toJson peerCode).Reachable s) : s.codes.Nodup := by
  refine Machine.Reachable.invariant (I := fun s => s.codes.Nodup) ?_ ?_ h
  . intro s hs
    obtain rfl : s = start peerCode := hs
    exact List.nodup_nil
  . intro s action s' _ hs hs'
    obtain rfl : s.next toJson action = s' := Option.some.inj hs'
    exact nodup_codes_next hs toJson action

def ListsUnion (p : BoltSignaling × (Plane → Finset String)) : Prop :=
  p.1.codes.Nodup ∧ ∀ code, code ∈ p.1.codes ↔ code ∈ Presence.union p.1.peerCode p.2

def LosslessChange (t : Transition (BoltSignaling × (Plane → Finset String)) Action) : Prop :=
  ∀ plane change, t.action.change = some (plane, change) →
    Presence.Lossless t.source.1.peerCode t.source.2 plane change

theorem listsUnion_next_iff {p : BoltSignaling × (Plane → Finset String)} (hp : ListsUnion p)
    (toJson : Json → Option String) (action : Action)
    : ListsUnion (p.1.next toJson action, presence.next p.2 p.1 action (p.1.next toJson action))
        ↔
      ∀ plane change, action.change = some (plane, change) →
        Presence.Lossless p.1.peerCode p.2 plane change := by
  have hlisted : {c | c ∈ p.1.codes} = Presence.union p.1.peerCode p.2 := Set.ext hp.2
  unfold ListsUnion presence
  simp only [nodup_codes_next hp.1, true_and, next_peerCode]
  cases hchange : action.change with
  | none =>
    refine iff_of_true ?_ (by simp)
    intro code
    rw [codes, next_peers_of_no_change hchange]
    exact hp.2 code
  | some q =>
    obtain ⟨plane, change⟩ := q
    simp only [mem_codes_next hchange, hlisted, Presence.merge_union_iff, Option.some.injEq,
      Prod.mk.injEq]
    constructor
    . rintro h _ _ ⟨rfl, rfl⟩
      exact h
    . intro h
      exact h plane change ⟨rfl, rfl⟩

theorem lists_union_iff (toJson : Json → Option String) (peerCode : String)
    {tr : List (Transition (BoltSignaling × (Plane → Finset String)) Action)}
    {q : BoltSignaling × (Plane → Finset String)}
    (h : ((machine toJson peerCode).observed presence).Run tr q)
    : (∀ t ∈ tr, ListsUnion t.target)
        ↔
      ∀ t ∈ tr, LosslessChange t := by
  refine Machine.observed_total_forall_iff ?_ ?_ h
  . simp [ListsUnion, codes, start, presence, Presence.union]
  . intro p action hp
    exact listsUnion_next_iff hp toJson action

def bob (wtUrl : Option String) : PeerInfo where
  peerCode := "B7H2MN"
  deviceName := "Bob"
  deviceType := "laptop"
  wtUrl
  wtCertHash := none

def bobOnBothPlanes : List Action :=
  [.event (.peerJoined (bob none) .localPlane), .event (.peerList [bob none] .cloudPlane)]

theorem bob_listed_once
    : let tr := Machine.trace (Machine.observedFun presence (fun s a => some (s.next (fun _ => none) a)))
        (start "A3F9KQ", presence.start) bobOnBothPlanes
      (∃ t ∈ tr, t.target.1.codes = ["B7H2MN"] ∧ "B7H2MN" ∈ t.target.2 .cloudPlane)
        ∧ ∀ t ∈ tr, ListsUnion t.target := by
  intro tr
  have hlisted : tr.any (fun t => t.target.1.codes = ["B7H2MN"]
      ∧ "B7H2MN" ∈ t.target.2 .cloudPlane) = true := by decide
  have hlossless : tr.all (fun t =>
      match t.action.change with
      | some (plane, change) => Presence.Lossless t.source.1.peerCode t.source.2 plane change
      | none => true) = true := by decide
  obtain ⟨q, h⟩ := Machine.observed_run_trace presence (M := machine (fun _ => none) "A3F9KQ") rfl
    (fun _ _ _ => id) bobOnBothPlanes
  constructor
  . obtain ⟨t, ht, hlisted⟩ := List.any_eq_true.mp hlisted
    exact ⟨t, ht, of_decide_eq_true hlisted⟩
  . apply (lists_union_iff _ _ h).mpr
    intro t ht plane change hchange
    have := List.all_eq_true.mp hlossless t ht
    rw [hchange] at this
    exact of_decide_eq_true this

theorem left_on_one_plane_is_lost
    : ∃ tr q, ((machine (fun _ => none) "A3F9KQ").observed presence).Run tr q
        ∧ ∃ t ∈ tr, "B7H2MN" ∈ t.target.2 .cloudPlane ∧ t.target.1.codes = []
          ∧ ¬ ListsUnion t.target := by
  obtain ⟨tr, q, h, t, ht, hlost⟩ := Machine.exists_observed_transition presence
    (M := machine (fun _ => none) "A3F9KQ") rfl (fun _ _ _ => id)
    (bobOnBothPlanes ++ [.event (.peerLeft "B7H2MN" .localPlane)])
    (P := fun t => "B7H2MN" ∈ t.target.2 .cloudPlane ∧ t.target.1.codes = []
      ∧ t.target.1.peerCode = "A3F9KQ")
    (by decide)
  obtain ⟨hpresent, hcodes, hown⟩ := of_decide_eq_true hlost
  refine ⟨tr, q, h, t, ht, hpresent, hcodes, ?_⟩
  rintro ⟨-, hunion⟩
  have := (hunion "B7H2MN").mpr ⟨by simp [hown], .cloudPlane, hpresent⟩
  simp [hcodes] at this

/-! ### The planes that are up -/

def Action.status : Action → Option (Plane × Bool)
  | .event (.connected plane) => some (plane, true)
  | .event (.disconnected _ plane) => some (plane, false)
  | _ => none

/--
Whether the last event of each plane, among `connected` and `disconnected`, was `connected`.
-/
def planesUp : Observer BoltSignaling Action (Plane → Bool) where
  start _ := false
  next up _ action _ :=
    match action.status with
    | some (plane, isUp) => fun other => if other = plane then isUp else up other
    | none => up

def ReportsPlanes (p : BoltSignaling × (Plane → Bool)) : Prop :=
  p.1.isConnected = 1 ↔ ∃ plane, p.2 plane = true

def LeavesPlaneUp (t : Transition (BoltSignaling × (Plane → Bool)) Action) : Prop :=
  ∀ plane, t.action.status = some (plane, false) → t.source.2 plane = true →
    ∃ other, other ≠ plane ∧ t.source.2 other = true

theorem isConnected_iff (s : BoltSignaling) : s.isConnected = 1 ↔ s.connected = true := by
  unfold isConnected
  cases s.connected <;> decide

theorem mergePeer_connected (s : BoltSignaling) (peer : PeerInfo) :
    (s.mergePeer peer).connected = s.connected := by
  unfold mergePeer
  split <;> rfl

theorem mergePeers_connected (list : List PeerInfo) (s : BoltSignaling) :
    (list.foldl mergePeer s).connected = s.connected := by
  induction list generalizing s with
  | nil => rfl
  | cons peer list ih => rw [List.foldl_cons, ih, mergePeer_connected]

theorem next_connected_of_up {action : Action} {plane : Plane} (h : action.status = some (plane, true))
    (toJson : Json → Option String) (s : BoltSignaling) :
    (s.next toJson action).connected = true := by
  cases action with
  | event event =>
    cases event <;> simp [Action.status] at h
    rfl
  | _ => simp [Action.status] at h

theorem next_connected_of_not_up {action : Action} (h : ∀ plane, action.status ≠ some (plane, true))
    (toJson : Json → Option String) (s : BoltSignaling) :
    (s.next toJson action).connected = s.connected := by
  cases action with
  | event event =>
    cases event with
    | peerList list => exact mergePeers_connected list s
    | peerJoined peer =>
      simp only [next, callback]
      split
      . exact mergePeer_connected s peer
      . rfl
    | connected plane => exact absurd rfl (h plane)
    | signal =>
      simp only [next, callback]
      split <;> rfl
    | _ => rfl
  | drainEvents => rfl
  | drainSignals => rfl

theorem exists_up_iff_other_up {up : Plane → Bool} {plane : Plane}
    : ((∃ other, up other = true) ↔ ∃ other, other ≠ plane ∧ up other = true)
        ↔
      (up plane = true → ∃ other, other ≠ plane ∧ up other = true) := by
  constructor
  . intro h hup
    exact h.mp ⟨plane, hup⟩
  . intro h
    constructor
    . rintro ⟨other, hup⟩
      by_cases hother : other = plane
      . subst hother
        exact h hup
      . exact ⟨other, hother, hup⟩
    . rintro ⟨other, -, hup⟩
      exact ⟨other, hup⟩

theorem reportsPlanes_next_iff {p : BoltSignaling × (Plane → Bool)} (hp : ReportsPlanes p)
    (toJson : Json → Option String) (action : Action)
    : ReportsPlanes (p.1.next toJson action, planesUp.next p.2 p.1 action (p.1.next toJson action))
        ↔
      ∀ plane, action.status = some (plane, false) → p.2 plane = true →
        ∃ other, other ≠ plane ∧ p.2 other = true := by
  unfold ReportsPlanes at hp ⊢
  rw [isConnected_iff] at hp ⊢
  simp only [planesUp]
  cases hstatus : action.status with
  | none =>
    rw [next_connected_of_not_up (by simp [hstatus])]
    exact iff_of_true hp (by simp)
  | some status =>
    obtain ⟨plane, isUp⟩ := status
    cases isUp with
    | true =>
      rw [next_connected_of_up hstatus]
      refine iff_of_true (iff_of_true rfl ⟨plane, by simp⟩) ?_
      simp
    | false =>
      -- the flag stays as it was, and what is left up is up on another plane
      rw [next_connected_of_not_up (by simp [hstatus]), hp]
      have hleft : (∃ other, (if other = plane then false else p.2 other) = true)
          ↔ ∃ other, other ≠ plane ∧ p.2 other = true := by
        refine exists_congr fun other => ?_
        split <;> simp_all
      rw [hleft, exists_up_iff_other_up]
      simp

theorem reports_planes_iff (toJson : Json → Option String) (peerCode : String)
    {tr : List (Transition (BoltSignaling × (Plane → Bool)) Action)}
    {q : BoltSignaling × (Plane → Bool)}
    (h : ((machine toJson peerCode).observed planesUp).Run tr q)
    : (∀ t ∈ tr, ReportsPlanes t.target)
        ↔
      ∀ t ∈ tr, LeavesPlaneUp t := by
  refine Machine.observed_total_forall_iff ?_ ?_ h
  . simp [ReportsPlanes, isConnected, start, planesUp]
  . intro p action hp
    exact reportsPlanes_next_iff hp toJson action

def cloudComesAndGoes : List Action :=
  [.event (.connected .localPlane), .event (.connected .cloudPlane),
    .event (.disconnected "timeout" .cloudPlane)]

theorem online_while_local_plane_is_up
    : let tr := Machine.trace (Machine.observedFun planesUp (fun s a => some (s.next (fun _ => none) a)))
        (start "A3F9KQ", planesUp.start) cloudComesAndGoes
      (∃ t ∈ tr, t.source.2 .cloudPlane = true ∧ t.target.2 .cloudPlane = false)
        ∧ ∀ t ∈ tr, ReportsPlanes t.target := by
  intro tr
  have hgoes : tr.any (fun t => t.source.2 .cloudPlane = true ∧ t.target.2 .cloudPlane = false)
      = true := by decide
  have hleaves : tr.all (fun t =>
      match t.action.status with
      | none | some (_, true) => true
      | some (plane, false) => ∃ other, other ≠ plane ∧ t.source.2 other = true) = true := by decide
  obtain ⟨q, h⟩ := Machine.observed_run_trace planesUp (M := machine (fun _ => none) "A3F9KQ") rfl
    (fun _ _ _ => id) cloudComesAndGoes
  constructor
  . obtain ⟨t, ht, hgoes⟩ := List.any_eq_true.mp hgoes
    exact ⟨t, ht, of_decide_eq_true hgoes⟩
  . apply (reports_planes_iff _ _ h).mpr
    intro t ht plane hdown _
    have := List.all_eq_true.mp hleaves t ht
    rw [hdown] at this
    exact of_decide_eq_true this

theorem online_with_both_planes_down
    : ∃ tr q, ((machine (fun _ => none) "A3F9KQ").observed planesUp).Run tr q
        ∧ ∃ t ∈ tr, (∀ plane, t.target.2 plane = false) ∧ t.target.1.isConnected = 1
          ∧ ¬ ReportsPlanes t.target := by
  obtain ⟨tr, q, h, t, ht, hdown⟩ := Machine.exists_observed_transition planesUp
    (M := machine (fun _ => none) "A3F9KQ") rfl (fun _ _ _ => id)
    (cloudComesAndGoes ++ [.event (.disconnected "timeout" .localPlane)])
    (P := fun t => (∀ plane, t.target.2 plane = false) ∧ t.target.1.isConnected = 1) (by decide)
  obtain ⟨hdown, honline⟩ := of_decide_eq_true hdown
  refine ⟨tr, q, h, t, ht, hdown, honline, ?_⟩
  intro hreports
  obtain ⟨plane, hup⟩ := hreports.mp honline
  simp [hdown plane] at hup

end BoltSignaling

end Bridge

end LocalBolt
