import LocalBolt.Bridge.Impl.Memory
import Mathlib.Algebra.Order.Group.Multiset
import Mathlib.Tactic.Abel

/-!
This module contains what the C functions of the signaling bridge do to the memory: the cells that they
allocate, read and free.
-/

namespace LocalBolt

namespace Bridge

namespace Memory

variable {m m' : Memory} {cells cs : Multiset (Nat × Cell)}

/-! ### Strings -/

/--
The cells of a pointer to a text that may be null.
-/
inductive TextAt : Option Nat → Option String → Multiset (Nat × Cell) → Prop where
  | null : TextAt none none 0
  | string (ptr : Nat) (text : String) : TextAt (some ptr) (some text) {(ptr, .string text)}

theorem intoRawString_holds {text : Option String} {ptr : Option Nat} (h : m.Holds cells)
    (hnew : intoRawString m text = (ptr, m')) : ∃ cs, TextAt ptr text cs ∧ m'.Holds (cs + cells) := by
  cases text with
  | none =>
    obtain ⟨rfl, rfl⟩ := Prod.mk.inj hnew
    exact ⟨0, .null, by rwa [zero_add]⟩
  | some text =>
    obtain ⟨rfl, rfl⟩ := Prod.mk.inj hnew
    exact ⟨_, .string m.next text, h.intoRaw _⟩

theorem TextAt.read {text : Option String} {ptr : Option Nat} (ht : TextAt ptr text cs) (h : m.Holds cells)
    (hsub : ∀ cell ∈ cs, cell ∈ cells) : readString m ptr = some text := by
  cases ht with
  | null => rfl
  | string ptr text =>
    have hderef := h.deref (hsub _ (Multiset.mem_singleton_self _))
    simp [readString, hderef]

theorem TextAt.free {text : Option String} {ptr : Option Nat} (ht : TextAt ptr text cs)
    (h : m.Holds (cs + cells)) : ∃ m', boltFreeString m ptr = some m' ∧ m'.Holds cells := by
  cases ht with
  | null => exact ⟨m, rfl, by rwa [zero_add] at h⟩
  | string ptr text =>
    obtain ⟨m', hfrom, h'⟩ := h.fromRaw
    exact ⟨m', by simp [boltFreeString, hfrom], h'⟩

/-! ### Peers -/

/--
The cells of a peer: its own, and those of its texts.
-/
inductive PeerAt : Nat → BoltPeer → Multiset (Nat × Cell) → Prop where
  | peer {p : RawPeer} {peer : BoltPeer} {code name type url hash : Multiset (Nat × Cell)} (ptr : Nat) :
      TextAt p.peerCode peer.peerCode code → TextAt p.deviceName peer.deviceName name →
      TextAt p.deviceType peer.deviceType type → TextAt p.wtUrl peer.wtUrl url →
      TextAt p.wtCertHash peer.wtCertHash hash →
      PeerAt ptr peer ({(ptr, .peer p)} + (code + (name + (type + (url + hash)))))

theorem newPeer_holds {peer : BoltPeer} {ptr : Nat} (h : m.Holds cells) (hnew : newPeer m peer = (ptr, m'))
    : ∃ cs, PeerAt ptr peer cs ∧ m'.Holds (cs + cells) := by
  rcases hu : intoRawString m peer.wtUrl with ⟨wtUrl, m1⟩
  rcases hh : intoRawString m1 peer.wtCertHash with ⟨wtCertHash, m2⟩
  rcases hc : intoRawString m2 peer.peerCode with ⟨peerCode, m3⟩
  rcases hn : intoRawString m3 peer.deviceName with ⟨deviceName, m4⟩
  rcases ht : intoRawString m4 peer.deviceType with ⟨deviceType, m5⟩
  simp only [newPeer, hu, hh, hc, hn, ht] at hnew
  obtain ⟨rfl, rfl⟩ := Prod.mk.inj hnew
  obtain ⟨url, hurl, h⟩ := intoRawString_holds h hu
  obtain ⟨hash, hhash, h⟩ := intoRawString_holds h hh
  obtain ⟨code, hcode, h⟩ := intoRawString_holds h hc
  obtain ⟨name, hname, h⟩ := intoRawString_holds h hn
  obtain ⟨type, htype, h⟩ := intoRawString_holds h ht
  have hcells := h.intoRaw (.peer { peerCode, deviceName, deviceType, wtUrl, wtCertHash })
  refine ⟨_, .peer (p := { peerCode, deviceName, deviceType, wtUrl, wtCertHash }) m5.next hcode hname htype hurl
    hhash, ?_⟩
  have hsum : ∀ own : Multiset (Nat × Cell),
      own + (code + (name + (type + (url + hash)))) + cells
        = own + (type + (name + (code + (hash + (url + cells))))) := by
    intro own
    abel
  rw [hsum]
  exact hcells

theorem PeerAt.read {ptr : Nat} {peer : BoltPeer} (hp : PeerAt ptr peer cs) (h : m.Holds cells)
    (hsub : ∀ cell ∈ cs, cell ∈ cells) : readPeer m ptr = some peer := by
  cases hp with
  | @peer p _ code name type url hash _ hcode hname htype hurl hhash =>
    have hderef := h.deref (hsub (ptr, .peer p) (by simp))
    simp only [Multiset.mem_add, or_imp, forall_and] at hsub
    obtain ⟨-, hcodes, hnames, htypes, hurls, hhashes⟩ := hsub
    have hcode := hcode.read h hcodes
    have hname := hname.read h hnames
    have htype := htype.read h htypes
    have hurl := hurl.read h hurls
    have hhash := hhash.read h hhashes
    simp [readPeer, hderef, hcode, hname, htype, hurl, hhash]

theorem PeerAt.free {ptr : Nat} {peer : BoltPeer} (hp : PeerAt ptr peer cs) (h : m.Holds (cs + cells))
    : ∃ m', boltPeerFree m (some ptr) = some m' ∧ m'.Holds cells := by
  cases hp with
  | peer _ hcode hname htype hurl hhash =>
    simp only [add_assoc] at h
    obtain ⟨m0, hfrom, h⟩ := h.fromRaw
    obtain ⟨m1, hfree1, h⟩ := hcode.free h
    obtain ⟨m2, hfree2, h⟩ := hname.free h
    obtain ⟨m3, hfree3, h⟩ := htype.free h
    obtain ⟨m4, hfree4, h⟩ := hurl.free h
    obtain ⟨m5, hfree5, h⟩ := hhash.free h
    refine ⟨m5, ?_, h⟩
    simp [boltPeerFree, hfrom, hfree1, hfree2, hfree3, hfree4, hfree5]

/-! ### Handles -/

variable {s : BoltSignaling} {handle : Nat}

theorem signaling_of_holds (h : m.Holds ({(handle, .signaling s)} + cells)) : signaling m handle = some s := by
  have hderef := h.deref (Multiset.mem_add.mpr (.inl (Multiset.mem_singleton_self _)))
  simp [signaling, hderef]

theorem callback_holds (toJson : Json → Option String) (h : m.Holds ({(handle, .signaling s)} + cells))
    (event : DiscoveryEvent)
    : ∃ m', callback toJson m handle event = some m'
        ∧ m'.Holds ({(handle, .signaling (s.callback toJson event))} + cells) := by
  obtain ⟨m', hwrite, h'⟩ := h.write (.signaling (s.callback toJson event))
  exact ⟨m', by simp [callback, signaling_of_holds h, hwrite], h'⟩

theorem drainEvents_holds (h : m.Holds ({(handle, .signaling s)} + cells))
    : ∃ m', boltSignalingDrainEvents m (some handle) = some (s.drainEvents.1, m')
        ∧ m'.Holds ({(handle, .signaling s.drainEvents.2)} + cells) := by
  obtain ⟨m', hwrite, h'⟩ := h.write (.signaling s.drainEvents.2)
  exact ⟨m', by simp [boltSignalingDrainEvents, signaling_of_holds h, hwrite], h'⟩

theorem drainSignals_holds (h : m.Holds ({(handle, .signaling s)} + cells))
    : ∃ ptr m' cs, boltSignalingDrainSignals m (some handle) = some (ptr, m')
        ∧ TextAt ptr s.drainSignals.1 cs
        ∧ m'.Holds ({(handle, .signaling s.drainSignals.2)} + (cs + cells)) := by
  obtain ⟨m1, hwrite, h1⟩ := h.write (.signaling s.drainSignals.2)
  rcases hnew : intoRawString m1 s.drainSignals.1 with ⟨ptr, m2⟩
  obtain ⟨cs, htext, h2⟩ := intoRawString_holds h1 hnew
  refine ⟨ptr, m2, cs, ?_, htext, ?_⟩
  . simp [boltSignalingDrainSignals, signaling_of_holds h, hwrite, hnew]
  . rw [add_left_comm] at h2
    exact h2

theorem getPeer_holds (h : m.Holds ({(handle, .signaling s)} + cells)) (index : UInt32)
    : (s.getPeer index = none ∧ boltSignalingGetPeer m (some handle) index = some (none, m))
        ∨ ∃ peer ptr m' cs, s.getPeer index = some peer
          ∧ boltSignalingGetPeer m (some handle) index = some (some ptr, m') ∧ PeerAt ptr peer cs
          ∧ m'.Holds ({(handle, .signaling s)} + (cs + cells)) := by
  cases hpeer : s.getPeer index with
  | none => exact .inl ⟨rfl, by simp [boltSignalingGetPeer, signaling_of_holds h, hpeer]⟩
  | some peer =>
    rcases hnew : newPeer m peer with ⟨ptr, m'⟩
    obtain ⟨cs, hpeerAt, h'⟩ := newPeer_holds h hnew
    refine .inr ⟨peer, ptr, m', cs, rfl, ?_, hpeerAt, ?_⟩
    . simp [boltSignalingGetPeer, signaling_of_holds h, hpeer, hnew]
    . rw [add_left_comm] at h'
      exact h'

theorem stop_holds (h : m.Holds ({(handle, .signaling s)} + cells))
    : ∃ m', boltSignalingStop m (some handle) = some m' ∧ m'.Holds cells := by
  obtain ⟨m', hfrom, h'⟩ := h.fromRaw
  exact ⟨m', by simp [boltSignalingStop, hfrom], h'⟩

end Memory

end Bridge

end LocalBolt
