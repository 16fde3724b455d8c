import LocalBolt.App.Impl.SignalingHost
import LocalBolt.Bridge.Lemmas.Memory
import LocalBolt.Machine.Observer

/-!
This module contains that the signaling manager frees what its polls are given, that it uses no pointer that
is not good, and that what it reads through the pointers is what the bridge had when it was asked.
-/

namespace LocalBolt

namespace SignalingHost

open Bridge (BoltPeer BoltSignaling Cell DiscoveryEvent Memory)

/--
The peer that the bridge lists at the index the poll asks for, at the moment of that call.
-/
def expected : Observer SignalingHost Action (Option BoltPeer) where
  start := none
  next peer s action _ :=
    match action, s.polling with
    | .proceed, some ⟨handle, .peers _ index _⟩ => (Memory.signaling s.memory handle).bind (·.getPeer index)
    | _, _ => peer

/--
The cells that a poll has been given and has not freed yet.
-/
def Stage.Holds (peer : Option BoltPeer) (cs : Multiset (Nat × Cell)) : Stage → Prop
  | .signals ptr => ∃ text, Memory.TextAt (some ptr) (some text) cs
  | .peer _ _ _ ptr => ∃ p, peer = some p ∧ Memory.PeerAt ptr p cs
  | _ => cs = 0

/--
Besides the handle, only the poll that is running holds any memory.
-/
inductive Sound (s : SignalingHost) (peer : Option BoltPeer) : Prop where
  | stopped : s.handle = none → s.pollTimer = false → s.polling = none → s.memory.Holds 0 → Sound s peer
  | resting {h : Nat} {sig : BoltSignaling} :
      s.handle = some h → s.pollTimer = true → s.polling = none →
      s.memory.Holds ({(h, .signaling sig)} + 0) → Sound s peer
  | polling {h : Nat} {stage : Stage} {sig : BoltSignaling} {cs : Multiset (Nat × Cell)} :
      s.handle = some h → s.pollTimer = true → s.polling = some ⟨h, stage⟩ → stage.Holds peer cs →
      s.memory.Holds ({(h, .signaling sig)} + cs) → Sound s peer

theorem sound_init (peerCode : String) : (init peerCode).Sound none :=
  .stopped rfl rfl rfl Boxes.holds_empty

variable {s s' : SignalingHost} {peer : Option BoltPeer} {h : Nat} {sig : BoltSignaling}
  {cs : Multiset (Nat × Cell)} {toJson : Json → Option String} {fromStr : String → Option Json}

/-! ### The stages of a poll -/

/--
The calls that only look at the bridge, or give back what it has been asked for.
-/
theorem proceed_sound {stage : Stage} (hhandle : s.handle = some h) (htimer : s.pollTimer = true)
    (hother : ∀ count index updated, stage ≠ .peers count index updated) (hstage : stage.Holds peer cs)
    (hmemory : s.memory.Holds ({(h, .signaling sig)} + cs))
    : ∃ s', s.proceed h stage = some s' ∧ s'.Sound peer := by
  cases stage with
  | drainEvents =>
    obtain ⟨m', hdrain, hmemory'⟩ := Memory.drainEvents_holds hmemory
    refine ⟨{ s with memory := m', polling := some ⟨h, .drainSignals⟩ }, ?_, ?_⟩
    . simp [proceed, hdrain]
    . exact .polling hhandle htimer rfl hstage hmemory'
  | drainSignals =>
    obtain rfl : cs = 0 := hstage
    obtain ⟨ptr, m', cs', hdrain, htext, hmemory'⟩ := Memory.drainSignals_holds hmemory
    rw [add_zero] at hmemory'
    cases ptr with
    | none =>
      refine ⟨{ s with memory := m', polling := some ⟨h, .count⟩ }, ?_, ?_⟩
      . simp [proceed, hdrain]
      . cases hjoined : sig.drainSignals.1 with
        | none =>
          rw [hjoined] at htext
          cases htext
          exact .polling hhandle htimer rfl (show Stage.count.Holds peer 0 from rfl) hmemory'
        | some text =>
          rw [hjoined] at htext
          cases htext
    | some ptr =>
      refine ⟨{ s with memory := m', polling := some ⟨h, .signals ptr⟩ }, ?_, ?_⟩
      . simp [proceed, hdrain]
      . cases hjoined : sig.drainSignals.1 with
        | none =>
          rw [hjoined] at htext
          cases htext
        | some text =>
          rw [hjoined] at htext
          exact .polling hhandle htimer rfl ⟨text, htext⟩ hmemory'
  | signals ptr =>
    obtain ⟨text, htext⟩ := hstage
    have hread := htext.read hmemory fun cell hcell => Multiset.mem_add.mpr (.inr hcell)
    rw [add_comm] at hmemory
    obtain ⟨m', hfree, hmemory'⟩ := htext.free hmemory
    refine ⟨{ s with memory := m', received := s.received ++ [text], polling := some ⟨h, .count⟩ }, ?_, ?_⟩
    . simp [proceed, hread, hfree]
    . rw [← add_zero {(h, Cell.signaling sig)}] at hmemory'
      exact .polling hhandle htimer rfl (show Stage.count.Holds peer 0 from rfl) hmemory'
  | count =>
    refine ⟨{ s with polling := some ⟨h, .peers sig.peerCount 0 []⟩ }, ?_, ?_⟩
    . simp [proceed, Memory.boltSignalingPeerCount, Memory.signaling_of_holds hmemory]
    . exact .polling hhandle htimer rfl (show (Stage.peers _ _ _).Holds peer cs from hstage) hmemory
  | peers count index updated => exact absurd rfl (hother count index updated)
  | peer count index updated ptr =>
    obtain ⟨p, -, hpeer⟩ := hstage
    have hread := hpeer.read hmemory fun cell hcell => Multiset.mem_add.mpr (.inr hcell)
    rw [add_comm] at hmemory
    obtain ⟨m', hfree, hmemory'⟩ := hpeer.free hmemory
    refine ⟨{ s with memory := m', polling := some ⟨h, .peers count (index + 1) (updated ++ [p.discovered])⟩ },
      ?_, ?_⟩
    . simp [proceed, hread, hfree]
    . rw [← add_zero {(h, Cell.signaling sig)}] at hmemory'
      exact .polling hhandle htimer rfl (show (Stage.peers _ _ _).Holds peer 0 from rfl) hmemory'

/--
The head of the loop: a peer is got, or the list is complete.
-/
theorem proceed_peers_sound (count index : UInt32) (updated : List DiscoveredPeer)
    (hhandle : s.handle = some h) (htimer : s.pollTimer = true)
    (hmemory : s.memory.Holds ({(h, .signaling sig)} + 0))
    : ∃ s', s.proceed h (.peers count index updated) = some s' ∧ s'.Sound (sig.getPeer index) := by
  by_cases hlt : index < count
  . rcases Memory.getPeer_holds hmemory index with ⟨hpeer, hget⟩ | ⟨p, ptr, m', cs', hpeer, hget, hat, hmemory'⟩
    . refine ⟨{ s with polling := some ⟨h, .peers count (index + 1) updated⟩ }, ?_, ?_⟩
      . simp [proceed, hlt, hget]
      . exact .polling hhandle htimer rfl (show (Stage.peers _ _ _).Holds _ 0 from rfl) hmemory
    . rw [add_zero] at hmemory'
      refine ⟨{ s with memory := m', polling := some ⟨h, .peer count index updated ptr⟩ }, ?_, ?_⟩
      . simp [proceed, hlt, hget]
      . exact .polling hhandle htimer rfl ⟨p, hpeer, hat⟩ hmemory'
  . refine ⟨{ s with manager := s.manager.poll s.manager.isConnected updated, polling := none }, ?_, ?_⟩
    . simp [proceed, hlt]
    . exact .resting hhandle htimer rfl hmemory

/-! ### Steps -/

theorem Sound.start (hs : s.Sound peer) (hidle : s.polling = none) (localUrl : String)
    (cloudUrl wtUrl wtCertHash localizedName : Option String)
    : (s.start localUrl cloudUrl wtUrl wtCertHash localizedName).Sound peer := by
  cases hs with
  | stopped hhandle htimer hpolling hmemory =>
    have hnew := hmemory.intoRaw (.signaling (.start (Bridge.cStr s.manager.peerCode)))
    unfold SignalingHost.start
    rw [hhandle, if_neg (by simp)]
    exact .resting rfl rfl hpolling hnew
  | resting hhandle htimer hpolling hmemory =>
    have hsame : s.start localUrl cloudUrl wtUrl wtCertHash localizedName = s := by
      simp [SignalingHost.start, hhandle]
    rw [hsame]
    exact .resting hhandle htimer hpolling hmemory
  | polling hhandle htimer hpolling =>
    rw [hpolling] at hidle
    cases hidle

theorem Sound.stop (hs : s.Sound peer) (hidle : s.polling = none) : ∃ s', s.stop = some s' ∧ s'.Sound peer := by
  cases hs with
  | stopped hhandle htimer hpolling hmemory =>
    refine ⟨_, by rw [SignalingHost.stop, hhandle]; rfl, ?_⟩
    exact .stopped rfl rfl hpolling hmemory
  | resting hhandle htimer hpolling hmemory =>
    obtain ⟨m', hstop, hmemory'⟩ := Memory.stop_holds hmemory
    refine ⟨_, by rw [SignalingHost.stop, hhandle, hstop]; rfl, ?_⟩
    exact .stopped rfl rfl hpolling hmemory'
  | polling hhandle htimer hpolling =>
    rw [hpolling] at hidle
    cases hidle

theorem Sound.sendSignal (hs : s.Sound peer) (fromStr : String → Option Json) (toPeerCode signalType : String)
    (dataJson : Option String)
    : ∃ s', s.sendSignal fromStr toPeerCode signalType dataJson = some s' ∧ s'.Sound peer := by
  cases hs with
  | stopped hhandle htimer hpolling hmemory =>
    exact ⟨s, by simp [SignalingHost.sendSignal, hhandle], .stopped hhandle htimer hpolling hmemory⟩
  | resting hhandle htimer hpolling hmemory =>
    refine ⟨_, by
      simp only [SignalingHost.sendSignal, hhandle, Memory.boltSignalingSendSignal,
        Memory.signaling_of_holds hmemory]
      rfl, ?_⟩
    exact .resting rfl htimer hpolling hmemory
  | polling hhandle htimer hpolling hstage hmemory =>
    refine ⟨_, by
      simp only [SignalingHost.sendSignal, hhandle, Memory.boltSignalingSendSignal,
        Memory.signaling_of_holds hmemory]
      rfl, ?_⟩
    exact .polling rfl htimer hpolling hstage hmemory

theorem Sound.poll (hs : s.Sound peer) (hidle : s.polling = none) : ∃ s', s.poll = some s' ∧ s'.Sound peer := by
  cases hs with
  | stopped hhandle htimer hpolling hmemory =>
    exact ⟨s, by simp [SignalingHost.poll, hhandle], .stopped hhandle htimer hpolling hmemory⟩
  | @resting h sig hhandle htimer hpolling hmemory =>
    refine ⟨_, by
      simp only [SignalingHost.poll, hhandle, Memory.boltSignalingIsConnected,
        Memory.signaling_of_holds hmemory]
      rfl, ?_⟩
    exact .polling rfl htimer rfl (show Stage.drainEvents.Holds peer 0 from rfl) hmemory
  | polling hhandle htimer hpolling =>
    rw [hpolling] at hidle
    cases hidle

theorem Sound.event (hs : s.Sound peer) (toJson : Json → Option String) (event : DiscoveryEvent)
    (hhandle : s.handle = some h)
    : ∃ m', Memory.callback toJson s.memory h event = some m' ∧ { s with memory := m' }.Sound peer := by
  cases hs with
  | stopped hnone =>
    rw [hnone] at hhandle
    cases hhandle
  | resting hsome htimer hpolling hmemory =>
    obtain rfl := Option.some.inj (hsome.symm.trans hhandle)
    obtain ⟨m', hcallback, hmemory'⟩ := Memory.callback_holds toJson hmemory event
    exact ⟨m', hcallback, .resting hsome htimer hpolling hmemory'⟩
  | polling hsome htimer hpolling hstage hmemory =>
    obtain rfl := Option.some.inj (hsome.symm.trans hhandle)
    obtain ⟨m', hcallback, hmemory'⟩ := Memory.callback_holds toJson hmemory event
    exact ⟨m', hcallback, .polling hsome htimer hpolling hstage hmemory'⟩

theorem Sound.proceed (hs : s.Sound peer) {p : Poll} (hpolling : s.polling = some p)
    : ∃ s', s.proceed p.handle p.stage = some s' ∧ s'.Sound (expected.next peer s .proceed s') := by
  cases hs with
  | stopped hhandle htimer hnone | resting hhandle htimer hnone =>
    rw [hnone] at hpolling
    cases hpolling
  | @polling h stage sig cs hhandle htimer hsome hstage hmemory =>
    obtain rfl := Option.some.inj (hsome.symm.trans hpolling)
    by_cases hpeers : ∃ count index updated, stage = .peers count index updated
    . obtain ⟨count, index, updated, rfl⟩ := hpeers
      obtain rfl : cs = 0 := hstage
      obtain ⟨s', hs', hsound⟩ := proceed_peers_sound count index updated hhandle htimer hmemory
      refine ⟨s', hs', ?_⟩
      have hexpected : expected.next peer s .proceed s' = sig.getPeer index := by
        simp [expected, hsome, Memory.signaling_of_holds hmemory]
      rwa [hexpected]
    . have hother : ∀ count index updated, stage ≠ .peers count index updated := by
        intro count index updated heq
        exact hpeers ⟨count, index, updated, heq⟩
      obtain ⟨s', hs', hsound⟩ := proceed_sound hhandle htimer hother hstage hmemory
      refine ⟨s', hs', ?_⟩
      have hexpected : expected.next peer s .proceed s' = peer := by
        cases stage <;> simp_all [expected]
      rwa [hexpected]

/--
No action is performed with a pointer that is not good.
-/
theorem Sound.perform (hs : s.Sound peer) (toJson : Json → Option String) (fromStr : String → Option Json)
    {action : Action} (hpossible : s.possible action = true)
    : ∃ s', s.perform toJson fromStr action = some s' ∧ s'.Sound (expected.next peer s action s') := by
  cases action with
  | start localUrl cloudUrl wtUrl wtCertHash localizedName =>
    exact ⟨_, rfl, hs.start (Option.isNone_iff_eq_none.mp hpossible) ..⟩
  | stop => exact hs.stop (Option.isNone_iff_eq_none.mp hpossible)
  | sendSignal toPeerCode signalType dataJson => exact hs.sendSignal fromStr toPeerCode signalType dataJson
  | poll =>
    simp only [possible, Bool.and_eq_true] at hpossible
    exact hs.poll (Option.isNone_iff_eq_none.mp hpossible.1)
  | proceed =>
    obtain ⟨p, hpolling⟩ := Option.isSome_iff_exists.mp hpossible
    obtain ⟨s', hs', hsound⟩ := hs.proceed hpolling
    exact ⟨s', by simp only [SignalingHost.perform, hpolling, hs'], hsound⟩
  | event event =>
    obtain ⟨h, hhandle⟩ := Option.isSome_iff_exists.mp hpossible
    obtain ⟨m', hcallback, hsound⟩ := hs.event toJson event hhandle
    exact ⟨_, by simp only [SignalingHost.perform, hhandle, hcallback, Option.map_some], hsound⟩

/-! ### Runs -/

/--
A poll is running that has been given a pointer it has to free.
-/
def holdsMemory (s : SignalingHost) : Bool :=
  match s.polling with
  | some ⟨_, .signals _⟩ | some ⟨_, .peer _ _ _ _⟩ => true
  | _ => false

theorem live_iff_of_holds (hhandle : s.handle = some h) (hmemory : s.memory.Holds ({(h, .signaling sig)} + 0))
    (ptr : Nat) : s.memory.Live ptr ↔ s.handle = some ptr := by
  rw [hmemory.live_iff, hhandle]
  simp [eq_comm]

theorem Sound.live_iff (hs : s.Sound peer) (hnot : s.holdsMemory = false) (ptr : Nat) :
    s.memory.Live ptr ↔ s.handle = some ptr := by
  cases hs with
  | stopped hhandle htimer hpolling hmemory =>
    rw [hmemory.live_iff, hhandle]
    simp
  | resting hhandle htimer hpolling hmemory => exact live_iff_of_holds hhandle hmemory ptr
  | @polling h stage sig cs hhandle htimer hpolling hstage hmemory =>
    have hnone : cs = 0 := by
      unfold holdsMemory at hnot
      rw [hpolling] at hnot
      cases stage with
      | signals | peer => cases hnot
      | _ => exact hstage
    subst hnone
    exact live_iff_of_holds hhandle hmemory ptr

theorem Sound.readPeer (hs : s.Sound peer) {count index : UInt32} {updated : List DiscoveredPeer} {ptr : Nat}
    (hpolling : s.polling = some ⟨h, .peer count index updated ptr⟩)
    : peer.isSome = true ∧ Memory.readPeer s.memory ptr = peer := by
  cases hs with
  | stopped _ _ hnone | resting _ _ hnone =>
    rw [hnone] at hpolling
    cases hpolling
  | polling hhandle htimer hsome hstage hmemory =>
    obtain ⟨rfl, rfl⟩ := Poll.mk.inj (Option.some.inj (hsome.symm.trans hpolling))
    obtain ⟨p, rfl, hat⟩ := hstage
    exact ⟨rfl, hat.read hmemory fun cell hcell => Multiset.mem_add.mpr (.inr hcell)⟩

theorem sound {peerCode : String} {q : SignalingHost × Option BoltPeer}
    (h : ((machine toJson fromStr peerCode).observed expected).Reachable q) : q.1.Sound q.2 := by
  refine Machine.Reachable.invariant (I := fun q => q.1.Sound q.2) ?_ ?_ h
  . rintro ⟨s, peer⟩ ⟨hinit, hpeer⟩
    obtain rfl : s = init peerCode := hinit
    obtain rfl : peer = none := hpeer
    exact sound_init peerCode
  . rintro ⟨s, peer⟩ action ⟨s', peer'⟩ - hs ⟨hnext, hpeer⟩
    obtain rfl : peer' = expected.next peer s action s' := hpeer
    simp only [machine, Machine.ofFun, next] at hnext
    split at hnext
    . next hpossible =>
      obtain ⟨s'', hs'', hsound⟩ := hs.perform toJson fromStr hpossible
      rw [hnext, Option.some.injEq] at hs''
      exact hs'' ▸ hsound
    . cases hnext

/--
Whatever order the manager is started, stopped and polled in, whatever the rendezvous server makes the bridge
list, and however discovery events come between the calls of a poll: no call is made with a pointer that is
not good; all that is allocated is the handle, but for what the poll that is running is about to free; and
the peer it reads is the one the bridge listed when it was asked.
-/
theorem memory_owned {peerCode : String} {q : SignalingHost × Option BoltPeer}
    (h : ((machine toJson fromStr peerCode).observed expected).Reachable q)
    : (∀ action, q.1.possible action = true → (q.1.perform toJson fromStr action).isSome = true)
        ∧ (q.1.holdsMemory = false → ∀ ptr, q.1.memory.Live ptr ↔ q.1.handle = some ptr)
        ∧ ∀ handle count index updated ptr,
            q.1.polling = some ⟨handle, .peer count index updated ptr⟩ →
            q.2.isSome = true ∧ Memory.readPeer q.1.memory ptr = q.2 := by
  have hs := sound h
  refine ⟨?_, fun hnot => hs.live_iff hnot, ?_⟩
  . intro action hpossible
    obtain ⟨s', hs', -⟩ := hs.perform toJson fromStr hpossible
    rw [hs']
    rfl
  . intro handle count index updated ptr hpolling
    exact hs.readPeer hpolling

/--
A peer with a NUL in its name joins, and leaves while the poll holds what it was given for it.
-/
def leavesDuringPoll : List Action :=
  [.start "ws://127.0.0.1:3001" none none none none,
    .event (.peerJoined ⟨"B7H2MN", "Bob\x00", "laptop", none, none⟩ .cloudPlane), .poll, .proceed, .proceed,
    .proceed, .proceed, .event (.peerLeft "B7H2MN" .cloudPlane)]

def isBob (peer : Option BoltPeer) : Bool :=
  peer = some ⟨some "B7H2MN", none, some "laptop", none, none⟩

theorem memory_owned_while_peer_leaves
    : ∃ q, ((machine (fun _ => some "") (fun _ => none) "A3F9KQ").observed expected).Reachable q
        ∧ q.1.holdsMemory = true ∧ isBob q.2 = true
        ∧ ∀ action, q.1.possible action = true →
            (q.1.perform (fun _ => some "") (fun _ => none) action).isSome = true := by
  have hexec : (Machine.exec (Machine.observedFun expected (next (fun _ => some "") fun _ => none))
      (init "A3F9KQ", expected.start) leavesDuringPoll).any
      (fun q => q.1.holdsMemory && isBob q.2) = true := by decide
  obtain ⟨q, hq, hstate⟩ := Machine.exists_observed_of_exec hexec
  rw [Bool.and_eq_true] at hstate
  exact ⟨q, hq, hstate.1, hstate.2, (memory_owned hq).1⟩

end SignalingHost

end LocalBolt
