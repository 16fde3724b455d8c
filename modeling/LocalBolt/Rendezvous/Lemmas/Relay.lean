import LocalBolt.Rendezvous.Lemmas.NoGhosts
import LocalBolt.Rendezvous.Lemmas.PeerCode

/-!
This module contains the way of one signal: which peer it is for, and everything that the server does
with it.
-/

namespace LocalBolt

namespace Rendezvous

namespace RoomManager

/-! ### The manual lookup -/

/--
What the manual lookup makes of the peers that have the code.
-/
def resolve : List PeerInfo → ManualPeerLookup
  | [] => .notFound
  | [p] => .found p.sender
  | _ => .ambiguous

theorem lookupManual_some (code : String) (sender : PeerSender) (peers : List PeerInfo)
    : lookupManual code (some sender) peers
        =
      if peers.filter (·.peerCode = code) = [] then .found sender else .ambiguous := by
  induction peers with
  | nil => rfl
  | cons p peers ih =>
    by_cases hcode : p.peerCode = code
    . simp [lookupManual, hcode]
    . simp only [lookupManual, if_neg hcode, ih]
      rw [List.filter_cons_of_neg (by simpa using hcode)]

theorem lookupManual_none (code : String) (peers : List PeerInfo)
    : lookupManual code none peers = resolve (peers.filter (·.peerCode = code)) := by
  induction peers with
  | nil => rfl
  | cons p peers ih =>
    by_cases hcode : p.peerCode = code
    . rw [List.filter_cons_of_pos (by simpa using hcode)]
      simp only [lookupManual, if_pos hcode, Option.isSome_none, Bool.false_eq_true, if_false,
        lookupManual_some]
      cases peers.filter (·.peerCode = code) with
      | nil => rfl
      | cons => rfl
    . simp only [lookupManual, if_neg hcode, ih]
      rw [List.filter_cons_of_neg (by simpa using hcode)]

theorem resolve_perm {peers peers' : List PeerInfo} (h : peers.Perm peers') :
    resolve peers = resolve peers' := by
  match peers, peers', h with
  | [], peers', h => rw [h.nil_eq]
  | [p], peers', h => rw [h.singleton_eq]
  | p :: q :: peers, peers', h =>
    have hlength := h.length_eq
    match peers', hlength with
    | _ :: _ :: _, _ => rfl

/--
The order in which the rooms are gone through does not matter.
-/
theorem findPeerManual_of_perm {m : RoomManager} {rooms : List ((_ : String) × List PeerInfo)}
    (h : rooms.Perm m.rooms.entries) (code : String)
    : lookupManual code none (rooms.flatMap (·.2)) = m.findPeerManual code := by
  unfold findPeerManual
  rw [lookupManual_none, lookupManual_none]
  exact resolve_perm ((h.flatMap_right _).filter _)

theorem resolve_eq_found_iff {peers : List PeerInfo} {sender : PeerSender} :
    resolve peers = .found sender ↔ ∃ p, peers = [p] ∧ p.sender = sender := by
  match peers with
  | [] => simp [resolve]
  | [p] => simp [resolve]
  | p :: q :: peers => simp [resolve]

end RoomManager

namespace Server

variable {fromStr : String → Except String ClientMessage} {s s' : Server} {conn : PeerSender}
  {h : Handler}

/-! ### The addressee -/

/--
The peer that a signal is for: the one with the code in the room of its sender or, when it was
addressed by hand, the only one with the code in all rooms.
-/
structure IsAddressee (m : RoomManager) (clientIp target : String) (manual : Bool) (p : PeerInfo) :
    Prop where
  code : p.peerCode = target
  inRoom : manual = false → p ∈ m.room clientIp
  only : manual = true → ∃ ip, p ∈ m.room ip
    ∧ ∀ ip' p', p' ∈ m.room ip' → p'.peerCode = target → ip' = ip ∧ p' = p

theorem mem_members_iff {m : RoomManager} {p : PeerInfo} :
    p ∈ members m ↔ ∃ ip, p ∈ m.room ip := by
  unfold members
  rw [List.mem_flatMap]
  constructor
  . rintro ⟨e, he, hp⟩
    rw [← room_of_mem_entries he] at hp
    exact ⟨e.1, hp⟩
  . rintro ⟨ip, hp⟩
    have hip := RoomManager.mem_rooms_of_mem_room hp
    obtain ⟨peers, hlookup⟩ := Option.isSome_iff_exists.mp (AList.lookup_isSome.mpr hip)
    refine ⟨⟨ip, peers⟩, AList.mem_lookup_iff.mp hlookup, ?_⟩
    unfold RoomManager.room at hp
    rw [hlookup] at hp
    exact hp

theorem Consistent.findPeerManual_eq_found_iff (hs : s.Consistent) {code : String}
    {sender : PeerSender}
    : s.manager.findPeerManual code = .found sender
        ↔
      ∃ p, (∃ ip, p ∈ s.manager.room ip
          ∧ ∀ ip' p', p' ∈ s.manager.room ip' → p'.peerCode = code → ip' = ip ∧ p' = p)
        ∧ p.peerCode = code ∧ p.sender = sender := by
  have hnodup : ((members s.manager).filter (·.peerCode = code)).Nodup :=
    List.Nodup.filter _ (List.Nodup.of_map _ hs.nodup_senders)
  have hmem : ∀ p, p ∈ (members s.manager).filter (·.peerCode = code)
      ↔ (∃ ip, p ∈ s.manager.room ip) ∧ p.peerCode = code := by
    intro p
    rw [List.mem_filter, mem_members_iff, decide_eq_true_eq]
  unfold RoomManager.findPeerManual
  rw [RoomManager.lookupManual_none, ← members, RoomManager.resolve_eq_found_iff]
  constructor
  . rintro ⟨p, hfilter, rfl⟩
    rw [hfilter] at hmem
    obtain ⟨⟨ip, hp⟩, hcode⟩ := (hmem p).mp (List.mem_singleton_self p)
    refine ⟨p, ⟨ip, hp, ?_⟩, hcode, rfl⟩
    intro ip' p' hp' hcode'
    obtain rfl := List.mem_singleton.mp ((hmem p').mpr ⟨⟨ip', hp'⟩, hcode'⟩)
    exact ⟨(hs.sender_inj hp' hp rfl).1, rfl⟩
  . rintro ⟨p, ⟨ip, hp, honly⟩, hcode, rfl⟩
    refine ⟨p, ?_, rfl⟩
    apply List.perm_singleton.mp
    rw [List.perm_ext_iff_of_nodup hnodup (List.nodup_singleton p)]
    intro p'
    rw [hmem, List.mem_singleton]
    constructor
    . rintro ⟨⟨ip', hp'⟩, hcode'⟩
      exact (honly ip' p' hp' hcode').2
    . rintro rfl
      exact ⟨⟨ip, hp⟩, hcode⟩

theorem Consistent.lookup_eq_found_iff (hs : s.Consistent) {clientIp target : String} {manual : Bool}
    {sender : PeerSender}
    : lookup s.manager clientIp target manual = .found sender
        ↔
      ∃ p, IsAddressee s.manager clientIp target manual p ∧ p.sender = sender := by
  cases manual with
  | true =>
    simp only [lookup, if_true, hs.findPeerManual_eq_found_iff]
    constructor
    . rintro ⟨p, honly, hcode, hsender⟩
      exact ⟨p, ⟨hcode, by simp, fun _ => honly⟩, hsender⟩
    . rintro ⟨p, hp, hsender⟩
      exact ⟨p, hp.only rfl, hp.code, hsender⟩
  | false =>
    simp only [lookup, Bool.false_eq_true, if_false]
    constructor
    . intro hfound
      cases hfind : s.manager.findPeer clientIp target with
      | none => simp [hfind] at hfound
      | some found =>
        rw [hfind] at hfound
        obtain rfl := RoomManager.ManualPeerLookup.found.inj hfound
        obtain ⟨p, hp, hsender⟩ := Option.map_eq_some_iff.mp hfind
        have hcode := List.find?_some hp
        exact ⟨p, ⟨by simpa using hcode, fun _ => List.mem_of_find?_eq_some hp, by simp⟩, hsender⟩
    . rintro ⟨p, hp, rfl⟩
      have hfind := RoomManager.findPeer_of_mem hs.wellFormed (hp.inRoom rfl)
      rw [hp.code] at hfind
      rw [hfind]

/-! ### The steps of the handler -/

/--
One message has been enqueued, and the room table and all other channels are as they were.
-/
structure Enqueues (s s' : Server) (conn : PeerSender) (message : ServerMessage) : Prop where
  manager : s'.manager = s.manager
  channels : s'.channels = Function.update s.channels conn
    { s.channels conn with messages := (s.channels conn).messages ++ [message] }

theorem deliver_one {channels : PeerSender → Channel} (hopen : (channels conn).closed = false)
    (message : ServerMessage)
    : deliver channels [(conn, message)]
        =
      Function.update channels conn
        { channels conn with messages := (channels conn).messages ++ [message] } := by
  funext c
  by_cases hc : c = conn
  . subst hc
    rw [Function.update_self]
    simp [deliver, Channel.push, hopen]
  . rw [Function.update_of_ne hc]
    exact deliver_other channels hc [message]

theorem deliver_closed {channels : PeerSender → Channel} (hclosed : (channels conn).closed = true)
    (message : ServerMessage) : deliver channels [(conn, message)] = channels := by
  funext c
  by_cases hc : c = conn
  . subst hc
    simp [deliver, Channel.push, hclosed]
  . exact deliver_other channels hc [message]

theorem next_receive_text (fromStr : String → Except String ClientMessage) {me : Identity}
    {text : String} {now : Nat} (hh : s.handlers conn = some h) (hpc : h.pc = .serving me)
    (hrate : (h.rateLimit.check now).2 = .ok ()) (hsize : text.utf8ByteSize ≤ maxMessageBytes)
    : s.next fromStr effect (.receive conn (.message (.text text)) now)
        =
      some (s.respond conn
        (Handler.answerMessage me (fromStr text) { h with rateLimit := (h.rateLimit.check now).1 })) := by
  have hadmitted : validateMessageSize text.utf8ByteSize = .ok () := by
    unfold validateMessageSize
    rw [if_neg (Nat.not_lt.mpr hsize)]
  simp [next, hh, Handler.receive, hpc, Handler.admitText, hrate, hadmitted]

theorem next_find (fromStr : String → Except String ClientMessage) {me : Identity}
    {target : String} {payload : Json} {manual : Bool} (hh : s.handlers conn = some h)
    (hpc : h.pc = .finding me target payload manual)
    : s.next fromStr effect (.step conn)
        =
      some { s with
        calls := Function.update s.calls conn none
        handlers := Function.update s.handlers conn
          (some (h.goto (.relaying me target payload (lookup s.manager h.clientIp target manual)))) } := by
  simp [next, hh, effect, atomicEffect, hpc, run, Handler.next, respond]

theorem next_relay (fromStr : String → Except String ClientMessage) {me : Identity}
    {target : String} {payload : Json} {found : RoomManager.ManualPeerLookup}
    (hh : s.handlers conn = some h) (hpc : h.pc = .relaying me target payload found)
    : s.next fromStr effect (.step conn)
        =
      s.run fromStr conn h (s.relay me payload found) := by
  simp [next, hh, effect, atomicEffect, hpc]

theorem next_relay_found (fromStr : String → Except String ClientMessage) {me : Identity}
    {target : String} {payload : Json} {sender : PeerSender} (hh : s.handlers conn = some h)
    (hpc : h.pc = .relaying me target payload (.found sender))
    (hopen : (s.channels sender).closed = false)
    : ∃ s', s.next fromStr effect (.step conn) = some s'
        ∧ s'.handlers conn = some (h.goto (.serving me))
        ∧ Enqueues s s' sender (.signal me.peerCode payload) := by
  rw [next_relay fromStr hh hpc]
  simp only [run, relay, hopen, Handler.next, hpc, Handler.relayReply, Option.map_some, respond]
  refine ⟨_, rfl, Function.update_self .., rfl, ?_⟩
  simp only [Bool.not_false, if_true, List.map_nil, deliver_nil, deliver_one hopen]

theorem relayReply_false (target : String) (found : RoomManager.ManualPeerLookup)
    : ∃ error, Handler.relayReply target found false = [.error error] := by
  cases found with
  | found sender => exact ⟨_, rfl⟩
  | notFound => exact ⟨_, rfl⟩
  | ambiguous => exact ⟨_, rfl⟩

theorem relay_missed (me : Identity) (payload : Json) {found : RoomManager.ManualPeerLookup}
    (hmissed : ∀ sender, found = .found sender → (s.channels sender).closed = true)
    : (s.relay me payload found).manager = s.manager
        ∧ deliver s.channels (s.relay me payload found).sent = s.channels
        ∧ (s.relay me payload found).input = some (.relayed false) := by
  cases found with
  | found sender =>
    have hclosed := hmissed sender rfl
    refine ⟨rfl, deliver_closed hclosed _, ?_⟩
    rw [relay, hclosed]
    rfl
  | notFound => exact ⟨rfl, deliver_nil s.channels, rfl⟩
  | ambiguous => exact ⟨rfl, deliver_nil s.channels, rfl⟩

theorem next_relay_missed (fromStr : String → Except String ClientMessage) {me : Identity}
    {target : String} {payload : Json} {found : RoomManager.ManualPeerLookup}
    (hh : s.handlers conn = some h) (hpc : h.pc = .relaying me target payload found)
    (hmissed : ∀ sender, found = .found sender → (s.channels sender).closed = true)
    (hopen : (s.channels conn).closed = false)
    : ∃ s' error, s.next fromStr effect (.step conn) = some s'
        ∧ s'.handlers conn = some (h.goto (.serving me)) ∧ Enqueues s s' conn (.error error) := by
  obtain ⟨error, hreply⟩ := relayReply_false target found
  obtain ⟨hmanager, hchannels, hinput⟩ := relay_missed me payload hmissed
  rw [next_relay fromStr hh hpc]
  simp only [run, hinput, Handler.next, hpc, hreply, hmanager, hchannels, Option.map_some, respond]
  refine ⟨_, error, rfl, Function.update_self .., rfl, ?_⟩
  simp only [List.map_singleton, deliver_one hopen]

/-! ### One signal -/

/--
What a connection does with the text of a signal: it reads it and takes its steps, with no other step
between them, until it waits for the next message.
-/
def relays (conn : PeerSender) (text : String) (now : Nat) (target : String) : List Action :=
  .receive conn (.message (.text text)) now
    :: if (validateSignalTarget target).isOk then [.step conn, .step conn] else []

def signalMessage (manual : Bool) (target : String) (payload : Json) : ClientMessage :=
  if manual then .manualSignal target payload else .signal target payload

theorem answerMessage_signal (me : Identity) (manual : Bool) (target : String) (payload : Json)
    (h : Handler)
    : Handler.answerMessage me (.ok (signalMessage manual target payload)) h
        =
      match validateSignalTarget target with
      | .error e => (h, [.error e])
      | .ok target => (h.goto (.finding me target payload manual), []) := by
  cases manual <;> rfl

/--
The signal has gone to its addressee, or there is none with an open channel and its sender is told.
-/
structure Routed (s s' : Server) (conn : PeerSender) (me : Identity) (clientIp target : String)
    (payload : Json) (manual : Bool) : Prop where
  delivered : ∀ p, IsPeerCode (withoutHyphens target) →
    IsAddressee s.manager clientIp (withoutHyphens target) manual p →
      (s.channels p.sender).closed = false → Enqueues s s' p.sender (.signal me.peerCode payload)
  refused : (∀ p, IsPeerCode (withoutHyphens target) →
    IsAddressee s.manager clientIp (withoutHyphens target) manual p →
      (s.channels p.sender).closed = true) → ∃ error, Enqueues s s' conn (.error error)
  anyOrder : ∀ rooms : List ((_ : String) × List PeerInfo), rooms.Perm s.manager.rooms.entries →
    RoomManager.lookupManual (withoutHyphens target) none (rooms.flatMap (·.2))
      = s.manager.findPeerManual (withoutHyphens target)

theorem Enqueues.trans_eq {s1 : Server} {message : ServerMessage} (h : Enqueues s1 s' conn message)
    (hmanager : s1.manager = s.manager) (hchannels : s1.channels = s.channels) :
    Enqueues s s' conn message := by
  obtain ⟨hmanager', hchannels'⟩ := h
  rw [hchannels] at hchannels'
  exact ⟨hmanager'.trans hmanager, hchannels'⟩

theorem exec_finding (fromStr : String → Except String ClientMessage) (hs : s.Consistent)
    {me : Identity} {target : String} {payload : Json} {manual : Bool} (hh : s.handlers conn = some h)
    (hpc : h.pc = .finding me target payload manual)
    (hopen : (s.channels conn).closed = false)
    : ∃ s', Machine.exec (next fromStr effect) s [.step conn, .step conn] = some s'
        ∧ s'.handlers conn = some (h.goto (.serving me))
        ∧ (∀ p, IsAddressee s.manager h.clientIp target manual p →
          (s.channels p.sender).closed = false →
            Enqueues s s' p.sender (.signal me.peerCode payload))
        ∧ ((∀ p, IsAddressee s.manager h.clientIp target manual p →
          (s.channels p.sender).closed = true) → ∃ error, Enqueues s s' conn (.error error)) := by
  have hfind := next_find fromStr hh hpc
  generalize hs1 : ({ s with
    calls := Function.update s.calls conn none
    handlers := Function.update s.handlers conn
      (some (h.goto (.relaying me target payload (lookup s.manager h.clientIp target manual)))) }
    : Server) = s1 at hfind
  have hmanager : s1.manager = s.manager := hs1 ▸ rfl
  have hchannels : s1.channels = s.channels := hs1 ▸ rfl
  have hh1 : s1.handlers conn
      = some (h.goto (.relaying me target payload (lookup s.manager h.clientIp target manual))) := by
    rw [← hs1]
    apply Function.update_self
  by_cases hfound : ∃ sender, lookup s.manager h.clientIp target manual = .found sender
      ∧ (s.channels sender).closed = false
  . obtain ⟨sender, hlookup, hsender⟩ := hfound
    rw [hlookup] at hh1
    have hopen1 : (s1.channels sender).closed = false := hchannels ▸ hsender
    obtain ⟨s', hnext, hh', henqueues⟩ := next_relay_found fromStr hh1 rfl hopen1
    refine ⟨s', ?_, hh', ?_, ?_⟩
    . simp only [Machine.exec, hfind, hnext]
    . intro p hp _
      have hlookup' := hs.lookup_eq_found_iff.mpr ⟨p, hp, rfl⟩
      rw [hlookup] at hlookup'
      obtain rfl := RoomManager.ManualPeerLookup.found.inj hlookup'
      exact henqueues.trans_eq hmanager hchannels
    . intro hclosed
      obtain ⟨p, hp, rfl⟩ := hs.lookup_eq_found_iff.mp hlookup
      rw [hclosed p hp] at hsender
      contradiction
  . have hmissed : ∀ sender, lookup s.manager h.clientIp target manual = .found sender →
        (s1.channels sender).closed = true := by
      intro sender hlookup
      rw [hchannels, ← Bool.not_eq_false]
      intro hsender
      exact hfound ⟨sender, hlookup, hsender⟩
    have hopen1 : (s1.channels conn).closed = false := hchannels ▸ hopen
    obtain ⟨s', error, hnext, hh', henqueues⟩ :=
      next_relay_missed fromStr hh1 rfl hmissed hopen1
    refine ⟨s', ?_, hh', ?_, ?_⟩
    . simp only [Machine.exec, hfind, hnext]
    . intro p hp hsender
      exact absurd ⟨p.sender, hs.lookup_eq_found_iff.mpr ⟨p, hp, rfl⟩, hsender⟩ hfound
    . intro _
      exact ⟨error, henqueues.trans_eq hmanager hchannels⟩

theorem signal_routed (hs : (machine fromStr).Reachable s) {me : Identity} {text target : String}
    {payload : Json} {manual : Bool} {now : Nat} (hh : s.handlers conn = some h)
    (hpc : h.pc = .serving me) (hopen : (s.channels conn).closed = false)
    (hsignal : fromStr text = .ok (signalMessage manual target payload))
    (hrate : (h.rateLimit.check now).2 = .ok ()) (hsize : text.utf8ByteSize ≤ maxMessageBytes)
    : ∃ s', Machine.exec (next fromStr effect) s (relays conn text now target) = some s'
        ∧ s'.handlers conn = some { h with rateLimit := (h.rateLimit.check now).1 }
        ∧ Routed s s' conn me h.clientIp target payload manual := by
  have hreceive := next_receive_text fromStr hh hpc hrate hsize
  rw [hsignal, answerMessage_signal] at hreceive
  have horder : ∀ rooms : List ((_ : String) × List PeerInfo), rooms.Perm s.manager.rooms.entries →
      RoomManager.lookupManual (withoutHyphens target) none (rooms.flatMap (·.2))
        = s.manager.findPeerManual (withoutHyphens target) := by
    intro rooms hrooms
    exact RoomManager.findPeerManual_of_perm hrooms _
  unfold relays
  cases hvalid : validateSignalTarget target with
  | error e =>
    rw [hvalid] at hreceive
    refine ⟨s.respond conn ({ h with rateLimit := (h.rateLimit.check now).1 }, [.error e]),
      ?_, ?_, ?_, ?_, horder⟩
    . simp only [Except.isOk, Except.toBool, Bool.false_eq_true, if_false, Machine.exec, hreceive]
    . apply Function.update_self
    . intro p hcode
      have hok : validateSignalTarget target = .ok (withoutHyphens target) :=
        (validateCode_eq_ok_iff _ _).mpr ⟨hcode, rfl⟩
      rw [hok] at hvalid
      contradiction
    . intro _
      exact ⟨e, rfl, deliver_one hopen (.error e)⟩
  | ok code =>
    rw [hvalid] at hreceive
    obtain ⟨hcode, rfl⟩ := (validateCode_eq_ok_iff _ _).mp hvalid
    dsimp only at hreceive
    generalize hs1 : s.respond conn _ = s1 at hreceive
    have hmanager : s1.manager = s.manager := hs1 ▸ rfl
    have hchannels : s1.channels = s.channels := by
      rw [← hs1]
      apply deliver_nil
    have hh1 : s1.handlers conn = some (Handler.goto
        { h with rateLimit := (h.rateLimit.check now).1 }
        (.finding me (withoutHyphens target) payload manual)) := by
      rw [← hs1]
      apply Function.update_self
    have hconsistent : s1.Consistent := consistent (.step hs hreceive)
    have hopen1 : (s1.channels conn).closed = false := hchannels ▸ hopen
    obtain ⟨s', hexec, hh', hdelivered, hrefused⟩ :=
      exec_finding fromStr hconsistent hh1 rfl hopen1
    rw [hmanager, hchannels] at hdelivered hrefused
    refine ⟨s', ?_, ?_, ?_, ?_, horder⟩
    . simp only [Except.isOk, Except.toBool, if_true, Machine.exec, hreceive]
      exact hexec
    . rw [hh', ← hpc]
      rfl
    . intro p _ hp hsender
      exact (hdelivered p hp hsender).trans_eq hmanager hchannels
    . intro hclosed
      obtain ⟨error, henqueues⟩ := hrefused fun p hp => hclosed p hcode hp
      exact ⟨error, henqueues.trans_eq hmanager hchannels⟩

def bothJoin : List Action :=
  connects 1 "10.0.0.1" "B7H2MN" ++ List.replicate 5 (.step 1)
    ++ connects 2 "10.0.0.1" "C8J3PQ" ++ List.replicate 4 (.step 2)

theorem signal_routed_in_room
    : ∃ s s', (machine plain).Reachable s
        ∧ Machine.exec (next plain effect) s (relays 1 "@C8J3-PQ" 0 "C8J3-PQ") = some s'
        ∧ Routed s s' 1 ⟨"B7H2MN", 1⟩ "10.0.0.1" "C8J3-PQ" .null false := by
  have hexec : (Machine.exec (next plain effect) start bothJoin).any
      (fun s => (s.handlers 1).map (fun h => (h.clientIp, h.pc, h.rateLimit))
          = some ("10.0.0.1", .serving ⟨"B7H2MN", 1⟩, ⟨49, 0, 0⟩)
        ∧ (s.channels 1).closed = false) = true := by
    decide
  obtain ⟨s, hs, hfacts⟩ := Machine.exists_reachable_of_exec hexec
  obtain ⟨hhandler, hopen⟩ := of_decide_eq_true hfacts
  obtain ⟨h, hh, hfields⟩ := Option.map_eq_some_iff.mp hhandler
  obtain ⟨hip, hpc, hrate⟩ : h.clientIp = "10.0.0.1" ∧ h.pc = .serving ⟨"B7H2MN", 1⟩
      ∧ h.rateLimit = ⟨49, 0, 0⟩ := by
    simpa using hfields
  have hsignal : plain "@C8J3-PQ" = .ok (signalMessage false "C8J3-PQ" .null) := by rfl
  have hok : (h.rateLimit.check 0).2 = .ok () := by
    rw [hrate]
    rfl
  obtain ⟨s', hexec', -, hrouted⟩ := signal_routed hs hh hpc hopen hsignal hok (by decide)
  rw [hip] at hrouted
  exact ⟨s, s', hs, hexec', hrouted⟩

end Server

end Rendezvous

end LocalBolt
