import LocalBolt.JsonText.RoundTrip
import LocalBolt.Rendezvous.Impl.WireText
import LocalBolt.Rendezvous.Lemmas.SignalOrder
import LocalBolt.Rendezvous.Lemmas.Wire

/-!
This module contains the texts of the signaling messages: each is read back as the message it was written
for, and so is everything that the server ever enqueues, whatever its clients send.
-/

namespace LocalBolt

open JsonText

namespace Rendezvous

variable {spell : ℚ → List Char} {ofNumber : List Char → Option ℚ}

/-! ### Objects -/

/--
The members of an object that was written are read in their order.
-/
theorem objectText_print {ms : Dict} (h : Readable spell ofNumber recursionLimit (.obj ms))
    : objectText ofNumber (print spell (.obj ms)) = some (normalMembers ms) := by
  cases h with
  | obj hdepth hvalues =>
    unfold objectText
    rw [print, expect_cons (by decide)]
    cases ms with
    | nil => rfl
    | cons p ms =>
      have hmembers := members_print (by simp) (fun p hp => (hvalues p hp).readsBack) []
        (2 * (printMembers spell (p :: ms) ++ ['\x7d']).length + 1) (Nat.lt_succ_self _)
      obtain ⟨text, hquote⟩ : ∃ text, printMembers spell (p :: ms) ++ ['\x7d'] = '"' :: text := by
        cases ms <;> exact ⟨_, rfl⟩
      have hbrace : expect '\x7d' (printMembers spell (p :: ms) ++ ['\x7d']) = none := by
        rw [hquote]
        exact expect_cons_of_ne (by decide) (by decide) text
      simp only [Option.bind_eq_bind, Option.bind_some, hbrace, hmembers]
      rfl

theorem readable_object {ms : Dict} (h : ∀ p ∈ ms, Readable spell ofNumber (recursionLimit - 1) p.2)
    : Readable spell ofNumber recursionLimit (.obj ms) :=
  .obj (by decide) h

/-! ### Peers -/

theorem readable_optionalMember (key : String) (value : Option String) (depth : Nat) :
    ∀ p ∈ optionalMember key value, Readable spell ofNumber depth p.2 := by
  cases value with
  | none => exact List.forall_mem_nil _
  | some s => exact List.forall_mem_singleton.mpr (.str s)

theorem readable_peerMembers (peerCode deviceName : String) (deviceType : DeviceType)
    (wtUrl wtCertHash : Option String) (depth : Nat) :
    ∀ p ∈ peerMembers peerCode deviceName deviceType wtUrl wtCertHash,
      Readable spell ofNumber depth p.2 := by
  unfold peerMembers
  simp only [List.forall_mem_append, List.forall_mem_cons]
  exact ⟨⟨⟨.str _, .str _, .str _, List.forall_mem_nil _⟩, readable_optionalMember _ _ _⟩,
    readable_optionalMember _ _ _⟩

theorem PeerData.readable_document (p : PeerData) {depth : Nat} (hdepth : 1 < depth)
    : Readable spell ofNumber depth p.document :=
  .obj hdepth (readable_peerMembers _ _ _ _ _ _)

theorem normalMembers_peerMembers (peerCode deviceName : String) (deviceType : DeviceType)
    (wtUrl wtCertHash : Option String)
    : normalMembers (peerMembers peerCode deviceName deviceType wtUrl wtCertHash)
        =
      peerMembers peerCode deviceName deviceType wtUrl wtCertHash := by
  cases wtUrl <;> cases wtCertHash <;> rfl

theorem PeerData.normal_document (p : PeerData) : normal p.document = p.serialize := by
  unfold document serialize
  rw [normal, normalMembers_peerMembers]
  obtain ⟨peerCode, deviceName, deviceType, wtUrl, wtCertHash⟩ := p
  cases wtUrl <;> cases wtCertHash <;> rfl

/-! ### Messages -/

def ClientMessage.payloads : ClientMessage → List Json
  | .signal _ payload | .manualSignal _ payload => [payload]
  | _ => []

def ServerMessage.payloads : ServerMessage → List Json
  | .signal _ payload => [payload]
  | _ => []

/--
The payload can be written and is read back.
-/
structure Carried (spell : ℚ → List Char) (ofNumber : List Char → Option ℚ) (payload : Json) : Prop where
  readable : Readable spell ofNumber (recursionLimit - 1) payload
  normal : Normal payload

theorem ClientMessage.readable_document {m : ClientMessage}
    (h : ∀ payload ∈ m.payloads, Carried spell ofNumber payload)
    : Readable spell ofNumber recursionLimit m.document := by
  apply readable_object
  rw [List.forall_mem_cons]
  refine ⟨.str _, ?_⟩
  cases m with
  | register => exact readable_peerMembers _ _ _ _ _ _
  | signal target payload | manualSignal target payload =>
    have hpayload := (List.forall_mem_singleton.mp h).readable
    exact List.forall_mem_cons.mpr ⟨.str _, List.forall_mem_singleton.mpr hpayload⟩
  | ping => exact List.forall_mem_nil _

theorem ServerMessage.readable_document {m : ServerMessage}
    (h : ∀ payload ∈ m.payloads, Carried spell ofNumber payload)
    : Readable spell ofNumber recursionLimit m.document := by
  apply readable_object
  rw [List.forall_mem_cons]
  refine ⟨.str _, ?_⟩
  cases m with
  | peers existingPeers =>
    rw [members, List.forall_mem_singleton]
    apply Readable.arr (by decide)
    intro v hv
    obtain ⟨p, -, rfl⟩ := List.mem_map.mp hv
    exact p.readable_document (by decide)
  | peerJoined peer => exact List.forall_mem_singleton.mpr (peer.readable_document (by decide))
  | peerLeft | error => exact List.forall_mem_singleton.mpr (.str _)
  | signal fromPeer payload =>
    have hpayload := (List.forall_mem_singleton.mp h).readable
    exact List.forall_mem_cons.mpr ⟨.str _, List.forall_mem_singleton.mpr hpayload⟩

theorem ClientMessage.fromText_toText {m : ClientMessage}
    (h : ∀ payload ∈ m.payloads, Carried spell ofNumber payload)
    : fromText ofNumber (m.toText spell) = some m := by
  have hread := objectText_print (readable_document h)
  unfold fromText toText document tagged
  rw [hread]
  cases m with
  | register peerCode deviceName deviceType wtUrl wtCertHash =>
    cases wtUrl <;> cases wtCertHash <;> cases deviceType <;> rfl
  | signal target payload =>
    have hpayload : normal payload = payload := (List.forall_mem_singleton.mp h).normal
    simp only [members, tag, normalMembers, normal, hpayload]
    rfl
  | manualSignal target payload =>
    have hpayload : normal payload = payload := (List.forall_mem_singleton.mp h).normal
    simp only [members, tag, normalMembers, normal, hpayload]
    rfl
  | ping => rfl

theorem mapM_normal_document (existingPeers : List PeerData)
    : ((existingPeers.map PeerData.document).map normal).mapM PeerData.deserialize
        =
      some existingPeers := by
  have hnormal : (existingPeers.map PeerData.document).map normal = existingPeers.map PeerData.serialize := by
    rw [List.map_map]
    exact List.map_congr_left fun p _ => p.normal_document
  rw [hnormal]
  exact Codec.mapM_map PeerData.deserialize_serialize existingPeers

theorem ServerMessage.fromText_toText {m : ServerMessage}
    (h : ∀ payload ∈ m.payloads, Carried spell ofNumber payload)
    : fromText ofNumber (m.toText spell) = some m := by
  have hread := objectText_print (readable_document h)
  unfold fromText toText document tagged
  rw [hread]
  cases m with
  | peers existingPeers =>
    have hpeers := mapM_normal_document existingPeers
    simp only [members, tag, normalMembers, normal, normalElements_eq_map]
    exact congrArg (·.bind fun existingPeers => some (ServerMessage.peers existingPeers)) hpeers
  | peerJoined peer =>
    have hpeer : PeerData.deserialize (normal peer.document) = some peer := by
      rw [peer.normal_document, peer.deserialize_serialize]
    simp only [members, tag, normalMembers, normal]
    exact congrArg (·.bind fun peer => some (ServerMessage.peerJoined peer)) hpeer
  | peerLeft | error => rfl
  | signal fromPeer payload =>
    have hpayload : normal payload = payload := (List.forall_mem_singleton.mp h).normal
    simp only [members, tag, normalMembers, normal, hpayload]
    rfl

/-! ### The format -/

/--
Whole numbers, as they are written and read.
-/
def spellNat (q : ℚ) : List Char := Nat.toDigits 10 q.num.toNat

def ofDigits (digits : List Char) : Option ℚ :=
  some ((digits.foldl (fun n c => 10 * n + (c.toNat - 48)) 0 : Nat) : Int)

def offer : Json := .obj [("line", .num 7), ("sdp", .str "v=0\n")]

theorem survives_offer {q : ℚ} (h : HasNumber q offer) : Survives spellNat ofDigits q := by
  cases h with
  | obj hmem hp =>
    simp only [List.mem_cons, List.not_mem_nil, or_false] at hmem
    rcases hmem with rfl | rfl
    . cases hp
      exact ⟨by decide, by decide⟩
    . cases hp

theorem carried_offer : Carried spellNat ofDigits offer := by
  constructor
  . apply Readable.obj (by decide)
    simp only [List.forall_mem_cons]
    exact ⟨.num ⟨by decide, by decide⟩, .str _, List.forall_mem_nil _⟩
  . rfl

namespace ClientMessage

theorem get?_of_forall {P : Json → Prop} {ms : Dict} (h : ∀ p ∈ ms, P p.2) {key : String} {v : Json}
    (hv : ms.get? key = some v) : P v := by
  obtain ⟨before, after, rfl, -⟩ := List.lookup_eq_some_iff.mp hv
  exact h (key, v) (List.mem_append_right _ List.mem_cons_self)

theorem isRead_objectText {text : List Char} {ms : Dict} (h : objectText ofNumber text = some ms) :
    ∀ p ∈ ms, IsRead (recursionLimit - 1) p.2 := by
  simp only [objectText, Option.bind_eq_bind, Option.bind_eq_some_iff] at h
  obtain ⟨text', -, h⟩ := h
  split at h
  . split at h
    . obtain rfl := Option.some.inj h
      exact List.forall_mem_nil _
    . cases h
  . simp only [Option.bind_eq_some_iff] at h
    obtain ⟨⟨ms', rest⟩, hmembers, h⟩ := h
    dsimp only at h
    split at h
    . obtain rfl := Option.some.inj h
      exact (reads _).members hmembers
    . cases h

theorem payloads_visitMap {P : Json → Prop} {ms : Dict} (h : ∀ p ∈ ms, P p.2) {m : ClientMessage}
    (hm : visitMap ms = some m) : ∀ payload ∈ m.payloads, P payload := by
  unfold visitMap at hm
  split at hm
  . simp only [deserializePeer, Option.bind_eq_bind, Option.bind_eq_some_iff, Option.some.injEq] at hm
    obtain ⟨_, -, _, -, _, -, _, -, _, -, rfl⟩ := hm
    exact List.forall_mem_nil _
  . simp only [Option.bind_eq_bind, Option.bind_eq_some_iff, Option.some.injEq] at hm
    obtain ⟨_, -, payload, hpayload, rfl⟩ := hm
    exact List.forall_mem_singleton.mpr (get?_of_forall h hpayload)
  . simp only [Option.bind_eq_bind, Option.bind_eq_some_iff, Option.some.injEq] at hm
    obtain ⟨_, -, payload, hpayload, rfl⟩ := hm
    exact List.forall_mem_singleton.mpr (get?_of_forall h hpayload)
  . obtain rfl := Option.some.inj hm
    exact List.forall_mem_nil _
  . cases hm

theorem isRead_of_fromText {text : List Char} {m : ClientMessage} (h : fromText ofNumber text = some m) :
    ∀ payload ∈ m.payloads, IsRead (recursionLimit - 1) payload := by
  simp only [fromText, Option.bind_eq_bind, Option.bind_eq_some_iff] at h
  obtain ⟨ms, hms, h⟩ := h
  split at h
  . exact payloads_visitMap (isRead_objectText hms) h
  . cases h

theorem isRead_of_fromStr {describe : String → String} {text target : String} {payload : Json}
    {manual : Bool}
    (h : fromStr ofNumber describe text = .ok (Server.signalMessage manual target payload)) :
    IsRead (recursionLimit - 1) payload := by
  unfold fromStr at h
  split at h
  . next m hm =>
    obtain rfl := Except.ok.inj h
    have hread := isRead_of_fromText hm
    cases manual <;> exact List.forall_mem_singleton.mp hread
  . cases h

end ClientMessage

theorem carried_of_isRead {payload : Json} (h : IsRead (recursionLimit - 1) payload)
    (hnumbers : ∀ q, HasNumber q payload → Survives spell ofNumber q) : Carried spell ofNumber payload where
  readable := h.nested.readable hnumbers
  normal := h.normal

namespace Server

variable {describe : String → String} {s : Server} {peer : PeerSender} {m : ServerMessage}

theorem isRead_of_enqueued (hs : (machine (ClientMessage.fromStr ofNumber describe)).Reachable s)
    (hm : m ∈ (s.channels peer).messages) : ∀ payload ∈ m.payloads, IsRead (recursionLimit - 1) payload := by
  have hsignals := (payloads_of_parsed
    (fun _ _ _ _ hparse => ClientMessage.isRead_of_fromStr hparse) hs).2 peer
  cases m with
  | signal fromPeer payload =>
    have hmem : (fromPeer, payload) ∈ signals (s.channels peer) :=
      List.mem_filterMap.mpr ⟨_, hm, rfl⟩
    exact List.forall_mem_singleton.mpr (hsignals _ hmem)
  | _ => exact List.forall_mem_nil _

def registration (code : String) : String :=
  String.ofList ((ClientMessage.register code "laptop" .laptop none none).toText spellNat)

def offers : List Action :=
  [.accept 1 "10.0.0.1" 0, hears 1 (registration "B7H2MN")] ++ List.replicate 5 (.step 1)
    ++ [.accept 2 "10.0.0.1" 0, hears 2 (registration "C8J3PQ")] ++ List.replicate 4 (.step 2)
    ++ [hears 1 (String.ofList ((ClientMessage.signal "C8J3PQ" offer).toText spellNat)), .step 1, .step 1]

end Server

end Rendezvous

end LocalBolt
