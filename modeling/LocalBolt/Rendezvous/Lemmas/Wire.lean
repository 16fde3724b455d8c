import LocalBolt.Codec.Basic
import LocalBolt.Rendezvous.Impl.Wire

/-!
This module contains the wire format of the signaling messages: what a message is serialized to is
read back as that message, also after members that nothing knows were added to its objects.
-/

namespace LocalBolt

namespace Dict

variable (d : Dict) (key name : String)

@[simp]
theorem get?_nil : get? [] key = none := rfl

@[simp]
theorem get?_serializeField (value : Json)
    : (d.serializeField name value).get? key = if key = name then some value else d.get? key := by
  exact SortedMap.lookup_insert key name value d

@[simp]
theorem get?_serializeSome (value : Option String)
    : (d.serializeSome name value).get? key
        =
      if key = name ∧ value.isSome then value.map .str else d.get? key := by
  cases value with
  | none => simp [serializeSome]
  | some s => simp [serializeSome]

end Dict

namespace Rendezvous

open Codec

theorem DeviceType.deserialize_serialize (deviceType : DeviceType)
    : deserialize deviceType.serialize = some deviceType := by
  cases deviceType <;> rfl

theorem deserializePeer_serializePeer {α : Type} (d : Dict) (peerCode deviceName : String)
    (deviceType : DeviceType) (wtUrl wtCertHash : Option String)
    (build : String → String → DeviceType → Option String → Option String → α)
    (hurl : d.get? "wt_url" = none) (hhash : d.get? "wt_cert_hash" = none)
    : deserializePeer (serializePeer d peerCode deviceName deviceType wtUrl wtCertHash) build
        =
      some (build peerCode deviceName deviceType wtUrl wtCertHash) := by
  unfold deserializePeer serializePeer
  cases wtUrl <;> cases wtCertHash <;>
    simp [Dict.string?, Dict.optional?, Json.string?, DeviceType.deserialize_serialize, hurl, hhash]

theorem PeerData.deserialize_serialize (p : PeerData) : deserialize p.serialize = some p := by
  exact deserializePeer_serializePeer [] _ _ _ _ _ PeerData.mk rfl rfl

theorem ClientMessage.deserialize_serialize (m : ClientMessage)
    : deserialize m.serialize = some m := by
  cases m with
  | register peerCode deviceName deviceType wtUrl wtCertHash =>
    have htype : (serializePeer (Dict.serializeField [] "type" (.str "register")) peerCode deviceName
        deviceType wtUrl wtCertHash).string? "type" = some "register" := by
      simp [serializePeer, Dict.string?, Json.string?]
    unfold serialize deserialize
    simp only [Json.object?, Option.bind_some, visitMap, htype]
    apply deserializePeer_serializePeer
    . simp
    . simp
  | _ => simp [serialize, deserialize, visitMap, Json.object?, Dict.string?, Json.string?]

theorem ServerMessage.deserialize_serialize (m : ServerMessage)
    : deserialize m.serialize = some m := by
  cases m with
  | peers existingPeers =>
    have hpeers := mapM_map PeerData.deserialize_serialize existingPeers
    simp [serialize, deserialize, visitMap, Json.object?, Dict.string?, Json.string?, deserializePeers,
      hpeers]
  | peerJoined peer =>
    have hpeer := peer.deserialize_serialize
    simp [serialize, deserialize, visitMap, Json.object?, Dict.string?, Json.string?, hpeer]
  | _ => simp [serialize, deserialize, visitMap, Json.object?, Dict.string?, Json.string?]

/-! ### Members with unknown names -/

def peerFields : List String := ["peer_code", "device_name", "device_type", "wt_url", "wt_cert_hash"]

inductive PeerData.AddMember : Json → Json → Prop where
  | member (d : Dict) (key : String) (value : Json) (hunknown : key ∉ peerFields) :
    AddMember (.obj d) (.obj (d.serializeField key value))

/--
The names that a message with the tag of `d` declares.
-/
def ClientMessage.fields (d : Dict) : List String :=
  match d.string? "type" with
  | some "register" => peerFields
  | some "signal" | some "manual_signal" => ["to", "payload"]
  | _ => []

inductive ClientMessage.AddMember : Json → Json → Prop where
  | member (d : Dict) (key : String) (value : Json) (hunknown : key ∉ "type" :: fields d) :
    AddMember (.obj d) (.obj (d.serializeField key value))

def ServerMessage.fields (d : Dict) : List String :=
  match d.string? "type" with
  | some "peers" => ["peers"]
  | some "peer_joined" => ["peer"]
  | some "peer_left" => ["peer_code"]
  | some "signal" => ["from", "payload"]
  | some "error" => ["message"]
  | _ => []

/--
One more member in the message, in the peer that joined or in one of the peers of the list.
-/
inductive ServerMessage.AddMember : Json → Json → Prop where
  | member (d : Dict) (key : String) (value : Json) (hunknown : key ∉ "type" :: fields d) :
    AddMember (.obj d) (.obj (d.serializeField key value))
  | peer (d : Dict) (peer peer' : Json) (hpeer : d.get? "peer" = some peer)
    (hadd : PeerData.AddMember peer peer') :
    AddMember (.obj d) (.obj (d.serializeField "peer" peer'))
  | peers (d : Dict) (before after : List Json) (peer peer' : Json)
    (hpeers : d.get? "peers" = some (.arr (before ++ peer :: after)))
    (hadd : PeerData.AddMember peer peer') :
    AddMember (.obj d) (.obj (d.serializeField "peers" (.arr (before ++ peer' :: after))))

theorem deserializePeer_congr {α : Type} {d d' : Dict}
    {build : String → String → DeviceType → Option String → Option String → α}
    (h : ∀ key ∈ peerFields, d'.get? key = d.get? key)
    : deserializePeer d' build = deserializePeer d build := by
  simp only [peerFields, List.forall_mem_cons] at h
  obtain ⟨hcode, hname, htype, hurl, hhash, -⟩ := h
  simp only [deserializePeer, Dict.string?, Dict.optional?, hcode, hname, htype, hurl, hhash]

theorem get?_serializeField_of_unknown {known : List String} {key : String} (hunknown : key ∉ known)
    (d : Dict) (value : Json) : ∀ name ∈ known, (d.serializeField key value).get? name = d.get? name := by
  intro name hname
  rw [Dict.get?_serializeField, if_neg]
  intro heq
  apply hunknown
  rw [← heq]
  exact hname

theorem PeerData.deserialize_addMember {v v' : Json} (h : AddMember v v')
    : deserialize v' = deserialize v := by
  obtain ⟨d, key, value, hunknown⟩ := h
  exact deserializePeer_congr (get?_serializeField_of_unknown hunknown d value)

theorem ClientMessage.visitMap_congr {d d' : Dict}
    (h : ∀ key ∈ "type" :: fields d, d'.get? key = d.get? key) : visitMap d' = visitMap d := by
  obtain ⟨htype, hfields⟩ := List.forall_mem_cons.mp h
  have hstring : d'.string? "type" = d.string? "type" := by rw [Dict.string?, Dict.string?, htype]
  unfold fields at hfields
  unfold visitMap
  rw [hstring]
  generalize d.string? "type" = tag at hfields ⊢
  split
  . exact deserializePeer_congr hfields
  . simp only [List.forall_mem_cons] at hfields
    simp only [Dict.string?, hfields]
  . simp only [List.forall_mem_cons] at hfields
    simp only [Dict.string?, hfields]
  . rfl
  . rfl

theorem ServerMessage.visitMap_congr {d d' : Dict} (htype : d'.get? "type" = d.get? "type")
    (hpeers : "peers" ∈ fields d →
      (d'.get? "peers").bind deserializePeers = (d.get? "peers").bind deserializePeers)
    (hpeer : "peer" ∈ fields d →
      (d'.get? "peer").bind PeerData.deserialize = (d.get? "peer").bind PeerData.deserialize)
    (hplain : ∀ key ∈ fields d, key ≠ "peers" → key ≠ "peer" → d'.get? key = d.get? key)
    : visitMap d' = visitMap d := by
  have hstring : d'.string? "type" = d.string? "type" := by rw [Dict.string?, Dict.string?, htype]
  unfold fields at hpeers hpeer hplain
  unfold visitMap
  rw [hstring]
  generalize d.string? "type" = tag at hpeers hpeer hplain ⊢
  split
  . rw [hpeers (by decide)]
  . rw [hpeer (by decide)]
  . rw [Dict.string?, Dict.string?, hplain "peer_code" (by decide) (by decide) (by decide)]
  . rw [Dict.string?, Dict.string?, hplain "from" (by decide) (by decide) (by decide),
      hplain "payload" (by decide) (by decide) (by decide)]
  . rw [Dict.string?, Dict.string?, hplain "message" (by decide) (by decide) (by decide)]
  . rfl

theorem ClientMessage.deserialize_addMember (v v' : Json) (h : AddMember v v')
    : deserialize v' = deserialize v := by
  obtain ⟨d, key, value, hunknown⟩ := h
  exact visitMap_congr (get?_serializeField_of_unknown hunknown d value)

theorem ServerMessage.deserialize_addMember (v v' : Json) (h : AddMember v v')
    : deserialize v' = deserialize v := by
  cases h with
  | member d key value hunknown =>
    have hsame := get?_serializeField_of_unknown hunknown d value
    obtain ⟨htype, hfields⟩ := List.forall_mem_cons.mp hsame
    apply visitMap_congr htype
    . intro hmem
      rw [hfields _ hmem]
    . intro hmem
      rw [hfields _ hmem]
    . intro name hmem _ _
      exact hfields name hmem
  | peer d peer peer' hpeer hadd =>
    apply visitMap_congr
    . simp
    . simp
    . simp [hpeer, PeerData.deserialize_addMember hadd]
    . intro name _ _ hne
      rw [Dict.get?_serializeField, if_neg hne]
  | peers d before after peer peer' hpeers hadd =>
    have hreplace := mapM_replace (PeerData.deserialize_addMember hadd) before after
    apply visitMap_congr
    . simp
    . intro _
      rw [Dict.get?_serializeField, if_pos rfl, hpeers]
      exact hreplace
    . simp
    . intro name _ hne _
      rw [Dict.get?_serializeField, if_neg hne]

/-! ### Objects in order -/

/--
What `serde_json` has as a value: the members of each object are in the order of their names.
-/
inductive IsValue : Json → Prop where
  | null : IsValue .null
  | bool (b : Bool) : IsValue (.bool b)
  | num (q : ℚ) : IsValue (.num q)
  | str (s : String) : IsValue (.str s)
  | arr (values : List Json) (hvalues : ∀ v ∈ values, IsValue v) : IsValue (.arr values)
  | obj (d : Dict) (hsorted : SortedMap.Sorted d) (hvalues : ∀ p ∈ d, IsValue p.2) : IsValue (.obj d)

theorem IsValue.empty : IsValue (.obj []) := by
  apply IsValue.obj
  . exact List.Pairwise.nil
  . simp

theorem IsValue.serializeField {d : Dict} {value : Json} (hd : IsValue (.obj d)) (name : String)
    (hvalue : IsValue value) : IsValue (.obj (d.serializeField name value)) := by
  cases hd with
  | obj _ hsorted hvalues =>
    apply IsValue.obj
    . exact hsorted.insert name value
    . exact SortedMap.forall_mem_insert hvalue hvalues

theorem IsValue.serializeSome {d : Dict} (hd : IsValue (.obj d)) (name : String)
    (value : Option String) : IsValue (.obj (d.serializeSome name value)) := by
  cases value with
  | none => exact hd
  | some s => exact hd.serializeField name (.str s)

theorem IsValue.serializePeer {d : Dict} (hd : IsValue (.obj d)) (peerCode deviceName : String)
    (deviceType : DeviceType) (wtUrl wtCertHash : Option String)
    : IsValue (.obj (serializePeer d peerCode deviceName deviceType wtUrl wtCertHash)) := by
  unfold Rendezvous.serializePeer
  apply IsValue.serializeSome
  apply IsValue.serializeSome
  exact ((hd.serializeField _ (.str _)).serializeField _ (.str _)).serializeField _ (.str _)

theorem isValue_tag (tag : String) : IsValue (.obj (Dict.serializeField [] "type" (.str tag))) := by
  exact IsValue.empty.serializeField "type" (.str tag)

def ClientMessage.HasValues : ClientMessage → Prop
  | .signal _ payload | .manualSignal _ payload => IsValue payload
  | _ => True

def ServerMessage.HasValues : ServerMessage → Prop
  | .signal _ payload => IsValue payload
  | _ => True

theorem ClientMessage.isValue_serialize {m : ClientMessage} (h : m.HasValues)
    : IsValue m.serialize := by
  cases m with
  | register peerCode deviceName deviceType wtUrl wtCertHash =>
    exact (isValue_tag "register").serializePeer _ _ _ _ _
  | signal target payload =>
    exact ((isValue_tag "signal").serializeField "to" (.str target)).serializeField "payload" h
  | manualSignal target payload =>
    exact ((isValue_tag "manual_signal").serializeField "to" (.str target)).serializeField "payload" h
  | ping => exact isValue_tag "ping"

theorem ServerMessage.isValue_serialize {m : ServerMessage} (h : m.HasValues)
    : IsValue m.serialize := by
  cases m with
  | peers existingPeers =>
    apply (isValue_tag "peers").serializeField
    apply IsValue.arr
    intro v hv
    obtain ⟨p, -, rfl⟩ := List.mem_map.mp hv
    exact IsValue.empty.serializePeer _ _ _ _ _
  | peerJoined peer =>
    exact (isValue_tag "peer_joined").serializeField "peer" (IsValue.empty.serializePeer _ _ _ _ _)
  | peerLeft peerCode => exact (isValue_tag "peer_left").serializeField "peer_code" (.str peerCode)
  | signal fromPeer payload =>
    exact ((isValue_tag "signal").serializeField "from" (.str fromPeer)).serializeField "payload" h
  | error message => exact (isValue_tag "error").serializeField "message" (.str message)

/-! ### The format -/

theorem wire_format_lossless
    : Lossless ClientMessage.serialize ClientMessage.deserialize
          (Relation.ReflTransGen ClientMessage.AddMember)
        ∧ Lossless ServerMessage.serialize ServerMessage.deserialize
            (Relation.ReflTransGen ServerMessage.AddMember)
        ∧ (∀ m : ClientMessage, m.HasValues → IsValue m.serialize)
        ∧ (∀ m : ServerMessage, m.HasValues → IsValue m.serialize) := by
  refine ⟨?_, ?_, ?_, ?_⟩
  . exact lossless_of_steps ClientMessage.deserialize_serialize ClientMessage.deserialize_addMember
  . exact lossless_of_steps ServerMessage.deserialize_serialize ServerMessage.deserialize_addMember
  . intro m h
    exact ClientMessage.isValue_serialize h
  . intro m h
    exact ServerMessage.isValue_serialize h

end Rendezvous

end LocalBolt
