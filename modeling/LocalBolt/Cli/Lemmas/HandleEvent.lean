import LocalBolt.Cli.Impl.HandleEvent

/-!
This module contains which messages the client survives.
-/

namespace LocalBolt

namespace Cli

/--
The derived implementations of `Serialize` do not fail on a decision.
-/
def Env.Serializes (env : Env) : Prop :=
  ∀ p, (env.pairingDecision p).isSome = true ∧ (env.transferDecision p).isSome = true

/--
The twelfth byte of the peer's id is followed by another byte of the same character.
-/
def SplitsCharacter (msg : IpcMessage Value) : Prop :=
  msg.msgType = "session.connected" ∧
    ∃ peer, msg.payload.get "remote_peer_id" = some (.string peer) ∧
      12 < Utf8.len peer.toList ∧ ∀ part, part <+: peer.toList → Utf8.len part ≠ 12

theorem isSome_pairingRequestEvent {env : Env} (henv : env.Serializes) (c : Console)
    (req : PairingRequestPayload) : (pairingRequestEvent env c req).isSome = true := by
  obtain ⟨payload, hpayload⟩ := Option.isSome_iff_exists.mp (henv
    { requestId := req.requestId, decision := pairingChoice (env.stdin c.reads), note := none }).1
  simp [pairingRequestEvent, hpayload]

theorem isSome_transferRequestEvent {env : Env} (henv : env.Serializes) (c : Console)
    (req : TransferIncomingRequestPayload) : (transferRequestEvent env c req).isSome = true := by
  obtain ⟨payload, hpayload⟩ := Option.isSome_iff_exists.mp (henv
    { requestId := req.requestId, decision := transferChoice (env.stdin c.reads), note := none }).2
  simp [transferRequestEvent, hpayload]

theorem isSome_sliceTo?_min {text : List Char} {n : Nat}
    : (Utf8.sliceTo? text (min (Utf8.len text) n)).isSome = true
        ↔
      ¬(n < Utf8.len text ∧ ∀ part, part <+: text → Utf8.len part ≠ n) := by
  rw [Option.isSome_iff_exists]
  by_cases hlen : n < Utf8.len text
  . rw [Nat.min_eq_right (Nat.le_of_lt hlen)]
    simp [Utf8.sliceTo?_eq_some_iff, hlen]
  . rw [Nat.min_eq_left (Nat.le_of_not_lt hlen)]
    simp [Utf8.sliceTo?_len, hlen]

theorem strOr_eq_default {msg : IpcMessage Value} {key default : String}
    (h : ∀ s, msg.payload.get key ≠ some (.string s)) : strOr msg key default = default := by
  unfold strOr
  cases hget : msg.payload.get key with
  | none => rfl
  | some v =>
    cases v with
    | string s => exact absurd hget (h s)
    | null => rfl
    | bool b => rfl
    | number n => rfl
    | array values => rfl
    | object fields => rfl

theorem isSome_sessionConnectedEvent (msg : IpcMessage Value)
    : (sessionConnectedEvent msg).isSome = true
        ↔
      ¬∃ peer, msg.payload.get "remote_peer_id" = some (.string peer) ∧
        12 < Utf8.len peer.toList ∧ ∀ part, part <+: peer.toList → Utf8.len part ≠ 12 := by
  have hslice : (sessionConnectedEvent msg).isSome = true
      ↔ ¬(12 < Utf8.len (strOr msg "remote_peer_id" "?").toList ∧
          ∀ part, part <+: (strOr msg "remote_peer_id" "?").toList → Utf8.len part ≠ 12) := by
    rw [← isSome_sliceTo?_min, sessionConnectedEvent]
    generalize Utf8.sliceTo? _ _ = shown
    cases shown with
    | none => rfl
    | some shown => rfl
  rw [hslice]
  by_cases hpeer : ∃ peer, msg.payload.get "remote_peer_id" = some (.string peer)
  . obtain ⟨peer, hpeer⟩ := hpeer
    have hstr : strOr msg "remote_peer_id" "?" = peer := by simp [strOr, hpeer, Value.asStr]
    simp [hstr, hpeer]
  . rw [not_exists] at hpeer
    rw [strOr_eq_default hpeer]
    simp only [hpeer, false_and, exists_false, not_false_eq_true, iff_true, not_and]
    exact fun hlt => absurd hlt (by decide)

theorem handleEvent_sessionConnected {env : Env} {c : Console} {msg : IpcMessage Value}
    (h : msg.msgType = "session.connected") : handleEvent env c msg = sessionConnectedEvent msg := by
  simp [handleEvent, h]

theorem isSome_handleEvent {env : Env} (henv : env.Serializes) (c : Console) {msg : IpcMessage Value}
    (h : msg.msgType ≠ "session.connected") : (handleEvent env c msg).isSome = true := by
  unfold handleEvent
  split
  case h_3 heq => exact absurd heq h
  case h_7 =>
    split
    . exact isSome_pairingRequestEvent henv c _
    . rfl
  case h_8 =>
    split
    . exact isSome_transferRequestEvent henv c _
    . rfl
  case h_14 => split <;> rfl
  all_goals rfl

theorem handleEvent_returns_iff {env : Env} (henv : env.Serializes) (c : Console) (msg : IpcMessage Value)
    : (handleEvent env c msg).isSome = true ↔ ¬SplitsCharacter msg := by
  unfold SplitsCharacter
  by_cases htype : msg.msgType = "session.connected"
  . rw [handleEvent_sessionConnected htype, isSome_sessionConnectedEvent]
    simp only [htype, true_and]
  . simp only [isSome_handleEvent henv c htype, htype, false_and, not_false_eq_true]

/-! ### Concrete runs -/

def decisionValue (p : DecisionPayload) : Value :=
  .object [("decision", .string p.decision.wireValue),
    ("note", match p.note with | some note => .string note | none => .null),
    ("request_id", .string p.requestId)]

def stringField (v : Value) (key : String) : Option String := (v.get key).bind Value.asStr

/--
A world in which the user types the lines `typed`, and only the lines `known` are messages.
-/
def Env.plain (typed : List String) (known : List (String × IpcMessage Value)) : Env where
  stdin n := some (typed[n]?.getD "")
  write _ := none
  fromStr text :=
    match known.lookup text with
    | some msg => .ok msg
    | none => .error "expected value"
  pairingRequest v := do
    let requestId ← stringField v "request_id"
    let remoteDeviceName ← stringField v "remote_device_name"
    let remoteDeviceType ← stringField v "remote_device_type"
    let sas ← stringField v "sas"
    some { requestId, remoteDeviceName, remoteDeviceType, sas, capabilitiesRequested := [] }
  transferRequest v := do
    let requestId ← stringField v "request_id"
    let fromDeviceName ← stringField v "from_device_name"
    let fileName ← stringField v "file_name"
    let fileSizeBytes ← (v.get "file_size_bytes").bind Value.asU64
    some { requestId, fromDeviceName, fileName, fileSizeBytes }
  pairingDecision p := some (decisionValue p)
  transferDecision p := some (decisionValue p)
  display _ := ""
  debug _ := "[]"
  tenths _ := "0.0"

theorem serializes_plain (typed : List String) (known : List (String × IpcMessage Value))
    : (Env.plain typed known).Serializes :=
  fun _ => ⟨rfl, rfl⟩

def sessionConnected (peer : String) : IpcMessage Value where
  msgType := "session.connected"
  kind := .event
  payload := .object [("remote_peer_id", .string peer)]

theorem ascii_peer_is_reported
    : (handleEvent (Env.plain [] []) .start (sessionConnected "peer-number-1")).isSome = true := by
  apply (handleEvent_returns_iff (serializes_plain [] []) .start (sessionConnected "peer-number-1")).mpr
  rintro ⟨-, peer, hpeer, -, hsplit⟩
  have hget : (sessionConnected "peer-number-1").payload.get "remote_peer_id"
      = some (.string "peer-number-1") := by
    simp [sessionConnected, Value.get]
  rw [hget, Option.some.injEq, Value.string.injEq] at hpeer
  apply hsplit "peer-number-".toList
  . rw [← hpeer]
    decide +kernel
  . decide +kernel

theorem split_peer_panics
    : (handleEvent (Env.plain [] []) .start (sessionConnected "peer-number\u00e9")).isSome = false := by
  decide +kernel

end Cli

end LocalBolt
