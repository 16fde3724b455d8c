import LocalBolt.Bridge.Impl.Decision
import LocalBolt.JsonText.Strings
import LocalBolt.Session.Impl.IpcManager
import Mathlib.Data.List.TakeWhile

/-!
This module contains for which ids a pairing decision arrives at the daemon as it was made.
-/

namespace LocalBolt

namespace Bridge

open JsonText

/--
`fromStr` reads a JSON text. How it rounds a number is left open.
-/
def ReadsJson (fromStr : String → Option Json) : Prop :=
  ∃ ofNumber : List Char → Option ℚ, ∀ text, fromStr text = JsonText.fromStr ofNumber text.toList

/--
The message carries this decision about this request, and nothing else.
-/
def CarriesDecision (msg : IpcMessage Json) (requestId : String) (decision : PairingDecision) : Prop :=
  msg.msgType = "pairing.decision" ∧ ∃ d : Dict, msg.payload = .obj d ∧
    d.get? "request_id" = some (.str requestId) ∧
    d.get? "decision" = some (.str decision.wireValue) ∧
    ∀ p ∈ d, p.1 = "request_id" ∨ p.1 = "decision"

/--
What `sendPairingDecision` sends is accepted, and it carries the decision.
-/
def DecisionArrives (fromStr : String → Option Json) (requestId : String) (decision : PairingDecision)
    : Prop :=
  ∃ msg, boltIpcSendDecision fromStr "pairing.decision" (IpcManager.decisionPayload requestId decision)
    = some msg ∧ CarriesDecision msg requestId decision

/-! ### The text of the payload -/

def beforeId : List Char := '\x7b' :: '"' :: ("request_id".toList ++ ['"', ':', '"'])

def afterId (decision : PairingDecision) : List Char :=
  '"' :: ',' :: '"' ::
    ("decision".toList ++ '"' :: ':' :: '"' :: (decision.wireValue.toList ++ ['"', '\x7d']))

theorem decisionPayload_toList (requestId : String) (decision : PairingDecision)
    : (IpcManager.decisionPayload requestId decision).toList
        =
      beforeId ++ (requestId.toList ++ afterId decision) := by
  have hbefore : "\x7b\"request_id\":\"".toList = beforeId := by simp [beforeId]
  have hafter : "\",\"decision\":\"".toList = '"' :: ',' :: '"' :: ("decision".toList ++ ['"', ':', '"']) := by
    simp
  have hend : "\"\x7d".toList = ['"', '\x7d'] := by simp
  unfold IpcManager.decisionPayload
  rw [String.toList_append, String.toList_append, String.toList_append, String.toList_append, hbefore,
    hafter, hend]
  simp only [afterId, List.append_assoc, List.cons_append, List.nil_append]

theorem forall_unescaped_wireValue (decision : PairingDecision)
    : ∀ c ∈ decision.wireValue.toList, Unescaped c := by
  cases decision <;> simp [PairingDecision.wireValue, Unescaped]

theorem forall_unescaped_key (key : String) (h : key ∈ ["request_id", "decision"])
    : ∀ c ∈ key.toList, Unescaped c := by
  simp only [List.mem_cons, List.not_mem_nil, or_false] at h
  rcases h with rfl | rfl <;> simp [Unescaped]

/--
Around the id there are quotes, and characters that stand for themselves.
-/
theorem beforeId_chars : ∀ c ∈ beforeId, c = '"' ∨ Unescaped c := by
  have hkey := forall_unescaped_key "request_id" (by simp)
  intro c hc
  simp only [beforeId, List.mem_cons, List.mem_append, List.not_mem_nil, or_false] at hc
  rcases hc with rfl | hc | hc | hc | rfl | hc
  . exact Or.inr (by decide)
  . exact Or.inl hc
  . exact Or.inr (hkey c hc)
  . exact Or.inl hc
  . exact Or.inr (by decide)
  . exact Or.inl hc

theorem afterId_chars (decision : PairingDecision) : ∀ c ∈ afterId decision, c = '"' ∨ Unescaped c := by
  have hkey := forall_unescaped_key "decision" (by simp)
  have hwire := forall_unescaped_wireValue decision
  intro c hc
  simp only [afterId, List.mem_cons, List.mem_append, List.not_mem_nil, or_false] at hc
  rcases hc with hc | rfl | hc | hc | hc | rfl | hc | hc | hc | rfl
  . exact Or.inl hc
  . exact Or.inr (by decide)
  . exact Or.inl hc
  . exact Or.inr (hkey c hc)
  . exact Or.inl hc
  . exact Or.inr (by decide)
  . exact Or.inl hc
  . exact Or.inr (hwire c hc)
  . exact Or.inl hc
  . exact Or.inr (by decide)

theorem slash_not_mem {text : List Char} (h : ∀ c ∈ text, c = '"' ∨ Unescaped c) : '\\' ∉ text := by
  intro hmem
  rcases h _ hmem with hquote | hunescaped
  . exact absurd hquote (by decide)
  . exact hunescaped.2.1 rfl

theorem nul_not_mem {text : List Char} (h : ∀ c ∈ text, c = '"' ∨ Unescaped c) : Char.ofNat 0 ∉ text := by
  intro hmem
  rcases h _ hmem with hquote | hunescaped
  . exact absurd hquote (by decide)
  . exact absurd hunescaped.2.2 (by decide)

theorem takeWhile_beforeId (text : List Char)
    : (beforeId ++ text).takeWhile (· ≠ Char.ofNat 0)
        =
      beforeId ++ text.takeWhile (· ≠ Char.ofNat 0) := by
  apply List.takeWhile_append_of_pos
  intro c hc
  rw [decide_eq_true_eq]
  rintro rfl
  exact nul_not_mem beforeId_chars hc

/-! ### Plain ids -/

theorem takeWhile_of_nul_not_mem {id : List Char} (h : Char.ofNat 0 ∉ id) (decision : PairingDecision)
    : (id ++ afterId decision).takeWhile (· ≠ Char.ofNat 0) = id ++ afterId decision := by
  rw [List.takeWhile_eq_self_iff]
  intro c hc
  rw [decide_eq_true_eq]
  rintro rfl
  rcases List.mem_append.mp hc with hmem | hmem
  . exact h hmem
  . exact nul_not_mem (afterId_chars decision) hmem

section

variable (ofNumber : List Char → Option ℚ)

theorem members_afterId (decision : PairingDecision) (depth fuel : Nat)
    : members ofNumber depth (fuel + 2)
        ('"' :: ("decision".toList ++ '"' :: ':' :: '"' :: (decision.wireValue.toList ++ ['"', '\x7d'])))
        =
      some ([("decision", .str decision.wireValue)], []) := by
  have hkey := forall_unescaped_key "decision" (by simp)
  rw [members_last (string_unescaped hkey _)
    (value_string (string_unescaped (forall_unescaped_wireValue decision) ['\x7d']))]
  rw [String.ofList_toList, String.ofList_toList]

theorem members_of_unescaped {requestId : String} (h : ∀ c ∈ requestId.toList, Unescaped c)
    (decision : PairingDecision) (depth fuel : Nat)
    : members ofNumber depth (fuel + 3)
        ('"' :: ("request_id".toList ++ '"' :: ':' :: '"' :: (requestId.toList ++ afterId decision)))
        =
      some ([("request_id", .str requestId), ("decision", .str decision.wireValue)], []) := by
  have hkey := forall_unescaped_key "request_id" (by simp)
  have hmembers := members_cons (string_unescaped hkey _) (value_string (string_unescaped h _))
    (members_afterId ofNumber decision depth fuel)
  rw [String.ofList_toList, String.ofList_toList] at hmembers
  exact hmembers

end

variable {fromStr : String → Option Json}

theorem collect_request (requestId decision : Json)
    : collect [("request_id", requestId), ("decision", decision)]
        =
      [("decision", decision), ("request_id", requestId)] := by
  have hlt : "decision" < "request_id" := by decide
  simp [collect, SortedMap.insert, hlt]

theorem fromStr_of_unescaped (ofNumber : List Char → Option ℚ) {requestId : String}
    (h : ∀ c ∈ requestId.toList, Unescaped c) (decision : PairingDecision)
    : JsonText.fromStr ofNumber (beforeId ++ (requestId.toList ++ afterId decision))
        =
      some (.obj [("decision", .str decision.wireValue), ("request_id", .str requestId)]) := by
  have htext : beforeId ++ (requestId.toList ++ afterId decision)
      = '\x7b' :: '"' ::
          ("request_id".toList ++ '"' :: ':' :: '"' :: (requestId.toList ++ afterId decision)) := by
    simp only [beforeId, List.cons_append, List.append_assoc, List.nil_append]
  rw [htext, ← collect_request]
  apply fromStr_of_value (Nat.le_add_right _ 4)
  . apply value_object (by decide)
    exact members_of_unescaped ofNumber h decision _ _
  . rfl

theorem boltIpcSendDecision_of_unescaped (hjson : ReadsJson fromStr) {requestId : String}
    (h : ∀ c ∈ requestId.toList, Unescaped c) (decision : PairingDecision)
    : boltIpcSendDecision fromStr "pairing.decision" (IpcManager.decisionPayload requestId decision)
        =
      some (.newDecision "pairing.decision"
        (.obj [("decision", .str decision.wireValue), ("request_id", .str requestId)])) := by
  obtain ⟨ofNumber, hjson⟩ := hjson
  have htype : cStr "pairing.decision" = "pairing.decision" := by simp [cStr]
  have hpayload : cStr (IpcManager.decisionPayload requestId decision)
      = .ofList (beforeId ++ (requestId.toList ++ afterId decision)) := by
    have hnul : Char.ofNat 0 ∉ requestId.toList := fun hmem => absurd (h _ hmem).2.2 (by decide)
    rw [cStr, decisionPayload_toList, takeWhile_beforeId, takeWhile_of_nul_not_mem hnul]
  rw [boltIpcSendDecision, hpayload, hjson, String.toList_ofList, fromStr_of_unescaped ofNumber h, htype]
  rfl

/-! ### Other ids -/

theorem suffix_append_cases {l a b : List Char} (h : l <:+ a ++ b)
    : l <:+ b ∨ ∃ x, x <:+ a ∧ l = x ++ b := by
  obtain ⟨t, ht⟩ := h
  rcases List.append_eq_append_iff.mp ht with ⟨x, ha, hl⟩ | ⟨x, ht, hb⟩
  . exact Or.inr ⟨x, ⟨t, ha.symm⟩, hl⟩
  . exact Or.inl ⟨x, hb.symm⟩

/--
A literal that begins in the id, and so at most as long as the id, spells the id only if it is the id as
it stands.
-/
theorem unescaped_of_suffix {id part rest : List Char} {decision : PairingDecision} (hpart : part <:+ id)
    (h : string .none (part ++ afterId decision) = some (id, rest)) : ∀ c ∈ id, Unescaped c := by
  have hle := hpart.length_le
  rcases string_append h with ⟨rest', hstring⟩ | ⟨s₁, escape, s₂, hscan, hstring, hid⟩
  . have hlt := length_add_lt_of_string hstring
    omega
  have hle' := length_le_of_scan hscan
  rcases string_quote hstring with ⟨rfl, -⟩ | ⟨rfl, s', rfl, htail⟩
  . rw [List.append_nil] at hid
    have hlength : id.length = s₁.length := congrArg List.length hid
    rcases scan_none hscan with hunescaped | hlt
    . have heq : part = id := hpart.eq_of_length (by omega)
      exact heq ▸ hunescaped
    . omega
  . -- the quote after the id is escaped: so the id ends in a backslash, and what it spells in a comma
    have hcomma := string_unescaped (List.forall_mem_singleton.mpr (by decide : Unescaped ','))
      ("decision".toList ++ '"' :: ':' :: '"' :: (decision.wireValue.toList ++ ['"', '\x7d']))
    rw [List.singleton_append, htail, Option.some.injEq, Prod.mk.injEq] at hcomma
    rcases scan_slash hscan with ⟨-, hnone⟩ | ⟨part', rfl⟩
    . cases hnone
    . obtain ⟨before, hbefore⟩ := hpart
      rw [hid, hcomma.1] at hbefore
      have hlast := congrArg List.getLast? hbefore
      simp at hlast

theorem length_takeWhile_append_le {p : Char → Bool} {a b : List Char} {c : Char} (h : p c = false)
    : ((a ++ c :: b).takeWhile p).length ≤ a.length := by
  induction a with
  | nil => simp [h]
  | cons d a ih =>
    rw [List.cons_append, List.takeWhile_cons]
    split
    . simpa using ih
    . simp

theorem unescaped_of_literal {id literal rest : List Char} {decision : PairingDecision}
    (hliteral : literal <:+ (id ++ afterId decision).takeWhile (· ≠ Char.ofNat 0))
    (h : string .none literal = some (id, rest)) : ∀ c ∈ id, Unescaped c := by
  by_cases hnul : Char.ofNat 0 ∈ id
  . -- what is read ends at the first NUL, so it is too short to spell the id
    have hlt := length_add_lt_of_string h
    have hle := hliteral.length_le
    obtain ⟨a, b, rfl⟩ := List.append_of_mem hnul
    have hle' := length_takeWhile_append_le (p := fun c => decide (c ≠ Char.ofNat 0))
      (a := a) (b := b ++ afterId decision) (c := Char.ofNat 0) (by decide)
    rw [List.append_assoc, List.cons_append] at hle
    simp only [List.length_append, List.length_cons] at hlt
    omega
  . have hself : (id ++ afterId decision).takeWhile (· ≠ Char.ofNat 0) = id ++ afterId decision := by
      apply takeWhile_of_nul_not_mem hnul
    rw [hself] at hliteral
    rcases suffix_append_cases hliteral with hafter | ⟨part, hpart, rfl⟩
    . exact unescaped_of_no_slash (fun hslash => slash_not_mem (afterId_chars decision) (hafter.subset hslash)) h
    . exact unescaped_of_suffix hpart h

/--
A literal that begins before the id ends there, unless it is the one that holds the id.
-/
theorem literal_beforeId {x : List Char} (h : '"' :: x <:+ beforeId)
    : x = [] ∨ ∃ s rest, (∀ c ∈ s, Unescaped c) ∧ string .none x = some (s, rest) := by
  have hkey := forall_unescaped_key "request_id" (by simp)
  have hcolon : '"' :: x <:+ ['"', ':', '"']
      → x = [] ∨ ∃ s rest, (∀ c ∈ s, Unescaped c) ∧ string .none x = some (s, rest) := by
    intro hx
    simp only [List.suffix_cons_iff, List.cons.injEq, List.suffix_nil, reduceCtorEq, or_false,
      Char.reduceEq, false_and, true_and, false_or] at hx
    rcases hx with rfl | rfl
    . exact Or.inr ⟨[':'], [], List.forall_mem_singleton.mpr (by decide), rfl⟩
    . exact Or.inl rfl
  rw [beforeId, List.suffix_cons_iff, List.suffix_cons_iff] at h
  rcases h with h | h | h
  . cases h
  . obtain rfl := (List.cons.inj h).2
    exact Or.inr ⟨_, _, hkey, string_unescaped hkey [':', '"']⟩
  . rcases suffix_append_cases h with hx | ⟨y, hy, heq⟩
    . exact hcolon hx
    . cases y with
      | nil => exact hcolon (heq ▸ List.suffix_rfl)
      | cons c y =>
        obtain rfl := (List.cons.inj heq).1
        exact absurd rfl (hkey _ (hy.subset List.mem_cons_self)).1

theorem unescaped_of_spells {id : String} {decision : PairingDecision}
    (h : Spells (cStr (IpcManager.decisionPayload id decision)).toList id)
    : ∀ c ∈ id.toList, Unescaped c := by
  obtain ⟨literal, rest, hliteral, hstring⟩ := h
  rw [cStr, String.toList_ofList, decisionPayload_toList, takeWhile_beforeId] at hliteral
  rcases suffix_append_cases hliteral with hafter | ⟨x, hx, heq⟩
  . exact unescaped_of_literal ((List.suffix_cons _ _).trans hafter) hstring
  . cases x with
    | nil => exact unescaped_of_literal (heq ▸ List.suffix_cons _ _) hstring
    | cons c x =>
      rw [List.cons_append, List.cons.injEq] at heq
      obtain ⟨rfl, rfl⟩ := heq
      rcases literal_beforeId hx with rfl | ⟨s, rest', hs, hclosed⟩
      . exact unescaped_of_literal List.suffix_rfl hstring
      . rw [string_append_of_string hclosed, Option.some.injEq, Prod.mk.injEq] at hstring
        exact hstring.1 ▸ hs

/-! ### Which ids arrive -/

/--
The id as a text stands for itself between the quotes of a JSON string.
-/
def PlainId (requestId : String) : Prop :=
  ∀ c ∈ requestId.toList, c ≠ '"' ∧ c ≠ '\\' ∧ 0x20 ≤ c.toNat

theorem decision_arrives_iff (hjson : ReadsJson fromStr) (requestId : String) (decision : PairingDecision)
    : DecisionArrives fromStr requestId decision ↔ PlainId requestId := by
  constructor
  . rintro ⟨msg, hsent, -, d, hpayload, hid, -, -⟩
    obtain ⟨ofNumber, hread⟩ := hjson
    simp only [boltIpcSendDecision, Option.bind_eq_bind, Option.bind_eq_some_iff, Option.some.injEq] at hsent
    obtain ⟨payload, hfrom, rfl⟩ := hsent
    rw [hread] at hfrom
    have hmem : ("request_id", Json.str requestId) ∈ d := by
      obtain ⟨l₁, l₂, hd, -⟩ := List.lookup_eq_some_iff.mp hid
      rw [hd]
      simp
    have hstring : HasString requestId payload := by
      rw [show payload = .obj d from hpayload]
      exact HasString.obj hmem HasString.str
    exact unescaped_of_spells (spelled_of_fromStr hfrom requestId hstring)
  . intro hplain
    refine ⟨_, boltIpcSendDecision_of_unescaped hjson hplain decision, rfl, _, rfl, ?_, ?_, ?_⟩
    . simp [Dict.get?, List.lookup_cons]
    . simp [Dict.get?]
    . simp

theorem decision_arrives_for_plain_id
    : DecisionArrives (fun text => JsonText.fromStr (fun _ => none) text.toList) "req-1" .allowAlways := by
  apply (decision_arrives_iff ⟨fun _ => none, fun _ => rfl⟩ "req-1" .allowAlways).mpr
  simp [PlainId]

theorem quoted_id_is_refused
    : ¬DecisionArrives (fun text => JsonText.fromStr (fun _ => none) text.toList) "a\"b" .denyOnce := by
  rintro ⟨msg, hsent, -⟩
  have hnone : boltIpcSendDecision (fun text => JsonText.fromStr (fun _ => none) text.toList)
      "pairing.decision" (IpcManager.decisionPayload "a\"b" .denyOnce) = none := by
    decide +kernel
  rw [hnone] at hsent
  cases hsent

end Bridge

end LocalBolt
