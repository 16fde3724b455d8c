import LocalBolt.Cli.Impl.EventLoop
import LocalBolt.Cli.Lemmas.HandleEvent

/-!
This module contains how the requests among the messages are answered, and what the client tells its user
about it.
-/

namespace LocalBolt

namespace Cli

inductive Request where
  | pairing (req : PairingRequestPayload)
  | transfer (req : TransferIncomingRequestPayload)

def request? (env : Env) (msg : IpcMessage Value) : Option Request :=
  match msg.msgType with
  | "pairing.request" => (env.pairingRequest msg.payload).map .pairing
  | "transfer.incoming.request" => (env.transferRequest msg.payload).map .transfer
  | _ => none

namespace Request

/--
The line read for the request is one of its allow words.
-/
def Allows (r : Request) (input : Option String) : Prop :=
  match r, input with
  | _, none => False
  | .pairing _, some line => toAsciiLowercase (trim line) ∈ ["y", "yes", "a", "always"]
  | .transfer _, some line => toAsciiLowercase (trim line) = "y"

/--
The line asks to remember that the peer is allowed.
-/
def Always (r : Request) (input : Option String) : Prop :=
  match r, input with
  | .pairing _, some line => toAsciiLowercase (trim line) ∈ ["a", "always"]
  | _, _ => False

def answer (env : Env) (r : Request) (decision : Decision) : Option (IpcMessage Value) :=
  match r with
  | .pairing req =>
    (env.pairingDecision { requestId := req.requestId, decision, note := none }).map
      (.newDecision "pairing.decision")
  | .transfer req =>
    (env.transferDecision { requestId := req.requestId, decision, note := none }).map
      (.newDecision "transfer.incoming.decision")

def outcomeLine (r : Request) (word : String) : Effect :=
  match r with
  | .pairing _ => .out ("[pairing] " ++ word)
  | .transfer _ => .out ("[transfer] " ++ word)

end Request

/-! ### The decision -/

namespace Request

def choice (r : Request) (input : Option String) : Decision :=
  match r with
  | .pairing _ => pairingChoice input
  | .transfer _ => transferChoice input

def refused (r : Request) : String :=
  match r with
  | .pairing _ => "denied"
  | .transfer _ => "declined"

theorem isAllow_parsePairingChoice (line : String)
    : (parsePairingChoice line).isAllow = true
        ↔
      toAsciiLowercase (trim line) ∈ ["y", "yes", "a", "always"] := by
  unfold parsePairingChoice
  generalize toAsciiLowercase (trim line) = word
  split <;> simp_all [PairingDecision.isAllow]

theorem parsePairingChoice_eq_allowAlways_iff (line : String)
    : parsePairingChoice line = .allowAlways ↔ toAsciiLowercase (trim line) ∈ ["a", "always"] := by
  unfold parsePairingChoice
  generalize toAsciiLowercase (trim line) = word
  split <;> simp_all

theorem isAllow_choice (r : Request) (input : Option String)
    : (r.choice input).isAllow = true ↔ r.Allows input := by
  have hword : toAsciiLowercase "y" = "y" := by simp [toAsciiLowercase]
  cases r with
  | pairing req =>
    cases input with
    | none => simp [choice, pairingChoice, Allows, PairingDecision.isAllow]
    | some line => exact isAllow_parsePairingChoice line
  | transfer req =>
    cases input with
    | none => simp [choice, transferChoice, Allows, PairingDecision.isAllow]
    | some line =>
      simp only [choice, transferChoice, Allows, eqIgnoreAsciiCase, hword, decide_eq_true_eq]
      split <;> simp_all [PairingDecision.isAllow]

theorem choice_eq_allowAlways_iff (r : Request) (input : Option String)
    : r.choice input = .allowAlways ↔ r.Always input := by
  cases r with
  | pairing req =>
    cases input with
    | none => simp [choice, pairingChoice, Always]
    | some line => exact parsePairingChoice_eq_allowAlways_iff line
  | transfer req =>
    cases input with
    | none => simp [choice, transferChoice, Always]
    | some line =>
      simp only [choice, transferChoice, Always, iff_false]
      split <;> simp

/--
The label says what the decision is, but for the one that is to be remembered.
-/
theorem label_eq_accepted_iff (r : Request) (decision : Decision)
    : (label decision r.refused = "accepted" ↔ decision.isAllow = true) ↔ decision ≠ .allowAlways := by
  cases r <;> cases decision <;> simp [label, refused, PairingDecision.isAllow]

theorem outcomeLine_inj {r : Request} {word word' : String}
    : r.outcomeLine word = r.outcomeLine word' ↔ word = word' := by
  cases r <;> simp [outcomeLine]

end Request

/-! ### One message -/

theorem reads_append (l l' : List Effect) : reads (l ++ l') = reads l ++ reads l' := List.filterMap_append

theorem writes_append (l l' : List Effect) : writes (l ++ l') = writes l ++ writes l' :=
  List.filterMap_append

theorem reads_writeMessage (env : Env) (c : Console) (msg : IpcMessage Value) (report : String)
    : reads (writeMessage env c msg report) = [] := by
  unfold writeMessage
  split <;> rfl

theorem writes_writeMessage (env : Env) (c : Console) (msg : IpcMessage Value) (report : String)
    : writes (writeMessage env c msg report) = [msg] := by
  unfold writeMessage
  split <;> rfl

/--
What the client does about a request, with the line it reads for it.
-/
structure Exchange (env : Env) (r : Request) (input : Option String) (effects : List Effect) : Prop where
  reads : reads effects = [input]
  writes : (writes effects).map some = [r.answer env (r.choice input)]
  outcome : effects.getLast? = some (r.outcomeLine (label (r.choice input) r.refused))

theorem pairingRequestEvent_exchange {env : Env} (henv : env.Serializes) (c : Console)
    (req : PairingRequestPayload)
    : ∃ effects, pairingRequestEvent env c req = some effects ∧
        Exchange env (.pairing req) (env.stdin c.reads) effects := by
  obtain ⟨payload, hpayload⟩ := Option.isSome_iff_exists.mp (henv
    { requestId := req.requestId, decision := pairingChoice (env.stdin c.reads), note := none }).1
  refine ⟨_, by rw [pairingRequestEvent, hpayload]; rfl, ?_, ?_, ?_⟩
  . have hsas : reads (if req.sas.isEmpty then [] else [.out ("          SAS: " ++ req.sas)]) = [] := by
      split <;> rfl
    simp only [reads_append, reads_writeMessage, hsas]
    rfl
  . have hsas : writes (if req.sas.isEmpty then [] else [.out ("          SAS: " ++ req.sas)]) = [] := by
      split <;> rfl
    simp only [writes_append, writes_writeMessage, hsas, Request.answer, Request.choice, hpayload]
    rfl
  . exact List.getLast?_concat

theorem transferRequestEvent_exchange {env : Env} (henv : env.Serializes) (c : Console)
    (req : TransferIncomingRequestPayload)
    : ∃ effects, transferRequestEvent env c req = some effects ∧
        Exchange env (.transfer req) (env.stdin c.reads) effects := by
  obtain ⟨payload, hpayload⟩ := Option.isSome_iff_exists.mp (henv
    { requestId := req.requestId, decision := transferChoice (env.stdin c.reads), note := none }).2
  refine ⟨_, by rw [transferRequestEvent, hpayload]; rfl, ?_, ?_, ?_⟩
  . simp only [reads_append, reads_writeMessage]
    rfl
  . simp only [writes_append, writes_writeMessage, Request.answer, Request.choice, hpayload]
    rfl
  . exact List.getLast?_concat

theorem handleEvent_request {env : Env} (henv : env.Serializes) (c : Console) {msg : IpcMessage Value}
    {r : Request} (h : request? env msg = some r)
    : ∃ effects, handleEvent env c msg = some effects ∧ Exchange env r (env.stdin c.reads) effects := by
  unfold request? at h
  split at h
  . next htype =>
    obtain ⟨req, hreq, rfl⟩ := Option.map_eq_some_iff.mp h
    have hevent : handleEvent env c msg = pairingRequestEvent env c req := by
      simp [handleEvent, htype, hreq]
    rw [hevent]
    exact pairingRequestEvent_exchange henv c req
  . next htype =>
    obtain ⟨req, hreq, rfl⟩ := Option.map_eq_some_iff.mp h
    have hevent : handleEvent env c msg = transferRequestEvent env c req := by
      simp [handleEvent, htype, hreq]
    rw [hevent]
    exact transferRequestEvent_exchange henv c req
  . cases h

/--
Nothing is read and nothing written.
-/
def OnlyPrints (effects : List Effect) : Prop := reads effects = [] ∧ writes effects = []

theorem onlyPrints_sessionConnectedEvent {msg : IpcMessage Value} {effects : List Effect}
    (h : sessionConnectedEvent msg = some effects) : OnlyPrints effects := by
  simp only [sessionConnectedEvent, Option.bind_eq_bind, Option.bind_eq_some_iff, Option.some.injEq] at h
  obtain ⟨shown, -, rfl⟩ := h
  exact ⟨rfl, rfl⟩

theorem onlyPrints_transferProgressEvent (env : Env) (msg : IpcMessage Value)
    : OnlyPrints (transferProgressEvent env msg) := by
  unfold transferProgressEvent
  dsimp only
  split <;> exact ⟨rfl, rfl⟩

/--
Any other message is only reported.
-/
theorem handleEvent_other {env : Env} {c : Console} {msg : IpcMessage Value} {effects : List Effect}
    (h : request? env msg = none) (heffects : handleEvent env c msg = some effects)
    : OnlyPrints effects := by
  have hlist : ∀ {l : List Effect}, OnlyPrints l → some l = some effects → OnlyPrints effects :=
    fun hl heq => Option.some.inj heq ▸ hl
  unfold handleEvent at heffects
  split at heffects
  case h_1 =>
    apply hlist _ heffects
    unfold versionStatusEvent
    dsimp only
    split <;> exact ⟨rfl, rfl⟩
  case h_3 => exact onlyPrints_sessionConnectedEvent heffects
  case h_7 htype =>
    simp only [request?, htype, Option.map_eq_none_iff] at h
    rw [h] at heffects
    exact hlist ⟨rfl, rfl⟩ heffects
  case h_8 htype =>
    simp only [request?, htype, Option.map_eq_none_iff] at h
    rw [h] at heffects
    exact hlist ⟨rfl, rfl⟩ heffects
  case h_10 => exact hlist (onlyPrints_transferProgressEvent env msg) heffects
  case h_14 =>
    split at heffects
    . exact hlist ⟨rfl, rfl⟩ heffects
    . exact hlist ⟨rfl, rfl⟩ heffects
  all_goals exact hlist ⟨rfl, rfl⟩ heffects

/-! ### A run -/

section

variable {env : Env}

def passAll (env : Env) (msgs : List (IpcMessage Value)) : EventLoop :=
  msgs.foldl (EventLoop.pass env) .start

theorem passAll_append (msgs msgs' : List (IpcMessage Value))
    : passAll env (msgs ++ msgs') = msgs'.foldl (EventLoop.pass env) (passAll env msgs) :=
  List.foldl_append

/--
The requests among the messages.
-/
def requestCount (env : Env) (msgs : List (IpcMessage Value)) : Nat :=
  msgs.countP fun msg => (request? env msg).isSome

theorem pass_of_not_running {s : EventLoop} (h : s.running = false) (msg : IpcMessage Value)
    : s.pass env msg = s := by
  unfold EventLoop.pass
  rw [h]
  exact if_neg Bool.false_ne_true

theorem foldl_pass_of_not_running {s : EventLoop} (h : s.running = false)
    (msgs : List (IpcMessage Value)) : msgs.foldl (EventLoop.pass env) s = s := by
  induction msgs with
  | nil => rfl
  | cons msg msgs ih => rw [List.foldl_cons, pass_of_not_running h, ih]

theorem passed_prefix_pass (env : Env) (s : EventLoop) (msg : IpcMessage Value)
    : s.passed <+: (s.pass env msg).passed := by
  unfold EventLoop.pass
  split
  . exact List.prefix_append _ _
  . exact List.prefix_rfl

theorem passed_prefix_foldl (env : Env) (s : EventLoop) (msgs : List (IpcMessage Value))
    : s.passed <+: (msgs.foldl (EventLoop.pass env) s).passed := by
  induction msgs generalizing s with
  | nil => exact List.prefix_rfl
  | cons msg msgs ih => exact (passed_prefix_pass env s msg).trans (ih _)

theorem length_passed_pass_le (env : Env) (s : EventLoop) (msg : IpcMessage Value)
    : (s.pass env msg).passed.length ≤ s.passed.length + 1 := by
  unfold EventLoop.pass
  split
  . simp
  . simp

theorem length_passed_le (env : Env) (msgs : List (IpcMessage Value))
    : (passAll env msgs).passed.length ≤ msgs.length := by
  induction msgs using List.reverseRecOn with
  | nil => exact le_rfl
  | append_singleton msgs msg ih =>
    have hle := length_passed_pass_le env (passAll env msgs) msg
    rw [passAll_append, List.length_append]
    exact hle.trans (Nat.succ_le_succ ih)

/--
Messages none of which panics are all passed on, and one line has been read for each request among them.
-/
structure Kept (env : Env) (msgs : List (IpcMessage Value)) : Prop where
  running : (passAll env msgs).running = true
  length : (passAll env msgs).passed.length = msgs.length
  reads : (passAll env msgs).console.reads = requestCount env msgs

theorem reads_of_handleEvent (henv : env.Serializes) {c : Console} {msg : IpcMessage Value}
    {effects : List Effect} (h : handleEvent env c msg = some effects)
    : (reads effects).length = requestCount env [msg] := by
  cases hrequest : request? env msg with
  | none =>
    rw [(handleEvent_other hrequest h).1]
    simp [requestCount, hrequest]
  | some r =>
    obtain ⟨effects', heffects', hexchange⟩ := handleEvent_request henv c hrequest
    rw [h, Option.some.injEq] at heffects'
    rw [heffects', hexchange.reads]
    simp [requestCount, hrequest]

theorem kept (henv : env.Serializes) {msgs : List (IpcMessage Value)}
    (h : ∀ msg ∈ msgs, ¬SplitsCharacter msg) : Kept env msgs := by
  induction msgs using List.reverseRecOn with
  | nil => exact ⟨rfl, rfl, rfl⟩
  | append_singleton msgs msg ih =>
    obtain ⟨hmsgs, hmsg⟩ := List.forall_mem_append.mp h
    obtain ⟨hrunning, hlength, hreads⟩ := ih hmsgs
    obtain ⟨effects, heffects⟩ := Option.isSome_iff_exists.mp
      ((handleEvent_returns_iff henv (passAll env msgs).console msg).mpr (hmsg msg (List.mem_singleton_self msg)))
    have hcount := reads_of_handleEvent henv heffects
    have hpass : passAll env (msgs ++ [msg]) = (passAll env msgs).pass env msg := passAll_append msgs [msg]
    refine ⟨?_, ?_, ?_⟩
    . simp [hpass, EventLoop.pass, hrunning, heffects]
    . simp [hpass, EventLoop.pass, hrunning, hlength]
    . simp [hpass, EventLoop.pass, hrunning, heffects, Console.after, hreads, hcount, requestCount]

theorem passed_of_kept (henv : env.Serializes) {before after : List (IpcMessage Value)}
    {msg : IpcMessage Value} (h : ∀ m ∈ before, ¬SplitsCharacter m)
    : (passAll env (before ++ msg :: after)).passed[before.length]?
        =
      some (msg, handleEvent env (passAll env before).console msg) := by
  obtain ⟨hrunning, hlength, -⟩ := kept henv h
  have hpass : ((passAll env before).pass env msg).passed
      = (passAll env before).passed ++ [(msg, handleEvent env (passAll env before).console msg)] := by
    simp [EventLoop.pass, hrunning]
  obtain ⟨more, hmore⟩ := passed_prefix_foldl env ((passAll env before).pass env msg) after
  rw [passAll_append, List.foldl_cons, ← hmore, hpass, ← hlength]
  simp

theorem passed_after_panic (henv : env.Serializes) {before after : List (IpcMessage Value)}
    {msg : IpcMessage Value} (h : SplitsCharacter msg) {i : Nat} (hi : before.length < i)
    : (passAll env (before ++ msg :: after)).passed[i]? = none := by
  have hstopped : ((passAll env before).pass env msg).running = false := by
    unfold EventLoop.pass
    split
    . have hpanic := mt (handleEvent_returns_iff henv (passAll env before).console msg).mp (not_not_intro h)
      exact Bool.eq_false_iff.mpr hpanic
    . next hrunning => exact Bool.eq_false_iff.mpr hrunning
  rw [passAll_append, List.foldl_cons, foldl_pass_of_not_running hstopped, List.getElem?_eq_none_iff]
  have hle := length_passed_le env before
  have hle' := length_passed_pass_le env (passAll env before) msg
  omega

end

/-! ### Honest prompts -/

/--
The request is answered by one decision, which allows only if the line read for the request says so, and
the outcome is printed as it is.
-/
def Answered (env : Env) (r : Request) (input : Option String) (effects : List Effect) : Prop :=
  ∃ decision word,
    reads effects = [input] ∧
      (writes effects).map some = [r.answer env decision] ∧
      (decision.isAllow = true ↔ r.Allows input) ∧
      effects.getLast? = some (r.outcomeLine word) ∧
      (word = "accepted" ↔ decision.isAllow = true)

/--
The line that is read for the `i`-th message, when it is a request.
-/
def lineFor (env : Env) (msgs : List (IpcMessage Value)) (i : Nat) : Option String :=
  env.stdin (requestCount env (msgs.take i))

def PromptsHonest (env : Env) (msgs : List (IpcMessage Value)) : Prop :=
  (∀ i msg r, msgs[i]? = some msg → request? env msg = some r →
    ∃ effects, (passAll env msgs).passed[i]? = some (msg, some effects) ∧
      Answered env r (lineFor env msgs i) effects) ∧
    ∀ msg effects, (msg, some effects) ∈ (passAll env msgs).passed → request? env msg = none →
      writes effects = []

theorem Exchange.answered_iff {env : Env} {r : Request} {input : Option String} {effects : List Effect}
    (h : Exchange env r input effects) : Answered env r input effects ↔ ¬r.Always input := by
  rw [← Request.choice_eq_allowAlways_iff]
  constructor
  . rintro ⟨decision, word, -, -, hallow, hlast, hword⟩ hchoice
    rw [h.outcome, Option.some.injEq, Request.outcomeLine_inj] at hlast
    have hchosen : (r.choice input).isAllow = true := by rw [hchoice]; rfl
    have haccepted : word = "accepted" :=
      hword.mpr (hallow.mpr ((Request.isAllow_choice r input).mp hchosen))
    apply (Request.label_eq_accepted_iff r (r.choice input)).mp _ hchoice
    exact ⟨fun _ => hchosen, fun _ => hlast.trans haccepted⟩
  . intro hchoice
    refine ⟨r.choice input, _, h.reads, h.writes, Request.isAllow_choice r input, h.outcome, ?_⟩
    exact (Request.label_eq_accepted_iff r _).mpr hchoice

theorem forall_mem_passed (env : Env) (msgs : List (IpcMessage Value))
    : ∀ p ∈ (passAll env msgs).passed, ∃ c, p.2 = handleEvent env c p.1 := by
  induction msgs using List.reverseRecOn with
  | nil => exact List.forall_mem_nil _
  | append_singleton msgs msg ih =>
    rw [passAll_append, List.foldl_cons, List.foldl_nil]
    unfold EventLoop.pass
    split
    . intro p hp
      rcases List.mem_append.mp hp with hmem | hmem
      . exact ih p hmem
      . rw [List.mem_singleton.mp hmem]
        exact ⟨_, rfl⟩
    . exact ih

/--
A request is answered as it should be if no message before it makes the client panic and its line does not
ask to remember that the peer is allowed.
-/
theorem answered_iff {env : Env} (henv : env.Serializes) {msgs : List (IpcMessage Value)} {i : Nat}
    {msg : IpcMessage Value} {r : Request} (hget : msgs[i]? = some msg) (hrequest : request? env msg = some r)
    : (∃ effects, (passAll env msgs).passed[i]? = some (msg, some effects) ∧
          Answered env r (lineFor env msgs i) effects)
        ↔
      (∀ m ∈ msgs.take i, ¬SplitsCharacter m) ∧ ¬r.Always (lineFor env msgs i) := by
  obtain ⟨hi, hmsg⟩ := List.getElem?_eq_some_iff.mp hget
  have hlength : (msgs.take i).length = i := List.length_take_of_le (Nat.le_of_lt hi)
  by_cases hquiet : ∀ m ∈ msgs.take i, ¬SplitsCharacter m
  . have hsplit : msgs = msgs.take i ++ msg :: msgs.drop (i + 1) := by
      rw [← hmsg, ← List.drop_eq_getElem_cons hi, List.take_append_drop]
    obtain ⟨effects, heffects, hexchange⟩ :=
      handleEvent_request henv (passAll env (msgs.take i)).console hrequest
    have hpassed : (passAll env msgs).passed[i]? = some (msg, some effects) := by
      have hkept : (passAll env (msgs.take i ++ msg :: msgs.drop (i + 1))).passed[(msgs.take i).length]?
          = some (msg, handleEvent env (passAll env (msgs.take i)).console msg) :=
        passed_of_kept henv hquiet
      rw [← hsplit, hlength, heffects] at hkept
      exact hkept
    have hline : env.stdin (passAll env (msgs.take i)).console.reads = lineFor env msgs i := by
      rw [lineFor, (kept henv hquiet).reads]
    rw [hline] at hexchange
    rw [hpassed, ← hexchange.answered_iff]
    simp only [Option.some.injEq, Prod.mk.injEq, true_and, exists_eq_left', and_iff_right hquiet]
  . simp only [hquiet, false_and, iff_false, not_exists, not_and]
    intro effects heffects
    simp only [not_forall, not_not] at hquiet
    obtain ⟨m, hm, hsplits⟩ := hquiet
    obtain ⟨before, between, hbefore⟩ := List.append_of_mem hm
    have hlt : before.length < i := by
      rw [hbefore, List.length_append, List.length_cons] at hlength
      omega
    have hsplit : msgs = before ++ m :: (between ++ msgs.drop i) := by
      rw [← List.cons_append, ← List.append_assoc, ← hbefore, List.take_append_drop]
    rw [hsplit, passed_after_panic henv hsplits hlt] at heffects
    cases heffects

theorem prompts_honest_iff {env : Env} (henv : env.Serializes) (msgs : List (IpcMessage Value))
    : PromptsHonest env msgs ↔
        ∀ i msg r, msgs[i]? = some msg → request? env msg = some r →
          (∀ m ∈ msgs.take i, ¬SplitsCharacter m) ∧ ¬r.Always (lineFor env msgs i) := by
  constructor
  . intro h i msg r hget hrequest
    exact (answered_iff henv hget hrequest).mp (h.1 i msg r hget hrequest)
  . intro h
    refine ⟨fun i msg r hget hrequest => ?_, fun msg effects hmem hrequest => ?_⟩
    . exact (answered_iff henv hget hrequest).mpr (h i msg r hget hrequest)
    . obtain ⟨c, hc⟩ := forall_mem_passed env msgs _ hmem
      exact (handleEvent_other hrequest hc.symm).2

def pairingRequest (requestId : String) : IpcMessage Value where
  msgType := "pairing.request"
  kind := .event
  payload := .object [("request_id", .string requestId), ("remote_device_name", .string "Phone"),
    ("remote_device_type", .string "phone"), ("sas", .string "482913"),
    ("capabilities_requested", .array [])]

def pairingRequestPayload (requestId : String) : PairingRequestPayload where
  requestId
  remoteDeviceName := "Phone"
  remoteDeviceType := "phone"
  sas := "482913"
  capabilitiesRequested := []

theorem request?_pairingRequest (typed : List String) (requestId : String)
    : request? (Env.plain typed []) (pairingRequest requestId)
        =
      some (.pairing (pairingRequestPayload requestId)) := by
  rfl

theorem prompts_honest_for_yes : PromptsHonest (Env.plain ["y\n"] []) [pairingRequest "req-1"] := by
  apply (prompts_honest_iff (serializes_plain ["y\n"] []) [pairingRequest "req-1"]).mpr
  intro i msg r hget hrequest
  obtain ⟨rfl, rfl⟩ : i = 0 ∧ msg = pairingRequest "req-1" := by
    rw [List.getElem?_singleton] at hget
    split at hget
    . next hi => exact ⟨hi, (Option.some.inj hget).symm⟩
    . cases hget
  rw [request?_pairingRequest, Option.some.injEq] at hrequest
  refine ⟨List.forall_mem_nil _, ?_⟩
  rw [← hrequest]
  show ¬toAsciiLowercase (trim "y\n") ∈ ["a", "always"]
  simp [toAsciiLowercase, trim, isWhitespace]

theorem always_is_reported_as_denied
    : ¬PromptsHonest (Env.plain ["always\n"] []) [pairingRequest "req-1"] := by
  intro h
  have hrequest := request?_pairingRequest ["always\n"] "req-1"
  apply ((answered_iff (serializes_plain ["always\n"] []) rfl hrequest).mp (h.1 0 _ _ rfl hrequest)).2
  show toAsciiLowercase (trim "always\n") ∈ ["a", "always"]
  simp [toAsciiLowercase, trim, isWhitespace]

end Cli

end LocalBolt
