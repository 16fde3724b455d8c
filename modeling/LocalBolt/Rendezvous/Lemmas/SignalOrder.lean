import LocalBolt.Machine.Flow
import LocalBolt.Rendezvous.Lemmas.Relay
import LocalBolt.Rendezvous.Lemmas.Speakers

/-!
This module contains the relay of signals over whole runs: the handler of a connection deals with each
signal that it takes on once and in its turn, and a channel holds the signals that were relayed to it,
in order, and no others.
-/

namespace LocalBolt

namespace Rendezvous

/--
A signal that a handler has taken on.
-/
structure SignalRequest where
  target : String
  payload : Json

namespace Handler

/--
The signal that the handler is busy with.
-/
def Pc.request : Pc → Option SignalRequest
  | .finding _ target payload _ | .relaying _ target payload _ => some { target, payload }
  | _ => none

/--
What is left of it after a step.
-/
def Pc.kept : Pc → Option SignalRequest
  | .relaying .. => none
  | pc => pc.request

/--
The signal in a frame, if the handler takes it on: it must be in its message loop, and the frame within
the limits and for a well formed peer code.
-/
def accepted (fromStr : String → Except String ClientMessage) (h : Handler) (received : Received)
    (now : Nat) : Option SignalRequest :=
  match h.pc, received with
  | .serving _, .message (.text text) =>
    match (h.rateLimit.check now).2, validateMessageSize text.utf8ByteSize, fromStr text with
    | .ok (), .ok (), .ok (.signal target payload) | .ok (), .ok (), .ok (.manualSignal target payload) =>
      match validateSignalTarget target with
      | .ok target => some { target, payload }
      | .error _ => none
    | _, _, _ => none
  | _, _ => none

end Handler

namespace Server

def pending (s : Server) (conn : PeerSender) : List SignalRequest :=
  ((s.handlers conn).bind (·.pc.request)).toList

/--
The signal that the step makes the handler of the connection take on.
-/
def takenOn (fromStr : String → Except String ClientMessage) (conn : PeerSender)
    (t : Transition Server Action) : List SignalRequest :=
  match t.action with
  | .receive conn' received now =>
    if conn' = conn then ((t.source.handlers conn).bind (·.accepted fromStr received now)).toList
    else []
  | _ => []

/--
The signal that the handler of the connection is done with after the step.
-/
def dealtWith (conn : PeerSender) (t : Transition Server Action) : List SignalRequest :=
  match t.action with
  | .step conn' =>
    if conn' = conn then
      match (t.source.handlers conn).map fun h => h.pc with
      | some (Handler.Pc.relaying _ target payload _) => [{ target, payload }]
      | _ => []
    else []
  | _ => []

def reached (s : Server) : RoomManager.ManualPeerLookup → Option PeerSender
  | .found sender => if (s.channels sender).closed then none else some sender
  | _ => none

/--
The signal that the step brings to the peer, under the peer code of its sender.
-/
def relayedTo (peer : PeerSender) (t : Transition Server Action) : List (String × Json) :=
  match t.action with
  | .step conn =>
    match (t.source.handlers conn).map fun h => h.pc with
    | some (Handler.Pc.relaying me _ payload found) =>
      if t.source.reached found = some peer then [(me.peerCode, payload)] else []
    | _ => []
  | _ => []

def relayedBetween (conn peer : PeerSender) (t : Transition Server Action) : List (String × Json) :=
  if t.action.connection = conn then relayedTo peer t else []

def signal? : ServerMessage → Option (String × Json)
  | .signal fromPeer payload => some (fromPeer, payload)
  | _ => none

def signals (channel : Channel) : List (String × Json) := channel.messages.filterMap signal?

variable {fromStr : String → Except String ClientMessage} {s s' : Server} {conn : PeerSender}
  {h : Handler} {e : Effect}

/-! ### Channels -/

theorem signal?_eq_none_iff {m : ServerMessage} : signal? m = none ↔ m.signalFrom = none := by
  cases m <;> simp [signal?, ServerMessage.signalFrom]

theorem signals_push (channel : Channel) (messages : List ServerMessage)
    : signals (channel.push messages)
        =
      signals channel ++ if channel.closed then [] else messages.filterMap signal? := by
  unfold signals Channel.push
  split
  . rw [List.append_nil]
  . rw [List.filterMap_append]

theorem signals_deliver_of_none (channels : PeerSender → Channel)
    {sent : List (PeerSender × ServerMessage)} (hsent : ∀ message ∈ sent, message.2.signalFrom = none)
    (peer : PeerSender) : signals (deliver channels sent peer) = signals (channels peer) := by
  have hnone : ((sent.filter fun m => m.1 = peer).map (·.2)).filterMap signal? = [] := by
    rw [List.filterMap_eq_nil_iff]
    intro m hm
    exact signal?_eq_none_iff.mpr (hsent _ (mem_delivered hm))
  unfold deliver
  rw [signals_push, hnone, ite_self, List.append_nil]

theorem signals_respond {input : Handler.Input} {p : Handler × List ServerMessage}
    (hp : h.next fromStr conn input = some p) (peer : PeerSender) :
    signals ((s.respond conn p).channels peer) = signals (s.channels peer) := by
  apply signals_deliver_of_none
  intro message hmessage
  obtain ⟨m, hm, rfl⟩ := List.mem_map.mp hmessage
  exact signalFrom_replies hp m hm

theorem signals_run (hrun : s.run fromStr conn h e = some s') (peer : PeerSender) :
    signals (s'.channels peer) = signals (deliver s.channels e.sent peer) := by
  unfold run at hrun
  dsimp only at hrun
  split at hrun
  . obtain rfl := Option.some.inj hrun
    rfl
  . obtain ⟨p, hp, rfl⟩ := Option.map_eq_some_iff.mp hrun
    exact signals_respond hp peer

theorem signals_relay (me : Identity) (payload : Json) (found : RoomManager.ManualPeerLookup)
    (peer : PeerSender)
    : signals (deliver s.channels (s.relay me payload found).sent peer)
        =
      signals (s.channels peer) ++
        if s.reached found = some peer then [(me.peerCode, payload)] else [] := by
  cases found with
  | found sender =>
    simp only [relay, reached, deliver]
    rw [signals_push]
    by_cases hpeer : sender = peer
    . subst hpeer
      by_cases hclosed : (s.channels sender).closed = true
      . simp [hclosed]
      . simp [hclosed, signal?]
    . simp [hpeer]
  | _ => simp [relay, reached, deliver_nil]

/--
What one step does to the signals in a channel.
-/
theorem signals_next {action : Action} (hnext : s.next fromStr effect action = some s')
    (peer : PeerSender)
    : signals (s'.channels peer) = signals (s.channels peer) ++ relayedTo peer ⟨s, action, s'⟩ := by
  cases action with
  | accept conn clientIp now =>
    obtain ⟨-, rfl⟩ := handler_of_accept hnext
    exact (List.append_nil _).symm
  | receive conn received now =>
    obtain ⟨h, p, hh, hp, rfl⟩ := handler_of_receive hnext
    have hp : h.next fromStr conn (.received received now) = some p := hp
    exact (signals_respond hp peer).trans (List.append_nil _).symm
  | step conn =>
    obtain ⟨h, e, hh, he, hrun⟩ := handler_of_step hnext
    rw [signals_run hrun peer]
    by_cases hrelaying : ∃ me target payload found, h.pc = .relaying me target payload found
    . obtain ⟨me, target, payload, found, hpc⟩ := hrelaying
      obtain rfl : s.relay me payload found = e := by
        simpa [effect, atomicEffect, hpc] using he
      rw [signals_relay]
      simp [relayedTo, hh, hpc]
    . have hsent : ∀ message ∈ e.sent, message.2.signalFrom = none := by
        intro message hmessage
        by_contra hsignal
        obtain ⟨code, hcode⟩ := Option.ne_none_iff_exists'.mp hsignal
        obtain ⟨me, target, payload, found, hpc, -⟩ := sent_effect he hmessage hcode
        exact hrelaying ⟨me, target, payload, found, hpc⟩
      have hnone : relayedTo peer ⟨s, .step conn, s'⟩ = [] := by
        unfold relayedTo
        simp only [hh, Option.map_some]
        split
        . next me target payload found hpc =>
          exact absurd ⟨me, target, payload, found, Option.some.inj hpc⟩ hrelaying
        . rfl
      rw [signals_deliver_of_none _ hsent, hnone, List.append_nil]
  | close conn =>
    obtain ⟨h, -, rfl⟩ := handler_of_close hnext
    unfold signals
    by_cases hpeer : peer = conn
    . subst hpeer
      simp [relayedTo]
    . simp [relayedTo, Function.update_of_ne hpeer]

/-! ### Handlers -/

theorem request_answerSignal {me : Identity} {target : String} {payload : Json} {manual : Bool}
    (hpc : h.pc = .serving me)
    : (Handler.answerMessage.answerSignal me h target payload manual).1.pc.request
        =
      match validateSignalTarget target with
      | .ok target => some { target, payload }
      | .error _ => none := by
  unfold Handler.answerMessage.answerSignal
  cases validateSignalTarget target with
  | error => simp only [hpc, Handler.Pc.request]
  | ok => rfl

theorem request_receive_serving {me : Identity} {received : Received} {now : Nat}
    {p : Handler × List ServerMessage} (hpc : h.pc = .serving me)
    (hp : h.receive fromStr conn received now = some p) :
    p.1.pc.request = h.accepted fromStr received now := by
  have hidle : h.pc.request = none := by rw [hpc]; rfl
  unfold Handler.receive at hp
  unfold Handler.accepted
  rw [hpc] at hp ⊢
  cases received with
  | message message =>
    cases message with
    | text text =>
      obtain rfl := Option.some.inj hp
      unfold Handler.admitText
      dsimp only
      cases (h.rateLimit.check now).2 with
      | error last =>
        cases last with
        | false => exact hidle
        | true => rfl
      | ok =>
        cases validateMessageSize text.utf8ByteSize with
        | error => exact hidle
        | ok =>
          cases fromStr text with
          | error => exact hidle
          | ok message =>
            cases message with
            | signal | manualSignal => exact request_answerSignal hpc
            | register | ping => exact hidle
    | close =>
      obtain rfl := Option.some.inj hp
      rfl
    | binary | ping | pong | frame =>
      obtain rfl := Option.some.inj hp
      exact hidle
  | error | closed | timeout =>
    obtain rfl := Option.some.inj hp
    rfl

theorem request_receive {received : Received} {now : Nat} {p : Handler × List ServerMessage}
    (hp : h.receive fromStr conn received now = some p) :
    h.pc.request = none ∧ p.1.pc.request = h.accepted fromStr received now := by
  rcases Handler.pc_of_receive hp with hpc | ⟨me, hpc⟩
  . have hanswers := (Handler.answers_receive_registering hpc hp).pc
    constructor
    . rw [hpc]
      rfl
    . unfold Handler.accepted
      rw [hpc]
      generalize p.1.pc = pc' at hanswers
      cases hanswers <;> rfl
  . constructor
    . rw [hpc]
      rfl
    . exact request_receive_serving hpc hp

theorem pending_of_handler (hh : s.handlers conn = some h) :
    s.pending conn = h.pc.request.toList := by
  unfold pending
  rw [hh, Option.bind_some]

theorem pending_of_frame (hframe : s'.handlers conn = s.handlers conn) :
    s'.pending conn = s.pending conn := by
  unfold pending
  rw [hframe]

/--
A step of a handler keeps the signal that it is busy with, unless it relays it.
-/
theorem request_next {input : Handler.Input} {p : Handler × List ServerMessage}
    (hp : h.next fromStr conn input = some p) (hreceive : ∀ received now, input ≠ .received received now)
    : p.1.pc.request = h.pc.kept := by
  cases input with
  | received received now => exact absurd rfl (hreceive received now)
  | added result =>
    simp only [Handler.next] at hp
    split at hp
    . next peer hpc =>
      obtain rfl := Option.some.inj hp
      rw [hpc]
      unfold Handler.added
      split <;> rfl
    . contradiction
  | found | relayed | removed =>
    simp only [Handler.next] at hp
    split at hp
    . next hpc =>
      obtain rfl := Option.some.inj hp
      rw [hpc]
      rfl
    . contradiction
  | proceed =>
    simp only [Handler.next] at hp
    split at hp
    . next hpc =>
      obtain rfl := Option.some.inj hp
      rw [hpc]
      rfl
    . next hpc =>
      obtain rfl := Option.some.inj hp
      rw [hpc]
      rfl
    . next hpc =>
      obtain rfl := Option.some.inj hp
      rw [hpc]
      rfl
    . contradiction

theorem dealtWith_step (hh : s.handlers conn = some h)
    : dealtWith conn ⟨s, .step conn, s'⟩
        =
      match h.pc with
      | .relaying _ target payload _ => [{ target, payload }]
      | _ => [] := by
  unfold dealtWith
  simp only [if_pos, hh, Option.map_some]
  cases h.pc <;> rfl

theorem pending_step (he : s.effect conn h = some e) (hh : s.handlers conn = some h)
    (hrun : s.run fromStr conn h e = some s')
    : s.pending conn = dealtWith conn ⟨s, .step conn, s'⟩ ++ s'.pending conn := by
  have hmoves := moves_of_run hrun
  rw [pending_of_handler hh, dealtWith_step hh]
  cases hinput : e.input with
  | none =>
    -- only the steps inside a call tell the handler nothing
    rw [pending_of_handler ((hmoves.idle hinput).trans hh)]
    split
    . next me target payload found hpc =>
      simp only [effect, atomicEffect, hpc, Option.some.injEq] at he
      subst he
      cases found <;> contradiction
    . rfl
  | some input =>
    obtain ⟨p, hp, hh'⟩ := hmoves.told input hinput
    have hrequest := request_next hp fun received now hreceived =>
      input_effect he received now (hreceived ▸ hinput)
    rw [pending_of_handler hh', hrequest]
    cases h.pc <;> rfl

/--
What one step does to the signal that the handler of a connection is busy with.
-/
theorem pending_next {action : Action} (hnext : s.next fromStr effect action = some s')
    (conn : PeerSender)
    : s.pending conn ++ takenOn fromStr conn ⟨s, action, s'⟩
        =
      dealtWith conn ⟨s, action, s'⟩ ++ s'.pending conn := by
  by_cases hconn : action.connection = conn
  . subst hconn
    cases action with
    | accept conn clientIp now =>
      obtain ⟨hnone, rfl⟩ := handler_of_accept hnext
      simp [pending, takenOn, dealtWith, Action.connection, hnone, Handler.start, Handler.Pc.request]
    | receive conn received now =>
      obtain ⟨h, p, hh, hp, rfl⟩ := handler_of_receive hnext
      obtain ⟨hidle, hrequest⟩ := request_receive hp
      have hh' : (s.respond conn p).handlers conn = some p.1 := Function.update_self ..
      simp only [Action.connection]
      rw [pending_of_handler hh, pending_of_handler hh', hidle, hrequest]
      simp [takenOn, dealtWith, hh]
    | step conn =>
      obtain ⟨h, e, hh, he, hrun⟩ := handler_of_step hnext
      exact (List.append_nil _).trans (pending_step he hh hrun)
    | close conn =>
      obtain ⟨h, hh, rfl⟩ := handler_of_close hnext
      exact List.append_nil _
  . have hframe : s'.pending conn = s.pending conn :=
      pending_of_frame (handlers_frame hnext (Ne.symm hconn))
    have htakenOn : takenOn fromStr conn ⟨s, action, s'⟩ = [] := by
      cases action <;> first | rfl | exact if_neg hconn
    have hdealtWith : dealtWith conn ⟨s, action, s'⟩ = [] := by
      cases action <;> first | rfl | exact if_neg hconn
    rw [hframe, htakenOn, hdealtWith, List.append_nil, List.nil_append]

/-! ### Payloads -/

theorem payload_accepted {P : Json → Prop}
    (hparse : ∀ text manual target payload,
      fromStr text = .ok (signalMessage manual target payload) → P payload)
    {received : Received} {now : Nat} {r : SignalRequest} (hr : h.accepted fromStr received now = some r) :
    P r.payload := by
  unfold Handler.accepted at hr
  split at hr
  . split at hr
    . next htext =>
      split at hr
      . obtain rfl := Option.some.inj hr
        exact hparse _ false _ _ htext
      . contradiction
    . next htext =>
      split at hr
      . obtain rfl := Option.some.inj hr
        exact hparse _ true _ _ htext
      . contradiction
    . contradiction
  . contradiction

theorem payload_takenOn {P : Json → Prop}
    (hparse : ∀ text manual target payload,
      fromStr text = .ok (signalMessage manual target payload) → P payload)
    {t : Transition Server Action} : ∀ r ∈ takenOn fromStr conn t, P r.payload := by
  intro r hr
  unfold takenOn at hr
  split at hr
  . split at hr
    . obtain ⟨h, -, haccepted⟩ := Option.bind_eq_some_iff.mp (Option.mem_toList.mp hr)
      exact payload_accepted hparse haccepted
    . contradiction
  . contradiction

theorem mem_dealtWith_of_relayedTo {peer : PeerSender} {t : Transition Server Action}
    {p : String × Json} (hp : p ∈ relayedTo peer t) :
    ∃ r ∈ dealtWith t.action.connection t, r.payload = p.2 := by
  unfold relayedTo at hp
  split at hp
  . next conn' haction =>
    split at hp
    . next me target payload found hpc =>
      split at hp
      . obtain rfl := List.mem_singleton.mp hp
        refine ⟨⟨target, payload⟩, ?_, rfl⟩
        unfold dealtWith
        simp [haction, Action.connection, hpc]
      . contradiction
    . contradiction
  . contradiction

/--
What holds of every payload that the parser lets in holds of every payload that the server has.
-/
theorem payloads_of_parsed {P : Json → Prop}
    (hparse : ∀ text manual target payload,
      fromStr text = .ok (signalMessage manual target payload) → P payload)
    (hs : (machine fromStr).Reachable s)
    : (∀ conn, ∀ r ∈ s.pending conn, P r.payload)
        ∧ ∀ peer, ∀ p ∈ signals (s.channels peer), P p.2 := by
  refine Machine.Reachable.invariant
    (I := fun s => (∀ conn, ∀ r ∈ s.pending conn, P r.payload)
      ∧ ∀ peer, ∀ p ∈ signals (s.channels peer), P p.2) ?_ ?_ hs
  . rintro s rfl
    exact ⟨fun _ => List.forall_mem_nil _, fun _ => List.forall_mem_nil _⟩
  . intro s action s' _ ⟨hpending, hsignals⟩ hnext
    have hheld : ∀ conn, ∀ r ∈ dealtWith conn ⟨s, action, s'⟩ ++ s'.pending conn, P r.payload := by
      intro conn
      have hpending' : s.pending conn ++ takenOn fromStr conn ⟨s, action, s'⟩ = _ := pending_next hnext conn
      rw [← hpending']
      exact List.forall_mem_append.mpr ⟨hpending conn, payload_takenOn hparse⟩
    constructor
    . intro conn
      exact (List.forall_mem_append.mp (hheld conn)).2
    . intro peer
      rw [signals_next hnext peer, List.forall_mem_append]
      refine ⟨hsignals peer, ?_⟩
      intro p hp
      obtain ⟨r, hr, hpayload⟩ := mem_dealtWith_of_relayedTo hp
      exact hpayload ▸ (List.forall_mem_append.mp (hheld _)).1 r hr

/-! ### Runs -/

theorem payloads_relayedBetween (conn peer : PeerSender) (t : Transition Server Action)
    : ((relayedBetween conn peer t).map (·.2)).Sublist ((dealtWith conn t).map (·.payload)) := by
  unfold relayedBetween relayedTo dealtWith
  cases t.action with
  | step conn' =>
    by_cases hconn : conn' = conn
    . subst hconn
      simp only [Action.connection, if_pos]
      generalize (t.source.handlers conn').map (fun h => h.pc) = pc
      split
      . split <;> simp
      . simp
    . simp [Action.connection, hconn]
  | accept | receive | close => simp

/--
The server relays the signals of a connection once each and in the order in which it took them on, and a
channel gets those relayed to it in that order. It holds back one signal of a connection at most.
-/
theorem signals_in_order {tr : List (Transition Server Action)} (h : (machine fromStr).Run tr s)
    : (∀ peer, signals (s.channels peer) = tr.flatMap (relayedTo peer))
        ∧ (∀ conn, tr.flatMap (takenOn fromStr conn) = tr.flatMap (dealtWith conn) ++ s.pending conn
          ∧ (s.pending conn).length ≤ 1)
        ∧ ∀ conn peer, ((tr.flatMap (relayedBetween conn peer)).map (·.2)).Sublist
          ((tr.flatMap (takenOn fromStr conn)).map (·.payload)) := by
  have htakenOn : ∀ conn,
      tr.flatMap (takenOn fromStr conn) = tr.flatMap (dealtWith conn) ++ s.pending conn := by
    intro conn
    refine h.conserves (fun s => s.pending conn) ?_ ?_
    . rintro s rfl
      rfl
    . intro s action s' _ hnext
      exact pending_next hnext conn
  refine ⟨?_, ?_, ?_⟩
  . intro peer
    refine h.accumulates (fun s => signals (s.channels peer)) ?_ ?_
    . rintro s rfl
      rfl
    . intro s action s' _ hnext
      exact signals_next hnext peer
  . intro conn
    refine ⟨htakenOn conn, ?_⟩
    unfold pending
    cases (s.handlers conn).bind (·.pc.request) <;> simp
  . intro conn peer
    have hdealtWith : ((tr.flatMap (relayedBetween conn peer)).map (·.2)).Sublist
        ((tr.flatMap (dealtWith conn)).map (·.payload)) := by
      rw [List.map_flatMap, List.map_flatMap]
      exact List.Sublist.flatMap_right _ fun t _ => payloads_relayedBetween conn peer t
    apply hdealtWith.trans
    rw [htakenOn, List.map_append]
    apply List.sublist_append_left

theorem signals_in_order_of_two
    : ∃ tr s, (machine plain).Run tr s ∧ signals (s.channels 2) = [("B7H2MN", .null)]
        ∧ tr.flatMap (relayedTo 2) = signals (s.channels 2) := by
  have hexec : (Machine.exec (next plain effect) start
        (bothJoin ++ relays 1 "@C8J3-PQ" 0 "C8J3-PQ")).any
      (fun s => signals (s.channels 2) = [("B7H2MN", .null)]) = true := by
    decide
  obtain ⟨s, hs, hsignals⟩ := Machine.exists_reachable_of_exec hexec
  obtain ⟨tr, hrun⟩ := hs.run
  exact ⟨tr, s, hrun, of_decide_eq_true hsignals, ((signals_in_order hrun).1 2).symm⟩

end Server

end Rendezvous

end LocalBolt
