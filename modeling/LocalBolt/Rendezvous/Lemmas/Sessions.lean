import LocalBolt.Rendezvous.Lemmas.History
import LocalBolt.Rendezvous.Lemmas.Ownership

/-!
This module contains the session ids: the calls of `add_peer` are numbered, and a connection is
registered under the number of its call, as far as that fits into 64 bits.
-/

namespace LocalBolt

namespace Rendezvous

def Handler.Pc.isAdding : Handler.Pc → Bool
  | .adding _ => true
  | _ => false

namespace Server

/--
The connection whose handler calls `add_peer` in the transition.
-/
def addPeerCall (t : Transition Server Action) : Option PeerSender :=
  match t.action with
  | .step conn =>
    if (t.source.handlers conn).any (·.pc.isAdding) ∧ (t.source.calls conn).isNone then
      some conn
    else
      none
  | _ => none

def addPeerCalls (tr : List (Transition Server Action)) : List PeerSender := tr.filterMap addPeerCall

/--
The session id of a connection, from its call of `add_peer` on.
-/
def sessionOf (s : Server) (conn : PeerSender) : Option UInt64 :=
  match (s.calls conn).bind RoomManager.Pc.added with
  | some peer => some peer.sessionId
  | none => ((s.handlers conn).bind (·.pc.identity)).map (·.sessionId)

structure Numbered (calls : List PeerSender) (s : Server) : Prop where
  counter : s.manager.nextSessionId = UInt64.ofNat (calls.length + 1)
  assigned : ∀ conn id, s.sessionOf conn = some id →
    ∃ k, calls[k]? = some conn ∧ id = UInt64.ofNat (k + 1)

variable {fromStr : String → Except String ClientMessage} {s s' : Server} {conn : PeerSender}
  {h : Handler} {calls : List PeerSender}

theorem sessionOf_frame {c : PeerSender} (hhandlers : s'.handlers c = s.handlers c)
    (hcalls : s'.calls c = s.calls c) (id : UInt64) (hid : s'.sessionOf c = some id) :
    s.sessionOf c = some id := by
  unfold sessionOf at hid ⊢
  rw [hhandlers, hcalls] at hid
  exact hid

theorem sessionOf_of_call {pc : RoomManager.Pc} {peer : PeerInfo} (hcall : s.calls conn = some pc)
    (hadded : pc.added = some peer) : s.sessionOf conn = some peer.sessionId := by
  unfold sessionOf
  rw [hcall, Option.bind_some, hadded]

theorem sessionOf_of_handler (hh : s.handlers conn = some h)
    (hcall : (s.calls conn).bind RoomManager.Pc.added = none) :
    s.sessionOf conn = h.pc.identity.map (·.sessionId) := by
  unfold sessionOf
  rw [hcall, hh, Option.bind_some]

theorem sessionOf_stepped (hh : s.handlers conn = some h) (hstepped : Stepped s conn h s')
    : (s'.sessionOf conn = some s.manager.nextSessionId
        ∧ s'.manager.nextSessionId = s.manager.nextSessionId + 1
        ∧ h.pc.isAdding = true ∧ s.calls conn = none)
      ∨ ((∀ id, s'.sessionOf conn = some id → s.sessionOf conn = some id)
        ∧ s'.manager.nextSessionId = s.manager.nextSessionId
        ∧ ¬ (h.pc.isAdding = true ∧ s.calls conn = none)) := by
  cases hstepped with
  | beginAdd peer hpc hcall hmanager hcall' hh' =>
    refine .inl ⟨sessionOf_of_call hcall' rfl, ?_, ?_, hcall⟩
    . rw [hmanager]
      rfl
    . rw [hpc]
      rfl
  | insideAdd pc pc' peer hcall hadded hnotEntry hadded' hin hmanager hcall' hh' =>
    refine .inr ⟨?_, by rw [hmanager], by simp [hcall]⟩
    rw [sessionOf_of_call hcall' hadded', sessionOf_of_call hcall hadded]
    exact fun _ => id
  | refused peer pc error hpc hcall hfull hrooms hcounter hcall' hh' =>
    refine .inr ⟨?_, hcounter, by simp [hcall]⟩
    rw [sessionOf_of_handler hh' (by rw [hcall']; rfl)]
    simp [Handler.Pc.identity]
  | registered peer existingPeers hcall hin hregisters hmanager hcall' hh' =>
    refine .inr ⟨?_, ?_, by simp [hcall]⟩
    . rw [sessionOf_of_handler hh' (by rw [hcall']; rfl), sessionOf_of_call hcall rfl]
      exact fun _ => id
    . rw [hmanager, RoomManager.nextSessionId_enterRoom]
  | beginRemove me hpc hcall hmanager hcall' hh' =>
    refine .inr ⟨?_, by rw [hmanager], by simp [hpc, Handler.Pc.isAdding]⟩
    rw [sessionOf_of_handler hh' (by rw [hcall']; rfl), sessionOf_of_handler hh (by rw [hcall]; rfl)]
    exact fun _ => id
  | leave me hpc hcall hmanager hresult hcall' hh' =>
    refine .inr ⟨?_, ?_, by simp [hcall]⟩
    . rw [sessionOf_of_handler hh' (by rw [hcall']; rfl)]
      simp [Handler.Pc.identity]
    . rw [hmanager, RoomManager.nextSessionId_leaveRoom]
  | leaveLast me hpc hcall hmanager hresult hcall' hh' =>
    refine .inr ⟨?_, ?_, by simp [hcall]⟩
    . rw [sessionOf_of_handler hh' (by rw [hcall']; rfl),
        sessionOf_of_handler hh (by rw [hcall]; rfl)]
      exact fun _ => id
    . rw [hmanager, RoomManager.nextSessionId_leaveRoom]
  | drop me hpc hcall hmanager hcall' hh' =>
    refine .inr ⟨?_, ?_, by simp [hcall]⟩
    . rw [sessionOf_of_handler hh' (by rw [hcall']; rfl)]
      simp [Handler.Pc.identity]
    . rw [hmanager]
      rfl
  | move h' hadding hremoving hcall hmanager hcall' hh' hip hidentity hadding' =>
    refine .inr ⟨?_, by rw [hmanager], ?_⟩
    . rw [sessionOf_of_handler hh' (by rw [hcall']; rfl),
        sessionOf_of_handler hh (by rw [hcall]; rfl), hidentity]
      exact fun _ => id
    . rintro ⟨hisAdding, -⟩
      unfold Handler.Pc.isAdding at hisAdding
      split at hisAdding
      . next peer hpc => exact hadding peer hpc
      . contradiction

theorem Numbered.frame {c : PeerSender} {call : Option PeerSender} (hn : Numbered calls s)
    (hsame : ∀ id, s'.sessionOf c = some id → s.sessionOf c = some id) (id : UInt64)
    (hid : s'.sessionOf c = some id) :
    ∃ k, (calls ++ call.toList)[k]? = some c ∧ id = UInt64.ofNat (k + 1) := by
  obtain ⟨k, hk, hid⟩ := hn.assigned c id (hsame id hid)
  refine ⟨k, ?_, hid⟩
  rw [List.getElem?_append_left (List.getElem?_eq_some_iff.mp hk).1]
  exact hk

theorem Numbered.idle {s' : Server} (hn : Numbered calls s)
    (hcounter : s'.manager.nextSessionId = s.manager.nextSessionId)
    (hsame : ∀ c id, s'.sessionOf c = some id → s.sessionOf c = some id) : Numbered calls s' := by
  constructor
  . rw [hcounter]
    exact hn.counter
  . intro c id hid
    exact hn.assigned c id (hsame c id hid)

theorem Numbered.step (hn : Numbered calls s) (hh : s.handlers conn = some h)
    (hframe : ∀ c, c ≠ conn → s'.handlers c = s.handlers c ∧ s'.calls c = s.calls c)
    (hstepped : Stepped s conn h s')
    : Numbered (calls ++ (addPeerCall ⟨s, .step conn, s'⟩).toList) s' := by
  have hother : ∀ c, c ≠ conn → ∀ id, s'.sessionOf c = some id → s.sessionOf c = some id := by
    intro c hc
    exact sessionOf_frame (hframe c hc).1 (hframe c hc).2
  have hcall : addPeerCall ⟨s, .step conn, s'⟩
      = if h.pc.isAdding = true ∧ s.calls conn = none then some conn else none := by
    unfold addPeerCall
    simp [hh]
  rcases sessionOf_stepped hh hstepped with ⟨hid, hcounter, hbegins⟩ | ⟨hsame, hcounter, hbegins⟩
  . rw [hcall, if_pos hbegins]
    constructor
    . rw [hcounter, hn.counter]
      simp only [Option.toList_some, List.length_append, List.length_singleton]
      exact (UInt64.ofNat_add _ 1).symm
    . intro c id hid'
      by_cases hc : c = conn
      . subst hc
        rw [hid] at hid'
        obtain rfl := Option.some.inj hid'
        refine ⟨calls.length, by simp, hn.counter⟩
      . exact hn.frame (hother c hc) id hid'
  . rw [hcall, if_neg hbegins, Option.toList_none, List.append_nil]
    apply hn.idle hcounter
    intro c
    by_cases hc : c = conn
    . subst hc
      exact hsame
    . exact hother c hc

theorem Numbered.next {action : Action} (hs : s.Consistent) (hn : Numbered calls s)
    (hnext : s.next fromStr effect action = some s')
    : Numbered (calls ++ (addPeerCall ⟨s, action, s'⟩).toList) s' := by
  cases action with
  | step conn =>
    obtain ⟨h, hh, hstepped, hframe⟩ := hs.stepped hnext
    exact hn.step hh hframe hstepped
  | accept conn clientIp now =>
    obtain ⟨hnone, rfl⟩ := handler_of_accept hnext
    rw [addPeerCall, Option.toList_none, List.append_nil]
    refine hn.idle (by rfl) ?_
    intro c id
    by_cases hc : c = conn
    . subst hc
      unfold sessionOf
      simp only [Function.update_self, hs.calls_of_none hnone]
      simp [Handler.start, Handler.Pc.identity]
    . apply sessionOf_frame
      . exact Function.update_of_ne hc _ _
      . rfl
  | receive conn received now =>
    obtain ⟨h, p, hh, hp, rfl⟩ := handler_of_receive hnext
    rw [addPeerCall, Option.toList_none, List.append_nil]
    refine hn.idle (by rfl) ?_
    intro c id
    by_cases hc : c = conn
    . subst hc
      unfold sessionOf respond
      simp only [Function.update_self, hh, Option.bind_some, (identity_receive hp).2.1]
      exact fun hid => hid
    . apply sessionOf_frame
      . exact Function.update_of_ne hc _ _
      . rfl
  | close conn =>
    obtain ⟨h, -, rfl⟩ := handler_of_close hnext
    rw [addPeerCall, Option.toList_none, List.append_nil]
    exact hn.idle (by rfl) (fun _ _ hid => hid)

theorem numbered {tr : List (Transition Server Action)} (hrun : (machine fromStr).Run tr s) :
    Numbered (addPeerCalls tr) s := by
  induction hrun with
  | init hinit =>
    obtain rfl : _ = start := hinit
    exact ⟨rfl, by simp [sessionOf, start]⟩
  | @step tr s s' action hrun hnext ih =>
    have hcalls : addPeerCalls (tr ++ [⟨s, action, s'⟩])
        = addPeerCalls tr ++ (addPeerCall ⟨s, action, s'⟩).toList := by
      unfold addPeerCalls
      rw [List.filterMap_append, List.filterMap_cons]
      cases addPeerCall ⟨s, action, s'⟩ <;> rfl
    rw [hcalls]
    exact ih.next (consistent hrun.reachable) hnext

/--
As long as the counter has not come round, a session id belongs to one connection.
-/
theorem Numbered.unique (hn : Numbered calls s) (hlength : calls.length ≤ 2 ^ 64) {c c' : PeerSender}
    {id : UInt64} (hc : s.sessionOf c = some id) (hc' : s.sessionOf c' = some id) : c = c' := by
  obtain ⟨k, hk, hid⟩ := hn.assigned c id hc
  obtain ⟨k', hk', hid'⟩ := hn.assigned c' id hc'
  have hlt : k < 2 ^ 64 := Nat.lt_of_lt_of_le (List.getElem?_eq_some_iff.mp hk).1 hlength
  have hlt' : k' < 2 ^ 64 := Nat.lt_of_lt_of_le (List.getElem?_eq_some_iff.mp hk').1 hlength
  have hsame : k = k' := by
    rw [← RoomManager.sessionIndex_ofNat hlt, ← RoomManager.sessionIndex_ofNat hlt', ← hid, ← hid']
  subst hsame
  rw [hk] at hk'
  exact Option.some.inj hk'

theorem Consistent.sessionOf_eq {me : Identity} (hs : s.Consistent) (hh : s.handlers conn = some h)
    (hidentity : h.pc.identity = some me) : s.sessionOf conn = some me.sessionId := by
  have hcall : (s.calls conn).bind RoomManager.Pc.added = none := by
    rw [Option.bind_eq_none_iff]
    intro pc hcall
    cases hadded : pc.added with
    | none => rfl
    | some peer =>
      obtain ⟨-, peer', hpc, -⟩ := adding_of_inCall (hs.inCall hh pc hcall) hadded
      rw [hpc] at hidentity
      contradiction
  rw [sessionOf_of_handler hh hcall, hidentity]
  rfl

end Server

end Rendezvous

end LocalBolt
