import LocalBolt.Rendezvous.Lemmas.Ownership

/-!
This module contains who can send signals under a peer code, and what becomes of a connection whose
member has been replaced.
-/

namespace LocalBolt

namespace Rendezvous

def ServerMessage.signalFrom : ServerMessage → Option String
  | .signal fromPeer _ => some fromPeer
  | _ => none

/--
The handler is past its message loop.
-/
def Handler.Pc.isLeaving : Handler.Pc → Bool
  | .removing _ | .aborting | .returned => true
  | _ => false

namespace Server

def enqueued (t : Transition Server Action) (peer : PeerSender) : List ServerMessage :=
  (t.target.channels peer).messages.drop (t.source.channels peer).messages.length

/--
The connection causes a signal from the peer code to be enqueued to some peer.
-/
def Signals (t : Transition Server Action) (conn : PeerSender) (code : String) : Prop :=
  t.action.connection = conn ∧ ∃ peer, ∃ m ∈ enqueued t peer, m.signalFrom = some code

/--
Another peer takes the place of the member that the connection has in the room.
-/
def Replaces (t : Transition Server Action) (conn : PeerSender) (ip code : String) : Prop :=
  ∃ p ∈ t.source.manager.room ip, p.sender = conn ∧ p.peerCode = code
    ∧ p ∉ t.target.manager.room ip ∧ ∃ p' ∈ t.target.manager.room ip, p'.peerCode = code

instance (t : Transition Server Action) (conn : PeerSender) (ip code : String) :
    Decidable (Replaces t conn ip code) :=
  inferInstanceAs (Decidable (∃ p ∈ _, _))

/--
The handler of the connection is in its message loop, or on its way there, under the peer code.
-/
def CanSpeak (s : Server) (conn : PeerSender) (ip code : String) : Prop :=
  ∃ h me, s.handlers conn = some h ∧ h.clientIp = ip ∧ h.pc.identity = some me ∧ me.peerCode = code
    ∧ h.pc.isLeaving = false

def OneSpeaker (s : Server) : Prop :=
  ∀ ip code conn conn', s.CanSpeak conn ip code → s.CanSpeak conn' ip code → conn = conn'

/--
If the action registers a peer, no connection in its room can speak under its code.
-/
def CodeFree (s : Server) : Action → Prop
  | .step conn => ∀ h peer, s.handlers conn = some h → s.calls conn = some (.entry h.clientIp peer) →
      (s.manager.others h.clientIp peer.peerCode).length < maxPeersPerRoom →
      ∀ c, ¬ s.CanSpeak c h.clientIp peer.peerCode
  | _ => True

def HasLeft (s : Server) (conn : PeerSender) : Prop :=
  ∃ h, s.handlers conn = some h ∧ h.pc.isLeaving = true

variable {fromStr : String → Except String ClientMessage} {s s' : Server} {conn : PeerSender}
  {h : Handler} {e : Effect}

/-! ### Signals -/

theorem mem_drop_push {channel : Channel} {messages : List ServerMessage} {m : ServerMessage}
    (hm : m ∈ (channel.push messages).messages.drop channel.messages.length) : m ∈ messages := by
  unfold Channel.push at hm
  split at hm
  . rw [List.drop_length] at hm
    contradiction
  . rw [List.drop_left] at hm
    exact hm

theorem signalFrom_sentAt (m : RoomManager) (pc : RoomManager.Pc) :
    ∀ message ∈ m.sentAt pc, message.2.signalFrom = none := by
  intro message hmessage
  cases pc with
  | entry ip peer =>
    simp only [RoomManager.sentAt, RoomManager.enterRoom] at hmessage
    split at hmessage
    . contradiction
    . obtain ⟨p, -, rfl⟩ := List.mem_map.mp hmessage
      rfl
  | getMut ip code sessionId =>
    simp only [RoomManager.sentAt, RoomManager.leaveRoom] at hmessage
    split at hmessage
    . contradiction
    . split at hmessage
      . obtain ⟨p, -, rfl⟩ := List.mem_map.mp hmessage
        rfl
      . contradiction
  | _ => contradiction

theorem signalFrom_replies {input : Handler.Input} {p : Handler × List ServerMessage}
    (hp : h.next fromStr conn input = some p) : ∀ m ∈ p.2, m.signalFrom = none := by
  intro m hm
  rcases Handler.replies_next hp with hreplies | ⟨me, existingPeers, -, hreplies⟩
  . obtain ⟨error, rfl⟩ := hreplies m hm
    rfl
  . rw [hreplies] at hm
    obtain rfl := List.mem_singleton.mp hm
    rfl

theorem sent_continueCall {pc : RoomManager.Pc} (he : s.continueCall pc = some e) :
    ∀ message ∈ e.sent, message.2.signalFrom = none := by
  obtain ⟨pc', -, hsent, -⟩ := continueCall_told he
  rw [hsent]
  exact signalFrom_sentAt s.manager pc

theorem sent_effect {code : String} {message : PeerSender × ServerMessage}
    (he : s.effect conn h = some e) (hmessage : message ∈ e.sent)
    (hsignal : message.2.signalFrom = some code)
    : ∃ me target payload found, h.pc = .relaying me target payload found ∧ me.peerCode = code := by
  have hcall : ∀ pc, s.continueCall pc = some e → False := by
    intro pc he
    rw [sent_continueCall he message hmessage] at hsignal
    contradiction
  unfold effect at he
  split at he
  . split at he
    . obtain rfl := Option.some.inj he
      contradiction
    . exact (hcall _ he).elim
  . split at he
    . obtain rfl := Option.some.inj he
      contradiction
    . exact (hcall _ he).elim
  . next hadding hremoving =>
    cases acts_of_atomicEffect he with
    | add peer hpc => exact absurd hpc (hadding peer)
    | remove me hpc => exact absurd hpc (hremoving me)
    | send me target payload sender hpc =>
      obtain rfl := List.mem_singleton.mp hmessage
      exact ⟨me, target, payload, _, hpc, Option.some.inj hsignal⟩
    | find | miss | proceed => contradiction

theorem mem_delivered {sent : List (PeerSender × ServerMessage)} {peer : PeerSender} {m : ServerMessage}
    (hm : m ∈ (sent.filter fun message => message.1 = peer).map (·.2)) : (peer, m) ∈ sent := by
  obtain ⟨message, hmessage, rfl⟩ := List.mem_map.mp hm
  obtain ⟨hmem, hpeer⟩ := List.mem_filter.mp hmessage
  obtain rfl := of_decide_eq_true hpeer
  exact hmem

theorem enqueued_respond {p : Handler × List ServerMessage} {action : Action} {peer : PeerSender}
    {m : ServerMessage} (hm : m ∈ enqueued ⟨s, action, s.respond conn p⟩ peer) : m ∈ p.2 := by
  have hmem := mem_delivered (mem_drop_push hm)
  obtain ⟨m', hm', hsame⟩ := List.mem_map.mp hmem
  obtain ⟨-, rfl⟩ := Prod.mk.inj hsame
  exact hm'

theorem enqueued_run {peer : PeerSender} {m : ServerMessage} (hrun : s.run fromStr conn h e = some s')
    (hm : m ∈ enqueued ⟨s, .step conn, s'⟩ peer) : (peer, m) ∈ e.sent ∨ m.signalFrom = none := by
  unfold run at hrun
  dsimp only at hrun
  split at hrun
  . obtain rfl := Option.some.inj hrun
    exact .inl (mem_delivered (mem_drop_push hm))
  . obtain ⟨p, hp, rfl⟩ := Option.map_eq_some_iff.mp hrun
    unfold enqueued respond deliver at hm
    dsimp only at hm
    rw [push_push] at hm
    rcases List.mem_append.mp (mem_drop_push hm) with hm | hm
    . exact .inl (mem_delivered hm)
    . obtain ⟨m', hm', hsame⟩ := List.mem_map.mp (mem_delivered hm)
      obtain ⟨-, rfl⟩ := Prod.mk.inj hsame
      exact .inr (signalFrom_replies hp m' hm')

theorem enqueued_of_channels {action : Action} {peer : PeerSender} {m : ServerMessage}
    (hsame : (s'.channels peer).messages = (s.channels peer).messages) :
    m ∉ enqueued ⟨s, action, s'⟩ peer := by
  unfold enqueued
  rw [hsame, List.drop_length]
  simp

theorem canSpeak_of_signals {action : Action} {code : String}
    (hnext : s.next fromStr effect action = some s') (hsignals : Signals ⟨s, action, s'⟩ conn code) :
    ∃ ip, s.CanSpeak conn ip code := by
  obtain ⟨rfl, peer, m, hm, hsignal⟩ := hsignals
  cases action with
  | accept conn clientIp now =>
    obtain ⟨-, rfl⟩ := handler_of_accept hnext
    exact absurd hm (enqueued_of_channels rfl)
  | receive conn received now =>
    obtain ⟨h, p, hh, hp, rfl⟩ := handler_of_receive hnext
    have hp : h.next fromStr conn (.received received now) = some p := hp
    rw [signalFrom_replies hp m (enqueued_respond hm)] at hsignal
    contradiction
  | step conn =>
    obtain ⟨h, e, hh, he, hrun⟩ := handler_of_step hnext
    rcases enqueued_run hrun hm with hsent | hnone
    . obtain ⟨me, target, payload, found, hpc, hcode⟩ := sent_effect he hsent hsignal
      exact ⟨h.clientIp, h, me, hh, rfl, by rw [hpc]; rfl, hcode, by rw [hpc]; rfl⟩
    . rw [hsignal] at hnone
      contradiction
  | close conn =>
    obtain ⟨-, -, rfl⟩ := handler_of_close hnext
    apply absurd hm
    apply enqueued_of_channels
    by_cases hpeer : peer = conn
    . subst hpeer
      simp
    . simp [Function.update_of_ne hpeer]

/-! ### Leaving -/

theorem isLeaving_next {input : Handler.Input} {p : Handler × List ServerMessage}
    (hleaving : h.pc.isLeaving = true) (hp : h.next fromStr conn input = some p) :
    p.1.pc.isLeaving = true := by
  unfold Handler.Pc.isLeaving at hleaving
  split at hleaving
  . next me hpc =>
    cases input with
    | removed =>
      rw [next_removed hp]
      rfl
    | _ => simp [Handler.next, Handler.receive, hpc] at hp
  . next hpc =>
    obtain ⟨-, rfl⟩ := Handler.next_of_aborting hpc hp
    rfl
  . next hpc =>
    rw [Handler.next_of_returned hpc] at hp
    contradiction
  . contradiction

theorem HasLeft.frame {c : PeerSender} (hleft : s.HasLeft c)
    (hframe : s'.handlers c = s.handlers c) : s'.HasLeft c := by
  unfold HasLeft
  rw [hframe]
  exact hleft

theorem HasLeft.next {c : PeerSender} {action : Action} (hleft : s.HasLeft c)
    (hnext : s.next fromStr effect action = some s') : s'.HasLeft c := by
  by_cases hc : c = action.connection
  . obtain ⟨h, hh, hleaving⟩ := id hleft
    subst hc
    cases action with
    | accept conn clientIp now =>
      obtain ⟨hnone, -⟩ := handler_of_accept hnext
      rw [Action.connection, hnone] at hh
      contradiction
    | receive conn received now =>
      -- a handler that has left its loop reads no more frames
      obtain ⟨h', p, hh', hp, -⟩ := handler_of_receive hnext
      obtain rfl := Option.some.inj (hh.symm.trans hh')
      rcases Handler.pc_of_receive hp with hpc | ⟨me, hpc⟩
      . rw [hpc] at hleaving
        contradiction
      . rw [hpc] at hleaving
        contradiction
    | step conn =>
      obtain ⟨h', e, hh', he, hrun⟩ := handler_of_step hnext
      obtain rfl := Option.some.inj (hh.symm.trans hh')
      have hmoves := moves_of_run hrun
      cases hinput : e.input with
      | none => exact hleft.frame (hmoves.idle hinput)
      | some input =>
        obtain ⟨p, hp, hh''⟩ := hmoves.told input hinput
        exact ⟨p.1, hh'', isLeaving_next hleaving hp⟩
    | close conn =>
      obtain ⟨-, -, rfl⟩ := handler_of_close hnext
      exact hleft
  . exact hleft.frame (handlers_frame hnext hc)

theorem HasLeft.not_canSpeak {ip code : String} (hleft : s.HasLeft conn) :
    ¬ s.CanSpeak conn ip code := by
  obtain ⟨h, hh, hleaving⟩ := hleft
  rintro ⟨h', me, hh', -, -, -, hnotLeaving⟩
  rw [hh] at hh'
  obtain rfl := Option.some.inj hh'
  rw [hleaving] at hnotLeaving
  contradiction

/-! ### Registrations -/

/--
The step is the one that lets `conn` into a room that is not full.
-/
structure Enters (s : Server) (conn : PeerSender) (h : Handler) (peer : PeerInfo) : Prop where
  call : s.calls conn = some (.entry h.clientIp peer)
  place : (s.manager.others h.clientIp peer.peerCode).length < maxPeersPerRoom

theorem Enters.adding {peer : PeerInfo} (henters : Enters s conn h peer) (hs : s.Consistent)
    (hh : s.handlers conn = some h) : ∃ peer', h.pc = .adding peer' := by
  obtain ⟨-, -, peer', hpc, -⟩ := hs.inCall hh _ henters.call
  exact ⟨peer', hpc⟩

theorem enters_of_registers {peer : PeerInfo} (hs : s.Consistent)
    (hcall : s.calls conn = some (.entry h.clientIp peer))
    (hregisters : RoomManager.Registers s.manager h.clientIp peer
      (s.manager.enterRoom h.clientIp peer))
    : Enters s conn h peer := by
  refine ⟨hcall, ?_⟩
  apply Nat.lt_of_not_le
  intro hfull
  obtain ⟨-, -, error, hresult⟩ := RoomManager.enterRoom_refuses hs.wellFormed hfull
  rw [hregisters.result] at hresult
  contradiction

theorem rooms_of_stepped (hs : s.Consistent) (hstepped : Stepped s conn h s')
    : (∀ ip, ∀ p ∈ s'.manager.room ip, p ∈ s.manager.room ip)
      ∨ ∃ peer, Enters s conn h peer ∧ ∀ ip, s'.manager.room ip
        = if ip = h.clientIp then s.manager.others ip peer.peerCode ++ [peer]
          else s.manager.room ip := by
  have hsame : s'.manager = s.manager → ∀ ip, ∀ p ∈ s'.manager.room ip, p ∈ s.manager.room ip := by
    intro hmanager ip p hp
    rw [hmanager] at hp
    exact hp
  have hleft : ∀ me : Identity,
      s'.manager = (s.manager.leaveRoom h.clientIp me.peerCode me.sessionId).manager →
      ∀ ip, ∀ p ∈ s'.manager.room ip, p ∈ s.manager.room ip := by
    intro me hmanager ip p hp
    rw [hmanager, RoomManager.room_leaveRoom] at hp
    split at hp
    . next hip => exact hip ▸ List.mem_of_mem_filter hp
    . exact hp
  cases hstepped with
  | beginAdd peer hpc hcall hmanager hcall' hh' =>
    refine .inl ?_
    rw [hmanager]
    exact fun _ _ hp => hp
  | insideAdd pc pc' peer hcall hadded hnotEntry hadded' hin hmanager hcall' hh' =>
    exact .inl (hsame hmanager)
  | refused peer pc error hpc hcall hfull hrooms hcounter hcall' hh' =>
    refine .inl ?_
    intro ip p hp
    rw [hrooms.room] at hp
    exact hp
  | registered peer existingPeers hcall hin hregisters hmanager hcall' hh' =>
    refine .inr ⟨peer, enters_of_registers hs hcall hregisters, ?_⟩
    intro ip
    rw [hmanager, hregisters.room]
    split
    . next hip => rw [hip]
    . rfl
  | beginRemove me hpc hcall hmanager hcall' hh' => exact .inl (hsame hmanager)
  | leave me hpc hcall hmanager hresult hcall' hh' => exact .inl (hleft me hmanager)
  | leaveLast me hpc hcall hmanager hresult hcall' hh' => exact .inl (hleft me hmanager)
  | drop me hpc hcall hmanager hcall' hh' =>
    refine .inl ?_
    intro ip p hp
    rw [hmanager, RoomManager.room_dropRoom] at hp
    split at hp
    . contradiction
    . exact hp
  | move h' hadding hremoving hcall hmanager hcall' hh' hip hidentity hadding' =>
    exact .inl (hsame hmanager)

theorem hasLeft_of_replaces {action : Action} {c : PeerSender} {ip code : String} (hs : s.Consistent)
    (hfree : s.CodeFree action) (hnext : s.next fromStr effect action = some s')
    (hreplaces : Replaces ⟨s, action, s'⟩ c ip code) : s'.HasLeft c := by
  obtain ⟨p, hp, hsender, hcode, hgone, p', hp', hcode'⟩ := hreplaces
  by_cases hstep : ∃ conn, action = .step conn
  . obtain ⟨conn, rfl⟩ := hstep
    obtain ⟨h, hh, hstepped, hframe⟩ := hs.stepped hnext
    rcases rooms_of_stepped hs hstepped with hsub | ⟨peer, henters, hroom⟩
    . -- the one with the same code can only be the member itself
      obtain rfl := List.inj_on_of_nodup_map (hs.wellFormed ip).1 (hsub ip p' hp') hp
        (hcode'.trans hcode.symm)
      exact absurd hp' hgone
    . dsimp only at hgone
      rw [hroom] at hgone
      split at hgone
      . next hip =>
        subst hip
        have hsameCode : p.peerCode = peer.peerCode := by
          by_contra hne
          apply hgone
          apply List.mem_append_left
          exact List.mem_filter.mpr ⟨hp, decide_eq_true hne⟩
        obtain ⟨⟨hc, hhc, hip, hidentity⟩, -⟩ := hs.owned h.clientIp p hp
        rw [hsender] at hhc
        have hleaving : hc.pc.isLeaving = true := by
          by_contra hnotLeaving
          apply hfree h peer hh henters.call henters.place c
          exact ⟨hc, _, hhc, hip, hidentity, hsameCode, Bool.eq_false_iff.mpr hnotLeaving⟩
        exact HasLeft.next ⟨hc, hhc, hleaving⟩ hnext
      . exact absurd hp hgone
  . dsimp only at hgone
    rw [(manager_of_not_step (not_exists.mp hstep) hnext).1] at hgone
    exact absurd hp hgone

theorem silent_run {tr : List (Transition Server Action)} (hrun : (machine fromStr).Run tr s)
    (hfree : ∀ t ∈ tr, t.source.CodeFree t.action)
    : tr.Pairwise (fun t t' => ∀ conn ip code, Replaces t conn ip code → ¬ Signals t' conn code)
        ∧ ∀ t ∈ tr, ∀ conn ip code, Replaces t conn ip code → s.HasLeft conn := by
  induction hrun with
  | init hinit => exact ⟨.nil, by simp⟩
  | @step tr s s' action hrun hnext ih =>
    rw [List.forall_mem_append, List.forall_mem_singleton] at hfree
    obtain ⟨hsilent, hleft⟩ := ih hfree.1
    constructor
    . rw [List.pairwise_append]
      refine ⟨hsilent, List.pairwise_singleton .., ?_⟩
      intro t ht t' ht' conn ip code hreplaces hsignals
      obtain rfl := List.mem_singleton.mp ht'
      obtain ⟨ip', hspeaks⟩ := canSpeak_of_signals hnext hsignals
      exact (hleft t ht conn ip code hreplaces).not_canSpeak hspeaks
    . rw [List.forall_mem_append, List.forall_mem_singleton]
      constructor
      . intro t ht conn ip code hreplaces
        exact (hleft t ht conn ip code hreplaces).next hnext
      . intro conn ip code hreplaces
        exact hasLeft_of_replaces (consistent hrun.reachable) hfree.2 hnext hreplaces

/-! ### One speaker -/

theorem CanSpeak.frame {c : PeerSender} {ip code : String} (hspeaks : s'.CanSpeak c ip code)
    (hframe : s'.handlers c = s.handlers c) : s.CanSpeak c ip code := by
  unfold CanSpeak at hspeaks ⊢
  rw [hframe] at hspeaks
  exact hspeaks

theorem CanSpeak.of_identity {h' : Handler} {ip code : String} (hspeaks : s'.CanSpeak conn ip code)
    (hh : s.handlers conn = some h) (hh' : s'.handlers conn = some h')
    (hip : h'.clientIp = h.clientIp) (hidentity : h'.pc.identity = h.pc.identity)
    (hleaving : h.pc.identity = none ∨ h.pc.isLeaving = false) : s.CanSpeak conn ip code := by
  obtain ⟨h'', me, hh'', rfl, hme, hcode, -⟩ := hspeaks
  rw [hh'] at hh''
  obtain rfl := Option.some.inj hh''
  rw [hidentity] at hme
  refine ⟨h, me, hh, hip.symm, hme, hcode, ?_⟩
  apply hleaving.resolve_left
  simp [hme]

theorem not_isLeaving_of_identity (hremoving : ∀ me, h.pc ≠ .removing me) :
    h.pc.identity = none ∨ h.pc.isLeaving = false := by
  cases hpc : h.pc with
  | removing me => exact absurd hpc (hremoving me)
  | registering | adding | rejecting | aborting | returned => exact .inl rfl
  | announcing | serving | finding | relaying => exact .inr rfl

theorem not_canSpeak_of_identity {ip code : String} (hh : s.handlers conn = some h)
    (hidentity : h.pc.identity = none) : ¬ s.CanSpeak conn ip code := by
  rintro ⟨h', me, hh', -, hme, -⟩
  rw [hh] at hh'
  obtain rfl := Option.some.inj hh'
  rw [hidentity] at hme
  contradiction

theorem canSpeak_stepped {ip code : String} (hs : s.Consistent) (hh : s.handlers conn = some h)
    (hstepped : Stepped s conn h s') (hspeaks : s'.CanSpeak conn ip code)
    : s.CanSpeak conn ip code
      ∨ ∃ peer, Enters s conn h peer ∧ h.clientIp = ip ∧ peer.peerCode = code := by
  cases hstepped with
  | beginAdd peer hpc hcall hmanager hcall' hh' => exact .inl (hspeaks.frame (hh'.trans hh.symm))
  | insideAdd pc pc' peer hcall hadded hnotEntry hadded' hin hmanager hcall' hh' =>
    exact .inl (hspeaks.frame (hh'.trans hh.symm))
  | refused peer pc error hpc hcall hfull hrooms hcounter hcall' hh' =>
    exact absurd hspeaks (not_canSpeak_of_identity hh' rfl)
  | registered peer existingPeers hcall hin hregisters hmanager hcall' hh' =>
    refine .inr ⟨peer, enters_of_registers hs hcall hregisters, ?_⟩
    obtain ⟨h', me, hh'', hip, hme, hcode, -⟩ := hspeaks
    rw [hh'] at hh''
    obtain rfl := Option.some.inj hh''
    obtain rfl := Option.some.inj hme
    exact ⟨hip, hcode⟩
  | beginRemove me hpc hcall hmanager hcall' hh' => exact .inl (hspeaks.frame (hh'.trans hh.symm))
  | leave me hpc hcall hmanager hresult hcall' hh' =>
    exact absurd hspeaks (not_canSpeak_of_identity hh' rfl)
  | leaveLast me hpc hcall hmanager hresult hcall' hh' =>
    exact .inl (hspeaks.frame (hh'.trans hh.symm))
  | drop me hpc hcall hmanager hcall' hh' =>
    exact absurd hspeaks (not_canSpeak_of_identity hh' rfl)
  | move h' hadding hremoving hcall hmanager hcall' hh' hip hidentity hadding' =>
    exact .inl (hspeaks.of_identity hh hh' hip hidentity (not_isLeaving_of_identity hremoving))

theorem canSpeak_next {action : Action} {c : PeerSender} {ip code : String} (hs : s.Consistent)
    (hnext : s.next fromStr effect action = some s') (hspeaks : s'.CanSpeak c ip code)
    : s.CanSpeak c ip code
      ∨ ∃ h peer, action = .step c ∧ s.handlers c = some h ∧ Enters s c h peer ∧ h.clientIp = ip
        ∧ peer.peerCode = code := by
  by_cases hc : c = action.connection
  . subst hc
    cases action with
    | accept conn clientIp now =>
      obtain ⟨-, rfl⟩ := handler_of_accept hnext
      exact absurd hspeaks (not_canSpeak_of_identity (Function.update_self ..) rfl)
    | receive conn received now =>
      obtain ⟨h, p, hh, hp, rfl⟩ := handler_of_receive hnext
      obtain ⟨hip, hidentity, -⟩ := identity_receive hp
      refine .inl ?_
      apply hspeaks.of_identity hh (Function.update_self ..) hip hidentity
      apply not_isLeaving_of_identity
      intro me hpc
      rcases Handler.pc_of_receive hp with hpc' | ⟨me', hpc'⟩
      . rw [hpc] at hpc'
        contradiction
      . rw [hpc] at hpc'
        contradiction
    | close conn =>
      obtain ⟨-, -, rfl⟩ := handler_of_close hnext
      exact .inl hspeaks
    | step conn =>
      obtain ⟨h, hh, hstepped, -⟩ := hs.stepped hnext
      apply (canSpeak_stepped hs hh hstepped hspeaks).imp_right
      rintro ⟨peer, henters, hip, hcode⟩
      exact ⟨h, peer, rfl, hh, henters, hip, hcode⟩
  . exact .inl (hspeaks.frame (handlers_frame hnext hc))

theorem Enters.canSpeak {peer : PeerInfo} (henters : Enters s conn h peer) (hs : s.Consistent)
    (hh : s.handlers conn = some h) (hnext : s.next fromStr effect (.step conn) = some s') :
    s'.CanSpeak conn h.clientIp peer.peerCode := by
  obtain ⟨h', hh', hstepped, -⟩ := hs.stepped hnext
  rw [hh] at hh'
  obtain rfl := Option.some.inj hh'
  obtain ⟨peer', hadding⟩ := henters.adding hs hh
  have hcall := henters.call
  cases hstepped with
  | beginAdd peer' hpc hcall' =>
    rw [hcall] at hcall'
    contradiction
  | insideAdd pc pc' peer' hcall' hadded hnotEntry =>
    rw [hcall] at hcall'
    obtain rfl := Option.some.inj hcall'
    obtain rfl := Option.some.inj hadded
    exact absurd rfl (hnotEntry h.clientIp)
  | refused peer' pc error hpc hcall' hfull =>
    rw [hcall] at hcall'
    obtain rfl := Option.some.inj hcall'
    exact absurd henters.place (Nat.not_lt.mpr (hfull peer rfl))
  | registered peer' existingPeers hcall' hin hregisters hmanager hcalls hh'' =>
    rw [hcall] at hcall'
    obtain rfl := (RoomManager.Pc.entry.inj (Option.some.inj hcall')).2
    exact ⟨_, _, hh'', rfl, rfl, rfl, rfl⟩
  | beginRemove me hpc | leave me hpc | leaveLast me hpc | drop me hpc =>
    rw [hadding] at hpc
    contradiction
  | move h' hnotAdding => exact absurd hadding (hnotAdding peer')

theorem oneSpeaker_next {action : Action} (hs : s.Consistent) (hone : s.OneSpeaker)
    (hnext : s.next fromStr effect action = some s') : s'.OneSpeaker ↔ s.CodeFree action := by
  constructor
  . intro hone'
    cases action with
    | step conn =>
      intro h peer hh hcall hplace c hspeaks
      have henters : Enters s conn h peer := ⟨hcall, hplace⟩
      obtain ⟨peer', hpc⟩ := henters.adding hs hh
      have hc : c ≠ conn := by
        rintro rfl
        exact not_canSpeak_of_identity hh (by rw [hpc]; rfl) hspeaks
      obtain ⟨h', hh', -, hframe⟩ := hs.stepped hnext
      apply hc
      apply hone' h.clientIp peer.peerCode c conn
      . exact hspeaks.frame (hframe c hc).1.symm
      . exact henters.canSpeak hs hh hnext
    | _ => trivial
  . intro hfree ip code c c' hspeaks hspeaks'
    rcases canSpeak_next hs hnext hspeaks with hbefore | ⟨h, peer, rfl, hh, henters, rfl, rfl⟩
    . rcases canSpeak_next hs hnext hspeaks' with hbefore' | ⟨h, peer, rfl, hh, henters, rfl, rfl⟩
      . exact hone ip code c c' hbefore hbefore'
      . exact absurd hbefore (hfree h peer hh henters.call henters.place c)
    . rcases canSpeak_next hs hnext hspeaks' with hbefore' | ⟨h', peer', hsame, -⟩
      . exact absurd hbefore' (hfree h peer hh henters.call henters.place c')
      . exact Action.step.inj hsame

/--
A replaced connection sends no signal, and at all times one connection at most can speak under a peer
code in a room.
-/
structure ReplacedIsOut (tr : List (Transition Server Action)) : Prop where
  silent : tr.Pairwise fun t t' => ∀ conn ip code, Replaces t conn ip code → ¬ Signals t' conn code
  oneSpeaker : ∀ t ∈ tr, t.target.OneSpeaker

theorem replaced_is_out_iff {tr : List (Transition Server Action)} (hrun : (machine fromStr).Run tr s)
    : ReplacedIsOut tr
        ↔
      ∀ t ∈ tr, t.source.CodeFree t.action := by
  have hone : (∀ t ∈ tr, t.target.OneSpeaker) ↔ ∀ t ∈ tr, t.source.CodeFree t.action := by
    refine hrun.forall_iff_of_good (P := fun t => t.target.OneSpeaker)
      (C := fun t => t.source.CodeFree t.action) OneSpeaker ?_ ?_ ?_
    . rintro _ rfl ip code c c' ⟨h, me, hh, -⟩
      contradiction
    . intro s a s' _ _ _ hone
      exact hone
    . intro s a s' hs hone hnext
      exact oneSpeaker_next (consistent hs) hone hnext
  constructor
  . intro hout
    exact hone.mp hout.oneSpeaker
  . intro hfree
    exact ⟨(silent_run hrun hfree).1, hone.mpr hfree⟩

/-! ### Two runs -/

def canSpeak (s : Server) (ip code : String) (conn : PeerSender) : Bool :=
  (s.handlers conn).any fun h =>
    h.clientIp = ip ∧ h.pc.identity.map (·.peerCode) = some code ∧ h.pc.isLeaving = false

theorem canSpeak_of_canSpeak {ip code : String} (hspeaks : s.CanSpeak conn ip code) :
    s.canSpeak ip code conn = true := by
  obtain ⟨h, me, hh, hip, hme, hcode, hleaving⟩ := hspeaks
  simp [canSpeak, hh, hip, hme, hcode, hleaving]

def isCodeFree (conns : List PeerSender) (t : Transition Server Action) : Bool :=
  match t.source.calls t.action.connection with
  | some (.entry ip peer) => conns.all fun c => !t.source.canSpeak ip peer.peerCode c
  | _ => true

theorem codeFree_of_isCodeFree {conns : List PeerSender} {action : Action}
    (hconns : ∀ c ∉ conns, s.handlers c = none) (hfree : isCodeFree conns ⟨s, action, s'⟩ = true) :
    s.CodeFree action := by
  cases action with
  | step conn =>
    intro h peer hh hcall _ c hspeaks
    have hspeaks' := canSpeak_of_canSpeak hspeaks
    by_cases hc : c ∈ conns
    . unfold isCodeFree at hfree
      simp only [Action.connection, hcall, List.all_eq_true] at hfree
      have hsilent := hfree c hc
      rw [hspeaks'] at hsilent
      contradiction
    . obtain ⟨h', me, hh', -⟩ := hspeaks
      rw [hconns c hc] at hh'
      contradiction
  | _ => trivial

/--
The second connection registers while the first is on its way out.
-/
def rejoins : List Action :=
  connects 1 "10.0.0.1" "B7H2MN" ++ List.replicate 5 (.step 1) ++ [.receive 1 .closed 0]
    ++ connects 2 "10.0.0.1" "B7H2MN" ++ List.replicate 4 (.step 2) ++ [.step 1, .step 1]
    ++ [hears 2 "@B7H2MN", .step 2, .step 2]

theorem rejoins_replaced_is_out
    : ∃ tr s, (machine plain).Run tr s ∧ (∃ t ∈ tr, Replaces t 1 "10.0.0.1" "B7H2MN")
        ∧ ReplacedIsOut tr := by
  have hexec : (Machine.exec (next plain effect) start rejoins).isSome = true := by decide
  have hreplaces : (Machine.trace (next plain effect) start rejoins).any
      (fun t => Replaces t 1 "10.0.0.1" "B7H2MN") = true := by decide
  have hfree : (Machine.trace (next plain effect) start rejoins).all
      (fun t => t.action.connection ∈ [1, 2] ∧ isCodeFree [1, 2] t) = true := by decide
  obtain ⟨s, hs⟩ := Option.isSome_iff_exists.mp hexec
  have hrun := Machine.run_of_exec hs
  obtain ⟨t, ht, hreplaced⟩ := List.any_eq_true.mp hreplaces
  refine ⟨_, s, hrun, ⟨t, ht, of_decide_eq_true hreplaced⟩, ?_⟩
  apply (replaced_is_out_iff hrun).mpr
  have hconns := fun t ht => (of_decide_eq_true (List.all_eq_true.mp hfree t ht)).1
  intro t ht
  apply codeFree_of_isCodeFree ((handlers_of_run hrun hconns).1 t ht)
  exact (of_decide_eq_true (List.all_eq_true.mp hfree t ht)).2

/--
The second connection registers, and the first sends it a signal under their code.
-/
def speaksOn : List Action :=
  connects 1 "10.0.0.1" "B7H2MN" ++ List.replicate 5 (.step 1) ++ connects 2 "10.0.0.1" "B7H2MN"
    ++ List.replicate 3 (.step 2) ++ [hears 1 "@B7H2MN", .step 1, .step 1]

theorem replaced_speaks_on : ∃ tr s, (machine plain).Run tr s ∧ ¬ ReplacedIsOut tr := by
  have hexec : (Machine.exec (next plain effect) start speaksOn).isSome = true := by decide
  have hreplaces : (Machine.trace (next plain effect) start speaksOn)[11]?.any
      (fun t => Replaces t 1 "10.0.0.1" "B7H2MN") = true := by decide
  have hsignals : (Machine.trace (next plain effect) start speaksOn)[14]?.any
      (fun t => t.action.connection = 1 ∧ enqueued t 2 = [.signal "B7H2MN" .null]) = true := by decide
  obtain ⟨s, hs⟩ := Option.isSome_iff_exists.mp hexec
  obtain ⟨t, ht, hreplaced⟩ := (Option.any_eq_true _ _).mp hreplaces
  obtain ⟨t', ht', hsignaled⟩ := (Option.any_eq_true _ _).mp hsignals
  obtain ⟨hlt, rfl⟩ := List.getElem?_eq_some_iff.mp ht
  obtain ⟨hlt', rfl⟩ := List.getElem?_eq_some_iff.mp ht'
  obtain ⟨hconn, henqueued⟩ := of_decide_eq_true hsignaled
  refine ⟨_, s, Machine.run_of_exec hs, ?_⟩
  intro hout
  apply List.pairwise_iff_getElem.mp hout.silent 11 14 hlt hlt' (by decide) 1 "10.0.0.1" "B7H2MN"
    (of_decide_eq_true hreplaced)
  refine ⟨hconn, 2, .signal "B7H2MN" .null, ?_, rfl⟩
  rw [henqueued]
  apply List.mem_singleton_self

end Server

end Rendezvous

end LocalBolt
