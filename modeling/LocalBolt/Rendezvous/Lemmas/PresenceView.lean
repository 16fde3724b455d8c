import LocalBolt.Rendezvous.Lemmas.Atomic
import LocalBolt.Replica.Basic

/-!
This module contains what a client makes of the presence messages in its channel, against the members
of its room.
-/

namespace LocalBolt

namespace Rendezvous

def ServerMessage.presence : ServerMessage → Option (Replica.Update PeerData String)
  | .peers all => some (.replace all)
  | .peerJoined peer => some (.put peer)
  | .peerLeft peerCode => some (.remove peerCode)
  | .signal _ _ | .error _ => none

def view (messages : List ServerMessage) : String → Option PeerData :=
  Replica.replay (·.peerCode) (messages.filterMap ServerMessage.presence)

def listing (peers : List PeerInfo) : String → Option PeerData :=
  Replica.index (·.peerCode) (peers.map (·.toPeerData))

theorem view_append_invisible (messages replies : List ServerMessage)
    (h : ∀ m ∈ replies, m.presence = none) : view (messages ++ replies) = view messages := by
  unfold view
  rw [List.filterMap_append, List.filterMap_eq_nil_iff.mpr h, List.append_nil]

theorem view_append_singleton (messages : List ServerMessage) {m : ServerMessage}
    {update : Replica.Update PeerData String} (h : m.presence = some update)
    : view (messages ++ [m])
        =
      Replica.apply (·.peerCode) (view messages) update := by
  unfold view
  rw [List.filterMap_append, List.filterMap_cons_some h, List.filterMap_nil, Replica.replay_append]

theorem listing_filter_ne (peers : List PeerInfo) (code : String)
    : listing (peers.filter fun p => p.peerCode ≠ code)
        =
      Function.update (listing peers) code none := by
  unfold listing
  rw [← Replica.index_filter_ne, List.filter_map]
  rfl

theorem listing_replace (peers : List PeerInfo) (peer : PeerInfo)
    : listing ((peers.filter fun p => p.peerCode ≠ peer.peerCode) ++ [peer])
        =
      Function.update (listing peers) peer.peerCode (some peer.toPeerData) := by
  have hcode : peer.peerCode = peer.toPeerData.peerCode := rfl
  unfold listing
  rw [hcode, ← Replica.index_replace, List.map_append, List.filter_map]
  rfl

def Handler.Pc.isAnnouncing : Handler.Pc → Bool
  | .announcing _ _ => true
  | _ => false

namespace Server

def IsPresent (s : Server) (conn : PeerSender) (ip : String) : Prop :=
  ∃ p ∈ s.manager.room ip, p.sender = conn

/--
If the connection is in its room, has been sent the list of peers and has not lost its channel, its
client sees the other members of the room.
-/
def RightView (s : Server) (conn : PeerSender) : Prop :=
  ∀ h me, s.handlers conn = some h → h.pc.identity = some me → h.pc.isAnnouncing = false →
    (s.channels conn).closed = false → s.IsPresent conn h.clientIp →
    view (s.channels conn).messages = listing (s.manager.others h.clientIp me.peerCode)

def RightViews (s : Server) : Prop := ∀ conn, s.RightView conn

/--
A list of peers that is sent to a connection that is in its room lists who is there.
-/
def SnapshotCurrent (s : Server) : Action → Prop
  | .step conn => ∀ h me existingPeers, s.handlers conn = some h →
      h.pc = .announcing me existingPeers → (s.channels conn).closed = false →
      s.IsPresent conn h.clientIp →
      Replica.index (·.peerCode) existingPeers = listing (s.manager.others h.clientIp me.peerCode)
  | _ => True

/-! ### Steps that nobody sees -/

variable {fromStr : String → Except String ClientMessage} {s s' : Server} {conn : PeerSender}
  {h : Handler} {e : Effect}

/--
Nothing that the view of the connection depends on changes.
-/
structure Unseen (s : Server) (c : PeerSender) (s' : Server) : Prop where
  handler : ∀ h' me, s'.handlers c = some h' → h'.pc.identity = some me →
    h'.pc.isAnnouncing = false →
    ∃ h, s.handlers c = some h ∧ h.clientIp = h'.clientIp ∧ h.pc.identity = some me
      ∧ h.pc.isAnnouncing = false
  room : ∀ ip, s'.manager.room ip = s.manager.room ip
  channel : ∃ messages, (∀ m ∈ messages, m.presence = none)
    ∧ s'.channels c = (s.channels c).push messages

theorem RightView.of_unseen {c : PeerSender} (hright : s.RightView c) (hunseen : Unseen s c s') :
    s'.RightView c := by
  intro h' me hh' hidentity hannounced hopen hpresent
  obtain ⟨h, hh, hip, hidentity, hannounced⟩ := hunseen.handler h' me hh' hidentity hannounced
  obtain ⟨messages, hinvisible, hchannel⟩ := hunseen.channel
  rw [hchannel, closed_push] at hopen
  have hothers : s'.manager.others h'.clientIp me.peerCode = s.manager.others h.clientIp me.peerCode := by
    unfold RoomManager.others
    rw [hunseen.room, hip]
  have hpresent : s.IsPresent c h.clientIp := by
    unfold IsPresent at hpresent
    rw [hunseen.room, ← hip] at hpresent
    exact hpresent
  rw [hchannel, messages_push hopen, view_append_invisible _ _ hinvisible, hothers]
  exact hright h me hh hidentity hannounced hopen hpresent

theorem invisible_of_onlyErrors {replies : List ServerMessage} (h : Handler.OnlyErrors replies) :
    ∀ m ∈ replies, m.presence = none := by
  intro m hm
  obtain ⟨e, rfl⟩ := h m hm
  rfl

theorem unseen_respond {p : Handler × List ServerMessage} (hh : s.handlers conn = some h)
    (hip : p.1.clientIp = h.clientIp)
    (hidentity : ∀ me, p.1.pc.identity = some me → p.1.pc.isAnnouncing = false →
      h.pc.identity = some me ∧ h.pc.isAnnouncing = false)
    (hreplies : Handler.OnlyErrors p.2) (c : PeerSender) : Unseen s c (s.respond conn p) := by
  constructor
  . intro h' me hh' hidentity' hannounced
    rw [handlers_respond] at hh'
    split at hh'
    . next hc =>
      subst hc
      obtain rfl := Option.some.inj hh'
      exact ⟨h, hh, hip.symm, hidentity me hidentity' hannounced⟩
    . exact ⟨h', hh', rfl, hidentity', hannounced⟩
  . intro ip
    rfl
  . by_cases hc : c = conn
    . subst hc
      exact ⟨p.2, invisible_of_onlyErrors hreplies, channels_respond_self ..⟩
    . refine ⟨[], by simp, ?_⟩
      rw [push_nil]
      exact channels_respond_of_ne s hc p

theorem unseen_respond_of_ne {c : PeerSender} (hc : c ≠ conn) (p : Handler × List ServerMessage) :
    Unseen s c (s.respond conn p) := by
  constructor
  . intro h' me hh' hidentity hannounced
    rw [handlers_respond, if_neg hc] at hh'
    exact ⟨h', hh', rfl, hidentity, hannounced⟩
  . intro ip
    rfl
  . refine ⟨[], by simp, ?_⟩
    rw [push_nil]
    exact channels_respond_of_ne s hc p

/-! ### Joins and leaves -/

theorem unseen_affected (c : PeerSender) (hrooms : ∀ ip, e.manager.room ip = s.manager.room ip)
    (hsent : ∀ m ∈ e.sent, m.2.presence = none) : Unseen s c (s.affected conn e) := by
  constructor
  . intro h me hh hidentity hannounced
    exact ⟨h, hh, rfl, hidentity, hannounced⟩
  . exact hrooms
  . refine ⟨_, ?_, rfl⟩
    intro m hm
    obtain ⟨message, hmessage, rfl⟩ := List.mem_map.mp hm
    exact hsent message (List.mem_of_mem_filter hmessage)

theorem Consistent.identity_of_sender {c : PeerSender} {hc : Handler} {me : Identity} {ip : String}
    {p : PeerInfo} (hs : s.Consistent) (hh : s.handlers c = some hc)
    (hidentity : hc.pc.identity = some me) (hp : p ∈ s.manager.room ip) (hsender : p.sender = c) :
    hc.clientIp = ip ∧ p.peerCode = me.peerCode := by
  subst hsender
  obtain ⟨h', hh', rfl, hidentity'⟩ := hs.registered_sender hp
  rw [hh] at hh'
  obtain rfl := Option.some.inj hh'
  rw [hidentity] at hidentity'
  obtain rfl := Option.some.inj hidentity'
  exact ⟨rfl, rfl⟩

/--
One room changes, and the members that it keeps are told so, each once.
-/
theorem RightView.announced {c : PeerSender} {ip code : String} {message : ServerMessage}
    {update : Replica.Update PeerData String} (hs : s.Consistent) (hright : s.RightView c)
    (hsent : e.sent = (s.manager.others ip code).map fun p => (p.sender, message))
    (hmessage : message.presence = some update)
    (hrooms : ∀ ip', ip' ≠ ip → e.manager.room ip' = s.manager.room ip')
    (hmembers : ∀ p ∈ e.manager.room ip, p.sender = c → p ∈ s.manager.others ip code)
    (hlisting : ∀ code', code' ≠ code → listing (e.manager.others ip code')
      = Replica.apply (·.peerCode) (listing (s.manager.others ip code')) update) :
    (s.affected conn e).RightView c := by
  have hnodup : ((s.manager.others ip code).map (·.sender)).Nodup :=
    (List.filter_sublist.map _).nodup (hs.nodup_room_senders ip)
  have hchannel : (s.affected conn e).channels c = (s.channels c).push
      (if c ∈ (s.manager.others ip code).map (·.sender) then [message] else []) := by
    rw [← deliver_announce hnodup, ← hsent]
    rfl
  intro h me hh hidentity hannounced hopen ⟨p, hp, hsender⟩
  have hh : s.handlers c = some h := hh
  rw [hchannel, closed_push] at hopen
  rw [hchannel, messages_push hopen]
  by_cases hip : h.clientIp = ip
  . subst hip
    have hp := hmembers p hp hsender
    obtain ⟨hp', hcode⟩ := List.mem_filter.mp hp
    rw [(hs.identity_of_sender hh hidentity hp' hsender).2, decide_eq_true_eq] at hcode
    have hview := hright h me hh hidentity hannounced hopen ⟨p, hp', hsender⟩
    rw [if_pos (List.mem_map.mpr ⟨p, hp, hsender⟩), view_append_singleton _ hmessage, hview]
    exact (hlisting me.peerCode hcode).symm
  . have hnotIn : c ∉ (s.manager.others ip code).map (·.sender) := by
      intro hmem
      obtain ⟨p', hp', hsender'⟩ := List.mem_map.mp hmem
      exact hip (hs.identity_of_sender hh hidentity (List.mem_of_mem_filter hp') hsender').1
    have hroom : (s.affected conn e).manager.room h.clientIp = s.manager.room h.clientIp :=
      hrooms h.clientIp hip
    have hothers : (s.affected conn e).manager.others h.clientIp me.peerCode
        = s.manager.others h.clientIp me.peerCode := by
      unfold RoomManager.others
      rw [hroom]
    rw [hroom] at hp
    rw [if_neg hnotIn, List.append_nil, hothers]
    exact hright h me hh hidentity hannounced hopen ⟨p, hp, hsender⟩

theorem RightView.join {c : PeerSender} {ip : String} {peer : PeerInfo}
    {g : RoomManager.Guarded (Except String (List PeerData × UInt64))} (hs : s.Consistent)
    (hright : s.RightView c) (hregisters : RoomManager.Registers s.manager ip peer g)
    (hc : peer.sender ≠ c) (hmanager : e.manager = g.manager) (hsent : e.sent = g.sent) :
    (s.affected conn e).RightView c := by
  apply hright.announced hs (hsent.trans hregisters.sent) rfl
  . intro ip' hip
    rw [hmanager, hregisters.room, if_neg hip]
  . intro p hp hsender
    rw [hmanager, hregisters.room, if_pos rfl] at hp
    rcases List.mem_append.mp hp with hp | hp
    . exact hp
    . rw [List.mem_singleton.mp hp] at hsender
      exact absurd hsender hc
  . intro code' hcode
    rw [hmanager, hregisters.others_of_ne hcode.symm, listing_replace]
    rfl

theorem RightView.leave {c : PeerSender} {ip : String} {me : Identity} (hs : s.Consistent)
    (hright : s.RightView c) (hmember : s.manager.IsMember ip me.peerCode me.sessionId)
    (hmanager : e.manager = (s.manager.removePeer ip me.peerCode me.sessionId).manager)
    (hsent : e.sent = (s.manager.removePeer ip me.peerCode me.sessionId).sent) :
    (s.affected conn e).RightView c := by
  have hremaining : s.manager.remaining ip me.peerCode me.sessionId = s.manager.others ip me.peerCode :=
    RoomManager.remaining_of_isMember hs.wellFormed hmember
  have hroom : ∀ ip', e.manager.room ip'
      = if ip' = ip then s.manager.others ip me.peerCode else s.manager.room ip' := by
    intro ip'
    rw [hmanager, RoomManager.room_removePeer, hremaining]
  have htold : e.sent
      = (s.manager.others ip me.peerCode).map fun p => (p.sender, .peerLeft me.peerCode) := by
    rw [hsent, RoomManager.sent_removePeer hmember, hremaining]
  apply hright.announced hs htold rfl
  . intro ip' hip
    rw [hroom, if_neg hip]
  . intro p hp _
    rw [hroom, if_pos rfl] at hp
    exact hp
  . intro code' _
    have hothers : e.manager.others ip code'
        = (s.manager.others ip code').filter fun p => p.peerCode ≠ me.peerCode := by
      unfold RoomManager.others
      rw [hroom, if_pos rfl]
      apply List.filter_comm
    rw [hothers, listing_filter_ne]
    rfl

/-! ### Steps -/

theorem unseen_atomicEffect (hadding : ∀ peer, h.pc ≠ .adding peer)
    (hremoving : ∀ me, h.pc ≠ .removing me) (he : s.atomicEffect conn h = some e) (c : PeerSender) :
    Unseen s c (s.affected conn e) := by
  cases acts_of_atomicEffect he with
  | add peer hpc => exact absurd hpc (hadding peer)
  | remove me hpc => exact absurd hpc (hremoving me)
  | find | send | miss | proceed =>
    apply unseen_affected
    . intro ip
      rfl
    . simp [ServerMessage.presence]

theorem RightView.affected {c : PeerSender} (hs : s.Consistent) (hright : s.RightView c)
    (hc : c ≠ conn) (hh : s.handlers conn = some h) (he : s.atomicEffect conn h = some e) :
    (s.affected conn e).RightView c := by
  by_cases hadding : ∃ peer, h.pc = .adding peer
  . obtain ⟨peer, hpc⟩ := hadding
    simp only [atomicEffect, hpc, Option.some.injEq] at he
    subst he
    by_cases haccepts : s.manager.Accepts h.clientIp peer.peerCode
    . apply hright.join hs (RoomManager.addPeer_registers hs.wellFormed haccepts) _ rfl rfl
      rw [hs.adding conn h peer hh hpc]
      exact hc.symm
    . have hrefuses := RoomManager.addPeer_refuses hs.wellFormed haccepts
      apply hright.of_unseen
      apply unseen_affected c hrefuses.rooms.room
      rw [hrefuses.sent]
      simp
  by_cases hremoving : ∃ me, h.pc = .removing me
  . obtain ⟨me, hpc⟩ := hremoving
    simp only [atomicEffect, hpc, Option.some.injEq] at he
    subst he
    by_cases hmember : s.manager.IsMember h.clientIp me.peerCode me.sessionId
    . exact hright.leave hs hmember rfl rfl
    . obtain ⟨hrooms, hsent⟩ := RoomManager.removePeer_of_not_isMember hmember
      apply hright.of_unseen
      apply unseen_affected c hrooms.room
      rw [hsent]
      simp
  apply hright.of_unseen
  exact unseen_atomicEffect (forall_not_of_not_exists hadding) (forall_not_of_not_exists hremoving) he c

/--
The handler after `add_peer` or `remove_peer` has not been sent the list of peers, or is not
registered any more.
-/
theorem unlisted_of_method {p : Handler × List ServerMessage} {input : Handler.Input}
    (hmethod : InMethod h) (hp : h.next fromStr conn input = some p) :
    p.1.pc.identity = none ∨ p.1.pc.isAnnouncing = true := by
  rcases hmethod with ⟨peer, hpc⟩ | ⟨me, hpc⟩
  . cases input with
    | added result =>
      obtain rfl := next_added hpc hp
      cases result with
      | error => exact .inl rfl
      | ok => exact .inr rfl
    | _ => simp [Handler.next, Handler.receive, hpc] at hp
  . cases input with
    | removed =>
      rw [next_removed hp]
      exact .inl rfl
    | _ => simp [Handler.next, Handler.receive, hpc] at hp

theorem answers_atomicEffect {input : Handler.Input} {p : Handler × List ServerMessage}
    (hmethod : ¬ InMethod h) (hannouncing : h.pc.isAnnouncing = false)
    (he : s.atomicEffect conn h = some e) (hinput : e.input = some input)
    (hp : h.next fromStr conn input = some p) :
    p.1.clientIp = h.clientIp ∧ p.1.pc.identity = h.pc.identity ∧ Handler.OnlyErrors p.2 := by
  obtain ⟨hadding, hremoving⟩ := not_or.mp hmethod
  obtain ⟨-, -, input', hinput', htold⟩ := atomicEffect_told fromStr (not_exists.mp hadding)
    (not_exists.mp hremoving) he
  rw [hinput] at hinput'
  obtain rfl := Option.some.inj hinput'
  obtain ⟨hip, hidentity, -⟩ := htold p hp
  refine ⟨hip, hidentity, ?_⟩
  rcases Handler.replies_next hp with hreplies | ⟨me, existingPeers, hpc, -⟩
  . exact hreplies
  . rw [hpc] at hannouncing
    contradiction

theorem rightView_announce {me : Identity} {existingPeers : List PeerData}
    (hh : s.handlers conn = some h) (hpc : h.pc = .announcing me existingPeers)
    : (s.respond conn (h.goto (.serving me), [.peers existingPeers])).RightView conn
        ↔
      s.SnapshotCurrent (.step conn) := by
  let p : Handler × List ServerMessage := (h.goto (.serving me), [.peers existingPeers])
  have hh' : (s.respond conn p).handlers conn = some (h.goto (.serving me)) := Function.update_self ..
  have hchannel : (s.respond conn p).channels conn = (s.channels conn).push [.peers existingPeers] :=
    channels_respond_self ..
  have hview : (s.channels conn).closed = false →
      view ((s.respond conn p).channels conn).messages = Replica.index (·.peerCode) existingPeers := by
    intro hopen
    rw [hchannel, messages_push hopen, view_append_singleton _ rfl]
    rfl
  constructor
  . intro hright h' me' existingPeers' hh'' hpc' hopen hpresent
    rw [hh] at hh''
    obtain rfl := Option.some.inj hh''
    rw [hpc] at hpc'
    obtain ⟨rfl, rfl⟩ := Handler.Pc.announcing.inj hpc'
    rw [← hview hopen]
    refine hright (h.goto (.serving me)) me hh' rfl rfl ?_ hpresent
    rw [hchannel, closed_push]
    exact hopen
  . intro hcurrent h' me' hh'' hidentity _ hopen hpresent
    rw [hh'] at hh''
    obtain rfl := Option.some.inj hh''
    obtain rfl : me = me' := Option.some.inj hidentity
    rw [hchannel, closed_push] at hopen
    rw [hview hopen]
    exact hcurrent h me existingPeers hh hpc hopen hpresent

theorem rightView_self (hright : s.RightView conn) (hh : s.handlers conn = some h)
    (he : s.atomicEffect conn h = some e) (hrun : s.run fromStr conn h e = some s')
    : s'.RightView conn ↔ s.SnapshotCurrent (.step conn) := by
  obtain ⟨input, hinput⟩ := input_atomicEffect he
  rw [run_of_input hinput] at hrun
  obtain ⟨p, hp, rfl⟩ := Option.map_eq_some_iff.mp hrun
  cases hannouncing : h.pc.isAnnouncing with
  | true =>
    cases hpc : h.pc with
    | announcing me existingPeers =>
      simp only [atomicEffect, hpc, Option.some.injEq] at he
      subst he
      obtain rfl := Option.some.inj hinput
      simp only [Handler.next, hpc, Option.some.injEq] at hp
      subst hp
      have hcurrent := rightView_announce (s := s.affected conn
        { manager := s.manager, sent := [], call := none, input := some .proceed }) hh hpc
      apply hcurrent.trans
      -- the step does nothing else
      simp only [SnapshotCurrent, affected, IsPresent, deliver_nil]
    | _ =>
      rw [hpc] at hannouncing
      contradiction
  | false =>
    have hcurrent : s.SnapshotCurrent (.step conn) := by
      intro h' me existingPeers hh' hpc
      rw [hh] at hh'
      obtain rfl := Option.some.inj hh'
      rw [hpc] at hannouncing
      contradiction
    refine iff_of_true ?_ hcurrent
    by_cases hmethod : InMethod h
    . intro h' me hh' hidentity hannounced
      rw [handlers_respond, if_pos rfl] at hh'
      obtain rfl := Option.some.inj hh'
      rcases unlisted_of_method hmethod hp with hnone | hannouncing'
      . rw [hidentity] at hnone
        contradiction
      . rw [hannounced] at hannouncing'
        contradiction
    . obtain ⟨hip, hidentity, hreplies⟩ := answers_atomicEffect hmethod hannouncing he hinput hp
      obtain ⟨hadding, hremoving⟩ := not_or.mp hmethod
      have haffected : (s.affected conn e).RightView conn := by
        apply hright.of_unseen
        exact unseen_atomicEffect (not_exists.mp hadding) (not_exists.mp hremoving) he conn
      apply haffected.of_unseen
      have hh' : (s.affected conn e).handlers conn = some h := hh
      apply unseen_respond hh' hip _ hreplies
      intro me hme _
      rw [hidentity] at hme
      exact ⟨hme, hannouncing⟩

theorem rightView_step {c : PeerSender} (hs : s.Consistent) (hright : s.RightView c)
    (hnext : s.next fromStr atomicEffect (.step conn) = some s')
    : s'.RightView c ↔ (c = conn → s.SnapshotCurrent (.step conn)) := by
  obtain ⟨h, e, hh, he, hrun⟩ := handler_of_step hnext
  by_cases hc : c = conn
  . subst hc
    rw [rightView_self hright hh he hrun]
    exact ⟨fun hcurrent _ => hcurrent, fun hcurrent => hcurrent rfl⟩
  . refine iff_of_true ?_ (fun hsame => absurd hsame hc)
    obtain ⟨input, hinput⟩ := input_atomicEffect he
    rw [run_of_input hinput] at hrun
    obtain ⟨p, -, rfl⟩ := Option.map_eq_some_iff.mp hrun
    exact (hright.affected hs hc hh he).of_unseen (unseen_respond_of_ne hc p)

theorem rightViews_receive {received : Received} {now : Nat} (hright : s.RightViews)
    (hnext : s.next fromStr atomicEffect (.receive conn received now) = some s') :
    s'.RightViews := by
  obtain ⟨h, p, hh, hp, rfl⟩ := handler_of_receive hnext
  obtain ⟨hip, hidentity, -⟩ := identity_receive hp
  intro c
  apply (hright c).of_unseen
  rcases Handler.pc_of_receive hp with hpc | ⟨me, hpc⟩
  . apply unseen_respond hh hip _ (Handler.answers_receive_registering hpc hp).replies
    intro me hme
    rw [hidentity, hpc] at hme
    contradiction
  . apply unseen_respond hh hip _ (Handler.answers_receive_serving hpc hp).replies
    intro me hme _
    rw [hidentity] at hme
    exact ⟨hme, by rw [hpc]; rfl⟩

theorem rightViews_next {action : Action} (hs : s.Consistent) (hright : s.RightViews)
    (hnext : s.next fromStr atomicEffect action = some s')
    : s'.RightViews ↔ s.SnapshotCurrent action := by
  cases action with
  | step conn =>
    constructor
    . intro hright'
      exact (rightView_step hs (hright conn) hnext).mp (hright' conn) rfl
    . intro hcurrent c
      exact (rightView_step hs (hright c) hnext).mpr fun _ => hcurrent
  | receive conn received now => exact iff_of_true (rightViews_receive hright hnext) trivial
  | accept conn clientIp now =>
    refine iff_of_true ?_ trivial
    obtain ⟨-, rfl⟩ := handler_of_accept hnext
    intro c h me hh hidentity
    by_cases hc : c = conn
    . subst hc
      dsimp only at hh
      rw [Function.update_self] at hh
      obtain rfl := Option.some.inj hh
      contradiction
    . dsimp only at hh
      rw [Function.update_of_ne hc] at hh
      exact hright c h me hh hidentity
  | close conn =>
    refine iff_of_true ?_ trivial
    obtain ⟨-, -, rfl⟩ := handler_of_close hnext
    intro c h me hh hidentity hannounced hopen hpresent
    by_cases hc : c = conn
    . subst hc
      simp at hopen
    . dsimp only at hopen ⊢
      rw [Function.update_of_ne hc] at hopen ⊢
      exact hright c h me hh hidentity hannounced hopen hpresent

/--
Every client's view is right at all times if and only if every list of peers is still current when it
is sent.
-/
theorem views_right_iff {tr : List (Transition Server Action)}
    (hrun : (atomicMachine fromStr).Run tr s)
    : (∀ t ∈ tr, t.target.RightViews)
        ↔
      ∀ t ∈ tr, t.source.SnapshotCurrent t.action := by
  refine hrun.forall_iff_of_good (P := fun t => t.target.RightViews)
    (C := fun t => t.source.SnapshotCurrent t.action) RightViews ?_ ?_ ?_
  . rintro _ rfl
    simp [RightViews, RightView, start]
  . intro s a s' _ _ _ hright
    exact hright
  . intro s a s' hs hright hnext
    exact rightViews_next (consistent_of_atomic hs) hright hnext

def isFresh (s : Server) : Action → Bool
  | .step conn =>
    match (s.handlers conn).map fun h => (h.clientIp, h.pc) with
    | some (ip, Handler.Pc.announcing me existingPeers) =>
      existingPeers = (s.manager.others ip me.peerCode).map (·.toPeerData)
    | _ => true
  | _ => true

theorem snapshotCurrent_of_isFresh {action : Action} (hfresh : s.isFresh action = true) :
    s.SnapshotCurrent action := by
  cases action with
  | step conn =>
    intro h me existingPeers hh hpc _ _
    unfold isFresh at hfresh
    dsimp only at hfresh
    rw [hh, Option.map_some, hpc] at hfresh
    rw [of_decide_eq_true hfresh]
    rfl
  | _ => trivial

def twoJoinInTurn : List Action :=
  connects 1 "10.0.0.1" "B7H2MN" ++ [.step 1, .step 1] ++ connects 2 "10.0.0.1" "C8J3PQ"
    ++ [.step 2, .step 2]

theorem views_right_in_turn
    : ∃ tr s, (atomicMachine plain).Run tr s ∧ s.manager.peerCount = 2
        ∧ ∀ t ∈ tr, t.target.RightViews := by
  have hexec : (Machine.exec (next plain atomicEffect) start twoJoinInTurn).any
      (fun s => s.manager.peerCount = 2) = true := by decide
  have hfresh : (Machine.trace (next plain atomicEffect) start twoJoinInTurn).all
      (fun t => t.source.isFresh t.action) = true := by decide
  obtain ⟨s, hs, hcount⟩ := (Option.any_eq_true _ _).mp hexec
  have hrun := Machine.run_of_exec hs
  refine ⟨_, s, hrun, of_decide_eq_true hcount, ?_⟩
  apply (views_right_iff hrun).mpr
  intro t ht
  apply snapshotCurrent_of_isFresh
  exact List.all_eq_true.mp hfresh t ht

/--
The second peer joins between the first one's `add_peer` and its list of peers.
-/
def joinsBeforeList : List Action :=
  connects 1 "10.0.0.1" "B7H2MN" ++ connects 2 "10.0.0.1" "C8J3PQ" ++ [.step 1, .step 2, .step 1]

def laptop (code : String) : PeerData := ⟨code, "laptop", .laptop, none, none⟩

theorem list_hides_peer : ∃ s, (atomicMachine plain).Reachable s ∧ ¬ s.RightViews := by
  have hexec : (Machine.exec (next plain atomicEffect) start joinsBeforeList).any
      (fun s => (s.handlers 1).map (fun h => (h.clientIp, h.pc))
          = some ("10.0.0.1", .serving ⟨"B7H2MN", 1⟩)
        ∧ s.channels 1 = ⟨[.peerJoined (laptop "C8J3PQ"), .peers []], false⟩
        ∧ (s.manager.room "10.0.0.1").map (fun p => (p.toPeerData, p.sender))
          = [(laptop "B7H2MN", 1), (laptop "C8J3PQ", 2)]) = true := by
    decide
  obtain ⟨s, hs, hfacts⟩ := Machine.exists_reachable_of_exec hexec
  obtain ⟨hhandler, hchannel, hroom⟩ := of_decide_eq_true hfacts
  obtain ⟨h, hh, hpc⟩ := Option.map_eq_some_iff.mp hhandler
  obtain ⟨hip, hpc⟩ := Prod.mk.inj hpc
  refine ⟨s, hs, ?_⟩
  intro hright
  have hmem : (laptop "B7H2MN", 1)
      ∈ (s.manager.room h.clientIp).map fun p => (p.toPeerData, p.sender) := by
    rw [hip, hroom]
    apply List.mem_cons_self
  obtain ⟨p, hp, hsame⟩ := List.mem_map.mp hmem
  have hview := hright 1 h ⟨"B7H2MN", 1⟩ hh (by rw [hpc]; rfl) (by rw [hpc]; rfl) (by rw [hchannel])
    ⟨p, hp, (Prod.mk.inj hsame).2⟩
  -- the second peer is in the room and not in the view
  have hlisted : listing (s.manager.others h.clientIp "B7H2MN") "C8J3PQ" = some (laptop "C8J3PQ") := by
    have hpeers := congrArg (List.map (·.1)) hroom
    rw [List.map_map] at hpeers
    have hlisting : listing (s.manager.room h.clientIp)
        = Replica.index (·.peerCode) [laptop "B7H2MN", laptop "C8J3PQ"] := by
      rw [hip]
      exact congrArg _ hpeers
    unfold RoomManager.others
    rw [listing_filter_ne, hlisting]
    decide
  rw [hchannel] at hview
  have hviewed := congrFun hview "C8J3PQ"
  rw [hlisted] at hviewed
  contradiction

end Server

end Rendezvous

end LocalBolt
