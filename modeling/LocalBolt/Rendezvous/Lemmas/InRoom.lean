import LocalBolt.Rendezvous.Lemmas.Atomic

/-!
This module contains that what a handler does reaches only connections of its own room, as long as no
client sends a manual signal.
-/

namespace LocalBolt

namespace Rendezvous

namespace Handler

variable {fromStr : String → Except String ClientMessage} {tx : PeerSender} {h : Handler}
  {p : Handler × List ServerMessage}

theorem clientIp_next {input : Input} (hp : h.next fromStr tx input = some p) :
    p.1.clientIp = h.clientIp := by
  unfold next at hp
  split at hp
  . rcases pc_of_receive hp with hpc | ⟨me, hpc⟩
    . exact (answers_receive_registering hpc hp).clientIp
    . exact (answers_receive_serving hpc hp).clientIp
  . split at hp
    . obtain rfl := Option.some.inj hp
      unfold added
      split <;> rfl
    . contradiction
  all_goals
    split at hp
    all_goals first
      | contradiction
      | obtain rfl := Option.some.inj hp
        rfl

theorem input_of_relaying {input : Input} {me : Identity} {target : String} {payload : Json}
    {lookup : RoomManager.ManualPeerLookup} (hp : h.next fromStr tx input = some p)
    (hpc' : p.1.pc = .relaying me target payload lookup)
    : input = .found lookup ∧ ∃ manual, h.pc = .finding me target payload manual := by
  unfold next at hp
  split at hp
  . rcases pc_of_receive hp with hpc | ⟨me, hpc⟩
    . have hfrom := (answers_receive_registering hpc hp).pc
      rw [hpc'] at hfrom
      cases hfrom
    . have hfrom := (answers_receive_serving hpc hp).pc
      rw [hpc'] at hfrom
      cases hfrom
  . split at hp
    . obtain rfl := Option.some.inj hp
      unfold added at hpc'
      split at hpc' <;> contradiction
    . contradiction
  . split at hp
    . next manual hpc =>
      obtain rfl := Option.some.inj hp
      obtain ⟨rfl, rfl, rfl, rfl⟩ := Pc.relaying.inj hpc'
      exact ⟨rfl, manual, hpc⟩
    . contradiction
  all_goals
    split at hp
    all_goals first
      | contradiction
      | obtain rfl := Option.some.inj hp
        contradiction

theorem pc_answerSignal {me me' : Identity} {target target' : String} {payload payload' : Json}
    {manual : Bool} (hpc : h.pc = .serving me')
    (hpc' : (answerMessage.answerSignal me h target payload manual).1.pc
      = .finding me' target' payload' true)
    : manual = true := by
  unfold answerMessage.answerSignal at hpc'
  split at hpc'
  . rw [hpc] at hpc'
    contradiction
  . obtain ⟨-, -, -, hmanual⟩ := Pc.finding.inj hpc'
    exact hmanual

theorem manual_of_answerMessage {me me' : Identity} {message : Except String ClientMessage}
    {target : String} {payload : Json} (hpc : h.pc = .serving me')
    (hpc' : (answerMessage me message h).1.pc = .finding me' target payload true)
    : ∃ target payload, message = .ok (.manualSignal target payload) := by
  unfold answerMessage at hpc'
  split at hpc'
  . have := pc_answerSignal hpc hpc'
    contradiction
  . exact ⟨_, _, rfl⟩
  all_goals
    rw [hpc] at hpc'
    contradiction

theorem manual_of_admitText {text : String} {now : Nat} {me me' : Identity} {target : String}
    {payload : Json} {message : Except String ClientMessage} (hpc : h.pc = .serving me')
    (hpc' : (h.admitText text now (.removing me') (answerMessage me' message)).1.pc
      = .finding me target payload true)
    : ∃ target payload, message = .ok (.manualSignal target payload) := by
  have hanswers : Answers h (fun pc => ∀ target payload, pc = .finding me target payload true →
      ∃ target payload, message = .ok (.manualSignal target payload))
      (h.admitText text now (.removing me') (answerMessage me' message)) := by
    apply answers_admitText
    . rw [hpc]
      simp
    . simp
    . intro h' hip hsame
      have hanswered : Answers h' (FromServing me') (answerMessage me' message h') :=
        answers_answerMessage (hsame.trans hpc)
      refine ⟨hanswered.clientIp, ?_, hanswered.replies⟩
      intro target payload hfinding
      have hfrom := hanswered.pc
      rw [hfinding] at hfrom
      cases hfrom
      exact manual_of_answerMessage (hsame.trans hpc) hfinding
  exact hanswers.pc target payload hpc'

theorem manual_of_receive {received : Received} {now : Nat} {me : Identity} {target : String}
    {payload : Json} (hp : h.receive fromStr tx received now = some p)
    (hpc' : p.1.pc = .finding me target payload true)
    : ∃ text target payload, received = .message (.text text)
        ∧ fromStr text = .ok (.manualSignal target payload) := by
  rcases pc_of_receive hp with hpc | ⟨me', hpc⟩
  . have hfrom := (answers_receive_registering hpc hp).pc
    rw [hpc'] at hfrom
    cases hfrom
  . have hother : ∀ q : Handler × List ServerMessage, some q = some p →
        q.1.pc = .serving me' ∨ q.1.pc = .removing me' → False := by
      intro q hq hor
      obtain rfl := Option.some.inj hq
      rw [hpc'] at hor
      simp at hor
    unfold receive at hp
    rw [hpc] at hp
    cases received with
    | message message =>
      cases message with
      | text text =>
        obtain rfl := Option.some.inj hp
        obtain ⟨target, payload, hmessage⟩ := manual_of_admitText hpc hpc'
        exact ⟨text, target, payload, rfl, hmessage⟩
      | close => exact (hother _ hp (.inr rfl)).elim
      | binary | ping | pong | frame => exact (hother _ hp (.inl hpc)).elim
    | error | closed | timeout => exact (hother _ hp (.inr rfl)).elim

theorem pc_of_finding {input : Input} {me : Identity} {target : String} {payload : Json}
    {manual : Bool} (hp : h.next fromStr tx input = some p)
    (hpc' : p.1.pc = .finding me target payload manual) :
    ∃ received now, input = .received received now := by
  cases input with
  | received received now => exact ⟨received, now, rfl⟩
  | _ =>
    simp only [next] at hp
    split at hp
    all_goals first
      | contradiction
      | obtain rfl := Option.some.inj hp
        first
          | contradiction
          | unfold added at hpc'
            split at hpc' <;> contradiction

end Handler

namespace Server

def inRoom (s : Server) (ip : String) (conn : PeerSender) : Bool :=
  (s.handlers conn).any fun h => h.clientIp = ip

/--
The action is a frame that asks for a peer in any room.
-/
def Action.IsManual (fromStr : String → Except String ClientMessage) : Action → Prop
  | .receive _ (.message (.text text)) _ =>
    ∃ target payload, fromStr text = .ok (.manualSignal target payload)
  | _ => False

structure Contained (s : Server) : Prop where
  fresh : ∀ conn, s.handlers conn = none → s.channels conn = ⟨[], false⟩
  relays : ∀ conn h me target payload sender, s.handlers conn = some h →
    h.pc = .relaying me target payload (.found sender) → s.inRoom h.clientIp sender = true
  notManual : ∀ conn h me target payload, s.handlers conn = some h →
    h.pc ≠ .finding me target payload true

variable {fromStr : String → Except String ClientMessage} {s s' : Server} {conn : PeerSender}
  {h : Handler} {e : Effect}

theorem inRoom_of_handler {ip : String} (hh : s.handlers conn = some h)
    : s.inRoom ip conn = true
        ↔
      h.clientIp = ip := by
  simp [inRoom, hh]

theorem inRoom_respond {ip : String} {p : Handler × List ServerMessage} (hh : s.handlers conn = some h)
    (hip : p.1.clientIp = h.clientIp) (c : PeerSender) :
    (s.respond conn p).inRoom ip c = s.inRoom ip c := by
  unfold inRoom
  rw [handlers_respond]
  split
  . next hc =>
    subst hc
    rw [hh, Option.any_some, Option.any_some, hip]
  . rfl

theorem Consistent.inRoom_sender (hs : s.Consistent) {ip : String} {p : PeerInfo}
    (hp : p ∈ s.manager.room ip) : s.inRoom ip p.sender = true := by
  obtain ⟨⟨h, hh, hip, -⟩, -⟩ := hs.owned ip p hp
  exact (inRoom_of_handler hh).mpr hip

theorem sent_addPeer (hs : s.Consistent) (ip : String) (peer : PeerInfo)
    : ∀ message ∈ (s.manager.addPeer ip peer).sent, ∃ p ∈ s.manager.room ip, p.sender = message.1 := by
  intro message hmessage
  by_cases haccepts : s.manager.Accepts ip peer.peerCode
  . rw [(RoomManager.addPeer_registers hs.wellFormed haccepts).sent] at hmessage
    obtain ⟨p, hp, rfl⟩ := List.mem_map.mp hmessage
    exact ⟨p, List.mem_of_mem_filter hp, rfl⟩
  . rw [(RoomManager.addPeer_refuses hs.wellFormed haccepts).sent] at hmessage
    contradiction

theorem sent_removePeer (m : RoomManager) (ip code : String) (sessionId : UInt64)
    : ∀ message ∈ (m.removePeer ip code sessionId).sent, ∃ p ∈ m.room ip, p.sender = message.1 := by
  intro message hmessage
  by_cases hmember : m.IsMember ip code sessionId
  . rw [RoomManager.sent_removePeer hmember] at hmessage
    obtain ⟨p, hp, rfl⟩ := List.mem_map.mp hmessage
    exact ⟨p, List.mem_of_mem_filter hp, rfl⟩
  . rw [(RoomManager.removePeer_of_not_isMember hmember).2] at hmessage
    contradiction

theorem sent_inRoom (hs : s.Consistent) (hcontained : s.Contained) (hh : s.handlers conn = some h)
    (he : s.atomicEffect conn h = some e) :
    ∀ message ∈ e.sent, s.inRoom h.clientIp message.1 = true := by
  intro message hmessage
  cases acts_of_atomicEffect he with
  | add =>
    obtain ⟨p, hp, hsender⟩ := sent_addPeer hs _ _ message hmessage
    rw [← hsender]
    exact hs.inRoom_sender hp
  | remove =>
    obtain ⟨p, hp, hsender⟩ := sent_removePeer _ _ _ _ message hmessage
    rw [← hsender]
    exact hs.inRoom_sender hp
  | send me target payload sender hpc =>
    obtain rfl := List.mem_singleton.mp hmessage
    exact hcontained.relays conn h me target payload sender hh hpc
  | find | miss | proceed => contradiction

theorem found_inRoom (hs : s.Consistent) {ip target : String} {sender : PeerSender}
    (hfound : lookup s.manager ip target false = .found sender) : s.inRoom ip sender = true := by
  unfold lookup RoomManager.findPeer at hfound
  rw [if_neg Bool.false_ne_true] at hfound
  cases hfind : (s.manager.room ip).find? fun peer => peer.peerCode = target with
  | none =>
    rw [hfind] at hfound
    contradiction
  | some p =>
    rw [hfind] at hfound
    obtain rfl := RoomManager.ManualPeerLookup.found.inj hfound
    exact hs.inRoom_sender (List.mem_of_find?_eq_some hfind)

/-! ### Steps -/

theorem respond_of_step (hnext : s.next fromStr atomicEffect (.step conn) = some s')
    : ∃ h e input p, s.handlers conn = some h ∧ s.atomicEffect conn h = some e
        ∧ e.input = some input ∧ h.next fromStr conn input = some p
        ∧ s' = (s.affected conn e).respond conn p := by
  obtain ⟨h, e, hh, he, hrun⟩ := handler_of_step hnext
  obtain ⟨input, hinput⟩ := input_atomicEffect he
  rw [run_of_input hinput] at hrun
  obtain ⟨p, hp, rfl⟩ := Option.map_eq_some_iff.mp hrun
  exact ⟨h, e, input, p, hh, he, hinput, hp, rfl⟩

theorem inRoom_next {action : Action} {c : PeerSender} (ip : String)
    (haccept : ∀ clientIp now, action ≠ .accept c clientIp now)
    (hnext : s.next fromStr atomicEffect action = some s') : s'.inRoom ip c = s.inRoom ip c := by
  by_cases hc : c = action.connection
  . subst hc
    cases action with
    | accept conn clientIp now => exact absurd rfl (haccept clientIp now)
    | receive conn received now =>
      obtain ⟨h, p, hh, hp, rfl⟩ := handler_of_receive hnext
      exact inRoom_respond hh (identity_receive hp).1 _
    | step conn =>
      obtain ⟨h, e, input, p, hh, he, hinput, hp, rfl⟩ := respond_of_step hnext
      have hh' : (s.affected conn e).handlers conn = some h := hh
      exact inRoom_respond hh' (Handler.clientIp_next hp) _
    | close conn =>
      obtain ⟨-, -, rfl⟩ := handler_of_close hnext
      rfl
  . unfold inRoom
    rw [handlers_frame hnext hc]

theorem inRoom_mono {action : Action} {c : PeerSender} {ip : String} (hin : s.inRoom ip c = true)
    (hnext : s.next fromStr atomicEffect action = some s') : s'.inRoom ip c = true := by
  rw [inRoom_next ip _ hnext]
  . exact hin
  . rintro clientIp now rfl
    obtain ⟨hnone, -⟩ := handler_of_accept hnext
    simp [inRoom, hnone] at hin

/--
How the handler of a connection comes about.
-/
inductive Comes (fromStr : String → Except String ClientMessage) (s : Server) (c : PeerSender)
    (h' : Handler) : Action → Prop where
  | stays (action : Action) : s.handlers c = some h' → Comes fromStr s c h' action
  | accepted (clientIp : String) (now : Nat) : h' = .start clientIp now →
      Comes fromStr s c h' (.accept c clientIp now)
  | received (h : Handler) (received : Received) (now : Nat) (replies : List ServerMessage) :
      s.handlers c = some h → h.receive fromStr c received now = some (h', replies) →
      Comes fromStr s c h' (.receive c received now)
  | stepped (h : Handler) (e : Effect) (input : Handler.Input) (replies : List ServerMessage) :
      s.handlers c = some h → s.atomicEffect c h = some e → e.input = some input →
      h.next fromStr c input = some (h', replies) → Comes fromStr s c h' (.step c)

theorem comes_next {action : Action} {c : PeerSender} {h' : Handler}
    (hnext : s.next fromStr atomicEffect action = some s') (hh' : s'.handlers c = some h') :
    Comes fromStr s c h' action := by
  by_cases hc : c = action.connection
  . subst hc
    cases action with
    | accept conn clientIp now =>
      obtain ⟨-, rfl⟩ := handler_of_accept hnext
      dsimp only [Action.connection] at hh'
      rw [Function.update_self] at hh'
      exact .accepted clientIp now (Option.some.inj hh').symm
    | receive conn received now =>
      obtain ⟨h, p, hh, hp, rfl⟩ := handler_of_receive hnext
      rw [Action.connection, handlers_respond, if_pos rfl] at hh'
      obtain rfl := Option.some.inj hh'
      exact .received h received now p.2 hh hp
    | step conn =>
      obtain ⟨h, e, input, p, hh, he, hinput, hp, rfl⟩ := respond_of_step hnext
      rw [Action.connection, handlers_respond, if_pos rfl] at hh'
      obtain rfl := Option.some.inj hh'
      exact .stepped h e input p.2 hh he hinput hp
    | close conn =>
      obtain ⟨-, -, rfl⟩ := handler_of_close hnext
      exact .stays _ hh'
  . rw [handlers_frame hnext hc] at hh'
    exact .stays _ hh'

theorem channels_affected_of_none {c : PeerSender} (hs : s.Consistent) (hcontained : s.Contained)
    (hh : s.handlers conn = some h) (he : s.atomicEffect conn h = some e)
    (hnone : s.handlers c = none) : (s.affected conn e).channels c = s.channels c := by
  apply deliver_of_forall_ne
  rintro message hmessage rfl
  have hin := sent_inRoom hs hcontained hh he message hmessage
  rw [inRoom, hnone] at hin
  contradiction

theorem Contained.fresh_next {action : Action} {c : PeerSender} (hs : s.Consistent)
    (hcontained : s.Contained) (hnext : s.next fromStr atomicEffect action = some s')
    (hnone' : s'.handlers c = none) : s'.channels c = ⟨[], false⟩ := by
  have hne : ∀ conn h, s'.handlers conn = some h → c ≠ conn := by
    rintro conn h hh rfl
    rw [hnone'] at hh
    contradiction
  cases action with
  | accept conn clientIp now =>
    obtain ⟨-, rfl⟩ := handler_of_accept hnext
    have hc := hne conn _ (Function.update_self ..)
    exact hcontained.fresh c ((Function.update_of_ne hc _ _).symm.trans hnone')
  | receive conn received now =>
    obtain ⟨h, p, hh, hp, rfl⟩ := handler_of_receive hnext
    have hc := hne conn _ (Function.update_self ..)
    rw [handlers_respond, if_neg hc] at hnone'
    rw [channels_respond_of_ne _ hc]
    exact hcontained.fresh c hnone'
  | step conn =>
    obtain ⟨h, e, input, p, hh, he, hinput, hp, rfl⟩ := respond_of_step hnext
    have hc := hne conn _ (Function.update_self ..)
    rw [handlers_respond, if_neg hc] at hnone'
    rw [channels_respond_of_ne _ hc, channels_affected_of_none hs hcontained hh he hnone']
    exact hcontained.fresh c hnone'
  | close conn =>
    obtain ⟨h, hh, rfl⟩ := handler_of_close hnext
    have hc := hne conn h hh
    exact (Function.update_of_ne hc _ _).trans (hcontained.fresh c hnone')

theorem input_ne_received (he : s.atomicEffect conn h = some e) (received : Received) (now : Nat) :
    e.input ≠ some (.received received now) := by
  cases acts_of_atomicEffect he <;> simp

theorem Contained.next {action : Action} (hs : s.Consistent) (hcontained : s.Contained)
    (hmanual : ¬ action.IsManual fromStr) (hnext : s.next fromStr atomicEffect action = some s') :
    s'.Contained := by
  constructor
  . intro c hnone'
    exact hcontained.fresh_next hs hnext hnone'
  . intro c h' me target payload sender hh' hpc'
    apply inRoom_mono _ hnext
    cases comes_next hnext hh' with
    | stays _ hh => exact hcontained.relays c h' me target payload sender hh hpc'
    | accepted clientIp now hstart =>
      rw [hstart] at hpc'
      contradiction
    | received h received now replies hh hp =>
      have hp : h.next fromStr c (.received received now) = some (h', replies) := hp
      obtain ⟨hinput, -⟩ := Handler.input_of_relaying hp hpc'
      contradiction
    | stepped h e input replies hh he hinput hp =>
      obtain ⟨rfl, manual, hpc⟩ := Handler.input_of_relaying hp hpc'
      have hip : h'.clientIp = h.clientIp := Handler.clientIp_next hp
      have hmanual : manual = false := by
        rw [← Bool.not_eq_true]
        rintro rfl
        exact hcontained.notManual c h me target payload hh hpc
      subst hmanual
      simp only [atomicEffect, hpc, Option.some.injEq] at he
      subst he
      have hfound := Handler.Input.found.inj (Option.some.inj hinput)
      rw [hip]
      exact found_inRoom hs hfound
  . intro c h' me target payload hh' hpc'
    cases comes_next hnext hh' with
    | stays _ hh => exact hcontained.notManual c h' me target payload hh hpc'
    | accepted clientIp now hstart =>
      rw [hstart] at hpc'
      contradiction
    | received h received now replies hh hp =>
      obtain ⟨text, target, payload, rfl, htext⟩ := Handler.manual_of_receive hp hpc'
      exact hmanual ⟨target, payload, htext⟩
    | stepped h e input replies hh he hinput hp =>
      obtain ⟨received, now, rfl⟩ := Handler.pc_of_finding hp hpc'
      exact absurd hinput (input_ne_received he received now)

theorem contained_start : start.Contained := by
  constructor <;> simp [start]

end Server

end Rendezvous

end LocalBolt
