import LocalBolt.Machine.Noninterference
import LocalBolt.Rendezvous.Lemmas.Anonymous
import LocalBolt.Rendezvous.Lemmas.InRoom

/-!
This module contains that each room of the server behaves as if it were alone, and that the
connections of a room therefore cannot tell what happens in the others.
-/

namespace LocalBolt

namespace Rendezvous

namespace Server

def project (ip : String) (s : Server) : Room where
  members := (s.manager.room ip).map (·.anonymous)
  handlers conn := ((s.handlers conn).filter fun h => h.clientIp = ip).map (·.anonymous)
  channels conn := if s.inRoom ip conn = true then s.channels conn else ⟨[], false⟩

/--
The action is one of a connection of the room.
-/
def ofRoom (ip : String) (t : Transition Server Action) : Bool :=
  match t.action with
  | .accept _ clientIp _ => clientIp = ip
  | action => t.source.inRoom ip action.connection

structure Tame (s : Server) : Prop where
  consistent : s.Consistent
  contained : s.Contained
  sessions : ∀ c c' id, s.sessionOf c = some id → s.sessionOf c' = some id → c = c'
  limit : s.manager.roomCount < maxRooms

variable {fromStr : String → Except String ClientMessage} {s s' : Server} {conn : PeerSender}
  {h : Handler} {e : Effect} {ip : String}

/-! ### Projections -/

theorem handlers_project (hh : s.handlers conn = some h) (hip : h.clientIp = ip) :
    (project ip s).handlers conn = some h.anonymous := by
  simp [project, hh, hip]

theorem handlers_project_of_ne (hh : s.handlers conn = some h) (hip : h.clientIp ≠ ip) :
    (project ip s).handlers conn = none := by
  simp [project, hh, hip]

theorem channels_project (hin : s.inRoom ip conn = true) :
    (project ip s).channels conn = s.channels conn := by
  exact if_pos hin

theorem channels_project_of_not (hin : s.inRoom ip conn = false) :
    (project ip s).channels conn = ⟨[], false⟩ := by
  exact if_neg (by simp [hin])

theorem handlers_project_congr {c : PeerSender} (hhandlers : s'.handlers c = s.handlers c) :
    (project ip s').handlers c = (project ip s).handlers c := by
  unfold project
  dsimp only
  rw [hhandlers]

theorem channels_project_congr {c : PeerSender} (hhandlers : s'.handlers c = s.handlers c)
    (hchannels : s'.channels c = s.channels c) :
    (project ip s').channels c = (project ip s).channels c := by
  unfold project inRoom
  dsimp only
  rw [hhandlers, hchannels]

theorem inRoom_of_ne {ip' : String} (hin : s.inRoom ip' conn = true) (hip : ip' ≠ ip) :
    s.inRoom ip conn = false := by
  unfold inRoom at hin ⊢
  cases hh : s.handlers conn with
  | none => rfl
  | some h =>
    rw [hh, Option.any_some, decide_eq_true_eq] at hin
    rw [Option.any_some, decide_eq_false_iff_not, hin]
    exact hip

theorem project_respond {p : Handler × List ServerMessage} (hh : s.handlers conn = some h)
    (hip : h.clientIp = ip) (hip' : p.1.clientIp = h.clientIp)
    : project ip (s.respond conn p)
        =
      (project ip s).respond conn (Handler.anonymousReply p) := by
  have hin : s.inRoom ip conn = true := (inRoom_of_handler hh).mpr hip
  have hinRoom : ∀ c, (s.respond conn p).inRoom ip c = s.inRoom ip c := inRoom_respond hh hip'
  ext1
  . rfl
  . funext c
    by_cases hc : c = conn
    . subst hc
      have hh' : (s.respond c p).handlers c = some p.1 := Function.update_self ..
      rw [handlers_project hh' (hip'.trans hip)]
      exact (Function.update_self c (some p.1.anonymous) (project ip s).handlers).symm
    . have hsame : (s.respond conn p).handlers c = s.handlers c := Function.update_of_ne hc _ _
      apply Eq.trans _ (Function.update_of_ne hc _ _).symm
      simp only [project, hsame]
  . funext c
    by_cases hc : c = conn
    . subst hc
      rw [channels_project ((hinRoom c).trans hin), channels_respond_self, ← channels_project hin]
      exact (deliver_self _ c p.2).symm
    . apply Eq.trans _ (deliver_other _ hc p.2).symm
      simp only [project, hinRoom, channels_respond_of_ne s hc]

theorem project_respond_hidden {p : Handler × List ServerMessage} (hh : s.handlers conn = some h)
    (hip : h.clientIp ≠ ip) (hip' : p.1.clientIp = h.clientIp) :
    project ip (s.respond conn p) = project ip s := by
  have hin : s.inRoom ip conn = false := by
    rw [← Bool.not_eq_true, inRoom_of_handler hh]
    exact hip
  have hinRoom : ∀ c, (s.respond conn p).inRoom ip c = s.inRoom ip c := inRoom_respond hh hip'
  ext1
  . rfl
  . funext c
    by_cases hc : c = conn
    . subst hc
      have hh' : (s.respond c p).handlers c = some p.1 := Function.update_self ..
      rw [handlers_project_of_ne hh' (hip' ▸ hip), handlers_project_of_ne hh hip]
    . have hsame : (s.respond conn p).handlers c = s.handlers c := Function.update_of_ne hc _ _
      simp only [project, hsame]
  . funext c
    by_cases hc : c = conn
    . subst hc
      rw [channels_project_of_not hin, channels_project_of_not ((hinRoom c).trans hin)]
    . simp only [project, hinRoom, channels_respond_of_ne s hc]

theorem project_affected (hsent : ∀ message ∈ e.sent, s.inRoom ip message.1 = true)
    {e' : Room.Effect} (hmembers : e'.members = (e.manager.room ip).map (·.anonymous))
    (hsame : e'.sent = e.sent) : project ip (s.affected conn e) = (project ip s).affected e' := by
  ext1
  . exact hmembers.symm
  . rfl
  . funext c
    have hchannels : ((project ip s).affected e').channels = deliver (project ip s).channels e.sent := by
      rw [← hsame]
      rfl
    rw [hchannels]
    by_cases hin : s.inRoom ip c = true
    . have hin' : (s.affected conn e).inRoom ip c = true := hin
      rw [channels_project hin', deliver, channels_project hin]
      rfl
    . rw [Bool.not_eq_true] at hin
      have hin' : (s.affected conn e).inRoom ip c = false := hin
      rw [channels_project_of_not hin', deliver_of_forall_ne, channels_project_of_not hin]
      rintro message hmessage rfl
      rw [hsent message hmessage] at hin
      contradiction

theorem project_affected_hidden (hsent : ∀ message ∈ e.sent, s.inRoom ip message.1 = false)
    (hroom : e.manager.room ip = s.manager.room ip) :
    project ip (s.affected conn e) = project ip s := by
  ext1
  . simp only [project, affected, hroom]
  . rfl
  . funext c
    by_cases hin : s.inRoom ip c = true
    . have hin' : (s.affected conn e).inRoom ip c = true := hin
      rw [channels_project hin', channels_project hin]
      apply deliver_of_forall_ne
      rintro message hmessage rfl
      rw [hsent message hmessage] at hin
      contradiction
    . rw [Bool.not_eq_true] at hin
      have hin' : (s.affected conn e).inRoom ip c = false := hin
      rw [channels_project_of_not hin, channels_project_of_not hin']

/-! ### Effects -/

theorem others_anonymous (m : RoomManager) (ip code : String)
    : ((m.room ip).map (·.anonymous)).filter (fun p => p.peerCode ≠ code)
        =
      (m.others ip code).map (·.anonymous) := by
  rw [List.filter_map]
  rfl

/--
The effect of a step in the room by itself.
-/
structure Reduces (ip : String) (e : Effect) (e' : Room.Effect) : Prop where
  members : e'.members = (e.manager.room ip).map (·.anonymous)
  sent : e'.sent = e.sent
  input : ∃ input, e.input = some input ∧ e'.input = input.anonymous

theorem reduces_addPeer {peer : PeerInfo} (hs : s.Tame) :
    Reduces ip
      { manager := (s.manager.addPeer ip peer).manager
        sent := (s.manager.addPeer ip peer).sent
        call := none
        input := some (.added (s.manager.addPeer ip peer).result) }
      (Room.enter ((s.manager.room ip).map (·.anonymous)) peer.anonymous) := by
  have hwellFormed := hs.consistent.wellFormed
  unfold Room.enter
  rw [others_anonymous]
  dsimp only
  rw [List.length_map]
  split
  . next hplace =>
    have haccepts : s.manager.Accepts ip peer.peerCode := ⟨.inr hs.limit, hplace⟩
    have hregisters := RoomManager.addPeer_registers hwellFormed haccepts
    refine ⟨?_, ?_, _, rfl, ?_⟩
    . rw [hregisters.room, if_pos rfl, List.map_append]
      rfl
    . rw [hregisters.sent, List.map_map]
      rfl
    . dsimp only
      rw [hregisters.result, List.map_map]
      rfl
  . next hnoPlace =>
    have hfull : maxPeersPerRoom ≤ (s.manager.others ip peer.peerCode).length :=
      Nat.le_of_not_lt hnoPlace
    have hnot : ¬ s.manager.Accepts ip peer.peerCode := fun haccepts => hnoPlace haccepts.2
    have hrefuses := RoomManager.addPeer_refuses hwellFormed hnot
    refine ⟨?_, ?_, _, rfl, ?_⟩
    . rw [hrefuses.rooms.room]
    . rw [hrefuses.sent]
    . rw [RoomManager.result_addPeer_of_full hwellFormed hs.limit hfull]
      rfl

/--
The session id tells the member of a connection from the others as well as its channel does.
-/
theorem Tame.isMember_iff_sender {me : Identity} {p : PeerInfo} (hs : s.Tame)
    (hh : s.handlers conn = some h) (hidentity : h.pc.identity = some me)
    (hp : p ∈ s.manager.room ip)
    : p.peerCode = me.peerCode ∧ p.sessionId = me.sessionId
        ↔
      p.sender = conn := by
  obtain ⟨h', hh', hip, hidentity'⟩ := hs.consistent.registered_sender hp
  constructor
  . rintro ⟨-, hsession⟩
    apply hs.sessions _ _ p.sessionId
    . exact hs.consistent.sessionOf_eq hh' hidentity'
    . rw [hsession]
      exact hs.consistent.sessionOf_eq hh hidentity
  . rintro rfl
    rw [hh] at hh'
    obtain rfl := Option.some.inj hh'
    rw [hidentity] at hidentity'
    obtain rfl := Option.some.inj hidentity'
    exact ⟨rfl, rfl⟩

theorem reduces_removePeer {me : Identity} (hs : s.Tame) (hh : s.handlers conn = some h)
    (hidentity : h.pc.identity = some me) :
    Reduces ip
      { manager := (s.manager.removePeer ip me.peerCode me.sessionId).manager
        sent := (s.manager.removePeer ip me.peerCode me.sessionId).sent
        call := none
        input := some .removed }
      (Room.leave ((s.manager.room ip).map (·.anonymous)) conn me.peerCode) := by
  have hremaining : s.manager.remaining ip me.peerCode me.sessionId
      = (s.manager.room ip).filter fun p => p.sender ≠ conn := by
    apply List.filter_congr
    intro p hp
    rw [decide_eq_decide, hs.isMember_iff_sender hh hidentity hp]
  have hmember : s.manager.IsMember ip me.peerCode me.sessionId
      ↔ conn ∈ ((s.manager.room ip).map (·.anonymous)).map (·.sender) := by
    rw [List.map_map, List.mem_map]
    constructor
    . rintro ⟨p, hp, hsame⟩
      exact ⟨p, hp, (hs.isMember_iff_sender hh hidentity hp).mp hsame⟩
    . rintro ⟨p, hp, hsender⟩
      exact ⟨p, hp, (hs.isMember_iff_sender hh hidentity hp).mpr hsender⟩
  have hfilter : ((s.manager.room ip).map (·.anonymous)).filter (fun p => p.sender ≠ conn)
      = (s.manager.remaining ip me.peerCode me.sessionId).map (·.anonymous) := by
    rw [hremaining, List.filter_map]
    rfl
  unfold Room.leave
  rw [hfilter]
  refine ⟨?_, ?_, _, rfl, rfl⟩
  . rw [RoomManager.room_removePeer, if_pos rfl]
  . dsimp only
    split
    . next hin =>
      rw [RoomManager.sent_removePeer (hmember.mpr hin), List.map_map]
      rfl
    . next hin =>
      rw [(RoomManager.removePeer_of_not_isMember (fun hmem => hin (hmember.mp hmem))).2]

theorem find_anonymous (m : RoomManager) (ip target : String)
    : Room.find ((m.room ip).map (·.anonymous)) target
        =
      lookup m ip target false := by
  unfold Room.find lookup RoomManager.findPeer
  rw [List.find?_map, if_neg Bool.false_ne_true]
  have hsame : ((fun p : PeerInfo => decide (p.peerCode = target)) ∘ PeerInfo.anonymous)
      = fun p : PeerInfo => decide (p.peerCode = target) := rfl
  rw [hsame]
  cases (m.room ip).find? fun p => p.peerCode = target <;> rfl

theorem reduces_atomicEffect (hs : s.Tame) (hh : s.handlers conn = some h)
    (he : s.atomicEffect conn h = some e) :
    Reduces h.clientIp e ((project h.clientIp s).effect conn h.anonymous) := by
  have hpc' : h.anonymous.pc = h.pc.anonymous := rfl
  unfold Room.effect
  rw [hpc']
  cases hpc : h.pc with
  | adding peer =>
    simp only [atomicEffect, hpc, Option.some.injEq] at he
    subst he
    exact reduces_addPeer hs
  | removing me =>
    simp only [atomicEffect, hpc, Option.some.injEq] at he
    subst he
    exact reduces_removePeer hs hh (by rw [hpc]; rfl)
  | finding me target payload manual =>
    simp only [atomicEffect, hpc, Option.some.injEq] at he
    subst he
    have hmanual : manual = false := by
      rw [← Bool.not_eq_true]
      rintro rfl
      exact hs.contained.notManual conn h me target payload hh hpc
    subst hmanual
    refine ⟨rfl, rfl, _, rfl, ?_⟩
    exact congrArg Handler.Input.found (find_anonymous s.manager h.clientIp target)
  | relaying me target payload found =>
    simp only [atomicEffect, hpc, Option.some.injEq] at he
    subst he
    cases found with
    | found sender =>
      have hin := hs.contained.relays conn h me target payload sender hh hpc
      refine ⟨rfl, rfl, _, rfl, ?_⟩
      simp only [Handler.Pc.anonymous, Room.relay, channels_project hin]
      rfl
    | notFound => exact ⟨rfl, rfl, _, rfl, rfl⟩
    | ambiguous => exact ⟨rfl, rfl, _, rfl, rfl⟩
  | _ =>
    simp only [atomicEffect, hpc, Option.some.injEq] at he
    subst he
    exact ⟨rfl, rfl, _, rfl, rfl⟩

/-! ### Steps -/

theorem projects_of_visible {action : Action} (hvisible : ofRoom ip ⟨s, action, s'⟩ = true)
    (hnext : (project ip s).next fromStr action = some (project ip s')) :
    Machine.Projects (project ip) (Room.next fromStr) (ofRoom ip) ⟨s, action, s'⟩ := by
  unfold Machine.Projects
  rw [if_pos hvisible]
  exact hnext

theorem projects_of_hidden {action : Action} (hhidden : ofRoom ip ⟨s, action, s'⟩ = false)
    (hsame : project ip s' = project ip s) :
    Machine.Projects (project ip) (Room.next fromStr) (ofRoom ip) ⟨s, action, s'⟩ := by
  unfold Machine.Projects
  rw [if_neg (by simp [hhidden])]
  exact hsame

theorem projects_accept {clientIp : String} {now : Nat} (hs : s.Tame) (hnone : s.handlers conn = none)
    (hs' : s' = { s with handlers := Function.update s.handlers conn (some (.start clientIp now)) })
    : Machine.Projects (project ip) (Room.next fromStr) (ofRoom ip)
        ⟨s, .accept conn clientIp now, s'⟩ := by
  have hhandlers : ∀ c, c ≠ conn → s'.handlers c = s.handlers c := by
    intro c hc
    rw [hs']
    exact Function.update_of_ne hc _ _
  have hh' : s'.handlers conn = some (.start clientIp now) := by
    rw [hs']
    apply Function.update_self
  have hchannels : (project ip s').channels = (project ip s).channels := by
    funext c
    by_cases hc : c = conn
    . -- its channel is as empty as that of a connection of another room
      have hfresh : s'.channels c = ⟨[], false⟩ := by
        rw [hs', hc]
        exact hs.contained.fresh conn hnone
      have hout : s.inRoom ip c = false := by simp [inRoom, hc, hnone]
      rw [channels_project_of_not hout]
      unfold project
      dsimp only
      rw [hfresh]
      split <;> rfl
    . apply channels_project_congr (hhandlers c hc)
      rw [hs']
  have hmembers : (project ip s').members = (project ip s).members := by rw [hs']; rfl
  have hnone' : (project ip s).handlers conn = none := by simp [project, hnone]
  by_cases hip : clientIp = ip
  . refine projects_of_visible ?_ ?_
    . exact decide_eq_true hip
    . simp only [Room.next, hnone', Option.some.injEq]
      ext1
      . exact hmembers.symm
      . funext c
        by_cases hc : c = conn
        . subst hc
          dsimp only
          rw [Function.update_self, handlers_project hh' hip]
          rfl
        . dsimp only
          rw [Function.update_of_ne hc, handlers_project_congr (hhandlers c hc)]
      . exact hchannels.symm
  . refine projects_of_hidden ?_ ?_
    . exact decide_eq_false hip
    . ext1
      . exact hmembers
      . funext c
        by_cases hc : c = conn
        . subst hc
          rw [handlers_project_of_ne hh' hip, hnone']
        . exact handlers_project_congr (hhandlers c hc)
      . exact hchannels

theorem projects_close (hh : s.handlers conn = some h)
    (hs' : s' = { s with
      channels := Function.update s.channels conn { s.channels conn with closed := true } })
    : Machine.Projects (project ip) (Room.next fromStr) (ofRoom ip) ⟨s, .close conn, s'⟩ := by
  have hhandlers : s'.handlers = s.handlers := by rw [hs']
  have hinRoom : ∀ c, s'.inRoom ip c = s.inRoom ip c := by
    intro c
    unfold inRoom
    rw [hhandlers]
  have hchannels : ∀ c, c ≠ conn → (project ip s').channels c = (project ip s).channels c := by
    intro c hc
    apply channels_project_congr (congrFun hhandlers c)
    rw [hs']
    exact Function.update_of_ne hc _ _
  have hmembers : (project ip s').members = (project ip s).members := by rw [hs']; rfl
  have hhandlers' : (project ip s').handlers = (project ip s).handlers := by
    funext c
    exact handlers_project_congr (congrFun hhandlers c)
  by_cases hip : h.clientIp = ip
  . have hin : s.inRoom ip conn = true := (inRoom_of_handler hh).mpr hip
    refine projects_of_visible hin ?_
    simp only [Room.next, handlers_project hh hip, Option.map_some, Option.some.injEq]
    ext1
    . exact hmembers.symm
    . exact hhandlers'.symm
    . funext c
      by_cases hc : c = conn
      . subst hc
        dsimp only
        rw [Function.update_self, channels_project hin, channels_project ((hinRoom c).trans hin), hs']
        exact (Function.update_self c _ s.channels).symm
      . dsimp only
        rw [Function.update_of_ne hc, hchannels c hc]
  . have hout : s.inRoom ip conn = false := by
      rw [← Bool.not_eq_true, inRoom_of_handler hh]
      exact hip
    refine projects_of_hidden hout ?_
    ext1
    . exact hmembers
    . exact hhandlers'
    . funext c
      by_cases hc : c = conn
      . subst hc
        rw [channels_project_of_not hout, channels_project_of_not ((hinRoom c).trans hout)]
      . exact hchannels c hc

theorem projects_receive {received : Received} {now : Nat} {p : Handler × List ServerMessage}
    (hh : s.handlers conn = some h) (hp : h.receive fromStr conn received now = some p)
    : Machine.Projects (project ip) (Room.next fromStr) (ofRoom ip)
        ⟨s, .receive conn received now, s.respond conn p⟩ := by
  have hip' : p.1.clientIp = h.clientIp := (identity_receive hp).1
  have hinRoom : s.inRoom ip conn = true ↔ h.clientIp = ip := inRoom_of_handler hh
  by_cases hip : h.clientIp = ip
  . refine projects_of_visible (hinRoom.mpr hip) ?_
    simp only [Room.next, handlers_project hh hip, Option.bind_some, Handler.receive_anonymous, hp,
      Option.map_some]
    rw [project_respond hh hip hip']
  . refine projects_of_hidden ?_ (project_respond_hidden hh hip hip')
    rw [← Bool.not_eq_true]
    exact fun hin => hip (hinRoom.mp hin)

theorem room_atomicEffect {ip : String} (hs : s.Tame) (he : s.atomicEffect conn h = some e)
    (hip : h.clientIp ≠ ip) : e.manager.room ip = s.manager.room ip := by
  cases acts_of_atomicEffect he with
  | add peer hpc =>
    by_cases haccepts : s.manager.Accepts h.clientIp peer.peerCode
    . have hregisters := RoomManager.addPeer_registers hs.consistent.wellFormed haccepts
      rw [hregisters.room, if_neg hip.symm]
    . exact (RoomManager.addPeer_refuses hs.consistent.wellFormed haccepts).rooms.room ip
  | remove => rw [RoomManager.room_removePeer, if_neg hip.symm]
  | find | send | miss | proceed => rfl

theorem projects_step (hs : s.Tame) (hnext : s.next fromStr atomicEffect (.step conn) = some s')
    : Machine.Projects (project ip) (Room.next fromStr) (ofRoom ip) ⟨s, .step conn, s'⟩ := by
  obtain ⟨h, e, input, p, hh, he, hinput, hp, rfl⟩ := respond_of_step hnext
  have hsent := sent_inRoom hs.consistent hs.contained hh he
  have hh' : (s.affected conn e).handlers conn = some h := hh
  have hip' : p.1.clientIp = h.clientIp := Handler.clientIp_next hp
  have hinRoom : s.inRoom ip conn = true ↔ h.clientIp = ip := inRoom_of_handler hh
  by_cases hip : h.clientIp = ip
  . refine projects_of_visible (hinRoom.mpr hip) ?_
    subst hip
    obtain ⟨hmembers, hsame, input', hinput', hanonymous⟩ := reduces_atomicEffect hs hh he
    rw [hinput] at hinput'
    obtain rfl := Option.some.inj hinput'
    simp only [Room.next, handlers_project hh rfl, Option.bind_some, hanonymous,
      Handler.next_anonymous, hp, Option.map_some]
    rw [project_respond hh' rfl hip', project_affected hsent hmembers hsame]
  . refine projects_of_hidden ?_ ?_
    . rw [← Bool.not_eq_true]
      exact fun hin => hip (hinRoom.mp hin)
    . rw [project_respond_hidden hh' hip hip']
      apply project_affected_hidden
      . intro message hmessage
        exact inRoom_of_ne (hsent message hmessage) hip
      . exact room_atomicEffect hs he hip

theorem projects_next {action : Action} (hs : s.Tame)
    (hnext : s.next fromStr atomicEffect action = some s')
    : Machine.Projects (project ip) (Room.next fromStr) (ofRoom ip) ⟨s, action, s'⟩ := by
  cases action with
  | accept conn clientIp now =>
    obtain ⟨hnone, hs'⟩ := handler_of_accept hnext
    exact projects_accept hs hnone hs'
  | receive conn received now =>
    obtain ⟨h, p, hh, hp, rfl⟩ := handler_of_receive hnext
    exact projects_receive hh hp
  | step conn => exact projects_step hs hnext
  | close conn =>
    obtain ⟨h, hh, hs'⟩ := handler_of_close hnext
    exact projects_close hh hs'

/-! ### Runs -/

/--
No manual signal and no room beyond the limit.
-/
def IsCalm (fromStr : String → Except String ClientMessage) (t : Transition Server Action) : Prop :=
  t.target.manager.roomCount < maxRooms ∧ ¬ t.action.IsManual fromStr

def calmMachine (fromStr : String → Except String ClientMessage) : Machine Server Action :=
  (atomicMachine fromStr).restrict (IsCalm fromStr)

theorem tame_of_run {tr : List (Transition Server Action)} (hrun : (calmMachine fromStr).Run tr s)
    (hcalls : (addPeerCalls tr).length ≤ 2 ^ 64) : s.Tame ∧ ∀ t ∈ tr, t.source.Tame := by
  induction hrun with
  | init hinit =>
    obtain rfl : _ = start := hinit
    refine ⟨⟨consistent_start, contained_start, ?_, ?_⟩, by simp⟩
    . simp [sessionOf, start]
    . decide
  | @step tr s s' action hrun hstep ih =>
    have hatomic := (Machine.Run.step hrun hstep).of_restrict.1
    obtain ⟨hnext, hlimit, hmanual⟩ := hstep
    have hprefix : (addPeerCalls tr).length ≤ 2 ^ 64 := by
      unfold addPeerCalls at hcalls ⊢
      rw [List.filterMap_append, List.length_append] at hcalls
      omega
    obtain ⟨hs, hsources⟩ := ih hprefix
    rw [List.forall_mem_append, List.forall_mem_singleton]
    refine ⟨⟨?_, ?_, ?_, hlimit⟩, hsources, hs⟩
    . exact consistent_of_atomic hatomic.reachable
    . exact hs.contained.next hs.consistent hmanual hnext
    . obtain ⟨-, tr', hrun', hsame⟩ := run_of_atomic hatomic
      have hnumbered := numbered hrun'
      rw [hsame] at hnumbered
      intro c c' id
      exact hnumbered.unique hcalls

def operations (ip : String) (tr : List (Transition Server Action)) : List Action :=
  Machine.seen (ofRoom ip) tr

/--
The room looks the same in both states, session ids aside, and its connections have been sent the
same messages.
-/
structure SameRoom (ip : String) (s s' : Server) : Prop where
  members : (s.manager.room ip).map (·.anonymous) = (s'.manager.room ip).map (·.anonymous)
  connections : ∀ conn, s.inRoom ip conn = s'.inRoom ip conn
  messages : ∀ conn, s.inRoom ip conn = true →
    (s.channels conn).messages = (s'.channels conn).messages

theorem inRoom_eq_isSome (ip : String) (s : Server) (conn : PeerSender) :
    s.inRoom ip conn = ((project ip s).handlers conn).isSome := by
  unfold inRoom project
  dsimp only
  rw [Option.isSome_map]
  cases s.handlers conn with
  | none => rfl
  | some h => by_cases hip : h.clientIp = ip <;> simp [hip]

theorem sameRoom_of_project (hproject : project ip s = project ip s') : SameRoom ip s s' := by
  have hconnections : ∀ conn, s.inRoom ip conn = s'.inRoom ip conn := by
    intro conn
    rw [inRoom_eq_isSome, inRoom_eq_isSome, hproject]
  constructor
  . exact congrArg Room.members hproject
  . exact hconnections
  . intro conn hin
    rw [← channels_project hin, ← channels_project ((hconnections conn).symm.trans hin), hproject]

/--
Runs with the same operations of the connections of a room are the same to this room, as long as the
session counter has not come round.
-/
theorem rooms_isolated {tr tr' : List (Transition Server Action)}
    (hrun : (calmMachine fromStr).Run tr s) (hrun' : (calmMachine fromStr).Run tr' s')
    (hcalls : (addPeerCalls tr).length ≤ 2 ^ 64) (hcalls' : (addPeerCalls tr').length ≤ 2 ^ 64)
    (hsame : operations ip tr = operations ip tr') : SameRoom ip s s' := by
  have hprojects : ∀ {tr s}, (calmMachine fromStr).Run tr s → (addPeerCalls tr).length ≤ 2 ^ 64 →
      ∀ t ∈ tr, Machine.Projects (project ip) (Room.next fromStr) (ofRoom ip) t := by
    intro tr s hrun hcalls t ht
    exact projects_next ((tame_of_run hrun hcalls).2 t ht) (hrun.step_of_mem ht).1
  have hinit : ∀ s, (calmMachine fromStr).init s → project ip s = Room.start := by
    rintro _ rfl
    rfl
  apply sameRoom_of_project
  exact hrun.noninterference hinit hrun' (hprojects hrun hcalls) (hprojects hrun' hcalls') hsame

theorem not_isManual_plain (action : Action) : ¬ action.IsManual plain := by
  unfold Action.IsManual
  split
  . rintro ⟨target, payload, hmanual⟩
    unfold plain at hmanual
    split at hmanual <;> simp at hmanual
  . exact not_false

theorem calm_of_limit {tr : List (Transition Server Action)}
    (hlimit : tr.all (fun t => t.target.manager.roomCount < maxRooms) = true) :
    ∀ t ∈ tr, IsCalm plain t := by
  intro t ht
  exact ⟨of_decide_eq_true (List.all_eq_true.mp hlimit t ht), not_isManual_plain t.action⟩

def joinsAlone : List Action := connects 1 "10.0.0.1" "B7H2MN" ++ [.step 1, .step 1]

/--
The same operations, while a connection of another room comes and goes under the same code.
-/
def joinsAmongOthers : List Action :=
  connects 2 "10.0.0.2" "B7H2MN" ++ [.accept 1 "10.0.0.1" 0, .step 2, hears 1 "B7H2MN", .step 2,
    .step 1, .receive 2 .closed 0, .step 2, .step 1]

theorem others_come_and_go
    : ∃ tr tr' s s', (calmMachine plain).Run tr s ∧ (calmMachine plain).Run tr' s'
        ∧ tr'.length = tr.length + 6 ∧ SameRoom "10.0.0.1" s s' := by
  let trace := Machine.trace (next plain atomicEffect) start
  have hexec : (Machine.exec (next plain atomicEffect) start joinsAlone).isSome = true := by decide
  have hexec' : (Machine.exec (next plain atomicEffect) start joinsAmongOthers).isSome = true := by
    decide
  have hlimit : (trace joinsAlone).all (fun t => t.target.manager.roomCount < maxRooms) = true := by
    decide
  have hlimit' : (trace joinsAmongOthers).all (fun t => t.target.manager.roomCount < maxRooms)
      = true := by
    decide
  obtain ⟨s, hs⟩ := Option.isSome_iff_exists.mp hexec
  obtain ⟨s', hs'⟩ := Option.isSome_iff_exists.mp hexec'
  have hrun := (Machine.run_of_exec hs).restrict (calm_of_limit hlimit)
  have hrun' := (Machine.run_of_exec hs').restrict (calm_of_limit hlimit')
  refine ⟨_, _, s, s', hrun, hrun', by decide, ?_⟩
  exact rooms_isolated hrun hrun' (by decide) (by decide) (by decide)

end Server

end Rendezvous

end LocalBolt
