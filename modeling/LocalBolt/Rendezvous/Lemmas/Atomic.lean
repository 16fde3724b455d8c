import LocalBolt.Rendezvous.Lemmas.NoGhosts

/-!
This module contains that the runs in which each method of the room manager is one step are runs of
the server.
-/

namespace LocalBolt

namespace Rendezvous

namespace Server

variable {fromStr : String → Except String ClientMessage} {s s' : Server} {conn : PeerSender}
  {h : Handler}

/--
The server while a call of `conn` is at `pc`, and nothing else has happened since it began.
-/
def within (s : Server) (conn : PeerSender) (m : RoomManager) (pc : RoomManager.Pc) : Server :=
  { s with manager := m, calls := Function.update s.calls conn (some pc) }

/--
A path in which no call of `add_peer` begins.
-/
def Inside (fromStr : String → Except String ClientMessage) (s s' : Server) : Prop :=
  ∃ tr, (machine fromStr).Path s tr s' ∧ addPeerCalls tr = []

def InMethod (h : Handler) : Prop := (∃ peer, h.pc = .adding peer) ∨ ∃ me, h.pc = .removing me

theorem inside_last {m : RoomManager} {pc : RoomManager.Pc}
    (hnext : (s.within conn m pc).next fromStr effect (.step conn) = some s') :
    Inside fromStr (s.within conn m pc) s' := by
  refine ⟨[⟨s.within conn m pc, .step conn, s'⟩], .cons hnext (.nil s'), ?_⟩
  have hcall : (s.within conn m pc).calls conn = some pc := Function.update_self ..
  simp [addPeerCalls, addPeerCall, hcall]

theorem inside_cons {m : RoomManager} {pc : RoomManager.Pc} {s1 : Server}
    (hnext : (s.within conn m pc).next fromStr effect (.step conn) = some s1)
    (hinside : Inside fromStr s1 s') : Inside fromStr (s.within conn m pc) s' := by
  obtain ⟨tr, hpath, hcalls⟩ := hinside
  refine ⟨⟨s.within conn m pc, .step conn, s1⟩ :: tr, .cons hnext hpath, ?_⟩
  have hcall : (s.within conn m pc).calls conn = some pc := Function.update_self ..
  have hnone : addPeerCall ⟨s.within conn m pc, .step conn, s1⟩ = none := by
    simp [addPeerCall, hcall]
  unfold addPeerCalls
  rw [List.filterMap_cons_none hnone]
  exact hcalls

theorem run_within (m : RoomManager) (pc : RoomManager.Pc) (e : Effect) :
    (s.within conn m pc).run fromStr conn h e = s.run fromStr conn h e := by
  unfold run within
  rw [Function.update_idem]

theorem next_within (hh : s.handlers conn = some h) (hmethod : InMethod h) (m : RoomManager)
    (pc : RoomManager.Pc)
    : (s.within conn m pc).next fromStr effect (.step conn)
        =
      ((s.within conn m pc).continueCall pc).bind (s.run fromStr conn h) := by
  have hcall : (s.within conn m pc).calls conn = some pc := Function.update_self ..
  have hh' : (s.within conn m pc).handlers conn = some h := hh
  have heffect : (s.within conn m pc).effect conn h = (s.within conn m pc).continueCall pc := by
    unfold effect
    rcases hmethod with ⟨peer, hpc⟩ | ⟨me, hpc⟩
    . rw [hpc, hcall]
    . rw [hpc, hcall]
  simp only [next, hh', Option.bind_some, heffect]
  congr 1
  funext e
  apply run_within

theorem run_idle (m : RoomManager) (pc : RoomManager.Pc)
    : s.run fromStr conn h { manager := m, sent := [], call := some pc, input := none }
        =
      some (s.within conn m pc) := by
  simp [run, within]

theorem next_within_idle {m m' : RoomManager} {pc pc' : RoomManager.Pc} (hh : s.handlers conn = some h)
    (hmethod : InMethod h) (hstep : m.step pc = some (m', pc')) (hsent : m.sentAt pc = [])
    (hpc' : ∀ result, pc' ≠ .returned result)
    : (s.within conn m pc).next fromStr effect (.step conn) = some (s.within conn m' pc') := by
  rw [next_within hh hmethod]
  have hcontinue : (s.within conn m pc).continueCall pc
      = some { manager := m', sent := [], call := some pc', input := none } := by
    have hstep' : (s.within conn m pc).manager.step pc = some (m', pc') := hstep
    have hsent' : (s.within conn m pc).manager.sentAt pc = [] := hsent
    unfold continueCall
    rw [hstep', hsent']
    cases pc' with
    | returned result => exact absurd rfl (hpc' result)
    | _ => rfl
  rw [hcontinue, Option.bind_some]
  apply run_idle

def returnInput : Option (Except String (List PeerData × UInt64)) → Handler.Input
  | some result => .added result
  | none => .removed

theorem inside_return {m m' : RoomManager} {pc : RoomManager.Pc}
    {result : Option (Except String (List PeerData × UInt64))} (hh : s.handlers conn = some h)
    (hmethod : InMethod h) (hstep : m.step pc = some (m', .returned result))
    (hrun : s.run fromStr conn h {
        manager := m', sent := m.sentAt pc, call := none, input := some (returnInput result) } = some s')
    : Inside fromStr (s.within conn m pc) s' := by
  apply inside_last
  rw [next_within hh hmethod]
  have hstep' : (s.within conn m pc).manager.step pc = some (m', .returned result) := hstep
  unfold continueCall
  rw [hstep']
  cases result with
  | none => exact hrun
  | some result => exact hrun

/-! ### Adding -/

theorem next_beginAdd {peer : PeerInfo} (hh : s.handlers conn = some h) (hpc : h.pc = .adding peer)
    (hidle : s.calls conn = none)
    : s.next fromStr effect (.step conn)
        =
      some (s.within conn (s.manager.fetchSessionId peer).1
        (.containsKey h.clientIp (s.manager.fetchSessionId peer).2)) := by
  simp only [next, hh, Option.bind_some, effect, hpc, hidle, beginCall, RoomManager.call]
  apply run_idle

theorem inside_add {peer : PeerInfo} (hh : s.handlers conn = some h) (hpc : h.pc = .adding peer)
    (hrun : s.run fromStr conn h {
        manager := (s.manager.addPeer h.clientIp peer).manager
        sent := (s.manager.addPeer h.clientIp peer).sent
        call := none
        input := some (.added (s.manager.addPeer h.clientIp peer).result) } = some s')
    : Inside fromStr
        (s.within conn (s.manager.fetchSessionId peer).1
          (.containsKey h.clientIp (s.manager.fetchSessionId peer).2)) s' := by
  have hmethod : InMethod h := .inl ⟨peer, hpc⟩
  unfold RoomManager.addPeer at hrun
  dsimp only at hrun
  generalize (s.manager.fetchSessionId peer).1 = m at hrun ⊢
  generalize (s.manager.fetchSessionId peer).2 = peer' at hrun ⊢
  have hentry : m.step (.entry h.clientIp peer')
      = some ((m.enterRoom h.clientIp peer').manager,
        .returned (some (m.enterRoom h.clientIp peer').result)) := rfl
  by_cases hip : h.clientIp ∈ m.rooms
  . rw [if_neg (fun hnew => hnew.1 hip)] at hrun
    apply inside_cons _ (inside_return hh hmethod hentry hrun)
    apply next_within_idle hh hmethod _ rfl (by simp)
    simp only [RoomManager.step, if_pos hip]
  . have hlen : (s.within conn m (.containsKey h.clientIp peer')).next fromStr effect (.step conn)
        = some (s.within conn m (.len h.clientIp peer')) := by
      apply next_within_idle hh hmethod _ rfl (by simp)
      simp only [RoomManager.step, if_neg hip]
    apply inside_cons hlen
    by_cases hlimit : m.roomCount ≥ maxRooms
    . rw [if_pos ⟨hip, hlimit⟩] at hrun
      have hrefuse : m.step (.len h.clientIp peer') = some (m, .returned (some (.error
          ("room limit reached (" ++ toString maxRooms ++ ")")))) := by
        simp only [RoomManager.step, if_pos hlimit]
      exact inside_return hh hmethod hrefuse hrun
    . rw [if_neg (fun hnew => hlimit hnew.2)] at hrun
      apply inside_cons _ (inside_return hh hmethod hentry hrun)
      apply next_within_idle hh hmethod _ rfl (by simp)
      simp only [RoomManager.step, if_neg hlimit]

/-! ### Removing -/

theorem next_beginRemove {me : Identity} (hh : s.handlers conn = some h) (hpc : h.pc = .removing me)
    (hidle : s.calls conn = none)
    : s.next fromStr effect (.step conn)
        =
      some (s.within conn s.manager (.getMut h.clientIp me.peerCode me.sessionId)) := by
  simp only [next, hh, Option.bind_some, effect, hpc, hidle, beginCall, RoomManager.call]
  apply run_idle

theorem inside_remove {me : Identity} (hh : s.handlers conn = some h) (hpc : h.pc = .removing me)
    (hrun : s.run fromStr conn h {
        manager := (s.manager.removePeer h.clientIp me.peerCode me.sessionId).manager
        sent := (s.manager.removePeer h.clientIp me.peerCode me.sessionId).sent
        call := none
        input := some .removed } = some s')
    : Inside fromStr
        (s.within conn s.manager (.getMut h.clientIp me.peerCode me.sessionId)) s' := by
  have hmethod : InMethod h := .inr ⟨me, hpc⟩
  unfold RoomManager.removePeer at hrun
  dsimp only at hrun
  let left := s.manager.leaveRoom h.clientIp me.peerCode me.sessionId
  by_cases hresult : left.result = true
  . rw [if_pos hresult] at hrun
    let s1 : Server := { s with channels := deliver s.channels left.sent }
    have hleave : (s.within conn s.manager (.getMut h.clientIp me.peerCode me.sessionId)).next fromStr
        effect (.step conn) = some (s1.within conn left.manager (.remove h.clientIp)) := by
      have hstep : s.manager.step (.getMut h.clientIp me.peerCode me.sessionId)
          = some (left.manager, .remove h.clientIp) := by
        simp only [RoomManager.step, left, if_pos hresult]
      have hstep' : (s.within conn s.manager
          (.getMut h.clientIp me.peerCode me.sessionId)).manager.step
            (.getMut h.clientIp me.peerCode me.sessionId) = some (left.manager, .remove h.clientIp) :=
        hstep
      rw [next_within hh hmethod, continueCall, hstep']
      rfl
    have hh1 : s1.handlers conn = some h := hh
    have hdrop : left.manager.step (.remove h.clientIp)
        = some (left.manager.dropRoom h.clientIp, .returned none) := rfl
    apply inside_cons hleave
    apply inside_return hh1 hmethod hdrop
    rw [← hrun]
    -- the messages went out with the first of the two steps
    have hchannels : deliver s1.channels (left.manager.sentAt (.remove h.clientIp))
        = deliver s.channels left.sent := deliver_nil _
    unfold run
    dsimp only
    rw [hchannels]
    rfl
  . rw [if_neg hresult] at hrun
    have hreturn : s.manager.step (.getMut h.clientIp me.peerCode me.sessionId)
        = some (left.manager, .returned none) := by
      simp only [RoomManager.step, left, if_neg hresult]
    exact inside_return hh hmethod hreturn hrun

/-! ### Runs -/

theorem call_atomicEffect {e : Effect} (he : s.atomicEffect conn h = some e) : e.call = none := by
  cases acts_of_atomicEffect he <;> rfl

theorem input_atomicEffect {e : Effect} (he : s.atomicEffect conn h = some e) :
    ∃ input, e.input = some input := by
  cases acts_of_atomicEffect he <;> exact ⟨_, rfl⟩

/--
The server after what a step does to the room table and to the channels of the peers.
-/
def affected (s : Server) (conn : PeerSender) (e : Effect) : Server :=
  { s with
    manager := e.manager
    calls := Function.update s.calls conn e.call
    channels := deliver s.channels e.sent }

theorem run_of_input {e : Effect} {input : Handler.Input} (hinput : e.input = some input)
    : s.run fromStr conn h e
        =
      (h.next fromStr conn input).map ((s.affected conn e).respond conn) := by
  unfold run
  rw [hinput]
  rfl

theorem path_singleton {action : Action} (hnext : s.next fromStr effect action = some s')
    : ∃ tr, (machine fromStr).Path s tr s'
        ∧ addPeerCalls tr = (addPeerCall ⟨s, action, s'⟩).toList := by
  refine ⟨[⟨s, action, s'⟩], .cons hnext (.nil s'), ?_⟩
  unfold addPeerCalls
  rw [List.filterMap_cons]
  cases addPeerCall ⟨s, action, s'⟩ <;> rfl

theorem path_cons {s1 : Server} (hnext : s.next fromStr effect (.step conn) = some s1)
    (hinside : Inside fromStr s1 s')
    : ∃ tr, (machine fromStr).Path s tr s'
        ∧ addPeerCalls tr = (addPeerCall ⟨s, .step conn, s'⟩).toList := by
  obtain ⟨tr, hpath, hcalls⟩ := hinside
  refine ⟨⟨s, .step conn, s1⟩ :: tr, .cons hnext hpath, ?_⟩
  have hsame : addPeerCall ⟨s, .step conn, s1⟩ = addPeerCall ⟨s, .step conn, s'⟩ := rfl
  unfold addPeerCalls at hcalls ⊢
  rw [List.filterMap_cons, hsame, hcalls]
  cases addPeerCall ⟨s, .step conn, s'⟩ <;> rfl

/--
A step of the atomic machine is a path of the machine.
-/
theorem path_of_atomic {action : Action} (hidle : ∀ c, s.calls c = none)
    (hnext : s.next fromStr atomicEffect action = some s')
    : ∃ tr, (machine fromStr).Path s tr s'
        ∧ addPeerCalls tr = (addPeerCall ⟨s, action, s'⟩).toList := by
  cases action with
  | accept conn clientIp now => exact path_singleton hnext
  | receive conn received now => exact path_singleton hnext
  | close conn => exact path_singleton hnext
  | step conn =>
    obtain ⟨h, e, hh, he, hrun⟩ := handler_of_step hnext
    by_cases hadding : ∃ peer, h.pc = .adding peer
    . obtain ⟨peer, hpc⟩ := hadding
      unfold atomicEffect at he
      rw [hpc] at he
      obtain rfl := Option.some.inj he
      exact path_cons (next_beginAdd hh hpc (hidle conn)) (inside_add hh hpc hrun)
    by_cases hremoving : ∃ me, h.pc = .removing me
    . obtain ⟨me, hpc⟩ := hremoving
      unfold atomicEffect at he
      rw [hpc] at he
      obtain rfl := Option.some.inj he
      exact path_cons (next_beginRemove hh hpc (hidle conn)) (inside_remove hh hpc hrun)
    apply path_singleton
    rw [← effect_of_ne (forall_not_of_not_exists hadding) (forall_not_of_not_exists hremoving)] at he
    simp only [next, hh, Option.bind_some, he]
    exact hrun

theorem idle_atomic {action : Action} (hidle : ∀ c, s.calls c = none)
    (hnext : s.next fromStr atomicEffect action = some s') (c : PeerSender) : s'.calls c = none := by
  by_cases hstep : ∃ conn, action = .step conn
  . obtain ⟨conn, rfl⟩ := hstep
    obtain ⟨h, e, hh, he, hrun⟩ := handler_of_step hnext
    have hmoves := moves_of_run hrun
    by_cases hc : c = conn
    . rw [hc, hmoves.call]
      exact call_atomicEffect he
    . rw [(hmoves.frame c hc).2]
      exact hidle c
  . rw [(manager_of_not_step (not_exists.mp hstep) hnext).2]
    exact hidle c

/--
A run of the atomic machine leads to a state that a run of the machine leads to as well.
-/
theorem run_of_atomic {tr : List (Transition Server Action)}
    (hrun : (atomicMachine fromStr).Run tr s)
    : (∀ c, s.calls c = none)
        ∧ ∃ tr', (machine fromStr).Run tr' s ∧ addPeerCalls tr' = addPeerCalls tr := by
  induction hrun with
  | init hinit =>
    obtain rfl : _ = start := hinit
    exact ⟨fun _ => rfl, [], .init rfl, rfl⟩
  | @step tr s s' action _ hnext ih =>
    obtain ⟨hidle, tr', hrun', hcalls⟩ := ih
    obtain ⟨tr'', hpath, hcalls'⟩ := path_of_atomic hidle hnext
    refine ⟨idle_atomic hidle hnext, tr' ++ tr'', hrun'.append_path hpath, ?_⟩
    unfold addPeerCalls at hcalls hcalls' ⊢
    rw [List.filterMap_append, List.filterMap_append, hcalls, hcalls', List.filterMap_cons]
    cases addPeerCall ⟨s, action, s'⟩ <;> rfl

theorem consistent_of_atomic (h : (atomicMachine fromStr).Reachable s) : s.Consistent := by
  obtain ⟨tr, hrun⟩ := h.run
  obtain ⟨-, tr', hrun', -⟩ := run_of_atomic hrun
  exact consistent hrun'.reachable

end Server

end Rendezvous

end LocalBolt
