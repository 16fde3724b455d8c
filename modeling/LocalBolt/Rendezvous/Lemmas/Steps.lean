import LocalBolt.Rendezvous.Lemmas.Calls
import LocalBolt.Rendezvous.Lemmas.Channels
import LocalBolt.Rendezvous.Lemmas.Handler

/-!
This module contains everything that a step of a handler can do to the room table, to the call that
the handler is in and to the handler itself.
-/

namespace LocalBolt

namespace Rendezvous

/--
What the handler is registered as, from the end of `add_peer` to the end of `remove_peer`.
-/
def Handler.Pc.identity : Handler.Pc → Option Identity
  | .announcing me _ | .serving me | .finding me _ _ _ | .relaying me _ _ _ | .removing me => some me
  | _ => none

def RoomManager.Pc.added : RoomManager.Pc → Option PeerInfo
  | .containsKey _ peer | .len _ peer | .entry _ peer => some peer
  | _ => none

namespace Server

/--
The call is one that the handler makes where it is.
-/
def InCall (conn : PeerSender) (h : Handler) : RoomManager.Pc → Prop
  | .containsKey ip peer | .len ip peer | .entry ip peer =>
    h.clientIp = ip ∧ peer.sender = conn
      ∧ ∃ peer', h.pc = .adding peer' ∧ peer'.peerCode = peer.peerCode
  | .getMut ip code sessionId => h.clientIp = ip ∧ h.pc = .removing ⟨code, sessionId⟩
  | .remove ip => h.clientIp = ip ∧ ∃ me, h.pc = .removing me
  | .returned _ => False

variable {fromStr : String → Except String ClientMessage} {s s' : Server} {conn : PeerSender}
  {h : Handler} {e : Effect}

/--
A step of a handler without its messages: what becomes of the room table, of the handler and of the
call that it is in.
-/
structure Moves (fromStr : String → Except String ClientMessage) (s : Server) (conn : PeerSender)
    (h : Handler) (e : Effect) (s' : Server) : Prop where
  frame : ∀ c, c ≠ conn → s'.handlers c = s.handlers c ∧ s'.calls c = s.calls c
  manager : s'.manager = e.manager
  call : s'.calls conn = e.call
  idle : e.input = none → s'.handlers conn = s.handlers conn
  told : ∀ input, e.input = some input →
    ∃ p, h.next fromStr conn input = some p ∧ s'.handlers conn = some p.1

theorem moves_of_run (hrun : s.run fromStr conn h e = some s') : Moves fromStr s conn h e s' := by
  unfold run at hrun
  dsimp only at hrun
  split at hrun
  . next hinput =>
    obtain rfl := Option.some.inj hrun
    constructor
    . intro c hc
      exact ⟨rfl, Function.update_of_ne hc _ _⟩
    . rfl
    . apply Function.update_self
    . intro _
      rfl
    . intro input hinput'
      rw [hinput] at hinput'
      contradiction
  . next input hinput =>
    obtain ⟨p, hp, rfl⟩ := Option.map_eq_some_iff.mp hrun
    constructor
    . intro c hc
      exact ⟨Function.update_of_ne hc _ _, Function.update_of_ne hc _ _⟩
    . rfl
    . apply Function.update_self
    . intro hinput'
      rw [hinput] at hinput'
      contradiction
    . intro input' hinput'
      rw [hinput] at hinput'
      obtain rfl := Option.some.inj hinput'
      exact ⟨p, hp, Function.update_self ..⟩

/--
What the handler is told when its call is at `pc`.
-/
def Told (e : Effect) : RoomManager.Pc → Prop
  | .returned (some result) => e.call = none ∧ e.input = some (.added result)
  | .returned none => e.call = none ∧ e.input = some .removed
  | pc => e.call = some pc ∧ e.input = none

theorem continueCall_told {pc : RoomManager.Pc} (he : s.continueCall pc = some e)
    : ∃ pc', s.manager.step pc = some (e.manager, pc') ∧ e.sent = s.manager.sentAt pc
        ∧ Told e pc' := by
  unfold continueCall at he
  cases hstep : s.manager.step pc with
  | none => simp [hstep] at he
  | some p =>
    obtain ⟨manager, pc'⟩ := p
    rw [hstep] at he
    cases pc' with
    | returned result =>
      cases result with
      | none =>
        obtain rfl := Option.some.inj he
        exact ⟨_, rfl, rfl, rfl, rfl⟩
      | some result =>
        obtain rfl := Option.some.inj he
        exact ⟨_, rfl, rfl, rfl, rfl⟩
    | _ =>
      obtain rfl := Option.some.inj he
      exact ⟨_, rfl, rfl, rfl, rfl⟩

theorem next_added {peer : PeerInfo} {result : Except String (List PeerData × UInt64)}
    {p : Handler × List ServerMessage} (hpc : h.pc = .adding peer)
    (hp : h.next fromStr conn (.added result) = some p) : p = (h.added peer result, []) := by
  simp only [Handler.next, hpc, Option.some.injEq] at hp
  exact hp.symm

theorem next_removed {p : Handler × List ServerMessage}
    (hp : h.next fromStr conn .removed = some p) : p.1 = h.goto .aborting := by
  simp only [Handler.next] at hp
  split at hp
  . obtain rfl := Option.some.inj hp
    rfl
  . contradiction

/--
A step of a handler that makes its whole call, or needs none.
-/
inductive Acts (s : Server) (h : Handler) : Effect → Prop where
  | add (peer : PeerInfo) : h.pc = .adding peer →
      Acts s h {
        manager := (s.manager.addPeer h.clientIp peer).manager
        sent := (s.manager.addPeer h.clientIp peer).sent
        call := none
        input := some (.added (s.manager.addPeer h.clientIp peer).result) }
  | remove (me : Identity) : h.pc = .removing me →
      Acts s h {
        manager := (s.manager.removePeer h.clientIp me.peerCode me.sessionId).manager
        sent := (s.manager.removePeer h.clientIp me.peerCode me.sessionId).sent
        call := none
        input := some .removed }
  | find (me : Identity) (target : String) (payload : Json) (manual : Bool) :
      h.pc = .finding me target payload manual →
      Acts s h {
        manager := s.manager
        sent := []
        call := none
        input := some (.found (lookup s.manager h.clientIp target manual)) }
  | send (me : Identity) (target : String) (payload : Json) (sender : PeerSender) :
      h.pc = .relaying me target payload (.found sender) →
      Acts s h {
        manager := s.manager
        sent := [(sender, .signal me.peerCode payload)]
        call := none
        input := some (.relayed (!(s.channels sender).closed)) }
  | miss (me : Identity) (target : String) (payload : Json) (found : RoomManager.ManualPeerLookup) :
      h.pc = .relaying me target payload found → (∀ sender, found ≠ .found sender) →
      Acts s h { manager := s.manager, sent := [], call := none, input := some (.relayed false) }
  | proceed :
      Acts s h { manager := s.manager, sent := [], call := none, input := some .proceed }

theorem acts_of_atomicEffect (he : s.atomicEffect conn h = some e) : Acts s h e := by
  unfold atomicEffect at he
  split at he
  . next peer hpc =>
    obtain rfl := Option.some.inj he
    exact .add peer hpc
  . next me hpc =>
    obtain rfl := Option.some.inj he
    exact .remove me hpc
  . next me target payload manual hpc =>
    obtain rfl := Option.some.inj he
    exact .find me target payload manual hpc
  . next me target payload found hpc =>
    obtain rfl := Option.some.inj he
    cases found with
    | found sender => exact .send me target payload sender hpc
    | notFound => exact .miss me target payload _ hpc (by simp)
    | ambiguous => exact .miss me target payload _ hpc (by simp)
  . obtain rfl := Option.some.inj he
    exact .proceed

theorem input_continueCall {pc : RoomManager.Pc} {received : Received} {now : Nat}
    (he : s.continueCall pc = some e) : e.input ≠ some (.received received now) := by
  obtain ⟨pc', -, -, htold⟩ := continueCall_told he
  cases pc' with
  | returned result =>
    cases result with
    | none => simp [htold.2]
    | some => simp [htold.2]
  | _ => simp [htold.2]

/--
Only the socket tells a handler that it has received something.
-/
theorem input_effect (he : s.effect conn h = some e) (received : Received) (now : Nat) :
    e.input ≠ some (.received received now) := by
  unfold effect at he
  split at he
  . split at he
    . obtain rfl := Option.some.inj he
      simp [beginCall]
    . exact input_continueCall he
  . split at he
    . obtain rfl := Option.some.inj he
      simp [beginCall]
    . exact input_continueCall he
  . cases acts_of_atomicEffect he <;> simp

theorem next_relayed {me : Identity} {target : String} {payload : Json}
    {found : RoomManager.ManualPeerLookup} {delivered : Bool} {p : Handler × List ServerMessage}
    (hpc : h.pc = .relaying me target payload found)
    (hp : h.next fromStr conn (.relayed delivered) = some p)
    : p.1.clientIp = h.clientIp ∧ p.1.pc.identity = h.pc.identity
        ∧ ∀ peer, p.1.pc ≠ .adding peer := by
  simp only [Handler.next, hpc, Option.some.injEq] at hp
  obtain rfl := hp
  simp [Handler.Pc.identity, hpc]

theorem atomicEffect_told (fromStr : String → Except String ClientMessage) (hadding : ∀ peer, h.pc ≠ .adding peer)
    (hremoving : ∀ me, h.pc ≠ .removing me) (he : s.atomicEffect conn h = some e)
    : e.manager = s.manager ∧ e.call = none
        ∧ ∃ input, e.input = some input ∧ ∀ p, h.next fromStr conn input = some p →
          p.1.clientIp = h.clientIp ∧ p.1.pc.identity = h.pc.identity
            ∧ ∀ peer, p.1.pc ≠ .adding peer := by
  cases acts_of_atomicEffect he with
  | add peer hpc => exact absurd hpc (hadding peer)
  | remove me hpc => exact absurd hpc (hremoving me)
  | find me target payload manual hpc =>
    refine ⟨rfl, rfl, _, rfl, ?_⟩
    intro p hp
    simp only [Handler.next, hpc, Option.some.injEq] at hp
    obtain rfl := hp
    simp [Handler.Pc.identity, hpc]
  | send me target payload sender hpc => exact ⟨rfl, rfl, _, rfl, fun p hp => next_relayed hpc hp⟩
  | miss me target payload found hpc => exact ⟨rfl, rfl, _, rfl, fun p hp => next_relayed hpc hp⟩
  | proceed =>
    refine ⟨rfl, rfl, _, rfl, ?_⟩
    intro p hp
    simp only [Handler.next] at hp
    split at hp
    . next hpc =>
      obtain rfl := Option.some.inj hp
      simp [Handler.Pc.identity, hpc]
    . next hpc =>
      obtain rfl := Option.some.inj hp
      simp [Handler.Pc.identity, hpc]
    . next hpc =>
      obtain rfl := Option.some.inj hp
      simp [Handler.Pc.identity, hpc]
    . contradiction

theorem effect_of_ne (hadding : ∀ peer, h.pc ≠ .adding peer) (hremoving : ∀ me, h.pc ≠ .removing me) :
    s.effect conn h = s.atomicEffect conn h := by
  unfold effect
  split
  . next peer hpc => exact absurd hpc (hadding peer)
  . next me hpc => exact absurd hpc (hremoving me)
  . rfl

theorem calls_eq_none (hin : ∀ pc, s.calls conn = some pc → InCall conn h pc)
    (hadding : ∀ peer, h.pc ≠ .adding peer) (hremoving : ∀ me, h.pc ≠ .removing me) :
    s.calls conn = none := by
  rw [Option.eq_none_iff_forall_not_mem]
  intro pc hcall
  have hin := hin pc hcall
  cases pc with
  | returned => exact hin
  | containsKey ip peer | len ip peer | entry ip peer =>
    obtain ⟨-, -, peer', hpc, -⟩ := hin
    exact hadding peer' hpc
  | getMut ip code sessionId => exact hremoving _ hin.2
  | remove ip =>
    obtain ⟨-, me, hpc⟩ := hin
    exact hremoving me hpc

/-! ### All steps -/

/--
The steps of a handler: those inside `add_peer` and `remove_peer`, and those that leave the room
table alone.
-/
inductive Stepped (s : Server) (conn : PeerSender) (h : Handler) (s' : Server) : Prop where
  | beginAdd (peer : PeerInfo) :
      h.pc = .adding peer → s.calls conn = none →
      s'.manager = (s.manager.fetchSessionId peer).1 →
      s'.calls conn = some (.containsKey h.clientIp (s.manager.fetchSessionId peer).2) →
      s'.handlers conn = some h → Stepped s conn h s'
  | insideAdd (pc pc' : RoomManager.Pc) (peer : PeerInfo) :
      s.calls conn = some pc → pc.added = some peer → (∀ ip, pc ≠ .entry ip peer) →
      pc'.added = some peer → InCall conn h pc' →
      s'.manager = s.manager → s'.calls conn = some pc' → s'.handlers conn = some h →
      Stepped s conn h s'
  | refused (peer : PeerInfo) (pc : RoomManager.Pc) (error : String) :
      h.pc = .adding peer → s.calls conn = some pc →
      (∀ peer', pc = .entry h.clientIp peer' →
        maxPeersPerRoom ≤ (s.manager.others h.clientIp peer'.peerCode).length) →
      RoomManager.SameRooms s.manager s'.manager →
      s'.manager.nextSessionId = s.manager.nextSessionId → s'.calls conn = none →
      s'.handlers conn = some (h.goto (.rejecting error)) → Stepped s conn h s'
  | registered (peer : PeerInfo) (existingPeers : List PeerData) :
      s.calls conn = some (.entry h.clientIp peer) → InCall conn h (.entry h.clientIp peer) →
      RoomManager.Registers s.manager h.clientIp peer (s.manager.enterRoom h.clientIp peer) →
      s'.manager = (s.manager.enterRoom h.clientIp peer).manager → s'.calls conn = none →
      s'.handlers conn
        = some (h.goto (.announcing ⟨peer.peerCode, peer.sessionId⟩ existingPeers)) →
      Stepped s conn h s'
  | beginRemove (me : Identity) :
      h.pc = .removing me → s.calls conn = none → s'.manager = s.manager →
      s'.calls conn = some (.getMut h.clientIp me.peerCode me.sessionId) →
      s'.handlers conn = some h → Stepped s conn h s'
  | leave (me : Identity) :
      h.pc = .removing me → s.calls conn = some (.getMut h.clientIp me.peerCode me.sessionId) →
      s'.manager = (s.manager.leaveRoom h.clientIp me.peerCode me.sessionId).manager →
      (s.manager.leaveRoom h.clientIp me.peerCode me.sessionId).result = false →
      s'.calls conn = none → s'.handlers conn = some (h.goto .aborting) → Stepped s conn h s'
  | leaveLast (me : Identity) :
      h.pc = .removing me → s.calls conn = some (.getMut h.clientIp me.peerCode me.sessionId) →
      s'.manager = (s.manager.leaveRoom h.clientIp me.peerCode me.sessionId).manager →
      (s.manager.leaveRoom h.clientIp me.peerCode me.sessionId).result = true →
      s'.calls conn = some (.remove h.clientIp) → s'.handlers conn = some h → Stepped s conn h s'
  | drop (me : Identity) :
      h.pc = .removing me → s.calls conn = some (.remove h.clientIp) →
      s'.manager = s.manager.dropRoom h.clientIp →
      s'.calls conn = none → s'.handlers conn = some (h.goto .aborting) → Stepped s conn h s'
  | move (h' : Handler) :
      (∀ peer, h.pc ≠ .adding peer) → (∀ me, h.pc ≠ .removing me) → s.calls conn = none →
      s'.manager = s.manager → s'.calls conn = none → s'.handlers conn = some h' →
      h'.clientIp = h.clientIp → h'.pc.identity = h.pc.identity → (∀ peer, h'.pc ≠ .adding peer) →
      Stepped s conn h s'

theorem stepped_add {peer : PeerInfo} (hin : ∀ pc, s.calls conn = some pc → InCall conn h pc)
    (hwellFormed : s.manager.WellFormed) (hh : s.handlers conn = some h) (hpc : h.pc = .adding peer)
    (he : s.effect conn h = some e) (hmoves : Moves fromStr s conn h e s') :
    Stepped s conn h s' := by
  obtain ⟨-, hmanager, hcall', hidle, htold'⟩ := hmoves
  rw [hh] at hidle
  unfold effect at he
  rw [hpc] at he
  dsimp only at he
  cases hcall : s.calls conn with
  | none =>
    rw [hcall] at he
    obtain rfl := Option.some.inj he
    exact .beginAdd peer hpc hcall hmanager hcall' (hidle rfl)
  | some pc =>
    rw [hcall] at he
    have hin := hin pc hcall
    obtain ⟨pc', hstep, -, htold⟩ := continueCall_told he
    cases pc with
    | returned => exact hin.elim
    | getMut ip code sessionId =>
      rw [hin.2] at hpc
      contradiction
    | remove ip =>
      obtain ⟨-, me, hpc'⟩ := hin
      rw [hpc'] at hpc
      contradiction
    | containsKey ip peer' =>
      obtain ⟨hsame, hpc'⟩ := Prod.mk.inj (Option.some.inj hstep)
      rw [← hsame] at hmanager
      split at hpc'
      . subst hpc'
        exact .insideAdd _ (.entry ip peer') peer' hcall rfl (by simp) rfl hin hmanager
          (hcall'.trans htold.1) (hidle htold.2)
      . subst hpc'
        exact .insideAdd _ (.len ip peer') peer' hcall rfl (by simp) rfl hin hmanager
          (hcall'.trans htold.1) (hidle htold.2)
    | len ip peer' =>
      simp only [RoomManager.step] at hstep
      split at hstep
      . obtain ⟨hsame, rfl⟩ := Prod.mk.inj (Option.some.inj hstep)
        rw [← hsame] at hmanager
        obtain ⟨p, hp, hh'⟩ := htold' _ htold.2
        obtain rfl := next_added hpc hp
        apply Stepped.refused peer _ _ hpc hcall (by simp) _ _ (hcall'.trans htold.1) hh'
        . rw [hmanager]
          exact fun _ => rfl
        . rw [hmanager]
      . obtain ⟨hsame, rfl⟩ := Prod.mk.inj (Option.some.inj hstep)
        rw [← hsame] at hmanager
        exact .insideAdd _ (.entry ip peer') peer' hcall rfl (by simp) rfl hin hmanager
          (hcall'.trans htold.1) (hidle htold.2)
    | entry ip peer' =>
      obtain ⟨hsame, rfl⟩ := Prod.mk.inj (Option.some.inj hstep)
      rw [← hsame] at hmanager
      obtain ⟨p, hp, hh'⟩ := htold' _ htold.2
      obtain rfl := next_added hpc hp
      by_cases hfull : maxPeersPerRoom ≤ (s.manager.others ip peer'.peerCode).length
      . obtain ⟨hrooms, -, error, hresult⟩ := RoomManager.enterRoom_refuses hwellFormed hfull
        rw [hresult] at hh'
        obtain ⟨rfl, -⟩ := hin
        apply Stepped.refused peer _ _ hpc hcall _ _ _ (hcall'.trans htold.1) hh'
        . intro peer'' hentry
          obtain rfl := (RoomManager.Pc.entry.inj hentry).2
          exact hfull
        . rw [hmanager]
          exact hrooms
        . rw [hmanager]
          apply RoomManager.nextSessionId_enterRoom
      . have hregisters := RoomManager.enterRoom_registers hwellFormed hfull
        rw [hregisters.result] at hh'
        obtain ⟨rfl, hsender, peer'', hpc', hcode⟩ := hin
        rw [hpc] at hpc'
        obtain rfl := Handler.Pc.adding.inj hpc'
        unfold Handler.added at hh'
        rw [hcode] at hh'
        exact .registered peer' _ hcall ⟨rfl, hsender, peer, hpc, hcode⟩ hregisters hmanager
          (hcall'.trans htold.1) hh'

theorem stepped_remove {me : Identity} (hin : ∀ pc, s.calls conn = some pc → InCall conn h pc)
    (hh : s.handlers conn = some h) (hpc : h.pc = .removing me) (he : s.effect conn h = some e)
    (hmoves : Moves fromStr s conn h e s') : Stepped s conn h s' := by
  obtain ⟨-, hmanager, hcall', hidle, htold'⟩ := hmoves
  rw [hh] at hidle
  unfold effect at he
  rw [hpc] at he
  dsimp only at he
  cases hcall : s.calls conn with
  | none =>
    rw [hcall] at he
    obtain rfl := Option.some.inj he
    exact .beginRemove me hpc hcall hmanager hcall' (hidle rfl)
  | some pc =>
    rw [hcall] at he
    have hin := hin pc hcall
    obtain ⟨pc', hstep, -, htold⟩ := continueCall_told he
    cases pc with
    | returned => exact hin.elim
    | containsKey ip peer' | len ip peer' | entry ip peer' =>
      obtain ⟨-, -, peer'', hpc', -⟩ := hin
      rw [hpc'] at hpc
      contradiction
    | getMut ip code sessionId =>
      obtain ⟨hsame, hpc'⟩ := Prod.mk.inj (Option.some.inj hstep)
      rw [← hsame] at hmanager
      obtain ⟨rfl, hpc''⟩ := hin
      split at hpc'
      . next hresult =>
        subst hpc'
        exact .leaveLast ⟨code, sessionId⟩ hpc'' hcall hmanager hresult (hcall'.trans htold.1)
          (hidle htold.2)
      . next hresult =>
        subst hpc'
        obtain ⟨p, hp, hh'⟩ := htold' _ htold.2
        rw [next_removed hp] at hh'
        exact .leave ⟨code, sessionId⟩ hpc'' hcall hmanager (Bool.eq_false_iff.mpr hresult)
          (hcall'.trans htold.1) hh'
    | remove ip =>
      obtain ⟨hsame, rfl⟩ := Prod.mk.inj (Option.some.inj hstep)
      rw [← hsame] at hmanager
      obtain ⟨rfl, -⟩ := hin
      obtain ⟨p, hp, hh'⟩ := htold' _ htold.2
      rw [next_removed hp] at hh'
      exact .drop me hpc hcall hmanager (hcall'.trans htold.1) hh'

theorem stepped (hin : ∀ pc, s.calls conn = some pc → InCall conn h pc)
    (hwellFormed : s.manager.WellFormed) (hh : s.handlers conn = some h)
    (he : s.effect conn h = some e) (hmoves : Moves fromStr s conn h e s') :
    Stepped s conn h s' := by
  by_cases hadding : ∃ peer, h.pc = .adding peer
  . obtain ⟨peer, hpc⟩ := hadding
    exact stepped_add hin hwellFormed hh hpc he hmoves
  by_cases hremoving : ∃ me, h.pc = .removing me
  . obtain ⟨me, hpc⟩ := hremoving
    exact stepped_remove hin hh hpc he hmoves
  have hadding := forall_not_of_not_exists hadding
  have hremoving := forall_not_of_not_exists hremoving
  rw [effect_of_ne hadding hremoving] at he
  obtain ⟨hmanager, hcall, input, hinput, hnext⟩ := atomicEffect_told fromStr hadding hremoving he
  obtain ⟨p, hp, hh'⟩ := hmoves.told input hinput
  obtain ⟨hip, hidentity, hpeer⟩ := hnext p hp
  exact .move p.1 hadding hremoving (calls_eq_none hin hadding hremoving)
    (hmoves.manager.trans hmanager) (hmoves.call.trans hcall) hh' hip hidentity hpeer

/-! ### The other actions -/

theorem handlers_respond (s : Server) (conn : PeerSender) (p : Handler × List ServerMessage)
    (c : PeerSender)
    : (s.respond conn p).handlers c
        =
      if c = conn then some p.1 else s.handlers c := by
  apply Function.update_apply

theorem handler_of_step {effect : Server → PeerSender → Handler → Option Effect}
    (hnext : s.next fromStr effect (.step conn) = some s')
    : ∃ h e, s.handlers conn = some h ∧ effect s conn h = some e
        ∧ s.run fromStr conn h e = some s' := by
  obtain ⟨h, hh, he⟩ := Option.bind_eq_some_iff.mp hnext
  obtain ⟨e, he, hrun⟩ := Option.bind_eq_some_iff.mp he
  exact ⟨h, e, hh, he, hrun⟩

theorem handler_of_accept {effect : Server → PeerSender → Handler → Option Effect}
    {clientIp : String} {now : Nat}
    (hnext : s.next fromStr effect (.accept conn clientIp now) = some s')
    : s.handlers conn = none
        ∧ s' = { s with
            handlers := Function.update s.handlers conn (some (.start clientIp now)) } := by
  simp only [next] at hnext
  split at hnext
  . next hnone => exact ⟨hnone, (Option.some.inj hnext).symm⟩
  . contradiction

theorem handler_of_close {effect : Server → PeerSender → Handler → Option Effect}
    (hnext : s.next fromStr effect (.close conn) = some s')
    : ∃ h, s.handlers conn = some h
        ∧ s' = { s with
            channels := Function.update s.channels conn { s.channels conn with closed := true } } := by
  obtain ⟨h, hh, rfl⟩ := Option.map_eq_some_iff.mp hnext
  exact ⟨h, hh, rfl⟩

theorem handler_of_receive {effect : Server → PeerSender → Handler → Option Effect}
    {received : Received} {now : Nat}
    (hnext : s.next fromStr effect (.receive conn received now) = some s')
    : ∃ h p, s.handlers conn = some h ∧ h.receive fromStr conn received now = some p
        ∧ s' = s.respond conn p := by
  obtain ⟨h, hh, hmap⟩ := Option.bind_eq_some_iff.mp hnext
  obtain ⟨p, hp, rfl⟩ := Option.map_eq_some_iff.mp hmap
  exact ⟨h, p, hh, hp, rfl⟩

def Action.connection : Action → PeerSender
  | .accept conn _ _ | .receive conn _ _ | .step conn | .close conn => conn

theorem handlers_frame {effect : Server → PeerSender → Handler → Option Effect} {action : Action}
    (hnext : s.next fromStr effect action = some s') {c : PeerSender} (hc : c ≠ action.connection) :
    s'.handlers c = s.handlers c := by
  cases action with
  | accept conn clientIp now =>
    obtain ⟨-, rfl⟩ := handler_of_accept hnext
    exact Function.update_of_ne hc _ _
  | receive conn received now =>
    obtain ⟨h, p, hh, hp, rfl⟩ := handler_of_receive hnext
    exact Function.update_of_ne hc _ _
  | step conn =>
    obtain ⟨h, e, hh, he, hrun⟩ := handler_of_step hnext
    exact ((moves_of_run hrun).frame c hc).1
  | close conn =>
    obtain ⟨h, -, rfl⟩ := handler_of_close hnext
    rfl

theorem manager_of_not_step {effect : Server → PeerSender → Handler → Option Effect} {action : Action}
    (hstep : ∀ conn, action ≠ .step conn) (hnext : s.next fromStr effect action = some s') :
    s'.manager = s.manager ∧ s'.calls = s.calls := by
  cases action with
  | accept conn clientIp now =>
    obtain ⟨-, rfl⟩ := handler_of_accept hnext
    exact ⟨rfl, rfl⟩
  | receive conn received now =>
    obtain ⟨h, p, hh, hp, rfl⟩ := handler_of_receive hnext
    exact ⟨rfl, rfl⟩
  | step conn => exact absurd rfl (hstep conn)
  | close conn =>
    obtain ⟨h, -, rfl⟩ := handler_of_close hnext
    exact ⟨rfl, rfl⟩

theorem handlers_of_run {effect : Server → PeerSender → Handler → Option Effect}
    {tr : List (Transition Server Action)} {conns : List PeerSender}
    (hrun : (Machine.ofFun start (next fromStr effect)).Run tr s)
    (hconns : ∀ t ∈ tr, t.action.connection ∈ conns)
    : (∀ t ∈ tr, ∀ c ∉ conns, t.source.handlers c = none) ∧ ∀ c ∉ conns, s.handlers c = none := by
  induction hrun with
  | init hinit =>
    obtain rfl : _ = start := hinit
    exact ⟨by simp, fun _ _ => rfl⟩
  | @step tr s s' action hrun hnext ih =>
    rw [List.forall_mem_append, List.forall_mem_singleton] at hconns
    obtain ⟨hsources, hs⟩ := ih hconns.1
    rw [List.forall_mem_append, List.forall_mem_singleton]
    refine ⟨⟨hsources, hs⟩, ?_⟩
    intro c hc
    have hne : c ≠ action.connection := by
      rintro rfl
      exact hc hconns.2
    rw [handlers_frame hnext hne]
    exact hs c hc

theorem identity_receive {received : Received} {now : Nat} {p : Handler × List ServerMessage}
    (hp : h.receive fromStr conn received now = some p)
    : p.1.clientIp = h.clientIp ∧ p.1.pc.identity = h.pc.identity
        ∧ ∀ peer, p.1.pc = .adding peer → peer.sender = conn := by
  rcases Handler.pc_of_receive hp with hpc | ⟨me, hpc⟩
  . obtain ⟨hip, hpc', -⟩ := Handler.answers_receive_registering hpc hp
    refine ⟨hip, ?_⟩
    rw [hpc]
    generalize p.1.pc = pc' at hpc'
    cases hpc' with
    | adding peer hsender => exact ⟨rfl, fun peer' hpeer => Handler.Pc.adding.inj hpeer ▸ hsender⟩
    | registering | rejecting | aborting => exact ⟨rfl, by simp⟩
  . obtain ⟨hip, hpc', -⟩ := Handler.answers_receive_serving hpc hp
    refine ⟨hip, ?_⟩
    rw [hpc]
    generalize p.1.pc = pc' at hpc'
    cases hpc' <;> exact ⟨rfl, by simp⟩

/-! ### Small runs -/

/--
A parser for runs: `@CODE` is a signal to `CODE`, and any other text registers as that code.
-/
def plain (text : String) : Except String ClientMessage :=
  match text.toList with
  | '@' :: target => .ok (.signal (String.ofList target) .null)
  | _ => .ok (.register text "laptop" .laptop none none)

def hears (conn : PeerSender) (text : String) : Action := .receive conn (.message (.text text)) 0

/--
A connection from `ip` sends its registration.
-/
def connects (conn : PeerSender) (ip code : String) : List Action :=
  [.accept conn ip 0, hears conn code]

end Server

end Rendezvous

end LocalBolt
