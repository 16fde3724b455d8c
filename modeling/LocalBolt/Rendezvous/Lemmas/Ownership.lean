import LocalBolt.Rendezvous.Lemmas.Steps

/-!
This module contains which connection each member of a room belongs to, while the operations on the
room table and the steps of the handlers interleave.
-/

namespace LocalBolt

namespace Rendezvous

namespace Server

/--
The handler is in the room under the identity, and has not taken it out again.
-/
def Owns (s : Server) (conn : PeerSender) (ip : String) (me : Identity) : Prop :=
  (∃ h, s.handlers conn = some h ∧ h.clientIp = ip ∧ h.pc.identity = some me)
    ∧ ∀ ip', s.calls conn ≠ some (.remove ip')

structure Consistent (s : Server) : Prop where
  wellFormed : s.manager.WellFormed
  adding : ∀ conn h peer, s.handlers conn = some h → h.pc = .adding peer → peer.sender = conn
  calls : ∀ conn pc, s.calls conn = some pc → ∃ h, s.handlers conn = some h ∧ InCall conn h pc
  owned : ∀ ip, ∀ p ∈ s.manager.room ip, s.Owns p.sender ip ⟨p.peerCode, p.sessionId⟩
  empty : ∀ ip, s.manager.rooms.lookup ip = some [] → ∃ conn, s.calls conn = some (.remove ip)

theorem consistent_start : start.Consistent := by
  constructor
  . exact RoomManager.wellFormed_new
  . simp [start]
  . simp [start]
  . simp [start, RoomManager.new, RoomManager.room]
  . simp [start, RoomManager.new]

/--
A step of one connection keeps the server consistent if it does so for what that connection has in
the room table and where its handler is.
-/
theorem Consistent.of_frame {s s' : Server} (hs : s.Consistent) (conn : PeerSender)
    (hframe : ∀ c, c ≠ conn → s'.handlers c = s.handlers c ∧ s'.calls c = s.calls c)
    (hwellFormed : s'.manager.WellFormed)
    (hadding : ∀ h peer, s'.handlers conn = some h → h.pc = .adding peer → peer.sender = conn)
    (hcalls : ∀ pc, s'.calls conn = some pc → ∃ h, s'.handlers conn = some h ∧ InCall conn h pc)
    (howned : ∀ ip, ∀ p ∈ s'.manager.room ip,
      (p ∈ s.manager.room ip ∧ p.sender ≠ conn)
        ∨ (p.sender = conn ∧ s'.Owns conn ip ⟨p.peerCode, p.sessionId⟩))
    (hempty : ∀ ip, s'.manager.rooms.lookup ip = some [] →
      (s.manager.rooms.lookup ip = some [] ∧ s.calls conn ≠ some (.remove ip))
        ∨ s'.calls conn = some (.remove ip)) : s'.Consistent := by
  constructor
  . exact hwellFormed
  . intro c h peer hh hpc
    by_cases hc : c = conn
    . subst hc
      exact hadding h peer hh hpc
    . rw [(hframe c hc).1] at hh
      exact hs.adding c h peer hh hpc
  . intro c pc hcall
    by_cases hc : c = conn
    . subst hc
      exact hcalls pc hcall
    . rw [(hframe c hc).2] at hcall
      rw [(hframe c hc).1]
      exact hs.calls c pc hcall
  . intro ip p hp
    rcases howned ip p hp with ⟨hp, hne⟩ | ⟨rfl, howns⟩
    . have howns := hs.owned ip p hp
      unfold Owns at howns ⊢
      rw [(hframe _ hne).1, (hframe _ hne).2]
      exact howns
    . exact howns
  . intro ip hlookup
    rcases hempty ip hlookup with ⟨hlookup, hne⟩ | hcall
    . obtain ⟨c, hc⟩ := hs.empty ip hlookup
      have hcne : c ≠ conn := by
        rintro rfl
        exact hne hc
      refine ⟨c, ?_⟩
      rw [(hframe c hcne).2]
      exact hc
    . exact ⟨conn, hcall⟩

theorem Consistent.moveHandler {s s' : Server} {conn : PeerSender} {h' : Handler}
    (hs : s.Consistent)
    (hframe : ∀ c, c ≠ conn → s'.handlers c = s.handlers c ∧ s'.calls c = s.calls c)
    (hmanager : s'.manager = s.manager) (hcall : s.calls conn = none) (hcall' : s'.calls conn = none)
    (hh' : s'.handlers conn = some h')
    (hhandler : ∀ h, s.handlers conn = some h →
      h'.clientIp = h.clientIp ∧ h'.pc.identity = h.pc.identity)
    (hadding : ∀ peer, h'.pc = .adding peer → peer.sender = conn) : s'.Consistent := by
  apply hs.of_frame conn hframe
  . rw [hmanager]
    exact hs.wellFormed
  . intro h peer hh hpc
    rw [hh'] at hh
    obtain rfl := Option.some.inj hh
    exact hadding peer hpc
  . intro pc hpc
    rw [hcall'] at hpc
    contradiction
  . intro ip p hp
    rw [hmanager] at hp
    by_cases hsender : p.sender = conn
    . refine .inr ⟨hsender, ?_⟩
      obtain ⟨⟨h, hh, hip, hidentity⟩, -⟩ := hs.owned ip p hp
      rw [hsender] at hh
      obtain ⟨hsameIp, hsame⟩ := hhandler h hh
      refine ⟨⟨h', hh', hsameIp.trans hip, hsame.trans hidentity⟩, ?_⟩
      intro ip'
      rw [hcall']
      simp
    . exact .inl ⟨hp, hsender⟩
  . intro ip hlookup
    rw [hmanager] at hlookup
    refine .inl ⟨hlookup, ?_⟩
    rw [hcall]
    simp

theorem Consistent.sender_ne {s : Server} {conn : PeerSender} {h : Handler} (hs : s.Consistent)
    (hh : s.handlers conn = some h) (hidentity : h.pc.identity = none) {ip : String} {p : PeerInfo}
    (hp : p ∈ s.manager.room ip) : p.sender ≠ conn := by
  rintro rfl
  obtain ⟨⟨h', hh', -, hsome⟩, -⟩ := hs.owned ip p hp
  rw [hh] at hh'
  obtain rfl := Option.some.inj hh'
  rw [hidentity] at hsome
  contradiction

theorem Consistent.unregistered {s s' : Server} {conn : PeerSender} {h h' : Handler}
    (hs : s.Consistent) (hh : s.handlers conn = some h) (hidentity : h.pc.identity = none)
    (hrooms : RoomManager.SameRooms s.manager s'.manager)
    (hframe : ∀ c, c ≠ conn → s'.handlers c = s.handlers c ∧ s'.calls c = s.calls c)
    (hh' : s'.handlers conn = some h') (hadding : ∀ peer, h'.pc = .adding peer → peer.sender = conn)
    (hcalls : ∀ pc, s'.calls conn = some pc → InCall conn h' pc) : s'.Consistent := by
  apply hs.of_frame conn hframe
  . intro ip
    rw [hrooms.room]
    exact hs.wellFormed ip
  . intro h'' peer hh'' hpc
    rw [hh'] at hh''
    obtain rfl := Option.some.inj hh''
    exact hadding peer hpc
  . intro pc hpc
    exact ⟨h', hh', hcalls pc hpc⟩
  . intro ip p hp
    rw [hrooms.room] at hp
    exact .inl ⟨hp, hs.sender_ne hh hidentity hp⟩
  . intro ip hlookup
    rw [hrooms ip] at hlookup
    refine .inl ⟨hlookup, ?_⟩
    intro hcall
    obtain ⟨h'', hh'', -, me, hpc⟩ := hs.calls conn _ hcall
    rw [hh] at hh''
    obtain rfl := Option.some.inj hh''
    rw [hpc] at hidentity
    contradiction

/-! ### The steps of a handler -/

section Steps

variable {fromStr : String → Except String ClientMessage} {s s' : Server} {conn : PeerSender}
  {h : Handler} {e : Effect}

theorem Consistent.inCall (hs : s.Consistent) (hh : s.handlers conn = some h) (pc : RoomManager.Pc)
    (hcall : s.calls conn = some pc) : InCall conn h pc := by
  obtain ⟨h', hh', hin⟩ := hs.calls conn pc hcall
  rw [hh] at hh'
  obtain rfl := Option.some.inj hh'
  exact hin

theorem adding_of_inCall {pc : RoomManager.Pc} {peer : PeerInfo} (hin : InCall conn h pc)
    (hadded : pc.added = some peer)
    : peer.sender = conn ∧ ∃ peer', h.pc = .adding peer' ∧ peer'.peerCode = peer.peerCode := by
  cases pc with
  | containsKey | len | entry =>
    obtain rfl := Option.some.inj hadded
    exact hin.2
  | returned | getMut | remove => contradiction

theorem Consistent.registered {peer : PeerInfo} {existingPeers : List PeerData} (hs : s.Consistent)
    (hh : s.handlers conn = some h)
    (hframe : ∀ c, c ≠ conn → s'.handlers c = s.handlers c ∧ s'.calls c = s.calls c)
    (hcall : s.calls conn = some (.entry h.clientIp peer))
    (hin : InCall conn h (.entry h.clientIp peer))
    (hregisters : RoomManager.Registers s.manager h.clientIp peer
      (s.manager.enterRoom h.clientIp peer))
    (hmanager : s'.manager = (s.manager.enterRoom h.clientIp peer).manager)
    (hcall' : s'.calls conn = none)
    (hh' : s'.handlers conn
      = some (h.goto (.announcing ⟨peer.peerCode, peer.sessionId⟩ existingPeers)))
    : s'.Consistent := by
  obtain ⟨-, hsender, peer', hpc, -⟩ := hin
  have hold : ∀ ip, ∀ p ∈ s.manager.room ip, p.sender ≠ conn := by
    intro ip p hp
    apply hs.sender_ne hh _ hp
    rw [hpc]
    rfl
  apply hs.of_frame conn hframe
  . rw [hmanager]
    apply RoomManager.wellFormed_enterRoom hs.wellFormed
  . intro h'' peer'' hh'' hpc''
    rw [hh'] at hh''
    obtain rfl := Option.some.inj hh''
    contradiction
  . intro pc hpc
    rw [hcall'] at hpc
    contradiction
  . intro ip p hp
    rw [hmanager, hregisters.room] at hp
    split at hp
    . next hip =>
      subst hip
      rcases List.mem_append.mp hp with hp | hp
      . have hp := List.mem_of_mem_filter hp
        exact .inl ⟨hp, hold _ p hp⟩
      . obtain rfl := List.mem_singleton.mp hp
        refine .inr ⟨hsender, ⟨_, hh', rfl, rfl⟩, ?_⟩
        rw [hcall']
        simp
    . exact .inl ⟨hp, hold _ p hp⟩
  . intro ip hlookup
    rw [hmanager, RoomManager.lookup_eq_some_nil_iff, hregisters.mem_iff, hregisters.room] at hlookup
    obtain ⟨hmem, hroom⟩ := hlookup
    rw [RoomManager.lookup_eq_some_nil_iff, hcall]
    split at hroom
    . simp at hroom
    . next hne => exact .inl ⟨⟨hmem.resolve_left hne, hroom⟩, by simp⟩

theorem Consistent.beginRemove {me : Identity} (hs : s.Consistent) (hh : s.handlers conn = some h)
    (hframe : ∀ c, c ≠ conn → s'.handlers c = s.handlers c ∧ s'.calls c = s.calls c)
    (hpc : h.pc = .removing me) (hcall : s.calls conn = none) (hmanager : s'.manager = s.manager)
    (hcall' : s'.calls conn = some (.getMut h.clientIp me.peerCode me.sessionId))
    (hh' : s'.handlers conn = some h) : s'.Consistent := by
  apply hs.of_frame conn hframe
  . rw [hmanager]
    exact hs.wellFormed
  . rw [hh', ← hh]
    exact hs.adding conn
  . intro pc' hpc'
    rw [hcall'] at hpc'
    obtain rfl := Option.some.inj hpc'
    exact ⟨h, hh', rfl, hpc⟩
  . intro ip p hp
    rw [hmanager] at hp
    by_cases hsender : p.sender = conn
    . obtain ⟨hregistered, -⟩ := hs.owned ip p hp
      rw [hsender, hh, ← hh'] at hregistered
      refine .inr ⟨hsender, hregistered, ?_⟩
      rw [hcall']
      simp
    . exact .inl ⟨hp, hsender⟩
  . intro ip hlookup
    rw [hmanager] at hlookup
    refine .inl ⟨hlookup, ?_⟩
    rw [hcall]
    simp

theorem Consistent.left {h' : Handler} (hs : s.Consistent)
    (hframe : ∀ c, c ≠ conn → s'.handlers c = s.handlers c ∧ s'.calls c = s.calls c)
    (hwellFormed : s'.manager.WellFormed) (hh' : s'.handlers conn = some h')
    (hadding : ∀ peer, h'.pc ≠ .adding peer)
    (hcall' : ∀ pc, s'.calls conn = some pc → InCall conn h' pc)
    (hrooms : ∀ ip, ∀ p ∈ s'.manager.room ip, p ∈ s.manager.room ip ∧ p.sender ≠ conn)
    (hempty : ∀ ip, s'.manager.rooms.lookup ip = some [] →
      (s.manager.rooms.lookup ip = some [] ∧ s.calls conn ≠ some (.remove ip))
        ∨ s'.calls conn = some (.remove ip)) : s'.Consistent := by
  apply hs.of_frame conn hframe hwellFormed
  . intro h'' peer hh'' hpc
    rw [hh'] at hh''
    obtain rfl := Option.some.inj hh''
    exact absurd hpc (hadding peer)
  . intro pc hpc
    exact ⟨h', hh', hcall' pc hpc⟩
  . intro ip p hp
    exact .inl (hrooms ip p hp)
  . exact hempty

theorem Consistent.room_leaveRoom {me : Identity} (hs : s.Consistent) (hh : s.handlers conn = some h)
    (hpc : h.pc = .removing me) (ip : String) (p : PeerInfo)
    (hp : p ∈ (s.manager.leaveRoom h.clientIp me.peerCode me.sessionId).manager.room ip) :
    p ∈ s.manager.room ip ∧ p.sender ≠ conn := by
  rw [RoomManager.room_leaveRoom] at hp
  have hroom : p ∈ s.manager.room ip := by
    split at hp
    . next hip => exact hip ▸ List.mem_of_mem_filter hp
    . exact hp
  refine ⟨hroom, ?_⟩
  -- the only member that belongs to the connection has been filtered out
  rintro rfl
  obtain ⟨⟨h', hh', rfl, hsame⟩, -⟩ := hs.owned ip p hroom
  rw [hh] at hh'
  obtain rfl := Option.some.inj hh'
  rw [hpc] at hsame
  obtain rfl := Option.some.inj hsame
  simp [RoomManager.remaining] at hp

theorem lookup_leaveRoom {me : Identity}
    (hcall : s.calls conn = some (.getMut h.clientIp me.peerCode me.sessionId)) (ip : String)
    (hlookup : (s.manager.leaveRoom h.clientIp me.peerCode me.sessionId).manager.rooms.lookup ip
      = some [])
    : (s.manager.rooms.lookup ip = some [] ∧ s.calls conn ≠ some (.remove ip))
        ∨ (ip = h.clientIp
          ∧ (s.manager.leaveRoom h.clientIp me.peerCode me.sessionId).result = true) := by
  apply (RoomManager.lookup_leaveRoom_nil hlookup).imp_left
  intro hlookup
  rw [hcall]
  exact ⟨hlookup, by simp⟩

theorem Consistent.step (hs : s.Consistent) (hh : s.handlers conn = some h)
    (hframe : ∀ c, c ≠ conn → s'.handlers c = s.handlers c ∧ s'.calls c = s.calls c)
    (hstepped : Stepped s conn h s') : s'.Consistent := by
  cases hstepped with
  | beginAdd peer hpc hcall hmanager hcall' hh' =>
    have hsender := hs.adding conn h peer hh hpc
    apply hs.unregistered hh (by rw [hpc]; rfl) _ hframe hh'
    . intro peer' hpc'
      exact hs.adding conn h peer' hh hpc'
    . intro pc hpc'
      rw [hcall'] at hpc'
      obtain rfl := Option.some.inj hpc'
      exact ⟨rfl, hsender, peer, hpc, rfl⟩
    . rw [hmanager]
      exact fun _ => rfl
  | insideAdd pc pc' peer hcall hadded hnotEntry hadded' hin hmanager hcall' hh' =>
    obtain ⟨-, peer', hpc, -⟩ := adding_of_inCall hin hadded'
    apply hs.unregistered hh (by rw [hpc]; rfl) _ hframe hh'
    . intro peer' hpc'
      exact hs.adding conn h peer' hh hpc'
    . intro pc'' hpc''
      rw [hcall'] at hpc''
      obtain rfl := Option.some.inj hpc''
      exact hin
    . rw [hmanager]
      exact fun _ => rfl
  | refused peer pc error hpc hcall hfull hrooms hcounter hcall' hh' =>
    apply hs.unregistered hh (by rw [hpc]; rfl) hrooms hframe hh'
    . simp
    . rw [hcall']
      simp
  | registered peer existingPeers hcall hin hregisters hmanager hcall' hh' =>
    exact hs.registered hh hframe hcall hin hregisters hmanager hcall' hh'
  | beginRemove me hpc hcall hmanager hcall' hh' =>
    exact hs.beginRemove hh hframe hpc hcall hmanager hcall' hh'
  | leave me hpc hcall hmanager hresult hcall' hh' =>
    apply hs.left hframe _ hh'
    . simp
    . rw [hcall']
      simp
    . rw [hmanager]
      exact hs.room_leaveRoom hh hpc
    . rw [hmanager]
      intro ip hlookup
      apply (lookup_leaveRoom hcall ip hlookup).imp_right
      rintro ⟨-, hresult'⟩
      rw [hresult] at hresult'
      contradiction
    . rw [hmanager]
      apply RoomManager.wellFormed_leaveRoom hs.wellFormed
  | leaveLast me hpc hcall hmanager hresult hcall' hh' =>
    apply hs.left hframe _ hh'
    . simp [hpc]
    . intro pc hpc'
      rw [hcall'] at hpc'
      obtain rfl := Option.some.inj hpc'
      exact ⟨rfl, me, hpc⟩
    . rw [hmanager]
      exact hs.room_leaveRoom hh hpc
    . rw [hmanager]
      intro ip hlookup
      apply (lookup_leaveRoom hcall ip hlookup).imp_right
      rintro ⟨rfl, -⟩
      exact hcall'
    . rw [hmanager]
      apply RoomManager.wellFormed_leaveRoom hs.wellFormed
  | drop me hpc hcall hmanager hcall' hh' =>
    apply hs.left hframe _ hh'
    . simp
    . rw [hcall']
      simp
    . intro ip p hp
      rw [hmanager, RoomManager.room_dropRoom] at hp
      split at hp
      . simp at hp
      . refine ⟨hp, ?_⟩
        rintro rfl
        exact (hs.owned ip p hp).2 h.clientIp hcall
    . intro ip hlookup
      rw [hmanager] at hlookup
      unfold RoomManager.dropRoom at hlookup
      have hne : ip ≠ h.clientIp := by
        rintro rfl
        rw [AList.lookup_erase] at hlookup
        contradiction
      rw [AList.lookup_erase_ne hne] at hlookup
      refine .inl ⟨hlookup, ?_⟩
      rw [hcall]
      simpa using hne.symm
    . rw [hmanager]
      apply RoomManager.wellFormed_dropRoom hs.wellFormed
  | move h' hadding hremoving hcall hmanager hcall' hh' hip hidentity hadding' =>
    apply hs.moveHandler hframe hmanager hcall hcall' hh'
    . intro h'' hh''
      rw [hh] at hh''
      obtain rfl := Option.some.inj hh''
      exact ⟨hip, hidentity⟩
    . intro peer hpc
      exact absurd hpc (hadding' peer)

/--
A step of a handler in a consistent server, and what it leaves alone.
-/
theorem Consistent.stepped (hs : s.Consistent) (hnext : s.next fromStr effect (.step conn) = some s')
    : ∃ h, s.handlers conn = some h ∧ Stepped s conn h s'
        ∧ ∀ c, c ≠ conn → s'.handlers c = s.handlers c ∧ s'.calls c = s.calls c := by
  obtain ⟨h, e, hh, he, hrun⟩ := handler_of_step hnext
  have hmoves := moves_of_run hrun
  exact ⟨h, hh, Server.stepped (hs.inCall hh) hs.wellFormed hh he hmoves, hmoves.frame⟩

/-! ### All actions -/

theorem Consistent.receive {received : Received} {now : Nat} {p : Handler × List ServerMessage}
    (hs : s.Consistent) (hh : s.handlers conn = some h)
    (hp : h.receive fromStr conn received now = some p) : (s.respond conn p).Consistent := by
  obtain ⟨hip, hidentity, hadding⟩ := identity_receive hp
  have hidle : s.calls conn = none := by
    apply calls_eq_none (hs.inCall hh)
    all_goals
      intro _ hpc
      rcases Handler.pc_of_receive hp with hpc' | ⟨me, hpc'⟩
      all_goals
        rw [hpc'] at hpc
        contradiction
  have hframe : ∀ c, c ≠ conn →
      (s.respond conn p).handlers c = s.handlers c ∧ (s.respond conn p).calls c = s.calls c := by
    intro c hc
    exact ⟨Function.update_of_ne hc _ _, rfl⟩
  apply hs.moveHandler hframe rfl hidle hidle (Function.update_self ..)
  . intro h' hh'
    rw [hh] at hh'
    obtain rfl := Option.some.inj hh'
    exact ⟨hip, hidentity⟩
  . exact hadding

theorem Consistent.calls_of_none (hs : s.Consistent) (hnone : s.handlers conn = none) :
    s.calls conn = none := by
  rw [Option.eq_none_iff_forall_not_mem]
  intro pc hcall
  obtain ⟨h, hh, -⟩ := hs.calls conn pc hcall
  rw [hnone] at hh
  contradiction

theorem Consistent.accept {clientIp : String} {now : Nat} (hs : s.Consistent)
    (hnone : s.handlers conn = none)
    (hs' : s' = { s with handlers := Function.update s.handlers conn (some (.start clientIp now)) })
    : s'.Consistent := by
  have hidle := hs.calls_of_none hnone
  have hframe : ∀ c, c ≠ conn → s'.handlers c = s.handlers c ∧ s'.calls c = s.calls c := by
    intro c hc
    rw [hs']
    exact ⟨Function.update_of_ne hc _ _, rfl⟩
  have hh' : s'.handlers conn = some (.start clientIp now) := by
    rw [hs']
    apply Function.update_self
  apply hs.moveHandler hframe (by rw [hs']) hidle (by rw [hs', hidle]) hh'
  . intro h hh
    rw [hnone] at hh
    contradiction
  . simp [Handler.start]

theorem Consistent.next {action : Action} (hs : s.Consistent)
    (hnext : s.next fromStr effect action = some s') : s'.Consistent := by
  cases action with
  | accept conn clientIp now =>
    obtain ⟨hnone, hs'⟩ := handler_of_accept hnext
    exact hs.accept hnone hs'
  | receive conn received now =>
    obtain ⟨h, p, hh, hp, rfl⟩ := handler_of_receive hnext
    exact hs.receive hh hp
  | step conn =>
    obtain ⟨h, hh, hstepped, hframe⟩ := hs.stepped hnext
    exact hs.step hh hframe hstepped
  | close conn =>
    obtain ⟨h, -, rfl⟩ := handler_of_close hnext
    exact ⟨hs.wellFormed, hs.adding, hs.calls, hs.owned, hs.empty⟩

theorem consistent (h : (machine fromStr).Reachable s) : s.Consistent := by
  refine Machine.Reachable.invariant ?_ ?_ h
  . rintro _ rfl
    exact consistent_start
  . intro s action s' _ hs hnext
    exact hs.next hnext

end Steps

end Server

end Rendezvous

end LocalBolt
