import LocalBolt.Rendezvous.Impl.SignalingServer
import LocalBolt.Rendezvous.Lemmas.NoGhosts
import LocalBolt.Rendezvous.Lemmas.Slots

/-!
This module contains how the limits of the signaling server depend on each other: the rooms hold no more
than there are connections, so that a server with as many connections as a room has places never refuses
a registration.
-/

namespace LocalBolt

namespace Rendezvous

/-! ### Rooms and handlers -/

namespace Server

variable {fromStr : String → Except String ClientMessage} {s s' : Server} {conn : PeerSender}
  {h : Handler} {tasks : List PeerSender}

theorem Consistent.sender_mem (hs : s.Consistent) (hlive : ∀ conn, s.Live conn → conn ∈ tasks) {ip : String}
    {p : PeerInfo} (hp : p ∈ s.manager.room ip) : p.sender ∈ tasks := by
  apply hlive
  exact live_of_registered (hs.registered_sender hp)

theorem Consistent.peerCount_le (hs : s.Consistent) (hlive : ∀ conn, s.Live conn → conn ∈ tasks) :
    s.manager.peerCount ≤ tasks.length := by
  rw [← length_members, ← List.length_map (·.sender)]
  apply (hs.nodup_senders.subperm _).length_le
  intro sender hsender
  obtain ⟨p, hp, rfl⟩ := List.mem_map.mp hsender
  obtain ⟨e, he, hp⟩ := List.mem_flatMap.mp hp
  rw [← room_of_mem_entries he] at hp
  exact hs.sender_mem hlive hp

/--
Each room has a live handler of its own: that of a member, or the one that is about to drop the room.
-/
theorem Consistent.roomCount_le (hs : s.Consistent) (hlive : ∀ conn, s.Live conn → conn ∈ tasks) :
    s.manager.roomCount ≤ tasks.length := by
  let clientIps := tasks.filterMap fun conn => (s.handlers conn).map (·.clientIp)
  have hsub : s.manager.rooms.keys ⊆ clientIps := by
    intro ip hip
    have howner : ∃ conn h, s.handlers conn = some h ∧ h.clientIp = ip ∧ s.Live conn := by
      cases hroom : s.manager.room ip with
      | nil =>
        have hlookup := RoomManager.lookup_eq_some_nil_iff.mpr ⟨AList.mem_keys.mpr hip, hroom⟩
        obtain ⟨conn, h, me, hh, hclient, hpc, -⟩ := hs.aboutToDrop hlookup
        exact ⟨conn, h, hh, hclient, h, hh, by simp [hpc]⟩
      | cons p ps =>
        have hregistered : s.Registered p.sender ip ⟨p.peerCode, p.sessionId⟩ := by
          apply hs.registered_sender
          rw [hroom]
          apply List.mem_cons_self
        obtain ⟨h, hh, hclient, -⟩ := id hregistered
        exact ⟨p.sender, h, hh, hclient, live_of_registered hregistered⟩
    obtain ⟨conn, h, hh, rfl, hconn⟩ := howner
    apply List.mem_filterMap.mpr
    exact ⟨conn, hlive conn hconn, by rw [hh]; rfl⟩
  calc
    s.manager.rooms.keys.length ≤ clientIps.length := (s.manager.rooms.keys_nodup.subperm hsub).length_le
    _ ≤ tasks.length := List.length_filterMap_le _ _

theorem Consistent.others_lt (hs : s.Consistent) (hlive : ∀ conn, s.Live conn → conn ∈ tasks)
    (hh : s.handlers conn = some h) (hidentity : h.pc.identity = none) (hpc : h.pc ≠ .returned)
    (ip code : String) : (s.manager.others ip code).length < tasks.length := by
  have hsub : (s.manager.others ip code).map (·.sender) ⊆ (s.manager.room ip).map (·.sender) := by
    apply List.map_subset
    exact List.filter_sublist.subset
  have hnodup : (conn :: (s.manager.others ip code).map (·.sender)).Nodup := by
    rw [List.nodup_cons]
    constructor
    . intro hconn
      obtain ⟨p, hp, hsender⟩ := List.mem_map.mp (hsub hconn)
      exact hs.sender_ne hh hidentity hp hsender
    . apply List.Nodup.sublist _ (hs.nodup_room_senders ip)
      apply List.Sublist.map
      apply List.filter_sublist
  have htasks : (conn :: (s.manager.others ip code).map (·.sender)) ⊆ tasks := by
    apply List.cons_subset.mpr
    refine ⟨hlive conn ⟨h, hh, hpc⟩, ?_⟩
    intro sender hsender
    obtain ⟨p, hp, rfl⟩ := List.mem_map.mp (hsub hsender)
    exact hs.sender_mem hlive hp
  have hle := (hnodup.subperm htasks).length_le
  rw [List.length_cons, List.length_map] at hle
  exact hle

/-! ### Registrations -/

theorem ok_of_continueCall {pc : RoomManager.Pc} {e : Effect}
    {result : Except String (List PeerData × UInt64)} (hwellFormed : s.manager.WellFormed)
    (hrooms : s.manager.roomCount < maxRooms)
    (hplace : ∀ ip code, (s.manager.others ip code).length < maxPeersPerRoom)
    (he : s.continueCall pc = some e) (hinput : e.input = some (.added result)) : ∃ r, result = .ok r := by
  obtain ⟨pc', hstep, -, htold⟩ := continueCall_told he
  have hpc' : pc' = .returned (some result) := by
    cases pc' with
    | returned result' =>
      cases result' with
      | some result' =>
        obtain ⟨-, hinput'⟩ := htold
        rw [hinput] at hinput'
        rw [Handler.Input.added.inj (Option.some.inj hinput')]
      | none =>
        obtain ⟨-, hinput'⟩ := htold
        rw [hinput] at hinput'
        cases hinput'
    | _ =>
      obtain ⟨-, hinput'⟩ := htold
      rw [hinput] at hinput'
      cases hinput'
  subst hpc'
  cases pc with
  | entry ip peer =>
    have hplace := hplace ip peer.peerCode
    have hresult := (RoomManager.enterRoom_registers hwellFormed (Nat.not_le.mpr hplace)).result
    obtain ⟨-, hpc⟩ := Prod.mk.inj (Option.some.inj hstep)
    rw [hresult] at hpc
    exact ⟨_, (Option.some.inj (RoomManager.Pc.returned.inj hpc)).symm⟩
  | len ip peer =>
    simp only [RoomManager.step] at hstep
    rw [if_neg (Nat.not_le.mpr hrooms)] at hstep
    obtain ⟨-, hpc⟩ := Prod.mk.inj (Option.some.inj hstep)
    cases hpc
  | containsKey ip peer =>
    obtain ⟨-, hpc⟩ := Prod.mk.inj (Option.some.inj hstep)
    split at hpc <;> cases hpc
  | getMut ip code sessionId =>
    obtain ⟨-, hpc⟩ := Prod.mk.inj (Option.some.inj hstep)
    split at hpc <;> cases hpc
  | remove ip =>
    obtain ⟨-, hpc⟩ := Prod.mk.inj (Option.some.inj hstep)
    cases hpc
  | returned result' => cases hstep

/--
The handler goes on with its registration, or has completed it.
-/
def Registers (peer : PeerInfo) (s' : Server) (conn : PeerSender) : Prop :=
  ∃ h', s'.handlers conn = some h' ∧ (h'.pc = .adding peer
    ∨ ∃ me existingPeers, h'.pc = .announcing me existingPeers ∧ me.peerCode = peer.peerCode)

theorem Consistent.registers_of_step {peer : PeerInfo} (hs : s.Consistent)
    (hrooms : s.manager.roomCount < maxRooms)
    (hplace : ∀ ip code, (s.manager.others ip code).length < maxPeersPerRoom)
    (hh : s.handlers conn = some h) (hpc : h.pc = .adding peer)
    (hnext : s.next fromStr effect (.step conn) = some s') : Registers peer s' conn := by
  obtain ⟨h', e, hh', he, hrun⟩ := handler_of_step hnext
  obtain rfl := Option.some.inj (hh.symm.trans hh')
  have hmoves := moves_of_run hrun
  cases Server.stepped (hs.inCall hh) hs.wellFormed hh he hmoves with
  | beginAdd peer' hpc' hcall hmanager hcall' hh' => exact ⟨h, hh', .inl hpc⟩
  | insideAdd pc pc' peer' hcall hadded hnotEntry hadded' hin hmanager hcall' hh' => exact ⟨h, hh', .inl hpc⟩
  | refused peer' pc error hpc' hcall hfull hsame hcounter hcall' hh' =>
    exfalso
    have he : s.continueCall pc = some e := by
      unfold effect at he
      rwa [hpc, hcall] at he
    cases hinput : e.input with
    | none =>
      rw [hmoves.idle hinput, hh] at hh'
      have hsame := congrArg Handler.pc (Option.some.inj hh')
      rw [hpc] at hsame
      cases hsame
    | some input =>
      obtain ⟨p, hp, hh''⟩ := hmoves.told input hinput
      have hrejecting : p.1.pc = .rejecting error := by
        rw [hh''] at hh'
        exact congrArg Handler.pc (Option.some.inj hh')
      cases input with
      | added result =>
        obtain ⟨⟨existingPeers, sessionId⟩, rfl⟩ :=
          ok_of_continueCall hs.wellFormed hrooms hplace he hinput
        rw [next_added hpc hp] at hrejecting
        cases hrejecting
      | _ => simp [Handler.next, Handler.receive, hpc] at hp
  | registered peer' existingPeers hcall hin hregisters hmanager hcall' hh' =>
    obtain ⟨-, -, peer'', hpc', hcode⟩ := hin
    rw [hpc] at hpc'
    obtain rfl := Handler.Pc.adding.inj hpc'
    exact ⟨_, hh', .inr ⟨_, existingPeers, rfl, hcode.symm⟩⟩
  | beginRemove me hpc' | leave me hpc' | leaveLast me hpc' | drop me hpc' =>
    rw [hpc] at hpc'
    cases hpc'
  | move h' hadding => exact absurd hpc (hadding peer)

end Server

/-! ### Slots and tasks -/

theorem Slots.guards_tryAcquireSlot {s s' : Slots Unit 64} {maxConnections : BitVec 64}
    (h : s.tryAcquireSlot maxConnections () = some s')
    : s.pc () ≠ .returned true
        ∧ s'.guards = s.guards + (if s'.pc () = .returned true then 1 else 0) := by
  unfold tryAcquireSlot at h
  split at h
  . next hpc =>
    rw [hpc]
    refine ⟨by simp, ?_⟩
    dsimp only at h
    split at h
    . obtain rfl := Option.some.inj h
      simp [move]
    . obtain rfl := Option.some.inj h
      simp [move]
  . next current hpc =>
    rw [hpc]
    refine ⟨by simp, ?_⟩
    split at h
    . obtain rfl := Option.some.inj h
      simp [move]
    . obtain rfl := Option.some.inj h
      simp [move]
  . contradiction

namespace SignalingServer

/--
The guard that the loop holds until it spawns a task for it.
-/
def pending (s : SignalingServer) : Nat :=
  if s.pc = .acquiring ∧ s.slots.pc () = .returned true then 1 else 0

/--
Each guard belongs to a task, apart from the one that the loop may hold, and each handler runs in a task.
-/
structure Staffed (maxConnections : BitVec 64) (s : SignalingServer) : Prop where
  slots : s.slots.Counted maxConnections
  guards : s.slots.guards = s.tasks.length + s.pending
  live : ∀ conn, s.server.Live conn → conn ∈ s.tasks
  consistent : s.server.Consistent

variable {fromStr : String → Except String ClientMessage} {maxConnections : BitVec 64}
  {s s' : SignalingServer}

theorem pending_of_accepting (h : s.pc = .accepting) : s.pending = 0 := by
  unfold pending
  rw [h, if_neg (by simp)]

theorem staffed_start : start.Staffed maxConnections where
  slots := Slots.counted (.init rfl)
  guards := rfl
  live conn hconn := by
    obtain ⟨h, hh, -⟩ := hconn
    cases hh
  consistent := Server.consistent_start

theorem Staffed.length_le (hs : s.Staffed maxConnections) : s.tasks.length ≤ maxConnections.toNat := by
  have hguards := hs.guards
  have hle := hs.slots.guards_le
  omega

theorem live_of_next {server server' : Server} {action : Server.Action} {conn : PeerSender}
    (hnext : server.next fromStr Server.effect action = some server') (hlive : server'.Live conn)
    : server.Live conn ∨ ∃ clientIp now, action = .accept conn clientIp now := by
  by_cases hsame : conn = action.connection
  . subst hsame
    cases action with
    | accept conn clientIp now => exact .inr ⟨clientIp, now, rfl⟩
    | receive conn received now =>
      obtain ⟨h, p, hh, hp, -⟩ := Server.handler_of_receive hnext
      refine .inl ⟨h, hh, ?_⟩
      intro hpc
      simp [Handler.receive, hpc] at hp
    | step conn =>
      obtain ⟨h, e, hh, he, hrun⟩ := Server.handler_of_step hnext
      refine .inl ⟨h, hh, ?_⟩
      intro hpc
      have hmoves := Server.moves_of_run hrun
      have hinput : e.input = some .proceed := by
        unfold Server.effect Server.atomicEffect at he
        rw [hpc] at he
        obtain rfl := Option.some.inj he
        rfl
      obtain ⟨p, hp, -⟩ := hmoves.told _ hinput
      rw [Handler.next_of_returned hpc] at hp
      cases hp
    | close conn =>
      obtain ⟨h, -, rfl⟩ := Server.handler_of_close hnext
      exact .inl hlive
  . obtain ⟨h, hh, hpc⟩ := hlive
    rw [Server.handlers_frame hnext hsame] at hh
    exact .inl ⟨h, hh, hpc⟩

theorem Staffed.serve {action : Server.Action} (hs : s.Staffed maxConnections)
    (hnext : s.serve fromStr action = some s')
    (haccept : ∀ conn clientIp now, action = .accept conn clientIp now → conn ∈ s.tasks)
    : s'.Staffed maxConnections := by
  obtain ⟨server, hserver, rfl⟩ := Option.map_eq_some_iff.mp hnext
  refine ⟨hs.slots, hs.guards, ?_, hs.consistent.next hserver⟩
  intro conn hlive
  rcases live_of_next hserver hlive with hlive | ⟨clientIp, now, haction⟩
  . exact hs.live conn hlive
  . exact haccept conn clientIp now haction

theorem Staffed.finish {conn : PeerSender} (hs : s.Staffed maxConnections)
    (hnext : s.next fromStr maxConnections (.finish conn) = some s') : s'.Staffed maxConnections := by
  simp only [SignalingServer.next] at hnext
  split at hnext
  . next hconn =>
    obtain ⟨slots, hslots, rfl⟩ := Option.map_eq_some_iff.mp hnext
    obtain ⟨hmem, hreturned⟩ := hconn
    refine ⟨Slots.counted_next hs.slots hslots, ?_, ?_, hs.consistent⟩
    . have hguards := hs.guards
      have hlength := List.length_erase_of_mem hmem
      have hpos := List.length_pos_of_mem hmem
      simp only [Slots.next] at hslots
      split at hslots
      . obtain rfl := Option.some.inj hslots
        unfold pending at hguards ⊢
        dsimp only at hguards ⊢
        omega
      . cases hslots
    . intro c hlive
      have hne : c ≠ conn := by
        rintro rfl
        obtain ⟨h, hh, hpc⟩ := hlive
        dsimp only at hh
        unfold mayReturn at hreturned
        rw [hh] at hreturned
        exact hpc (of_decide_eq_true hreturned)
      exact (List.mem_erase_of_ne hne).mpr (hs.live c hlive)
  . cases hnext

theorem Staffed.next {action : Action} (hs : s.Staffed maxConnections)
    (hnext : s.next fromStr maxConnections action = some s') : s'.Staffed maxConnections := by
  have hguards := hs.guards
  cases action with
  | accepted =>
    simp only [SignalingServer.next] at hnext
    split at hnext
    . next hpc =>
      obtain ⟨slots, hslots, rfl⟩ := Option.map_eq_some_iff.mp hnext
      refine ⟨Slots.counted_next hs.slots hslots, ?_, hs.live, hs.consistent⟩
      rw [pending_of_accepting hpc] at hguards
      simp only [Slots.next] at hslots
      split at hslots <;> try contradiction
      all_goals
        obtain rfl := Option.some.inj hslots
        simpa [pending, Slots.move] using hguards
    . cases hnext
  | acceptFailed =>
    simp only [SignalingServer.next] at hnext
    split at hnext
    . obtain rfl := Option.some.inj hnext
      exact hs
    . cases hnext
  | acquire =>
    simp only [SignalingServer.next] at hnext
    split at hnext
    . next hpc =>
      obtain ⟨slots, hslots, rfl⟩ := Option.map_eq_some_iff.mp hnext
      refine ⟨Slots.counted_next hs.slots hslots, ?_, hs.live, hs.consistent⟩
      obtain ⟨hnot, hcount⟩ := Slots.guards_tryAcquireSlot hslots
      unfold pending at hguards ⊢
      rw [if_neg (fun h => hnot h.2)] at hguards
      dsimp only
      simp only [hpc, true_and]
      omega
    . cases hnext
  | spawn conn =>
    simp only [SignalingServer.next] at hnext
    split at hnext
    . next hconn =>
      obtain rfl := Option.some.inj hnext
      refine ⟨hs.slots, ?_, ?_, hs.consistent⟩
      . unfold pending at hguards
        rw [if_pos ⟨hconn.1, hconn.2.1⟩] at hguards
        rw [pending_of_accepting rfl]
        dsimp only
        rw [hguards, List.length_cons]
      . intro c hlive
        exact List.mem_cons_of_mem _ (hs.live c hlive)
    . cases hnext
  | reject =>
    simp only [SignalingServer.next] at hnext
    split at hnext
    . next hpc =>
      obtain rfl := Option.some.inj hnext
      refine ⟨hs.slots, ?_, hs.live, hs.consistent⟩
      unfold pending at hguards
      rw [if_neg (by simp [hpc.2])] at hguards
      rw [pending_of_accepting rfl]
      exact hguards
    . cases hnext
  | upgrade conn clientIp now =>
    simp only [SignalingServer.next] at hnext
    split at hnext
    . next hconn =>
      apply hs.serve hnext
      intro c clientIp' now' haction
      obtain rfl := (Server.Action.accept.inj haction).1
      exact hconn
    . cases hnext
  | receive conn received now | step conn | close conn =>
    apply hs.serve hnext
    intro c clientIp now haction
    cases haction
  | finish conn => exact hs.finish hnext

theorem staffed (h : (machine fromStr maxConnections).Reachable s) : s.Staffed maxConnections := by
  refine h.invariant ?_ ?_
  . rintro _ rfl
    exact staffed_start
  . intro s action s' _ hs hnext
    exact hs.next hnext

/-! ### What the limits guarantee -/

theorem Staffed.length_le_active (hs : s.Staffed maxConnections) :
    s.tasks.length ≤ s.slots.active.toNat := by
  rw [hs.slots.active, hs.guards]
  apply Nat.le_add_right

theorem Staffed.registers {action : Action} {conn : PeerSender} {h : Handler} {peer : PeerInfo}
    (hmax : maxConnections.toNat ≤ maxPeersPerRoom) (hs : s.Staffed maxConnections)
    (hnext : s.next fromStr maxConnections action = some s') (hh : s.server.handlers conn = some h)
    (hpc : h.pc = .adding peer) : Server.Registers peer s'.server conn := by
  have hlength := hs.length_le
  have hidle : s'.server.handlers conn = s.server.handlers conn → Server.Registers peer s'.server conn := by
    intro hsame
    exact ⟨h, hsame.trans hh, .inl hpc⟩
  have hserve : ∀ action', s.serve fromStr action' = some s' → Server.Registers peer s'.server conn := by
    intro action' hserve
    obtain ⟨server, hserver, rfl⟩ := Option.map_eq_some_iff.mp hserve
    by_cases hsame : conn = action'.connection
    . subst hsame
      cases action' with
      | accept conn clientIp now =>
        obtain ⟨hnone, -⟩ := Server.handler_of_accept hserver
        rw [Server.Action.connection, hnone] at hh
        cases hh
      | receive conn received now =>
        obtain ⟨h', p, hh', hp, -⟩ := Server.handler_of_receive hserver
        obtain rfl := Option.some.inj (hh.symm.trans hh')
        simp [Handler.receive, hpc] at hp
      | close conn =>
        obtain ⟨h', -, rfl⟩ := Server.handler_of_close hserver
        exact hidle rfl
      | step conn =>
        refine hs.consistent.registers_of_step ?_ ?_ hh hpc hserver
        . have hrooms := hs.consistent.roomCount_le hs.live
          have hlimits : maxPeersPerRoom < maxRooms := by decide
          omega
        . intro ip code
          have hothers := hs.consistent.others_lt hs.live hh (by rw [hpc]; rfl) (by simp [hpc]) ip code
          omega
    . exact hidle (Server.handlers_frame hserver hsame)
  cases action with
  | accepted =>
    simp only [SignalingServer.next] at hnext
    split at hnext <;> try contradiction
    obtain ⟨slots, -, rfl⟩ := Option.map_eq_some_iff.mp hnext
    exact hidle rfl
  | acquire =>
    simp only [SignalingServer.next] at hnext
    split at hnext <;> try contradiction
    obtain ⟨slots, -, rfl⟩ := Option.map_eq_some_iff.mp hnext
    exact hidle rfl
  | finish c =>
    simp only [SignalingServer.next] at hnext
    split at hnext <;> try contradiction
    obtain ⟨slots, -, rfl⟩ := Option.map_eq_some_iff.mp hnext
    exact hidle rfl
  | acceptFailed | spawn c | reject =>
    simp only [SignalingServer.next] at hnext
    split at hnext <;> try contradiction
    obtain rfl := Option.some.inj hnext
    exact hidle rfl
  | upgrade c clientIp now =>
    simp only [SignalingServer.next] at hnext
    split at hnext <;> try contradiction
    exact hserve _ hnext
  | receive c received now => exact hserve _ hnext
  | step c => exact hserve _ hnext
  | close c => exact hserve _ hnext

/--
A connection is accepted, and its client registers.
-/
def oneRegisters : List Action :=
  [.accepted, .acquire, .acquire, .spawn 1, .upgrade 1 "10.0.0.1" 0, .receive 1 (.message (.text "B7H2MN")) 0]

end SignalingServer

end Rendezvous

end LocalBolt
