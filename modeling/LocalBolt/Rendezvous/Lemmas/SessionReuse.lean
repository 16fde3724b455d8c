import LocalBolt.Rendezvous.Lemmas.Isolation

/-!
This module contains a run in which another room uses up the session ids, so that a connection that
leaves takes the member that has replaced it along.
-/

namespace LocalBolt

namespace Rendezvous

namespace Server

variable {fromStr : String → Except String ClientMessage} {s s' : Server} {conn : PeerSender}
  {h : Handler} {e : Effect} {ip : String}

def registrant (conn : PeerSender) : PeerInfo := ⟨"B7H2MN", "laptop", .laptop, conn, 0, none, none⟩

/--
The handler once it has read its registration.
-/
def registers (conn : PeerSender) (ip : String) : Handler where
  clientIp := ip
  rateLimit := ((RateLimit.new 0).check 0).1
  pc := .adding (registrant conn)

theorem receive_registration (conn : PeerSender) (ip : String)
    : (Handler.start ip 0).receive plain conn (.message (.text "B7H2MN")) 0
        =
      some (registers conn ip, []) := by
  rfl

theorem next_receive_of {received : Received} {now : Nat} {p : Handler × List ServerMessage}
    (hh : s.handlers conn = some h) (hp : h.receive fromStr conn received now = some p) :
    s.next fromStr atomicEffect (.receive conn received now) = some (s.respond conn p) := by
  simp only [next, hh, Option.bind_some, hp, Option.map_some]

theorem next_step_of {input : Handler.Input} {p : Handler × List ServerMessage}
    (hh : s.handlers conn = some h) (he : s.atomicEffect conn h = some e)
    (hinput : e.input = some input) (hp : h.next fromStr conn input = some p) :
    s.next fromStr atomicEffect (.step conn) = some ((s.affected conn e).respond conn p) := by
  simp only [next, hh, Option.bind_some, he, run_of_input hinput, hp, Option.map_some]

/-! ### A registration -/

def joins (conn : PeerSender) (ip : String) : List Action := connects conn ip "B7H2MN" ++ [.step conn]

/--
The new connection has called `add_peer`, and nothing else has changed.
-/
structure Joined (conn : PeerSender) (ip : String) (s s' : Server) : Prop where
  manager : s'.manager = (s.manager.addPeer ip (registrant conn)).manager
  frame : ∀ c, c ≠ conn → s'.handlers c = s.handlers c

theorem operations_of_connection {ip : String} {s1 s2 s3 : Server} {now : Nat} {received : Received}
    (room : String) (hin1 : s1.inRoom room conn = decide (ip = room))
    (hin2 : s2.inRoom room conn = decide (ip = room))
    : operations room [⟨s, .accept conn ip now, s1⟩, ⟨s1, .receive conn received now, s2⟩,
          ⟨s2, .step conn, s3⟩]
        =
      if ip = room then [.accept conn ip now, .receive conn received now, .step conn] else [] := by
  have hin1' : ofRoom room ⟨s1, .receive conn received now, s2⟩ = decide (ip = room) := hin1
  have hin2' : ofRoom room ⟨s2, .step conn, s3⟩ = decide (ip = room) := hin2
  have hin0 : ofRoom room ⟨s, .accept conn ip now, s1⟩ = decide (ip = room) := rfl
  unfold operations Machine.seen
  simp only [List.filter_cons, hin0, hin1', hin2', List.filter_nil, decide_eq_true_eq]
  split <;> rfl

theorem path_joins (hnone : s.handlers conn = none) (hlimit : s.manager.roomCount < maxRooms)
    (hlimit' : (s.manager.addPeer ip (registrant conn)).manager.roomCount < maxRooms)
    : ∃ tr s', (calmMachine plain).Path s tr s' ∧ Joined conn ip s s'
        ∧ ∀ room, operations room tr = if ip = room then joins conn ip else [] := by
  let s1 : Server := { s with handlers := Function.update s.handlers conn (some (.start ip 0)) }
  let s2 := s1.respond conn (registers conn ip, [])
  let added := s.manager.addPeer ip (registrant conn)
  let e : Effect := {
    manager := added.manager, sent := added.sent, call := none, input := some (.added added.result) }
  let s3 := (s2.affected conn e).respond conn ((registers conn ip).added (registrant conn) added.result, [])
  have hh1 : s1.handlers conn = some (.start ip 0) := Function.update_self ..
  have hh2 : s2.handlers conn = some (registers conn ip) := Function.update_self ..
  have hnext0 : s.next plain atomicEffect (.accept conn ip 0) = some s1 := by
    simp only [next, hnone]
    rfl
  have hnext1 : s1.next plain atomicEffect (hears conn "B7H2MN") = some s2 :=
    next_receive_of hh1 (receive_registration conn ip)
  have hnext2 : s2.next plain atomicEffect (.step conn) = some s3 := next_step_of hh2 rfl rfl rfl
  refine ⟨[⟨s, .accept conn ip 0, s1⟩, ⟨s1, hears conn "B7H2MN", s2⟩, ⟨s2, .step conn, s3⟩], s3, ?_, ?_,
    ?_⟩
  . refine .cons ⟨hnext0, hlimit, not_isManual_plain _⟩ ?_
    refine .cons ⟨hnext1, hlimit, not_isManual_plain _⟩ ?_
    exact .cons ⟨hnext2, hlimit', not_isManual_plain _⟩ (.nil s3)
  . refine ⟨rfl, ?_⟩
    intro c hc
    rw [handlers_frame hnext2 hc, handlers_frame hnext1 hc, handlers_frame hnext0 hc]
  . intro room
    apply operations_of_connection
    . simp [inRoom, hh1, Handler.start]
    . simp [inRoom, hh2, registers]

/-! ### The other room -/

/--
The first connection is alone in its room, under session 1, and `k` further connections have
registered in the other room.
-/
structure Registering (k : Nat) (s : Server) : Prop where
  roomCount : s.manager.roomCount = 2
  other : "10.0.0.2" ∈ s.manager.rooms
  counter : s.manager.nextSessionId = UInt64.ofNat (3 + k)
  first : ∃ h, s.handlers 1 = some h ∧ h.clientIp = "10.0.0.1" ∧ h.pc = .serving ⟨"B7H2MN", 1⟩
  second : s.handlers 2 = none
  later : ∀ c : Nat, 4 + k ≤ c → s.handlers c = none
  room : (s.manager.room "10.0.0.1").map (·.peerCode) = ["B7H2MN"]

theorem registering_succ {k : Nat} {tr : List (Transition Server Action)}
    (hrun : (calmMachine plain).Run tr s) (hs : Registering k s)
    : ∃ tr' s', (calmMachine plain).Run (tr ++ tr') s' ∧ operations "10.0.0.1" tr' = []
        ∧ Registering (k + 1) s' := by
  have hconsistent : s.Consistent := consistent_of_atomic hrun.of_restrict.1.reachable
  obtain ⟨hcount, hother, hroom⟩ := RoomManager.addPeer_elsewhere hconsistent.wellFormed hs.other
    (registrant (4 + k))
  have hlimit : s.manager.roomCount < maxRooms := by
    rw [hs.roomCount]
    decide
  have hnone : s.handlers (4 + k) = none := hs.later (4 + k) (Nat.le_refl _)
  obtain ⟨tr', s', hpath, hjoined, hoperations⟩ := path_joins hnone hlimit (hcount ▸ hlimit)
  refine ⟨tr', s', hrun.append_path hpath, ?_, ?_⟩
  . rw [hoperations, if_neg (by decide)]
  . have hframe : ∀ c : Nat, c ≠ 4 + k → s'.handlers c = s.handlers c := hjoined.frame
    constructor
    . rw [hjoined.manager, hcount, hs.roomCount]
    . rw [hjoined.manager]
      exact hother
    . rw [hjoined.manager, RoomManager.nextSessionId_addPeer, hs.counter]
      exact (UInt64.ofNat_add (3 + k) 1).symm
    . rw [hframe 1 (by omega)]
      exact hs.first
    . rw [hframe 2 (by omega)]
      exact hs.second
    . intro c hc
      rw [hframe c (by omega)]
      exact hs.later c (by omega)
    . rw [hjoined.manager, hroom _ (by decide)]
      exact hs.room

def firstJoins : List Action := joins 1 "10.0.0.1" ++ [.step 1]

theorem registering_zero
    : ∃ tr s, (calmMachine plain).Run tr s ∧ operations "10.0.0.1" tr = firstJoins
        ∧ Registering 0 s := by
  let actions := firstJoins ++ joins 3 "10.0.0.2"
  let trace := Machine.trace (next plain atomicEffect) start actions
  have hexec : (Machine.exec (next plain atomicEffect) start actions).any
      (fun s => s.manager.roomCount = 2 ∧ "10.0.0.2" ∈ s.manager.rooms ∧ s.manager.nextSessionId = 3
        ∧ (s.handlers 1).map (fun h => (h.clientIp, h.pc))
          = some ("10.0.0.1", .serving ⟨"B7H2MN", 1⟩)
        ∧ (s.manager.room "10.0.0.1").map (·.peerCode) = ["B7H2MN"]) = true := by decide
  have hconns : trace.all (fun t => t.action.connection ∈ [1, 3]) = true := by decide
  have hlimit : trace.all (fun t => t.target.manager.roomCount < maxRooms) = true := by decide
  obtain ⟨s, hs, hfacts⟩ := (Option.any_eq_true _ _).mp hexec
  obtain ⟨hcount, hother, hcounter, hfirst, hroom⟩ := of_decide_eq_true hfacts
  have hrun := Machine.run_of_exec hs
  have hnone := (handlers_of_run hrun fun t ht => of_decide_eq_true (List.all_eq_true.mp hconns t ht)).2
  refine ⟨trace, s, hrun.restrict (calm_of_limit hlimit), by decide, hcount, hother, hcounter, ?_, ?_,
    ?_, hroom⟩
  . obtain ⟨h, hh, hsame⟩ := Option.map_eq_some_iff.mp hfirst
    exact ⟨h, hh, Prod.mk.inj hsame⟩
  . exact hnone 2 (by decide)
  . intro c hc
    apply hnone
    rw [List.mem_pair]
    rintro (rfl | rfl)
    . exact absurd hc (by decide)
    . exact absurd hc (by decide)

theorem registering (k : Nat)
    : ∃ tr s, (calmMachine plain).Run tr s ∧ operations "10.0.0.1" tr = firstJoins
        ∧ Registering k s := by
  induction k with
  | zero => exact registering_zero
  | succ k ih =>
    obtain ⟨tr, s, hrun, hoperations, hs⟩ := ih
    obtain ⟨tr', s', hrun', hoperations', hs'⟩ := registering_succ hrun hs
    refine ⟨tr ++ tr', s', hrun', ?_, hs'⟩
    rw [operations, Machine.seen_append, ← operations, ← operations, hoperations, hoperations',
      List.append_nil]

/-! ### The room -/

/--
The first connection leaves after the second has taken its place.
-/
def firstLeaves : List Action := joins 2 "10.0.0.1" ++ [.receive 1 .closed 0, .step 1]

theorem path_leaves {me : Identity} (hh : s.handlers conn = some h) (hpc : h.pc = .serving me)
    (hlimit : s.manager.roomCount < maxRooms)
    : ∃ tr s', (calmMachine plain).Path s tr s'
        ∧ s'.manager = (s.manager.removePeer h.clientIp me.peerCode me.sessionId).manager
        ∧ operations h.clientIp tr = [.receive conn .closed 0, .step conn] := by
  let h1 := h.goto (.removing me)
  let s1 := s.respond conn (h1, [])
  let removed := s.manager.removePeer h.clientIp me.peerCode me.sessionId
  let e : Effect := { manager := removed.manager, sent := removed.sent, call := none, input := some .removed }
  let s2 := (s1.affected conn e).respond conn (h1.goto .aborting, [])
  have hh1 : s1.handlers conn = some h1 := Function.update_self ..
  have hnext0 : s.next plain atomicEffect (.receive conn .closed 0) = some s1 := by
    apply next_receive_of hh
    simp [Handler.receive, hpc, h1]
  have hnext1 : s1.next plain atomicEffect (.step conn) = some s2 := next_step_of hh1 rfl rfl rfl
  have hlimit' : s2.manager.roomCount < maxRooms :=
    Nat.lt_of_le_of_lt (RoomManager.roomCount_removePeer_le ..) hlimit
  refine ⟨[⟨s, .receive conn .closed 0, s1⟩, ⟨s1, .step conn, s2⟩], s2, ?_, rfl, ?_⟩
  . refine .cons ⟨hnext0, hlimit, not_isManual_plain _⟩ ?_
    exact .cons ⟨hnext1, hlimit', not_isManual_plain _⟩ (.nil s2)
  . have hin0 : ofRoom h.clientIp ⟨s, .receive conn .closed 0, s1⟩ = true :=
      (inRoom_of_handler hh).mpr rfl
    have hin1 : ofRoom h.clientIp ⟨s1, .step conn, s2⟩ = true := (inRoom_of_handler hh1).mpr rfl
    simp [operations, Machine.seen, hin0, hin1]

/--
The member of the second connection has the session id of the first.
-/
theorem room_after_join {s' : Server} (hs : Registering (2 ^ 64 - 2) s)
    (hwellFormed : s.manager.WellFormed) (hjoined : Joined 2 "10.0.0.1" s s')
    : s'.manager.room "10.0.0.1" = [{ registrant 2 with sessionId := 1 }] := by
  have hothers : s.manager.others "10.0.0.1" "B7H2MN" = [] := by
    unfold RoomManager.others
    rw [List.filter_eq_nil_iff]
    intro p hp
    have hcode : p.peerCode ∈ (s.manager.room "10.0.0.1").map (·.peerCode) := List.mem_map_of_mem hp
    rw [hs.room, List.mem_singleton] at hcode
    simp [hcode]
  have haccepts : s.manager.Accepts "10.0.0.1" (registrant 2).peerCode := by
    refine ⟨.inr ?_, ?_⟩
    . rw [hs.roomCount]
      decide
    . have hplace : (s.manager.others "10.0.0.1" "B7H2MN").length < maxPeersPerRoom := by
        rw [hothers]
        decide
      exact hplace
  have hregisters := RoomManager.addPeer_registers hwellFormed haccepts
  have hcounter : s.manager.nextSessionId = 1 := by
    rw [hs.counter]
    decide
  rw [hjoined.manager, hregisters.room, if_pos rfl, hcounter]
  exact congrArg (· ++ _) hothers

theorem first_takes_second_along
    : ∃ tr s, (calmMachine plain).Run tr s
        ∧ operations "10.0.0.1" tr = firstJoins ++ firstLeaves
        ∧ s.manager.room "10.0.0.1" = [] := by
  obtain ⟨tr, s, hrun, hoperations, hs⟩ := registering (2 ^ 64 - 2)
  have hconsistent : s.Consistent := consistent_of_atomic hrun.of_restrict.1.reachable
  have hwellFormed := hconsistent.wellFormed
  have hip : "10.0.0.1" ∈ s.manager.rooms := by
    have hne : s.manager.room "10.0.0.1" ≠ [] := by
      intro hnil
      have hroom := hs.room
      rw [hnil] at hroom
      contradiction
    obtain ⟨p, hp⟩ := List.exists_mem_of_ne_nil _ hne
    exact RoomManager.mem_rooms_of_mem_room hp
  obtain ⟨hcount, -, -⟩ := RoomManager.addPeer_elsewhere hwellFormed hip (registrant 2)
  have hlimit : s.manager.roomCount < maxRooms := by
    rw [hs.roomCount]
    decide
  obtain ⟨tr1, s1, hpath1, hjoined, hoperations1⟩ := path_joins hs.second hlimit (hcount ▸ hlimit)
  obtain ⟨h, hh, hclient, hpc⟩ := hs.first
  have hh1 : s1.handlers 1 = some h := (hjoined.frame 1 (by decide)).trans hh
  have hlimit1 : s1.manager.roomCount < maxRooms := by
    rw [hjoined.manager, hcount]
    exact hlimit
  obtain ⟨tr2, s2, hpath2, hmanager, hoperations2⟩ := path_leaves hh1 hpc hlimit1
  refine ⟨tr ++ tr1 ++ tr2, s2, (hrun.append_path hpath1).append_path hpath2, ?_, ?_⟩
  . rw [hclient] at hoperations2
    rw [operations, Machine.seen_append, Machine.seen_append, ← operations, ← operations, ← operations,
      hoperations, hoperations1, if_pos rfl, hoperations2, List.append_assoc]
    rfl
  . rw [hmanager, hclient, RoomManager.room_removePeer, if_pos rfl, RoomManager.remaining,
      room_after_join hs hwellFormed hjoined]
    rfl

/--
Isolation fails over the 64-bit counter.
-/
theorem room_disturbed
    : ∃ ip tr tr' s s', (calmMachine plain).Run tr s ∧ (calmMachine plain).Run tr' s'
        ∧ operations ip tr = operations ip tr' ∧ ¬ SameRoom ip s s' := by
  obtain ⟨tr, s, hrun, hoperations, hroom⟩ := first_takes_second_along
  let actions := firstJoins ++ firstLeaves
  let trace := Machine.trace (next plain atomicEffect) start actions
  have hexec : (Machine.exec (next plain atomicEffect) start actions).any
      (fun s => (s.manager.room "10.0.0.1").map (·.sender) = [2]) = true := by decide
  have hlimit : trace.all (fun t => t.target.manager.roomCount < maxRooms) = true := by decide
  have hsame : operations "10.0.0.1" trace = firstJoins ++ firstLeaves := by decide
  obtain ⟨s', hs', hmember⟩ := (Option.any_eq_true _ _).mp hexec
  have hrun' := (Machine.run_of_exec hs').restrict (calm_of_limit hlimit)
  refine ⟨"10.0.0.1", tr, trace, s, s', hrun, hrun', hoperations.trans hsame.symm, ?_⟩
  intro hsameRoom
  have hmembers := hsameRoom.members
  rw [hroom, List.map_nil, eq_comm, List.map_eq_nil_iff] at hmembers
  rw [hmembers] at hmember
  contradiction

end Server

end Rendezvous

end LocalBolt
