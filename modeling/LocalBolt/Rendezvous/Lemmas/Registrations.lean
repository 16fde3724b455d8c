import LocalBolt.Machine.Observer
import LocalBolt.Rendezvous.Lemmas.Rooms

/-!
This module contains the registrations that tasks have made with the rendezvous server, against the
members of the rooms, while the steps of `add_peer` and `remove_peer` interleave.
-/

namespace LocalBolt

namespace Rendezvous

namespace RoomManager

/--
The registrations after a task's step: `add_peer` makes one when it returns `Ok`, in place of one
with the same room and code, and the `get_mut` step of `remove_peer` ends one.
-/
def register (registered : List (String × PeerInfo)) (m : RoomManager) :
    Pc → List (String × PeerInfo)
  | .entry ip peer =>
    if (m.enterRoom ip peer).result.isOk then
      registered.filter (fun r => ¬ (r.1 = ip ∧ r.2.peerCode = peer.peerCode)) ++ [(ip, peer)]
    else
      registered
  | .getMut ip code sessionId =>
    registered.filter fun r => ¬ (r.1 = ip ∧ r.2.peerCode = code ∧ r.2.sessionId = sessionId)
  | _ => registered

def registrations (τ : Type) :
    Observer (Tasks τ RoomManager Pc) (Tasks.Action τ Method) (List (String × PeerInfo)) where
  start := []
  next registered s action _ :=
    match action with
    | .call _ _ => registered
    | .step task => register registered s.shared (s.pc task)

def Kept (m : RoomManager) (registered : List (String × PeerInfo)) : Prop :=
  ∀ r ∈ registered, r.2 ∈ m.room r.1

instance (m : RoomManager) (registered : List (String × PeerInfo)) :
    Decidable (Kept m registered) :=
  inferInstanceAs (Decidable (∀ r ∈ registered, r.2 ∈ m.room r.1))

def Matches (m : RoomManager) (registered : List (String × PeerInfo)) : Prop :=
  ∀ ip peer, (ip, peer) ∈ registered ↔ peer ∈ m.room ip

theorem Matches.kept {m : RoomManager} {registered : List (String × PeerInfo)}
    (h : Matches m registered) : Kept m registered := by
  intro r hr
  exact (h r.1 r.2).mp hr

theorem matches_step {m : RoomManager} {registered : List (String × PeerInfo)} {pc : Pc}
    {p : RoomManager × Pc} (hm : m.WellFormed) (h : Matches m registered) (hstep : m.step pc = some p)
    (hpc : ∀ ip, pc ≠ .remove ip) : Matches p.1 (register registered m pc) := by
  intro ip' peer'
  cases pc with
  | returned => simp [step] at hstep
  | remove ip => exact absurd rfl (hpc ip)
  | containsKey =>
    obtain rfl := Option.some.inj hstep
    exact h ip' peer'
  | len =>
    simp only [step] at hstep
    split at hstep <;>
      . obtain rfl := Option.some.inj hstep
        exact h ip' peer'
  | entry ip peer =>
    obtain rfl := Option.some.inj hstep
    simp only [register, enterRoom_isOk_iff hm]
    by_cases hfull : maxPeersPerRoom ≤ (m.others ip peer.peerCode).length
    . rw [room_enterRoom_of_full hm hfull, if_neg (not_not_intro hfull)]
      exact h ip' peer'
    . rw [room_enterRoom_of_not_full hm hfull, if_pos hfull]
      simp only [List.mem_append, List.mem_filter, List.mem_singleton, Prod.mk.injEq, h ip' peer',
        decide_not, Bool.not_eq_true', decide_eq_false_iff_not]
      by_cases hip : ip' = ip
      . subst hip
        simp [others]
      . simp [hip]
  | getMut ip code sessionId =>
    obtain rfl := Option.some.inj hstep
    simp only [register, room_leaveRoom, List.mem_filter, h ip' peer', decide_not,
      Bool.not_eq_true', decide_eq_false_iff_not]
    by_cases hip : ip' = ip
    . subst hip
      simp [remaining, imp_iff_not_or]
    . simp [hip]

theorem kept_dropRoom_iff {m : RoomManager} {registered : List (String × PeerInfo)}
    (h : Matches m registered) (ip : String) :
    Kept (m.dropRoom ip) registered ↔ m.room ip = [] := by
  constructor
  . intro hkept
    by_contra hroom
    obtain ⟨peer, hpeer⟩ := List.exists_mem_of_ne_nil _ hroom
    have := hkept (ip, peer) ((h ip peer).mpr hpeer)
    simp [room_dropRoom] at this
  . intro hroom r hr
    have hmember := h.kept r hr
    rw [room_dropRoom]
    split
    . next hip =>
      rw [hip, hroom] at hmember
      exact hmember
    . exact hmember

theorem matches_dropRoom {m : RoomManager} {registered : List (String × PeerInfo)} {ip : String}
    (h : Matches m registered) (hkept : Kept (m.dropRoom ip) registered) :
    Matches (m.dropRoom ip) registered := by
  intro ip' peer
  refine ⟨hkept (ip', peer), ?_⟩
  intro hpeer
  rw [room_dropRoom] at hpeer
  split at hpeer
  . simp at hpeer
  . exact (h ip' peer).mpr hpeer

def RemovesEmpty {τ : Type} (s : Tasks τ RoomManager Pc) : Tasks.Action τ Method → Prop
  | .call _ _ => True
  | .step task => ∀ ip, s.pc task = .remove ip → s.shared.room ip = []

theorem kept_next_iff {τ : Type} [DecidableEq τ] {s s' : Tasks τ RoomManager Pc}
    {registered : List (String × PeerInfo)} {action : Tasks.Action τ Method}
    (hs : s.shared.WellFormed) (h : Matches s.shared registered)
    (hnext : Tasks.next methods s action = some s')
    : (Kept s'.shared ((registrations τ).next registered s action s') ↔ RemovesEmpty s action)
        ∧ (Kept s'.shared ((registrations τ).next registered s action s') →
          Matches s'.shared ((registrations τ).next registered s action s')) := by
  cases action with
  | call task method =>
    simp only [Tasks.next] at hnext
    split at hnext
    . obtain rfl := Option.some.inj hnext
      have hmatches : Matches (call s.shared method).1 registered := by
        cases method <;> exact h
      exact ⟨iff_of_true hmatches.kept trivial, fun _ => hmatches⟩
    . simp at hnext
  | step task =>
    obtain ⟨p, hp, rfl⟩ := Option.map_eq_some_iff.mp hnext
    simp only [registrations, Tasks.move, RemovesEmpty]
    by_cases hremove : ∃ ip, s.pc task = .remove ip
    . obtain ⟨ip, hpc⟩ := hremove
      rw [hpc] at hp
      obtain rfl := Option.some.inj hp
      simp only [hpc, register, kept_dropRoom_iff h, Pc.remove.injEq, forall_eq', true_and]
      intro hroom
      exact matches_dropRoom h ((kept_dropRoom_iff h ip).mpr hroom)
    . have hpc : ∀ ip, s.pc task ≠ .remove ip := fun ip hip => hremove ⟨ip, hip⟩
      have hmatches := matches_step hs h hp hpc
      exact ⟨iff_of_true hmatches.kept (fun ip hip => absurd hip (hpc ip)), fun _ => hmatches⟩

theorem registrations_kept_iff (τ : Type) [DecidableEq τ]
    {tr : List (Transition (Tasks τ RoomManager Pc × List (String × PeerInfo))
      (Tasks.Action τ Method))}
    {q : Tasks τ RoomManager Pc × List (String × PeerInfo)}
    (h : ((machine τ).observed (registrations τ)).Run tr q)
    : (∀ t ∈ tr, Kept t.target.1.shared t.target.2)
        ↔
      ∀ t ∈ tr, RemovesEmpty t.source.1 t.action := by
  refine Machine.Run.forall_iff_of_good (fun p => Matches p.1.shared p.2) ?_ ?_ ?_ h
  . rintro ⟨s, registered⟩ ⟨hs, hregistered⟩
    obtain rfl : s = .start new (.returned none) := hs
    obtain rfl : registered = [] := hregistered
    intro ip peer
    simp [room, new, Tasks.start]
  . rintro ⟨s, registered⟩ action ⟨s', registered'⟩ hreach hmatches ⟨hnext, hregistered⟩ hkept
    obtain rfl : registered' = (registrations τ).next registered s action s' := hregistered
    exact (kept_next_iff (wellFormed hreach.of_observed) hmatches hnext).2 hkept
  . rintro ⟨s, registered⟩ action ⟨s', registered'⟩ hreach hmatches ⟨hnext, hregistered⟩
    obtain rfl : registered' = (registrations τ).next registered s action s' := hregistered
    exact (kept_next_iff (wellFormed hreach.of_observed) hmatches hnext).1

inductive Handler where
  | first
  | second
  deriving DecidableEq

def firstLeaves : List (Tasks.Action Handler Method) :=
  [.call .first (.addPeer "10.0.0.1" (device "B7H2MN" 1)), .step .first, .step .first, .step .first,
    .call .first (.removePeer "10.0.0.1" "B7H2MN" 1), .step .first]

def secondJoins : List (Tasks.Action Handler Method) :=
  [.call .second (.addPeer "10.0.0.1" (device "C8J3PQ" 2)), .step .second, .step .second]

theorem joins_after_room_removed
    : let tr := Machine.trace (Machine.observedFun (registrations Handler) (Tasks.next methods))
        (.start new (.returned none), []) (firstLeaves ++ .step .first :: secondJoins ++ [.step .second])
      (∃ t ∈ tr, (t.target.1.shared.room "10.0.0.1").map (·.peerCode) = ["C8J3PQ"])
        ∧ ∀ t ∈ tr, Kept t.target.1.shared t.target.2 := by
  intro tr
  have hjoined : tr.any (fun t => (t.target.1.shared.room "10.0.0.1").map (·.peerCode) = ["C8J3PQ"])
      = true := by decide
  have hempty : tr.all (fun t =>
      match t.action with
      | .call _ _ => true
      | .step task =>
        match t.source.1.pc task with
        | .remove ip => t.source.1.shared.room ip = []
        | _ => true) = true := by decide
  obtain ⟨q, h⟩ := Machine.observed_run_trace (registrations Handler) (M := machine Handler) rfl
    (fun _ _ _ => id) (firstLeaves ++ .step .first :: secondJoins ++ [.step .second])
  constructor
  . obtain ⟨t, ht, hjoined⟩ := List.any_eq_true.mp hjoined
    exact ⟨t, ht, of_decide_eq_true hjoined⟩
  . apply (registrations_kept_iff Handler h).mpr
    intro t ht
    have := List.all_eq_true.mp hempty t ht
    unfold RemovesEmpty
    split
    . trivial
    . next task haction =>
      intro ip hpc
      simpa [haction, hpc] using this

theorem registration_removed_with_room
    : ∃ tr q, ((machine Handler).observed (registrations Handler)).Run tr q
        ∧ ∃ t ∈ tr, ¬ Kept t.target.1.shared t.target.2
          ∧ t.target.2.map (fun r => (r.1, r.2.peerCode, r.2.sessionId)) = [("10.0.0.1", "C8J3PQ", 2)]
          ∧ t.target.1.shared.room "10.0.0.1" = [] := by
  obtain ⟨tr, q, h, t, ht, hlost⟩ := Machine.exists_observed_transition (registrations Handler)
    (M := machine Handler) rfl (fun _ _ _ => id) (firstLeaves ++ secondJoins ++ [.step .first])
    (P := fun t => ¬ Kept t.target.1.shared t.target.2
      ∧ t.target.2.map (fun r => (r.1, r.2.peerCode, r.2.sessionId)) = [("10.0.0.1", "C8J3PQ", 2)]
      ∧ t.target.1.shared.room "10.0.0.1" = [])
    (by decide)
  exact ⟨tr, q, h, t, ht, of_decide_eq_true hlost⟩

end RoomManager

end Rendezvous

end LocalBolt
