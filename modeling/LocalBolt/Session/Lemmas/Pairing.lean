import LocalBolt.Machine.Observer
import LocalBolt.Session.Lemmas.Frame

/-!
This module contains the pairing requests that wait for an answer, and when the single slot of the
session manager is enough for them.
-/

namespace LocalBolt

def Move.isPairing : Move → Bool
  | .event (.pairingRequest _) _ => true
  | .sendPairingDecision _ _ => true
  | _ => false

namespace IpcManager

def pairingStep (m : IpcManager) (move : Move) : Option IpcManager :=
  if move.isPairing then m.step move else none

/--
The runs of a session manager with an open bridge in which requests arrive and the user decides.
-/
def pairingMachine : Machine IpcManager Move where
  init m := m.handle.isSome = true ∧ m.pendingRequest = none
  step m move m' := m.pairingStep move = some m'

theorem pairingStep_eq_some {m m' : IpcManager} {move : Move} :
    m.pairingStep move = some m' ↔ m.step move = some m' ∧ move.isPairing = true := by
  unfold pairingStep
  split <;> simp_all

def unanswered : Observer IpcManager Move (List PairingRequest) where
  start := []
  next requests _ move _ :=
    match move with
    | .event (.pairingRequest request) _ =>
      if request ∈ requests then requests else requests ++ [request]
    | .sendPairingDecision requestId _ => requests.filter fun request => request.requestId ≠ requestId
    | _ => requests

def Answerable (m : IpcManager) (requests : List PairingRequest) : Prop :=
  ∀ request ∈ requests, m.pendingRequest = some request

def answeredPeer (m : IpcManager) (requests : List PairingRequest) (requestId : String) :
    Option PeerSession :=
  match requests.find? fun request => request.requestId = requestId with
  | some request => some (acceptPeer request)
  | none => m.pendingAcceptPeer

def AnswersItsRequest (t : Transition (IpcManager × List PairingRequest) Move) : Prop :=
  Answerable t.target.1 t.target.2
    ∧ ∀ requestId decision, t.action = .sendPairingDecision requestId decision →
        decision.isAllow = true →
          t.target.1.pendingAcceptPeer = answeredPeer t.source.1 t.source.2 requestId

def OneAtATime (m : IpcManager) : Move → Prop
  | .event (.pairingRequest request) _ =>
    ∀ pending, m.pendingRequest = some pending → pending = request
  | .sendPairingDecision requestId _ =>
    ∀ pending, m.pendingRequest = some pending → pending.requestId = requestId
  | _ => True

structure HoldsRequest (m : IpcManager) (requests : List PairingRequest) : Prop where
  handle : m.handle.isSome = true
  slot : ∀ pending, m.pendingRequest = some pending → pending ∈ requests

theorem sendPairingDecision_handle (m : IpcManager) (requestId : String) (decision : PairingDecision) :
    (m.sendPairingDecision requestId decision).handle = m.handle := by
  obtain ⟨peer, request, hframe⟩ := sendPairingDecision_frame m requestId decision
  rw [hframe]

theorem sendPairingDecision_pendingRequest {m : IpcManager} (h : m.handle.isSome = true)
    (requestId : String) (decision : PairingDecision) :
    (m.sendPairingDecision requestId decision).pendingRequest = none := by
  unfold sendPairingDecision
  split
  . next hnone => simp [hnone] at h
  . rfl

theorem sendPairingDecision_pendingAcceptPeer {m : IpcManager} (h : m.handle.isSome = true)
    (requestId : String) {decision : PairingDecision} (hallow : decision.isAllow = true)
    : (m.sendPairingDecision requestId decision).pendingAcceptPeer
        =
      match m.pendingRequest with
      | some request => some (acceptPeer request)
      | none => m.pendingAcceptPeer := by
  unfold sendPairingDecision
  split
  . next hnone => simp [hnone] at h
  . cases m.pendingRequest with
    | none => rfl
    | some request => simp [hallow]

theorem holdsRequest {m : IpcManager} {requests : List PairingRequest}
    (h : (pairingMachine.observed unanswered).Reachable (m, requests)) : HoldsRequest m requests := by
  refine Machine.Reachable.invariant (I := fun p => HoldsRequest p.1 p.2) ?_ ?_ h
  . rintro ⟨m, requests⟩ ⟨⟨hhandle, hslot⟩, -⟩
    dsimp only at hhandle hslot
    exact ⟨hhandle, by simp [hslot]⟩
  . rintro ⟨m, requests⟩ move ⟨m', requests'⟩ - ih ⟨hstep, hnext⟩
    obtain ⟨hstep, hmove⟩ := pairingStep_eq_some.mp hstep
    dsimp only at ih hstep hnext ⊢
    subst hnext
    cases move with
    | sendPairingDecision requestId decision =>
      obtain rfl := Option.some.inj hstep
      constructor
      . rw [sendPairingDecision_handle]
        exact ih.handle
      . rw [sendPairingDecision_pendingRequest ih.handle]
        simp
    | event event now =>
      cases event with
      | pairingRequest request =>
        obtain rfl := Option.some.inj hstep
        refine ⟨ih.handle, ?_⟩
        simp only [unanswered, Option.some.injEq]
        rintro _ rfl
        split
        . assumption
        . simp
      | _ => simp [Move.isPairing] at hmove
    | _ => simp [Move.isPairing] at hmove

theorem answerable_pairingRequest_iff {m : IpcManager} {requests : List PairingRequest}
    (hm : HoldsRequest m requests) (hgood : Answerable m requests) (request : PairingRequest)
    : Answerable { m with pendingRequest := some request }
          (if request ∈ requests then requests else requests ++ [request])
        ↔
      ∀ pending, m.pendingRequest = some pending → pending = request := by
  constructor
  . intro h pending hpending
    have hmem : pending ∈ requests := hm.slot pending hpending
    have hslot := h pending (by split <;> simp [hmem])
    simpa using hslot.symm
  . intro h other hother
    have hmem : other ∈ requests ∨ other = request := by
      split at hother
      . exact .inl hother
      . simpa using hother
    rcases hmem with hmem | rfl
    . simp [h other (hgood other hmem)]
    . rfl

theorem answerable_decision_iff {m m' : IpcManager} {requests : List PairingRequest}
    (hm : HoldsRequest m requests) (hgood : Answerable m requests) (hslot : m'.pendingRequest = none)
    (requestId : String)
    : Answerable m' (requests.filter fun request => request.requestId ≠ requestId)
        ↔
      ∀ pending, m.pendingRequest = some pending → pending.requestId = requestId := by
  constructor
  . intro h pending hpending
    by_contra hid
    have hkept := h pending (List.mem_filter.mpr ⟨hm.slot pending hpending, by simpa using hid⟩)
    simp [hslot] at hkept
  . intro h request hrequest
    obtain ⟨hmem, hid⟩ := List.mem_filter.mp hrequest
    have := h request (hgood request hmem)
    simp [this] at hid

theorem answeredPeer_of_oneAtATime {m : IpcManager} {requests : List PairingRequest}
    {requestId : String} (hm : HoldsRequest m requests) (hgood : Answerable m requests)
    (hid : ∀ pending, m.pendingRequest = some pending → pending.requestId = requestId)
    : (match m.pendingRequest with
        | some request => some (acceptPeer request)
        | none => m.pendingAcceptPeer)
        =
      answeredPeer m requests requestId := by
  unfold answeredPeer
  cases hslot : m.pendingRequest with
  | none =>
    have hnil : requests = [] := by
      rw [List.eq_nil_iff_forall_not_mem]
      intro request hrequest
      have := hgood request hrequest
      simp [hslot] at this
    simp [hnil]
  | some pending =>
    have hfind : requests.find? (fun request => request.requestId = requestId) = some pending := by
      cases hfind : requests.find? (fun request => request.requestId = requestId) with
      | none =>
        have := List.find?_eq_none.mp hfind pending (hm.slot pending hslot)
        simp [hid pending hslot] at this
      | some request =>
        have := hgood request (List.mem_of_find?_eq_some hfind)
        rw [← this, hslot]
    rw [hfind]

theorem answersItsRequest_iff {m m' : IpcManager} {requests requests' : List PairingRequest}
    {move : Move} (hm : HoldsRequest m requests) (hgood : Answerable m requests)
    (hstep : m.step move = some m') (hmove : move.isPairing = true)
    (hnext : requests' = unanswered.next requests m move m')
    : AnswersItsRequest ⟨(m, requests), move, (m', requests')⟩ ↔ OneAtATime m move := by
  subst hnext
  cases move with
  | sendPairingDecision requestId decision =>
    obtain rfl := Option.some.inj hstep
    have hslot := sendPairingDecision_pendingRequest hm.handle requestId decision
    -- what is stashed is right as soon as nothing is lost
    refine Iff.trans ?_ (answerable_decision_iff hm hgood hslot requestId)
    constructor
    . exact And.left
    . intro h
      refine ⟨h, ?_⟩
      intro requestId' decision' hmove' hallow
      obtain ⟨rfl, rfl⟩ := Move.sendPairingDecision.inj hmove'
      have hid := (answerable_decision_iff hm hgood hslot requestId).mp h
      rw [← answeredPeer_of_oneAtATime hm hgood hid]
      exact sendPairingDecision_pendingAcceptPeer hm.handle requestId hallow
  | event event now =>
    cases event with
    | pairingRequest request =>
      obtain rfl := Option.some.inj hstep
      refine Iff.trans ?_ (answerable_pairingRequest_iff hm hgood request)
      constructor
      . exact And.left
      . intro h
        refine ⟨h, ?_⟩
        intro _ _ hmove' _
        simp at hmove'
    | _ => simp [Move.isPairing] at hmove
  | _ => simp [Move.isPairing] at hmove

theorem pairing_answered_one_by_one_iff
    {tr : List (Transition (IpcManager × List PairingRequest) Move)}
    {p : IpcManager × List PairingRequest} (h : (pairingMachine.observed unanswered).Run tr p)
    : (∀ t ∈ tr, AnswersItsRequest t) ↔ ∀ t ∈ tr, OneAtATime t.source.1 t.action := by
  refine Machine.Run.forall_iff_of_good (fun p => Answerable p.1 p.2) ?_ ?_ ?_ h
  . rintro ⟨m, requests⟩ ⟨-, hstart⟩
    dsimp only at hstart ⊢
    simp [hstart, unanswered, Answerable]
  . intro _ _ _ _ _ _ hP
    exact hP.1
  . rintro ⟨m, requests⟩ move ⟨m', requests'⟩ hreach hgood ⟨hstep, hnext⟩
    obtain ⟨hstep, hmove⟩ := pairingStep_eq_some.mp hstep
    exact answersItsRequest_iff (holdsRequest hreach) hgood hstep hmove hnext

def started : IpcManager := ({} : IpcManager).start none true

theorem pairing_answered_in_turn
    : let tr := Machine.trace (Machine.observedFun unanswered pairingStep) (started, [])
        [.event (.pairingRequest ⟨"r1", "Alice", "phone", "771025"⟩) ⟨0⟩,
          .sendPairingDecision "r1" .allowOnce]
      tr.length = 2 ∧ ∀ t ∈ tr, AnswersItsRequest t := by
  intro tr
  have hstart : pairingMachine.init started := ⟨rfl, rfl⟩
  obtain ⟨p, h⟩ := Machine.observed_run_trace unanswered hstart (fun _ _ _ => id)
    [.event (.pairingRequest ⟨"r1", "Alice", "phone", "771025"⟩) ⟨0⟩,
      .sendPairingDecision "r1" .allowOnce]
  refine ⟨by decide, (pairing_answered_one_by_one_iff h).mpr ?_⟩
  simp [Machine.trace, Machine.observedFun, pairingStep, Move.isPairing, step, handleEvent, OneAtATime,
    started, start]

theorem overlapping_pairing_answers_other
    : let alice : PairingRequest := ⟨"r1", "Alice", "phone", "771025"⟩
      let bob : PairingRequest := ⟨"r2", "Bob", "laptop", "402913"⟩
      ∃ tr p, (pairingMachine.observed unanswered).Run tr p
        ∧ ∃ t ∈ tr, t.source.2 = [alice, bob] ∧ t.target.2 = [bob]
          ∧ t.target.1.pendingRequest = none
          ∧ t.target.1.pendingAcceptPeer = some (acceptPeer bob) := by
  intro alice bob
  have hstart : pairingMachine.init started := ⟨rfl, rfl⟩
  obtain ⟨tr, p, h, t, ht, hother⟩ := Machine.exists_observed_transition unanswered hstart
    (fun _ _ _ => id)
    [.event (.pairingRequest alice) ⟨0⟩, .event (.pairingRequest bob) ⟨1⟩,
      .sendPairingDecision "r1" .allowOnce]
    (P := fun t => t.source.2 = [alice, bob] ∧ t.target.2 = [bob] ∧ t.target.1.pendingRequest = none
      ∧ t.target.1.pendingAcceptPeer = some (acceptPeer bob)) (by decide)
  exact ⟨tr, p, h, t, ht, of_decide_eq_true hother⟩

end IpcManager

end LocalBolt
