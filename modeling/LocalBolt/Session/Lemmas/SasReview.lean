import LocalBolt.Session.Lemmas.Mismatch

/-!
This module contains the review of a session's verification code: whether the transfer gate was open
before the user approved the session.
-/

namespace LocalBolt

/--
What has happened in the session that is connected: a SAS was reported for it, it started with the
gate closed, the gate was open before the approval, the user approved.
-/
structure SasReview where
  reported : Bool
  guarded : Bool
  opened : Bool
  approved : Bool
  deriving DecidableEq

namespace IpcManager

def reportsSas (m : IpcManager) : Move → Bool
  | .event (.sessionSas sas _) _ => sas.isSome
  | .wtSessionActive active sas => active && m.sessionPhase = .connecting && sas.isSome
  | .wtSessionSAS sas => sas.isSome
  | _ => false

/--
Whether the session that `move` connects starts with the gate closed: its peer is stashed under
review, or its SAS is known already, or there is no peer to show.
-/
def startsGuarded (m : IpcManager) (move : Move) : Bool :=
  !(m.initialTrust move).any (isTransferAllowed .connected)

def sasReview : Observer IpcManager Move SasReview where
  start := { reported := false, guarded := true, opened := false, approved := false }
  next review m move m' :=
    if m'.sessionPhase = .connected then
      let review :=
        if m.sessionPhase = .connected then
          review
        else
          { reported := false, guarded := m.startsGuarded move, opened := false, approved := false }
      let approved := review.approved || move.isMarkVerified
      { reported := review.reported || m.reportsSas move
        guarded := review.guarded
        opened := review.opened || (!approved && m'.transferGate)
        approved }
    else
      { reported := false, guarded := true, opened := false, approved := false }

theorem transferGate_of_not_connected {m : IpcManager} (h : m.sessionPhase ≠ .connected) :
    m.transferGate = false := by
  unfold transferGate isTransferAllowed
  split
  . rw [if_neg h]
  . rfl

theorem transferGate_of_start {m m' : IpcManager} {move : Move} (hm : m.attempt.Valid)
    (h : m.step move = some m') (hsource : m.sessionPhase ≠ .connected)
    (htarget : m'.sessionPhase = .connected) : m'.transferGate = !m.startsGuarded move := by
  have hstart := (step_change h).trust_starts hm hsource htarget
  rw [attempt_connectedPeer] at hstart
  rw [transferGate_eq, htarget, hstart]
  simp [startsGuarded]

theorem not_markVerified_of_start {m m' : IpcManager} {move : Move} (h : m.step move = some m')
    (hsource : m.sessionPhase ≠ .connected) (htarget : m'.sessionPhase = .connected) :
    move.isMarkVerified = false := by
  cases move with
  | markVerified =>
    obtain rfl := Option.some.inj h
    exact absurd htarget hsource
  | _ => rfl

end IpcManager

structure SasReview.Sound (m : IpcManager) (review : SasReview) : Prop where
  opened : review.opened = !review.guarded
  closed : review.guarded = true → review.approved = false → m.transferGate = false

namespace IpcManager

theorem sasReview_sound {m : IpcManager} {review : SasReview}
    (h : (machine.observed sasReview).Reachable (m, review)) : SasReview.Sound m review := by
  refine Machine.Reachable.invariant (I := fun p => SasReview.Sound p.1 p.2) ?_ ?_ h
  . rintro ⟨m, review⟩ ⟨hinit, hstart⟩
    simp only [machine, Machine.ofFun] at hinit hstart
    subst hinit hstart
    exact ⟨rfl, fun _ _ => rfl⟩
  . rintro ⟨m, review⟩ move ⟨m', review'⟩ hreach ih ⟨hstep, hnext⟩
    have hm : m.attempt.Valid := Reachable.valid hreach.of_observed
    dsimp only at ih hstep hnext ⊢
    subst hnext
    -- the session goes on, or starts with this step, or there is none
    by_cases htarget : m'.sessionPhase = .connected
    . by_cases hsource : m.sessionPhase = .connected
      . have hclosed : review.guarded = true → (review.approved || move.isMarkVerified) = false →
            m'.transferGate = false := by
          rw [Bool.or_eq_false_iff]
          rintro hguarded ⟨happroved, hmove⟩
          refine transferGate_of_step hstep hsource htarget ?_ (ih.closed hguarded happroved)
          rintro rfl
          simp [Move.isMarkVerified] at hmove
        constructor
        . cases hguarded : review.guarded with
          | false => simp [sasReview, htarget, hsource, ih.opened, hguarded]
          | true =>
            simp only [sasReview, htarget, hsource, ih.opened, hguarded, if_true, Bool.not_true,
              Bool.false_or, Bool.and_eq_false_imp, Bool.not_eq_true']
            exact hclosed hguarded
        . simp only [sasReview, htarget, hsource, if_true]
          exact hclosed
      . have hgate := transferGate_of_start hm hstep hsource htarget
        have hmove := not_markVerified_of_start hstep hsource htarget
        constructor <;> simp [sasReview, htarget, hsource, hgate, hmove]
    . constructor <;> simp [sasReview, htarget, transferGate_of_not_connected htarget]

theorem review_precedes_transfer_iff {tr : List (Transition (IpcManager × SasReview) Move)}
    {p : IpcManager × SasReview} (h : (machine.observed sasReview).Run tr p)
    : (∀ t ∈ tr, t.target.2.reported = true → t.target.2.opened = false)
        ↔
      ∀ t ∈ tr, t.target.2.reported = true → t.target.2.guarded = true := by
  refine Machine.Run.forall_iff ?_ h
  rintro s move ⟨m', review'⟩ hreach hstep
  have hsound := sasReview_sound (.step hreach hstep)
  simp [hsound.opened]

end IpcManager

end LocalBolt
