import LocalBolt.Session.Lemmas.TransferState

/-!
This module contains which transfer the pause flag of the session manager belongs to.
-/

namespace LocalBolt

def TransferPhase.isSending : TransferPhase → Bool
  | .sending _ _ _ => true
  | .idle => false
  | .receiving _ _ _ => false
  | .complete _ _ => false
  | .failed _ _ => false

namespace IpcManager

/--
A pause has been handled since the latest transfer began, and no resumption since that.
-/
def pausedSinceBegin : Observer IpcManager Move Bool where
  start := false
  next paused _ move _ :=
    match move with
    | .event .transferPaused _ => true
    | .event .transferResumed _ => false
    | .event (.transferStarted _ _ _ _) _ => false
    | .sendFile _ => false
    | _ => paused

def PauseOwned (p : IpcManager × Bool) : Prop :=
  p.1.transferPaused = true → p.1.transferPhase.isSending = true ∧ p.2 = true

instance : DecidablePred PauseOwned := fun p =>
  inferInstanceAs (Decidable (p.1.transferPaused = true → p.1.transferPhase.isSending = true ∧ p.2 = true))

/--
A pause comes while something is sent, and no transfer begins or ends while the flag is up.
-/
def KeepsPauseOwned (m : IpcManager) : Move → Prop
  | .event .transferPaused _ => m.transferPhase.isSending = true
  | move => move.raisesTransfer = true → m.transferPaused = false

theorem pauseOwned_iff (p : IpcManager × Bool) :
    PauseOwned p ↔ (p.1.transfer.paused = true → p.1.transfer.phase.isSending = true ∧ p.2 = true) :=
  Iff.rfl

theorem progressed_paused (t : Transfer) (progress : ℚ) (transferId : String) :
    (t.progressed progress transferId).paused = t.paused
      ∧ (t.progressed progress transferId).phase.isSending = t.phase.isSending := by
  unfold Transfer.progressed
  split
  . next hphase => simp [hphase, TransferPhase.isSending]
  . next hphase => simp [hphase, TransferPhase.isSending]
  . exact ⟨rfl, rfl⟩

theorem pauseOwned_of_not_raises {p q : IpcManager × Bool} {move : Move} (hp : PauseOwned p)
    (h : (machine.observed pausedSinceBegin).step p move q) (hmove : move.raisesTransfer = false) :
    PauseOwned q := by
  obtain ⟨hstep, hsince⟩ := h
  rw [pauseOwned_iff] at hp ⊢
  rcases step_transferChange hstep with ⟨htransfer, -⟩ | hnone
  . rw [htransfer, hsince]
    cases move with
    | event event now =>
      cases event with
      | transferStarted | transferComplete | transferError | transferPaused =>
        simp [Move.raisesTransfer] at hmove
      | transferProgress progress transferId =>
        obtain ⟨hpaused, hsending⟩ := progressed_paused p.1.transfer progress transferId
        simpa [Transfer.after, pausedSinceBegin, hpaused, hsending] using hp
      | transferResumed => simp [Transfer.after]
      | _ => exact hp
    | sendFile => simp [Move.raisesTransfer] at hmove
    | clearTransfer => simp [Transfer.after, Transfer.none]
    | _ => exact hp
  . simp [hnone, Transfer.none]

/--
A transfer that begins or ends leaves the flag as it was, and nothing it could belong to.
-/
theorem pauseOwned_of_raises {p q : IpcManager × Bool} {move : Move}
    (h : (machine.observed pausedSinceBegin).step p move q) (hmove : move.raisesTransfer = true)
    : PauseOwned q
        ↔
      KeepsPauseOwned p.1 move := by
  obtain ⟨hstep, hsince⟩ := h
  have htransfer := (step_raisesTransfer hstep hmove).1
  rw [pauseOwned_iff, htransfer, hsince]
  cases move with
  | event event now =>
    cases event with
    | transferPaused => simp [Transfer.after, pausedSinceBegin, KeepsPauseOwned, transfer]
    | transferStarted | transferComplete | transferError =>
      simp [Transfer.after, Transfer.started, pausedSinceBegin, KeepsPauseOwned, transfer,
        Move.raisesTransfer, TransferPhase.isSending]
    | _ => simp [Move.raisesTransfer] at hmove
  | sendFile fileName =>
    simp [Transfer.after, pausedSinceBegin, KeepsPauseOwned, transfer, Move.raisesTransfer]
  | _ => simp [Move.raisesTransfer] at hmove

theorem pauseOwned_step_iff {p q : IpcManager × Bool} {move : Move} (hp : PauseOwned p)
    (h : (machine.observed pausedSinceBegin).step p move q) :
    PauseOwned q ↔ KeepsPauseOwned p.1 move := by
  cases hmove : move.raisesTransfer with
  | true => exact pauseOwned_of_raises h hmove
  | false =>
    have hkeeps : KeepsPauseOwned p.1 move := by
      unfold KeepsPauseOwned
      split
      . simp [Move.raisesTransfer] at hmove
      . simp [hmove]
    exact iff_of_true (pauseOwned_of_not_raises hp h hmove) hkeeps

theorem pause_owned_by_transfer_iff {tr : List (Transition (IpcManager × Bool) Move)}
    {p : IpcManager × Bool} (h : (machine.observed pausedSinceBegin).Run tr p)
    : (∀ t ∈ tr, PauseOwned t.target) ↔ ∀ t ∈ tr, KeepsPauseOwned t.source.1 t.action := by
  refine Machine.Run.forall_iff_of_good PauseOwned ?_ ?_ ?_ h
  . rintro p ⟨hp, -⟩
    simp only [machine, Machine.ofFun] at hp
    simp [PauseOwned, hp]
  . intro p move q _ _ _ htarget
    exact htarget
  . intro p move q _ hp hstep
    exact pauseOwned_step_iff hp hstep

instance (m : IpcManager) : DecidablePred (KeepsPauseOwned m) := fun move => by
  unfold KeepsPauseOwned
  split <;> infer_instance

def pausedTransfer : List Move :=
  [.start none true, .event (.transferStarted "photo.jpg" "t1" "send" 1048576) ⟨0⟩,
    .event .transferPaused ⟨0⟩]

theorem pause_owned_while_sending
    : ∃ tr p, (machine.observed pausedSinceBegin).Run tr p ∧ (∀ t ∈ tr, PauseOwned t.target)
        ∧ p.1.transferPaused = true := by
  have hpaused : (Machine.exec (Machine.observedFun pausedSinceBegin step) ({}, pausedSinceBegin.start)
      pausedTransfer).any (fun p => p.1.transferPaused) = true := by decide
  have hkeeps : (Machine.trace (Machine.observedFun pausedSinceBegin step) ({}, pausedSinceBegin.start)
      pausedTransfer).all (fun t => KeepsPauseOwned t.source.1 t.action) = true := by decide
  obtain ⟨p, hp, hpaused⟩ := (Option.any_eq_true _ _).mp hpaused
  have hrun := Machine.observed_run_of_exec hp
  refine ⟨_, p, hrun, (pause_owned_by_transfer_iff hrun).mpr ?_, hpaused⟩
  simpa using hkeeps

/--
The next file of the queue is sent once the transfer that was paused is complete.
-/
theorem pause_outlives_transfer
    : ∃ p, (machine.observed pausedSinceBegin).Reachable p ∧ p.1.transferPaused = true
        ∧ p.1.transferPhase.isSending = true ∧ ¬ PauseOwned p := by
  have hlate : (Machine.exec (Machine.observedFun pausedSinceBegin step) ({}, false)
      (pausedTransfer ++ [.event (.transferComplete "photo.jpg" none) ⟨1⟩, .sendFile "notes.txt"])).any
        (fun p => p.1.transferPaused && p.1.transferPhase.isSending && !decide (PauseOwned p)) = true := by
    decide
  obtain ⟨p, h, hlate⟩ := Machine.exists_observed_of_exec hlate
  simp only [Bool.and_eq_true, Bool.not_eq_true', decide_eq_false_iff_not] at hlate
  exact ⟨p, h, hlate.1.1, hlate.1.2, hlate.2⟩

end IpcManager

end LocalBolt
