import LocalBolt.Rendezvous.Impl.WriteTask
import LocalBolt.Rendezvous.Lemmas.Handler

/-!
This module contains when the client of a refused registration is told the reason: the reply waits in
the channel for the write task, and the handler aborts the write task right after enqueueing it.
-/

namespace LocalBolt

namespace Rendezvous

namespace Connection

/--
The action ends the write task before it is done.
-/
def cancels (c : Connection) : Action → Bool
  | .handle input => aborts c.handler input && !c.writeTask.isRunning
  | .suspend => c.aborted
  | _ => false

def CancelsDrained (t : Transition Connection Action) : Prop :=
  cancels t.source t.action = true → t.source.unwritten = []

instance (t : Transition Connection Action) : Decidable (CancelsDrained t) :=
  inferInstanceAs (Decidable (_ → _))

/--
Only a handler that has returned can have aborted its write task.
-/
structure AbortsLast (c : Connection) : Prop where
  gone : c.writeTask = .gone → c.handler.pc = .returned ∧ c.channel = []
  aborted : c.aborted = true → c.handler.pc = .returned

/--
The registration was refused for the reason `e`, and the error is not lost.
-/
def Explains (e : String) (c : Connection) : Prop :=
  c.handler.pc = .rejecting e
    ∨ ((c.handler.pc = .aborting ∨ c.handler.pc = .returned)
      ∧ .error e ∈ c.written ++ c.unwritten)

variable {fromStr : String → Except String ClientMessage} {tx : PeerSender} {c c' : Connection}

@[simp]
theorem handler_enqueue (c : Connection) (messages : List ServerMessage) :
    (c.enqueue messages).handler = c.handler := by
  unfold enqueue
  split <;> rfl

@[simp]
theorem writeTask_enqueue (c : Connection) (messages : List ServerMessage) :
    (c.enqueue messages).writeTask = c.writeTask := by
  unfold enqueue
  split <;> rfl

@[simp]
theorem aborted_enqueue (c : Connection) (messages : List ServerMessage) :
    (c.enqueue messages).aborted = c.aborted := by
  unfold enqueue
  split <;> rfl

@[simp]
theorem written_enqueue (c : Connection) (messages : List ServerMessage) :
    (c.enqueue messages).written = c.written := by
  unfold enqueue
  split <;> rfl

theorem unwritten_enqueue (c : Connection) (messages : List ServerMessage)
    : (c.enqueue messages).unwritten
        =
      if c.writeTask = .gone then c.unwritten else c.unwritten ++ messages := by
  unfold enqueue unwritten
  split
  . rfl
  . apply (List.append_assoc _ _ _).symm

@[simp]
theorem handler_abort (c : Connection) : c.abort.handler = c.handler := by
  unfold abort
  split <;> rfl

@[simp]
theorem written_abort (c : Connection) : c.abort.written = c.written := by
  unfold abort
  split <;> rfl

theorem pc_of_aborts {h : Handler} {input : Handler.Input} (haborts : aborts h input = true) :
    h.pc = .aborting ∧ input = .proceed := by
  unfold aborts at haborts
  split at haborts
  . exact ⟨of_decide_eq_true haborts, rfl⟩
  . contradiction

/--
A step of the handler: its replies are enqueued, and if it aborts the write task it has returned.
-/
theorem handle_cases {input : Handler.Input} (h : c.handle fromStr tx input = some c')
    : ∃ p, c.handler.next fromStr tx input = some p
        ∧ ((aborts c.handler input = true ∧ p = (c.handler.goto .returned, [])
            ∧ c' = ({ c with handler := p.1 }.enqueue p.2).abort)
          ∨ (aborts c.handler input = false ∧ c' = { c with handler := p.1 }.enqueue p.2)) := by
  unfold handle at h
  split at h
  . contradiction
  . next handler replies hnext =>
    obtain rfl := Option.some.inj h
    refine ⟨_, hnext, ?_⟩
    cases haborts : aborts c.handler input with
    | true =>
      have hpc := (pc_of_aborts haborts).1
      exact .inl ⟨rfl, (Handler.next_of_aborting hpc hnext).2, rfl⟩
    | false => exact .inr ⟨rfl, rfl⟩

theorem abortsLast_suspendTask (hlast : AbortsLast c) (h : c.suspendTask = some c') :
    AbortsLast c' := by
  have hcancel : c.aborted = true → AbortsLast c.cancel := by
    intro haborted
    exact ⟨fun _ => ⟨hlast.aborted haborted, rfl⟩, hlast.aborted⟩
  unfold suspendTask at h
  split at h
  . obtain rfl := Option.some.inj h
    split
    . next haborted => exact hcancel haborted
    . exact ⟨by simp, hlast.aborted⟩
  . obtain rfl := Option.some.inj h
    split
    . next haborted => exact hcancel haborted
    . exact ⟨by simp, hlast.aborted⟩
  . contradiction

theorem abortsLast_next {a : Action} (hlast : AbortsLast c) (h : c.next fromStr tx a = some c') :
    AbortsLast c' := by
  cases a with
  | handle input =>
    obtain ⟨p, hnext, ⟨-, rfl, rfl⟩ | ⟨-, rfl⟩⟩ := handle_cases h
    . have hreturned : (({ c with handler := c.handler.goto .returned }.enqueue []).abort).handler.pc
          = .returned := by simp
      refine ⟨fun hgone => ⟨hreturned, ?_⟩, fun _ => hreturned⟩
      unfold abort at hgone ⊢
      split at hgone
      . next hrunning =>
        dsimp only at hgone
        rw [hgone] at hrunning
        contradiction
      . next hwaiting =>
        rw [if_neg hwaiting]
        rfl
    . -- the handler was not done, so the task has not been aborted
      have hpc : c.handler.pc ≠ .returned := by
        intro hpc
        rw [Handler.next_of_returned hpc] at hnext
        contradiction
      constructor
      . intro hgone
        rw [writeTask_enqueue] at hgone
        exact absurd (hlast.gone hgone).1 hpc
      . intro haborted
        rw [aborted_enqueue] at haborted
        exact absurd (hlast.aborted haborted) hpc
  | push message =>
    obtain rfl := Option.some.inj h
    constructor
    . intro hgone
      rw [writeTask_enqueue] at hgone
      unfold enqueue
      rw [if_pos hgone]
      exact hlast.gone hgone
    . simp only [aborted_enqueue, handler_enqueue]
      exact hlast.aborted
  | poll =>
    simp only [next] at h
    split at h
    . obtain rfl := Option.some.inj h
      exact ⟨by simp, hlast.aborted⟩
    . obtain rfl := Option.some.inj h
      exact ⟨by simp, hlast.aborted⟩
    . contradiction
  | recv =>
    simp only [next] at h
    split at h
    . obtain rfl := Option.some.inj h
      exact ⟨by simp, hlast.aborted⟩
    . contradiction
  | write =>
    simp only [next] at h
    split at h
    . obtain rfl := Option.some.inj h
      exact ⟨by simp, hlast.aborted⟩
    . contradiction
  | suspend => exact abortsLast_suspendTask hlast h

theorem unwritten_abort (hdrained : c.writeTask.isRunning = false → c.unwritten = []) :
    c.abort.unwritten = c.unwritten := by
  unfold abort
  split
  . rfl
  . next hwaiting =>
    rw [hdrained (Bool.eq_false_iff.mpr hwaiting)]
    rfl

theorem unwritten_suspendTask (h : c.suspendTask = some c')
    (hdrained : c.aborted = true → c.unwritten = [])
    : c'.unwritten = c.unwritten ∧ c'.written = c.written ∧ c'.handler = c.handler := by
  unfold suspendTask at h
  split at h
  . next htask =>
    obtain rfl := Option.some.inj h
    split
    . next haborted =>
      rw [hdrained haborted]
      exact ⟨rfl, rfl, rfl⟩
    . simp [unwritten, WriteTask.held, htask]
  . next htask =>
    obtain rfl := Option.some.inj h
    split
    . next haborted =>
      rw [hdrained haborted]
      exact ⟨rfl, rfl, rfl⟩
    . simp [unwritten, WriteTask.held, htask]
  . contradiction

theorem explains_handle {e : String} {input : Handler.Input} (hlast : AbortsLast c)
    (hexplains : Explains e c) (h : c.handle fromStr tx input = some c')
    (hdrained : cancels c (.handle input) = true → c.unwritten = []) : Explains e c' := by
  obtain ⟨p, hnext, hcases⟩ := handle_cases h
  have hgone : c.writeTask ≠ .gone := by
    intro hgone
    rw [Handler.next_of_returned (hlast.gone hgone).1] at hnext
    contradiction
  rcases hexplains with hpc | ⟨hpc | hpc, hmem⟩
  . obtain ⟨rfl, rfl⟩ := Handler.next_of_rejecting hpc hnext
    rcases hcases with ⟨haborts, -⟩ | ⟨-, rfl⟩
    . rw [(pc_of_aborts haborts).1] at hpc
      contradiction
    . refine .inr ⟨.inl (by simp), ?_⟩
      rw [unwritten_enqueue, if_neg hgone]
      simp
  . obtain ⟨rfl, rfl⟩ := Handler.next_of_aborting hpc hnext
    rcases hcases with ⟨haborts, -, rfl⟩ | ⟨haborts, -⟩
    . refine .inr ⟨.inr (by simp), ?_⟩
      have hunwritten : ({ c with handler := c.handler.goto .returned }.enqueue []).unwritten
          = c.unwritten := by
        rw [unwritten_enqueue, if_neg hgone, List.append_nil]
        rfl
      rw [written_abort, unwritten_abort]
      . rw [hunwritten, written_enqueue]
        exact hmem
      . intro hwaiting
        rw [writeTask_enqueue] at hwaiting
        rw [hunwritten]
        apply hdrained
        simp [cancels, haborts, hwaiting]
    . simp [aborts, hpc] at haborts
  . rw [Handler.next_of_returned hpc] at hnext
    contradiction

theorem explains_next {e : String} {a : Action} (hlast : AbortsLast c) (hexplains : Explains e c)
    (h : c.next fromStr tx a = some c') (hdrained : cancels c a = true → c.unwritten = []) :
    Explains e c' := by
  -- apart from the handler's steps, nothing is lost and the handler stays where it is
  have hkeep : c'.handler = c.handler →
      (.error e ∈ c.written ++ c.unwritten → .error e ∈ c'.written ++ c'.unwritten) →
      Explains e c' := by
    intro hhandler hmem
    unfold Explains
    rw [hhandler]
    exact hexplains.imp_right fun h => ⟨h.1, hmem h.2⟩
  cases a with
  | handle input => exact explains_handle hlast hexplains h hdrained
  | push message =>
    obtain rfl := Option.some.inj h
    apply hkeep
    . rw [handler_enqueue]
    . rw [written_enqueue, unwritten_enqueue]
      intro hmem
      split
      . exact hmem
      . rw [← List.append_assoc]
        exact List.mem_append_left _ hmem
  | poll =>
    simp only [next] at h
    split at h
    . next htask =>
      obtain rfl := Option.some.inj h
      apply hkeep rfl
      simp [unwritten, WriteTask.held, htask]
    . next htask =>
      obtain rfl := Option.some.inj h
      apply hkeep rfl
      simp [unwritten, WriteTask.held, htask]
    . contradiction
  | recv =>
    simp only [next] at h
    split at h
    . next htask hchannel =>
      obtain rfl := Option.some.inj h
      apply hkeep rfl
      simp [unwritten, WriteTask.held, htask, hchannel]
    . contradiction
  | write =>
    simp only [next] at h
    split at h
    . next htask =>
      obtain rfl := Option.some.inj h
      apply hkeep rfl
      simp [unwritten, WriteTask.held, htask]
    . contradiction
  | suspend =>
    obtain ⟨hunwritten, hwritten, hhandler⟩ := unwritten_suspendTask h hdrained
    apply hkeep hhandler
    rw [hunwritten, hwritten]
    intro hmem
    exact hmem

theorem explains_run {clientIp : String} {now : Nat} {tr : List (Transition Connection Action)}
    (hrun : (machine fromStr tx clientIp now).Run tr c) (hdrained : ∀ t ∈ tr, CancelsDrained t)
    (e : String)
    : AbortsLast c ∧ ∀ t ∈ tr, t.target.handler.pc = .rejecting e → Explains e c := by
  induction hrun with
  | init hinit =>
    obtain rfl : _ = start clientIp now := hinit
    exact ⟨⟨by simp [start], by simp [start]⟩, by simp⟩
  | step _ hstep ih =>
    rw [List.forall_mem_append, List.forall_mem_singleton] at hdrained ⊢
    obtain ⟨hlast, hexplains⟩ := ih hdrained.1
    refine ⟨abortsLast_next hlast hstep, ?_, .inl⟩
    intro t ht hrefused
    exact explains_next hlast (hexplains t ht hrefused) hstep hdrained.2

theorem refusal_explained {clientIp : String} {now : Nat} {tr : List (Transition Connection Action)}
    (hrun : (machine fromStr tx clientIp now).Run tr c) (hdrained : ∀ t ∈ tr, CancelsDrained t)
    {e : String} (hrefused : ∃ t ∈ tr, t.target.handler.pc = .rejecting e)
    (hreturned : c.handler.pc = .returned) (hgone : c.writeTask = .gone) : .error e ∈ c.written := by
  obtain ⟨t, ht, hpc⟩ := hrefused
  obtain ⟨hlast, hexplains⟩ := explains_run hrun hdrained e
  have hunwritten : c.unwritten = [] := by
    unfold unwritten
    rw [hgone, (hlast.gone hgone).2]
    rfl
  rcases hexplains t ht hpc with hrejecting | ⟨-, hmem⟩
  . rw [hreturned] at hrejecting
    contradiction
  . rw [hunwritten, List.append_nil] at hmem
    exact hmem

def registers : String → Except String ClientMessage :=
  fun _ => .ok (.register "B7H2 MN" "laptop" .laptop none none)

def invalidPeerCode : String :=
  "invalid_peer_code: Peer code must contain only letters and digits (a-z, A-Z, 0-9). "
    ++ "Hyphens are stripped automatically."

def refusal (beforeAbort : List Action) : List Action :=
  [.handle (.received (.message (.text "")) 0), .handle .proceed] ++ beforeAbort
    ++ [.handle .proceed]

def refused (c : Connection) : Bool :=
  c.handler.pc = .returned && c.writeTask = .gone

theorem refusal_explained_when_drained
    : ∃ tr c, (machine registers 0 "local" 0).Run tr c ∧ refused c
        ∧ .error invalidPeerCode ∈ c.written := by
  let actions := refusal [.poll, .recv, .write, .suspend]
  let tr := Machine.trace (next registers 0) (start "local" 0) actions
  have hexec : (Machine.exec (next registers 0) (start "local" 0) actions).any refused = true := by
    decide
  obtain ⟨c, hc, hrefused⟩ := (Option.any_eq_true _ _).mp hexec
  have hended : c.handler.pc = .returned ∧ c.writeTask = .gone := by simpa [refused] using hrefused
  have hdrained : ∀ t ∈ tr, CancelsDrained t := by decide
  have hrejected : ∃ t ∈ tr, t.target.handler.pc = .rejecting invalidPeerCode := by decide
  refine ⟨tr, c, Machine.run_of_exec hc, hrefused, ?_⟩
  exact refusal_explained (Machine.run_of_exec hc) hdrained hrejected hended.1 hended.2

theorem refusal_lost
    : ∃ tr c, (machine registers 0 "local" 0).Run tr c
        ∧ (∃ t ∈ tr, t.target.handler.pc = .rejecting invalidPeerCode)
        ∧ c.handler.pc = .returned ∧ c.writeTask = .gone ∧ c.written = [] := by
  let actions := refusal []
  let tr := Machine.trace (next registers 0) (start "local" 0) actions
  have hexec : (Machine.exec (next registers 0) (start "local" 0) actions).any
      (fun c => refused c && c.written.isEmpty) = true := by decide
  obtain ⟨c, hc, hlost⟩ := (Option.any_eq_true _ _).mp hexec
  refine ⟨tr, c, Machine.run_of_exec hc, by decide, ?_⟩
  simpa [refused, and_assoc] using hlost

end Connection

end Rendezvous

end LocalBolt
