import LocalBolt.App.Lemmas.FileQueue
import LocalBolt.Machine.Flow
import LocalBolt.Machine.Origin
import LocalBolt.Session.Lemmas.TransferState

/-!
This module contains in what order the files of the queue are handed to the daemon, and what lies between
two of them.
-/

namespace LocalBolt

namespace IpcManager

/-! ### What ends a transfer -/

theorem statusUpdate_keeps {m m' : IpcManager} {connectedPeers : Int}
    (h : m.statusUpdate connectedPeers = some m')
    : m'.transfer = m.transfer ∨ m'.sessionPhase ≠ .connected := by
  unfold statusUpdate at h
  split at h
  . cases h
  . dsimp only at h
    split at h
    . obtain rfl := Option.some.inj h
      right
      simp [disconnectSession]
    . obtain rfl := Option.some.inj h
      exact .inl rfl

theorem handleEvent_keeps {m m' : IpcManager} {event : DaemonEvent} {now : Date}
    (h : m.handleEvent event now = some m')
    : m'.transfer = m.transfer.after (.event event now) ∨ m'.sessionPhase ≠ .connected := by
  have hstep : m.step (.event event now) = some m' := h
  cases event with
  | statusUpdate connectedPeers => exact statusUpdate_keeps h
  | sessionEnded reason | sessionError reason | bridgeDisconnected =>
    obtain rfl := Option.some.inj h
    right
    simp [disconnectSession, stop, resetSession]
  | transferStarted | transferComplete | transferError | transferPaused =>
    exact .inl (step_raisesTransfer hstep rfl).1
  | sessionConnected key =>
    obtain rfl := Option.some.inj h
    exact .inl (transfer_sessionConnected m key)
  | sessionSas sas key =>
    obtain rfl := Option.some.inj h
    exact .inl (transfer_sessionSas m sas key now)
  | transferProgress progress transferId =>
    simp only [handleEvent, transferProgress, Option.some.injEq] at h
    subst h
    left
    simp only [transfer, Transfer.after, Transfer.progressed]
    split <;> simp_all
  | _ =>
    obtain rfl := Option.some.inj h
    exact .inl rfl

/--
A move leaves the transfer to what it says about it, or there is no session connected any more.
-/
theorem step_keeps {m m' : IpcManager} {move : Move} (h : m.step move = some m')
    : m'.transfer = m.transfer.after move ∨ m'.sessionPhase ≠ .connected := by
  cases move with
  | event event now => exact handleEvent_keeps h
  | resetSession | disconnectSession =>
    obtain rfl := Option.some.inj h
    right
    simp [resetSession, disconnectSession]
  | dismissDisconnect =>
    obtain rfl := Option.some.inj h
    unfold dismissDisconnect
    split
    . right
      simp [resetSession]
    . exact .inl rfl
  | beginRequest peer =>
    obtain rfl := Option.some.inj h
    by_cases hfresh : m.sessionPhase.canStartFreshConnection = true
    . rw [beginRequest_of_fresh hfresh]
      right
      simp
    . rw [beginRequest_of_not hfresh]
      exact .inl rfl
  | receiveRequest =>
    obtain rfl := Option.some.inj h
    by_cases hfresh : m.sessionPhase.canStartFreshConnection = true
    . rw [receiveRequest_of_fresh hfresh]
      right
      simp
    . rw [receiveRequest_of_not hfresh]
      exact .inl rfl
  | beginConnecting =>
    obtain rfl := Option.some.inj h
    by_cases hasking : m.sessionPhase = .requesting ∨ m.sessionPhase = .incomingRequest
    . rw [beginConnecting_of hasking]
      exact .inl rfl
    . rw [beginConnecting_of_not hasking]
      exact .inl rfl
  | accept peerCode deviceName deviceType =>
    obtain rfl := Option.some.inj h
    by_cases hasking : m.sessionPhase = .requesting ∨ m.sessionPhase = .incomingRequest
    . rw [accept_of hasking]
      exact .inl rfl
    . rw [accept_of_not hasking]
      exact .inl rfl
  | wtSessionActive active sas =>
    obtain rfl := Option.some.inj h
    cases active with
    | true =>
      by_cases hphase : m.sessionPhase = .connecting
      . rw [onWtSessionActive_connecting hphase]
        left
        rw [transfer_applyWtVerificationCode, transfer_resolveWtPeer]
        rfl
      . rw [onWtSessionActive_of_not hphase]
        exact .inl rfl
    | false =>
      by_cases hphase : m.sessionPhase = .connected
      . rw [onWtSessionActive_connected hphase]
        right
        simp [disconnectSession]
      . rw [onWtSessionActive_false_of_not hphase]
        exact .inl rfl
  | start file connects =>
    obtain rfl := Option.some.inj h
    exact .inl (transfer_start m file connects)
  | poll connected =>
    obtain rfl := Option.some.inj h
    exact .inl (transfer_poll m connected)
  | sendPairingDecision requestId decision =>
    obtain rfl := Option.some.inj h
    exact .inl (transfer_sendPairingDecision m requestId decision)
  | wtSessionSAS sas =>
    obtain rfl := Option.some.inj h
    exact .inl (transfer_applyWtVerificationCode m sas)
  | _ =>
    obtain rfl := Option.some.inj h
    exact .inl rfl

end IpcManager

def Transfer.busy (t : Transfer) : Bool :=
  match t.phase with
  | .sending _ _ _ | .receiving _ _ _ => true
  | _ => false

/--
The daemon reports that a transfer is over.
-/
def Move.endsTransfer : Move → Bool
  | .event (.transferComplete _ _) _ => true
  | .event (.transferError _ _) _ => true
  | _ => false

theorem Transfer.busy_after {t : Transfer} {move : Move} (h : t.busy = true)
    (hclear : move ≠ .clearTransfer) (hends : move.endsTransfer = false) : (t.after move).busy = true := by
  cases move with
  | clearTransfer => contradiction
  | event event now =>
    cases event with
    | transferStarted fileName transferId direction fileSizeBytes =>
      by_cases hdirection : direction = "receive"
      . simp [after, started, busy, hdirection]
      . simp [after, started, busy, hdirection]
    | transferProgress progress transferId =>
      simp only [after, progressed]
      split
      . rfl
      . rfl
      . exact h
    | transferComplete | transferError => simp [Move.endsTransfer] at hends
    | _ => exact h
  | sendFile fileName => rfl
  | _ => exact h

namespace App

/-! ### One step of the queue -/

/--
The files that an action puts into the queue.
-/
def queuedBy (s : App) : Action → List FileURL
  | .pickFiles urls => urls.filter fun url => url ∉ s.fileQueue
  | .dropFile url => if url ∈ s.fileQueue then [] else [url]
  | _ => []

def filesOf (commands : List Command) : List FileURL :=
  commands.filterMap fun
    | .sendFile path => some ⟨path⟩
    | _ => none

theorem mem_filesOf {commands : List Command} {url : FileURL} :
    url ∈ filesOf commands ↔ .sendFile url.path ∈ commands := by
  unfold filesOf
  rw [List.mem_filterMap]
  constructor
  . rintro ⟨command, hcommand, hurl⟩
    split at hurl
    . obtain rfl := Option.some.inj hurl
      exact hcommand
    . cases hurl
  . exact fun hmem => ⟨_, hmem, rfl⟩

theorem filesOf_head (s : App)
    : filesOf (s.fileQueue.head?.map fun url => Command.sendFile url.path).toList
        =
      s.fileQueue.head?.toList := by
  cases s.fileQueue <;> rfl

theorem fileQueue_handleSignal (s : App) (signal : IncomingSignal) :
    (s.handleSignal signal).1.fileQueue = s.fileQueue := by
  unfold handleSignal
  split
  . unfold connectionRequest
    dsimp only
    split <;> rfl
  . unfold connectionAccepted
    dsimp only
    split
    . split <;> rfl
    . rfl
  . rfl
  . rfl

theorem fileQueue_sendFirstFile (s : App) : s.sendFirstFile.1.fileQueue = s.fileQueue.tail := by
  unfold sendFirstFile
  split
  . next hqueue => rw [hqueue]; rfl
  . next hqueue => rw [hqueue]; rfl

theorem fileQueue_sendNextOrClear (s : App) : s.sendNextOrClear.1.fileQueue = s.fileQueue.tail := by
  unfold sendNextOrClear
  split
  . next hqueue => rw [List.isEmpty_iff.mp hqueue]; rfl
  . exact fileQueue_sendFirstFile s

/--
Files are put at the end of the queue, and only what is sent is taken from its head.
-/
theorem onMain_queue {s : App} {action : Action} {p : App × List Command} (h : s.onMain action = some p)
    : (filesOf p.2 ++ p.1.fileQueue).Sublist (s.fileQueue ++ s.queuedBy action) := by
  have hnone : (∀ path, .sendFile path ∉ p.2) → filesOf p.2 = [] := by
    intro hnot
    exact List.eq_nil_iff_forall_not_mem.mpr fun url hurl => hnot url.path (mem_filesOf.mp hurl)
  by_cases hsends : action = .sendFirstFile ∨ action = .sendNextOrClear
  . rcases hsends with rfl | rfl
    . obtain rfl := Option.some.inj h
      rw [sendFirstFile_commands, filesOf_head, fileQueue_sendFirstFile, ← List.take_one, ← List.drop_one,
        List.take_append_drop]
      exact List.sublist_append_left _ _
    . obtain rfl := Option.some.inj h
      rw [sendNextOrClear_commands, filesOf_head, fileQueue_sendNextOrClear, ← List.take_one, ← List.drop_one,
        List.take_append_drop]
      exact List.sublist_append_left _ _
  . rw [hnone fun path hpath => hsends (onMain_issued h _ hpath).1, List.nil_append]
    have hkeeps : p.1.fileQueue = s.fileQueue → p.1.fileQueue.Sublist (s.fileQueue ++ s.queuedBy action) := by
      intro hsame
      rw [hsame]
      exact List.sublist_append_left _ _
    cases action with
    | ipcCallback | ipcLine => simp [onMain] at h
    | sendFirstFile | sendNextOrClear => simp at hsends
    | daemonStart started =>
      obtain rfl := Option.some.inj h
      apply hkeeps
      simp only [autoStart]
      split <;> rfl
    | incomingSignal signal =>
      obtain rfl := Option.some.inj h
      exact hkeeps (fileQueue_handleSignal s signal)
    | pickFiles urls =>
      obtain rfl := Option.some.inj h
      exact .refl _
    | dropFile url =>
      obtain rfl := Option.some.inj h
      simp only [dropFile, queuedBy]
      split
      . simp
      . simp
    | removeFile index =>
      simp only [onMain] at h
      split at h
      . obtain rfl := Option.some.inj h
        exact (List.eraseIdx_sublist _ _).trans (List.sublist_append_left _ _)
      . cases h
    | clearQueue | dismissFailed | cancelTransfer =>
      obtain rfl := Option.some.inj h
      exact List.nil_sublist _
    | ipcPoll connected =>
      obtain rfl := Option.some.inj h
      apply hkeeps
      unfold ipcPoll
      split <;> rfl
    | onConnectionDeclined =>
      simp only [onMain] at h
      split at h
      . obtain rfl := Option.some.inj h
        apply hkeeps
        unfold onConnectionDeclined
        dsimp only
        split <;> rfl
      . cases h
    | onWtSessionActive | onWtSessionSAS =>
      simp only [onMain] at h
      split at h
      . obtain rfl := Option.some.inj h
        exact hkeeps rfl
      . cases h
    | initiateConnection peer host =>
      obtain rfl := Option.some.inj h
      apply hkeeps
      unfold initiateConnection
      dsimp only
      split <;> rfl
    | acceptRequest request host =>
      obtain rfl := Option.some.inj h
      apply hkeeps
      unfold acceptRequest
      dsimp only
      split <;> rfl
    | _ =>
      obtain rfl := Option.some.inj h
      exact hkeeps rfl

theorem step_queue {s : App} {action : Action} {p : App × List Command} (h : s.step action = some p)
    : (filesOf p.2 ++ p.1.fileQueue).Sublist (s.fileQueue ++ s.queuedBy action) := by
  unfold step at h
  split at h
  . obtain rfl := Option.some.inj h
    exact List.sublist_append_left _ _
  . obtain ⟨s', hs', rfl⟩ := Option.map_eq_some_iff.mp h
    have hqueue : s'.fileQueue = s.fileQueue := by
      unfold ipcLine at hs'
      split at hs'
      . cases hs'
      . obtain rfl := Option.some.inj hs'
        rfl
      . split at hs'
        . split at hs'
          . obtain rfl := Option.some.inj hs'
            rfl
          . obtain ⟨ipc, -, rfl⟩ := Option.map_eq_some_iff.mp hs'
            rfl
        . obtain rfl := Option.some.inj hs'
          rfl
    show s'.fileQueue.Sublist _
    rw [hqueue]
    exact List.sublist_append_left _ _
  . split at h
    . exact onMain_queue h
    . cases h

/-! ### What the screen offers -/

theorem transferPhase_of_area {s : App} {phase : TransferPhase} (h : s.transferArea = some phase) :
    s.ipc.transferPhase = phase := by
  unfold transferArea at h
  split at h
  . split at h
    . exact Option.some.inj h
    . cases h
  . cases h

/--
Neither Send nor Done nor Dismiss is on the screen during a transfer.
-/
theorem not_busy_of_offers {s : App} {action : Action} (h : s.offers action = true)
    (haction : action = .sendFirstFile ∨ action = .sendNextOrClear ∨ action = .dismissFailed)
    : s.ipc.transfer.busy = false := by
  have hphase : ∀ phase, s.transferArea = some phase → s.ipc.transfer.phase = phase := by
    intro phase harea
    exact transferPhase_of_area harea
  unfold Transfer.busy
  rcases haction with rfl | rfl | rfl
  . simp only [offers, Bool.and_eq_true, decide_eq_true_eq] at h
    rw [hphase _ h.1]
  . simp only [offers] at h
    split at h
    . next harea => rw [hphase _ harea]
    . cases h
  . simp only [offers] at h
    split at h
    . next harea => rw [hphase _ harea]
    . cases h

theorem action_of_clearTransfer {s : App} {action : Action} (h : s.move action = .clearTransfer)
    : action = .sendFirstFile ∨ action = .sendNextOrClear ∨ action = .dismissFailed := by
  cases action with
  | sendFirstFile | sendNextOrClear | dismissFailed => simp
  | incomingSignal signal =>
    simp only [move, signalMove] at h
    split at h <;> cases h
  | ipcLine now =>
    simp only [move, lineMove] at h
    split at h
    . split at h
      . split at h <;> cases h
      . cases h
    . cases h
  | onConnectionDeclined =>
    simp only [move] at h
    split at h <;> cases h
  | _ => cases h

/-! ### Runs -/

variable {peerCode : String} {daemonBinaryPath : Option String} {tr : List (Transition App Action)} {s s' : App}

def queued (t : Transition App Action) : List FileURL := t.source.queuedBy t.action

def handedOver (t : Transition App Action) : List FileURL := filesOf (t.source.commands t.action)

/--
The daemon reports that a transfer is over, or the session is not connected any more.
-/
def Over (t : Transition App Action) : Prop :=
  (t.source.move t.action).endsTransfer = true ∨ t.target.ipc.sessionPhase ≠ .connected

theorem of_renderedNext {action : Action} (h : s.renderedNext action = some s') :
    s.offers action = true ∧ s.next action = some s' := by
  unfold renderedNext at h
  split at h
  . next hoffers => exact ⟨hoffers, h⟩
  . cases h

theorem queue_next {action : Action} (h : s.next action = some s')
    : (handedOver ⟨s, action, s'⟩ ++ s'.fileQueue).Sublist (s.fileQueue ++ queued ⟨s, action, s'⟩) := by
  obtain ⟨p, hp, rfl⟩ := Option.map_eq_some_iff.mp h
  have hcommands : s.commands action = p.2 := by
    unfold commands
    rw [hp]
    rfl
  unfold handedOver
  rw [hcommands]
  exact step_queue hp

/--
What hands a file over is a button on the screen, which is not there during a transfer, and the app takes
it that the transfer has begun.
-/
theorem busy_of_handedOver {action : Action} (h : s.renderedNext action = some s')
    (hfiles : handedOver ⟨s, action, s'⟩ ≠ [])
    : s.ipc.transfer.busy = false ∧ s'.ipc.transfer.busy = true := by
  obtain ⟨hoffers, hnext⟩ := of_renderedNext h
  obtain ⟨url, hurl⟩ := List.exists_mem_of_ne_nil _ hfiles
  obtain ⟨haction, hhead⟩ := commands_sendFile (mem_filesOf.mp hurl)
  constructor
  . rcases haction with rfl | rfl
    . exact not_busy_of_offers hoffers (.inl rfl)
    . exact not_busy_of_offers hoffers (.inr (.inl rfl))
  . have hhead : s.fileQueue.head? = some url := hhead
    obtain ⟨files, hqueue⟩ := List.head?_eq_some_iff.mp hhead
    have hmove : s.move action = .sendFile url.lastPathComponent := by
      rcases haction with rfl | rfl
      . simp [move, queueMove, hqueue]
      . simp [move, queueMove, hqueue]
    have hstep := next_ipc hnext
    rw [hmove] at hstep
    rw [(IpcManager.step_raisesTransfer hstep rfl).1]
    rfl

theorem over_of_not_busy {action : Action} (h : s.renderedNext action = some s')
    (hbusy : s.ipc.transfer.busy = true) (hnot : s'.ipc.transfer.busy = false)
    : Over ⟨s, action, s'⟩ := by
  obtain ⟨hoffers, hnext⟩ := of_renderedNext h
  rcases IpcManager.step_keeps (next_ipc hnext) with hafter | hphase
  . left
    by_contra hends
    have hclear : s.move action ≠ .clearTransfer := by
      intro hclear
      rw [not_busy_of_offers hoffers (action_of_clearTransfer hclear)] at hbusy
      cases hbusy
    have hstill := Transfer.busy_after hbusy hclear (Bool.not_eq_true _ ▸ hends)
    rw [← hafter, hnot] at hstill
    cases hstill
  . exact .inr hphase

/--
In every run of the app with the buttons on its screen, the files are handed to the daemon in the order in
which they were put into the queue, each at most as often as it was put there, and one at a time: between two
of them, a transfer that was going on has ended, as the daemon reported or with its session.
-/
theorem files_handed_over_in_turn (h : (rendered peerCode daemonBinaryPath).Run tr s)
    : (tr.flatMap handedOver ++ s.fileQueue).Sublist (tr.flatMap queued)
        ∧ ∀ before t between t' after, tr = before ++ t :: (between ++ t' :: after) →
            handedOver t ≠ [] → handedOver t' ≠ [] →
            ∃ u ∈ between, u.source.ipc.transfer.busy = true ∧ Over u := by
  constructor
  . refine Machine.Run.conserves_sublist (fun s => s.fileQueue) ?_ ?_ h
    . rintro _ rfl
      rfl
    . intro s action s' _ hstep
      exact queue_next (of_renderedNext hstep).2
  . rintro before t between t' after rfl ht ht'
    have hstep : (rendered peerCode daemonBinaryPath).step t.source t.action t.target :=
      h.step_of_mem (by simp)
    have hat : Machine.At (before ++ t :: (between ++ t' :: after)) (before ++ t :: between) t' := by
      refine ⟨after, ?_⟩
      simp
    obtain ⟨hrun, hstep'⟩ := h.at hat
    have hbusy := (busy_of_handedOver hstep ht).2
    have hnot : ¬ t'.source.ipc.transfer.busy = true := by
      rw [(busy_of_handedOver hstep' ht').1]
      exact Bool.false_ne_true
    obtain ⟨u, hu, hnext, hsource, htarget⟩ :=
      hrun.falsified (fun s => s.ipc.transfer.busy = true) hbusy hnot
    exact ⟨u, hu, hsource, over_of_not_busy hnext hsource (Bool.not_eq_true _ ▸ htarget)⟩

theorem two_files_handed_over_in_turn
    : ∃ tr s, (rendered "A3F9KQ" (some "bolt-daemon")).Run tr s
        ∧ tr.flatMap handedOver = [⟨"/notes.txt"⟩, ⟨"/photo.jpg"⟩]
        ∧ (tr.flatMap handedOver ++ s.fileQueue).Sublist (tr.flatMap queued) := by
  have hexec : (Machine.exec renderedNext (init "A3F9KQ" (some "bolt-daemon")) twoFilesSent).isSome = true := by
    decide
  have hfiles : (Machine.trace renderedNext (init "A3F9KQ" (some "bolt-daemon")) twoFilesSent).flatMap handedOver
      = [⟨"/notes.txt"⟩, ⟨"/photo.jpg"⟩] := by decide
  obtain ⟨s, hs⟩ := Option.isSome_iff_exists.mp hexec
  have hrun := Machine.run_of_exec hs
  exact ⟨_, s, hrun, hfiles, (files_handed_over_in_turn hrun).1⟩

end App

end LocalBolt
