import LocalBolt.App.Lemmas.DialOut

/-!
This module contains the file queue: which actions pass a file to the daemon, and whether the user
has pressed Send for it.
-/

namespace LocalBolt

namespace App

theorem commands_sendFile {s : App} {action : Action} {path : String}
    (h : .sendFile path ∈ s.commands action) :
    (action = .sendFirstFile ∨ action = .sendNextOrClear)
      ∧ s.fileQueue.head? = some ⟨path⟩ := by
  obtain ⟨p, hp, hmem⟩ := onMain_of_mem_commands h
  exact onMain_issued hp _ hmem

theorem next_sendNextOrClear {s s' : App} (h : s.next .sendNextOrClear = some s') :
    s.commands .sendNextOrClear
      = (s.fileQueue.head?.map fun url => Command.sendFile url.path).toList := by
  obtain ⟨p, hp, -⟩ := Option.map_eq_some_iff.mp h
  unfold commands
  rw [hp]
  simp only [step] at hp
  split at hp
  . obtain rfl := Option.some.inj hp
    exact sendNextOrClear_commands s
  . simp at hp

/-! ### Presses of Send -/

/--
The files that were in the queue when the user pressed Send, since a session was last connected or
last ended.
-/
def sendPresses : Observer App Action (List FileURL) where
  start := []
  next files s action s' :=
    let files :=
      if (s.ipc.sessionPhase = .connected) = (s'.ipc.sessionPhase = .connected) then files else []
    match action with
    | .sendFirstFile => files ++ s.fileQueue
    | _ => files

def SentByChoice (t : Transition (App × List FileURL) Action) : Prop :=
  ∀ path, .sendFile path ∈ t.source.1.commands t.action → ⟨path⟩ ∈ t.target.2

def DoneByChoice (t : Transition (App × List FileURL) Action) : Prop :=
  t.action = .sendNextOrClear → ∀ url ∈ t.source.1.fileQueue.head?, url ∈ t.source.2

theorem sendNextOrClear_sessionPhase {s s' : App} (h : s.next .sendNextOrClear = some s') :
    s'.ipc.sessionPhase = s.ipc.sessionPhase := by
  have hipc := next_ipc h
  simp only [move, queueMove] at hipc
  split at hipc <;>
    . simp only [IpcManager.step, IpcManager.clearTransfer, Option.some.injEq] at hipc
      rw [← hipc]

theorem sentByChoice_iff {s s' : App} {files files' : List FileURL} {action : Action}
    (h : s.next action = some s') (hfiles : files' = sendPresses.next files s action s') :
    SentByChoice ⟨(s, files), action, (s', files')⟩
      ↔ DoneByChoice ⟨(s, files), action, (s', files')⟩ := by
  unfold SentByChoice DoneByChoice
  dsimp only
  constructor
  . rintro hsent rfl url hurl
    have hmem : .sendFile url.path ∈ s.commands .sendNextOrClear := by
      rw [next_sendNextOrClear h, Option.mem_def.mp hurl]
      simp
    have := hsent url.path hmem
    simpa [hfiles, sendPresses, sendNextOrClear_sessionPhase h] using this
  . intro hdone path hpath
    obtain ⟨haction, hhead⟩ := commands_sendFile hpath
    rcases haction with rfl | rfl
    . have hqueued : ⟨path⟩ ∈ s.fileQueue := List.mem_of_head? hhead
      rw [hfiles]
      exact List.mem_append_right _ hqueued
    . have := hdone rfl ⟨path⟩ hhead
      simpa [hfiles, sendPresses, sendNextOrClear_sessionPhase h] using this

theorem sent_by_choice_iff (peerCode : String) (daemonBinaryPath : Option String)
    {tr : List (Transition (App × List FileURL) Action)} {q : App × List FileURL}
    (h : ((machine peerCode daemonBinaryPath).observed sendPresses).Run tr q)
    : (∀ t ∈ tr, SentByChoice t)
        ↔
      ∀ t ∈ tr, DoneByChoice t := by
  refine Machine.Run.forall_iff ?_ h
  rintro ⟨s, files⟩ action ⟨s', files'⟩ - ⟨hnext, hfiles⟩
  exact sentByChoice_iff hnext hfiles

def transferEvent (direction : String) : String × Json :=
  ("daemon://transfer-started",
    .obj [("file_name", .str "notes.txt"), ("transfer_id", .str "t1"), ("direction", .str direction)])

def completeEvent : String × Json :=
  ("daemon://transfer-complete", .obj [("file_name", .str "notes.txt")])

def connectedToBob : List Action :=
  let bob : DiscoveredPeer := ⟨"B7H2MN", "Bob", "laptop", none, none⟩
  launch [bob] ++ .initiateConnection bob ⟨"192.168.1.5", none⟩
    :: deliver [sessionConnectedEvent, sessionSasEvent "402913" "a2V5MQ=="] ⟨0⟩ ++ [.markVerified]

def twoFilesSent : List Action :=
  connectedToBob
    ++ [.pickFiles [⟨"/notes.txt"⟩, ⟨"/photo.jpg"⟩], .sendFirstFile]
    ++ deliver [transferEvent "send", completeEvent] ⟨1⟩ ++ [.sendNextOrClear]

theorem both_files_sent_by_choice
    : let tr := Machine.trace (Machine.observedFun sendPresses next)
        (init "A3F9KQ" (some "bolt-daemon"), []) twoFilesSent
      (∃ t ∈ tr, t.source.1.commands t.action = [.sendFile "/photo.jpg"])
        ∧ ∀ t ∈ tr, SentByChoice t := by
  intro tr
  have hsends : tr.any (fun t => t.source.1.commands t.action = [.sendFile "/photo.jpg"]) = true := by
    decide
  have hdone : tr.all (fun t =>
      match t.action with
      | .sendNextOrClear => t.source.1.fileQueue.head?.all (fun url => url ∈ t.source.2)
      | _ => true) = true := by decide
  obtain ⟨q, h⟩ := Machine.observed_run_trace sendPresses
    (M := machine "A3F9KQ" (some "bolt-daemon")) rfl (fun _ _ _ => id) twoFilesSent
  constructor
  . obtain ⟨t, ht, hsends⟩ := List.any_eq_true.mp hsends
    exact ⟨t, ht, of_decide_eq_true hsends⟩
  . apply (sent_by_choice_iff _ _ h).mpr
    intro t ht haction url hurl
    have := List.all_eq_true.mp hdone t ht
    rw [haction] at this
    simpa [Option.mem_def.mp hurl] using this

theorem done_sends_dropped_file
    : ∃ tr q, ((rendered "A3F9KQ" (some "bolt-daemon")).observed sendPresses).Run tr q
        ∧ (∀ t ∈ tr, t.action ≠ .sendFirstFile)
        ∧ ∃ t ∈ tr, t.source.1.ipc.transferPhase = .complete "notes.txt" none
          ∧ t.source.1.commands t.action = [.sendFile "/diary.txt"] := by
  have hdrops : (Machine.trace (Machine.observedFun sendPresses renderedNext)
      (init "A3F9KQ" (some "bolt-daemon"), sendPresses.start)
      (connectedToBob ++ .dropFile ⟨"/diary.txt"⟩
        :: deliver [transferEvent "receive", completeEvent] ⟨1⟩ ++ [.sendNextOrClear])).all
      (fun t => !(t.action matches .sendFirstFile)) = true := by decide
  have hsends : (Machine.trace (Machine.observedFun sendPresses renderedNext)
      (init "A3F9KQ" (some "bolt-daemon"), sendPresses.start)
      (connectedToBob ++ .dropFile ⟨"/diary.txt"⟩
        :: deliver [transferEvent "receive", completeEvent] ⟨1⟩ ++ [.sendNextOrClear])).any
      (fun t => t.source.1.ipc.transferPhase = .complete "notes.txt" none
        ∧ t.source.1.commands t.action = [.sendFile "/diary.txt"]) = true := by decide
  obtain ⟨q, h⟩ := Machine.observed_run_trace sendPresses
    (M := rendered "A3F9KQ" (some "bolt-daemon")) rfl (fun _ _ _ => id) _
  refine ⟨_, q, h, ?_, ?_⟩
  . intro t ht haction
    have := List.all_eq_true.mp hdrops t ht
    simp [haction] at this
  . obtain ⟨t, ht, hsends⟩ := List.any_eq_true.mp hsends
    exact ⟨t, ht, of_decide_eq_true hsends⟩

end App

end LocalBolt
