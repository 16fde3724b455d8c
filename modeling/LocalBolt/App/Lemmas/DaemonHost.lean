import LocalBolt.App.Impl.DaemonHost
import LocalBolt.App.Lemmas.WtTracking

/-!
This module contains that the app has at most one daemon at a time, uses no handle that is not good, and
touches no file but the requests and the socket, in whatever order things happen.
-/

namespace LocalBolt

namespace Bridge

namespace Native

theorem deref_launched (n : Native) (binPath : String) (wsPort : UInt16) (pid : UInt32) (ptr : Nat)
    : (n.launched binPath wsPort pid).daemons.deref ptr
        =
      if ptr = n.daemons.next then some (n.newDaemon wsPort pid) else n.daemons.deref ptr := by
  apply Boxes.deref_intoRaw

theorem ask_some {γ : Type} {n : Native} {ptr : Nat} {daemon : BoltDaemon}
    (h : n.daemons.deref ptr = some daemon) (null : γ) (answer : BoltDaemon → γ)
    : n.ask (some ptr) null answer = some (answer daemon) := by
  rw [ask, h]
  rfl

theorem isAlive_eq_false {n : Native} {child : Nat} :
    n.isAlive child = false ↔ ∀ process, n.processes[child]? = some process → process.running = false := by
  rw [isAlive, Option.any_eq_false]

theorem getElem?_exited (n : Native) (child i : Nat)
    : (n.exited child).processes[i]?
        =
      n.processes[i]?.map fun process =>
        if child = i then { process with running := false } else process := by
  rw [exited, List.getElem?_modify]
  rfl

/--
What runs after a process is over did so before, and is another one.
-/
theorem running_exited {n : Native} {child i : Nat} {process : Process}
    (h : (n.exited child).processes[i]? = some process) (hrunning : process.running = true)
    : child ≠ i ∧ n.processes[i]? = some process := by
  rw [getElem?_exited] at h
  obtain ⟨process', hprocess', rfl⟩ := Option.map_eq_some_iff.mp h
  split at hrunning
  . cases hrunning
  . next hne => exact ⟨hne, by rw [if_neg hne, hprocess']⟩

end Native

end Bridge

theorem DaemonManager.poll_running {d : DaemonManager} (h : d.handle = true) (running : Bool)
    (stderr : Option String)
    : (d.poll running stderr).handle = running
    ∧ (d.poll running stderr).isRunning = running
    ∧ (d.poll running stderr).wsPort = if running then d.wsPort else 0 := by
  rw [poll, if_pos h]
  cases running with
  | true => simp [applyLifecycle_eq, h]
  | false => simp [applyLifecycle_eq]

namespace DaemonHost

open Bridge

/--
The daemon behind the handle `ptr`: its process was told to listen where the app says it does.
-/
structure Holds (s : DaemonHost) (ptr child : Nat) (process : Process) : Prop where
  daemon : ∃ daemon, s.native.daemons.deref ptr = some daemon ∧ daemon.child = some child
    ∧ daemon.pid = s.pid ∧ daemon.wsPort = s.manager.wsPort
  child : s.native.processes[child]? = some process
  pid : process.pid = s.pid
  args : process.args = daemonSpawnArgs ("0.0.0.0:" ++ toString s.manager.wsPort.toNat)
    s.native.socketPath s.native.defaultDataDir

/--
`lost` are the handles that were forgotten so far.
-/
structure Sound (id : UInt32) (dataDir : String) (s : DaemonHost) (lost : List Nat) : Prop where
  id_eq : s.native.id = id
  dataDir_eq : s.native.defaultDataDir = dataDir
  owns : s.native.daemons.Owns s.handle lost
  flag : s.manager.handle = s.handle.isSome
  timer : s.pollTimer = s.handle.isSome
  idle : s.handle = none → s.pid = 0 ∧ s.manager.wsPort = 0 ∧ s.manager.isRunning = false
  holds : ∀ ptr, s.handle = some ptr → ∃ child process, s.Holds ptr child process
  running : ∀ child process, s.native.processes[child]? = some process → process.running = true →
    ∃ ptr daemon, s.handle = some ptr ∧ s.native.daemons.deref ptr = some daemon
      ∧ daemon.child = some child
  paths : ∀ ptr daemon, s.native.daemons.deref ptr = some daemon →
    daemon.dataDir = dataDir ∧ daemon.socketPath = s.native.socketPath

variable {id : UInt32} {dataDir : String} {s s' : DaemonHost} {lost : List Nat}

theorem sound_init (daemonBinaryPath : Option String) : (init id dataDir daemonBinaryPath).Sound id dataDir [] where
  id_eq := rfl
  dataDir_eq := rfl
  owns := Boxes.owns_empty
  flag := rfl
  timer := rfl
  idle _ := ⟨rfl, rfl, rfl⟩
  holds ptr h := by cases h
  running child process h := by cases h
  paths ptr daemon h := by cases h

/-! ### One action -/

/--
The manager with the daemon it has just started.
-/
def launched (s : DaemonHost) (binPath : String) (wsPort : UInt16) (pid : UInt32) : DaemonHost where
  manager := s.manager.start (some (s.native.port wsPort))
  handle := some s.native.daemons.next
  pid
  socketPath := (cString? s.native.socketPath).getD s.socketPath
  dataDir := (cString? s.native.defaultDataDir).getD s.dataDir
  pollTimer := true
  native := s.native.launched binPath wsPort pid

theorem start_some {binPath : String} (hbin : s.manager.daemonBinaryPath = some binPath)
    (hhandle : s.handle = none) (wsPort : UInt16) (pid : UInt32)
    : s.start wsPort (some pid) = some (s.launched binPath wsPort pid) := by
  have hnew := (s.native.deref_launched binPath wsPort pid s.native.daemons.next).trans (if_pos rfl)
  simp only [start, hbin, hhandle, Native.boltDaemonStart, Boxes.intoRaw, Option.isNone_some,
    Bool.false_eq_true, if_false, Native.boltDaemonPid, Native.boltDaemonWsPort,
    Native.boltDaemonSocketPath, Native.boltDaemonDataDir, Native.ask_some hnew, Option.bind_eq_bind,
    Option.bind_some]
  rfl

theorem Sound.not_running (h : s.Sound id dataDir lost) (hhandle : s.handle = none) {child : Nat}
    {process : Process} (hprocess : s.native.processes[child]? = some process)
    : process.running = false := by
  by_contra hrunning
  obtain ⟨ptr, daemon, hptr, -⟩ := h.running child process hprocess (by simpa using hrunning)
  rw [hhandle] at hptr
  cases hptr

theorem Sound.launched (h : s.Sound id dataDir lost) {binPath : String}
    (hbin : s.manager.daemonBinaryPath = some binPath) (hhandle : s.handle = none) (wsPort : UInt16)
    (pid : UInt32) : (s.launched binPath wsPort pid).Sound id dataDir lost := by
  have hnew := (s.native.deref_launched binPath wsPort pid s.native.daemons.next).trans (if_pos rfl)
  have hflag := h.flag
  rw [hhandle] at hflag
  have hmanager : s.manager.start (some (s.native.port wsPort))
      = { s.manager with handle := true, wsPort := s.native.port wsPort, isRunning := true } := by
    simp [DaemonManager.start, hbin, hflag]
  have howns : s.native.daemons.Owns none lost := hhandle ▸ h.owns
  have hadded : (s.launched binPath wsPort pid).native.processes[s.native.processes.length]?
      = some (s.native.newProcess binPath wsPort pid) := by
    simp [DaemonHost.launched, Native.launched]
  constructor
  case id_eq => exact h.id_eq
  case dataDir_eq => exact h.dataDir_eq
  case owns =>
    have hintoRaw := howns.intoRaw (s.native.newDaemon wsPort pid)
    rwa [Option.toList_none, List.append_nil] at hintoRaw
  case flag =>
    rw [DaemonHost.launched, hmanager]
    rfl
  case timer => rfl
  case idle => rintro ⟨⟩
  case holds =>
    rintro ptr ⟨⟩
    refine ⟨_, _, ⟨_, hnew, rfl, rfl, ?_⟩, hadded, rfl, ?_⟩
    . rw [DaemonHost.launched, hmanager]
      rfl
    . rw [DaemonHost.launched, hmanager]
      rfl
  case running =>
    intro child process hprocess hrunning
    -- the processes of before are all over
    rcases Nat.lt_trichotomy child s.native.processes.length with hlt | rfl | hgt
    . rw [DaemonHost.launched, Native.launched, List.getElem?_append_left hlt] at hprocess
      rw [h.not_running hhandle hprocess] at hrunning
      cases hrunning
    . exact ⟨_, _, rfl, hnew, rfl⟩
    . rw [DaemonHost.launched, Native.launched, List.getElem?_eq_none (by simpa using Nat.succ_le_of_lt hgt)] at hprocess
      cases hprocess
  case paths =>
    intro ptr daemon hderef
    rw [DaemonHost.launched, Native.deref_launched] at hderef
    split at hderef
    . obtain rfl := Option.some.inj hderef
      exact ⟨h.dataDir_eq, rfl⟩
    . exact h.paths ptr daemon hderef

theorem Sound.start (h : s.Sound id dataDir lost) (wsPort : UInt16) (spawned : Option UInt32) :
    ∃ s', s.start wsPort spawned = some s' ∧ s'.Sound id dataDir lost := by
  cases hbin : s.manager.daemonBinaryPath with
  | none => exact ⟨s, by rw [DaemonHost.start, hbin], h⟩
  | some binPath =>
    cases hhandle : s.handle with
    | some ptr => exact ⟨s, by rw [DaemonHost.start, hbin, hhandle], h⟩
    | none =>
      cases spawned with
      | none =>
        refine ⟨s, ?_, h⟩
        simp only [DaemonHost.start, hbin, hhandle, Native.boltDaemonStart, Option.isNone_none, if_true]
        rw [← hhandle]
      | some pid => exact ⟨_, start_some hbin hhandle wsPort pid, h.launched hbin hhandle wsPort pid⟩

/--
Only the process of the daemon that is held can be running.
-/
theorem Sound.child_eq (h : s.Sound id dataDir lost) {ptr child i : Nat} {process process' : Process}
    (hptr : s.handle = some ptr) (hholds : s.Holds ptr child process)
    (hprocess : s.native.processes[i]? = some process') (hrunning : process'.running = true)
    : i = child := by
  obtain ⟨daemon, hderef, hchild, -⟩ := hholds.daemon
  obtain ⟨ptr', daemon', hptr', hderef', hchild'⟩ := h.running i process' hprocess hrunning
  rw [hptr] at hptr'
  obtain rfl := Option.some.inj hptr'
  rw [hderef] at hderef'
  obtain rfl := Option.some.inj hderef'
  rw [hchild] at hchild'
  exact (Option.some.inj hchild').symm

theorem Sound.exited (h : s.Sound id dataDir lost) (child : Nat) :
    { s with native := s.native.exited child }.Sound id dataDir lost := by
  constructor
  case id_eq => exact h.id_eq
  case dataDir_eq => exact h.dataDir_eq
  case owns => exact h.owns
  case flag => exact h.flag
  case timer => exact h.timer
  case idle => exact h.idle
  case holds =>
    intro ptr hptr
    obtain ⟨i, process, hholds⟩ := h.holds ptr hptr
    refine ⟨i, if child = i then { process with running := false } else process, hholds.daemon, ?_, ?_, ?_⟩
    . rw [Native.getElem?_exited, hholds.child]
      rfl
    . split <;> exact hholds.pid
    . split <;> exact hholds.args
  case running =>
    intro i process hprocess hrunning
    exact h.running i process (Native.running_exited hprocess hrunning).2 hrunning
  case paths => exact h.paths

/--
Once nothing runs, the handle may be let go, whatever becomes of its box.
-/
theorem Sound.idle_of (h : s.Sound id dataDir lost) {manager : DaemonManager} {socketPath dataDir' : String}
    {daemons : Boxes BoltDaemon} {lost' : List Nat}
    (hmanager : manager.handle = false ∧ manager.wsPort = 0 ∧ manager.isRunning = false)
    (howns : daemons.Owns none lost')
    (hderef : ∀ ptr daemon, daemons.deref ptr = some daemon → s.native.daemons.deref ptr = some daemon)
    (hover : ∀ (child : Nat) process, s.native.processes[child]? = some process → process.running = false)
    : (⟨manager, none, 0, socketPath, dataDir', false, { s.native with daemons }⟩ : DaemonHost).Sound
        id dataDir lost' := by
  obtain ⟨hflag, hport, hrunning⟩ := hmanager
  constructor
  case id_eq => exact h.id_eq
  case dataDir_eq => exact h.dataDir_eq
  case owns => exact howns
  case flag => exact hflag
  case timer => rfl
  case idle =>
    intro _
    exact ⟨rfl, hport, hrunning⟩
  case holds => rintro ptr ⟨⟩
  case running =>
    intro child process hprocess hrunning
    rw [hover child process hprocess] at hrunning
    cases hrunning
  case paths =>
    intro ptr daemon hdaemon
    exact h.paths ptr daemon (hderef ptr daemon hdaemon)

theorem Sound.stop (h : s.Sound id dataDir lost) :
    ∃ s' ops, s.stop = some (s', ops) ∧ s'.Sound id dataDir lost
      ∧ ∀ op ∈ ops, op = .remove s.native.socketPath := by
  cases hhandle : s.handle with
  | none =>
    refine ⟨_, [], by rw [DaemonHost.stop, hhandle]; rfl, ?_, by simp⟩
    exact h.idle_of ⟨rfl, rfl, rfl⟩ (hhandle ▸ h.owns) (fun _ _ hderef => hderef)
      fun _ _ => h.not_running hhandle
  | some ptr =>
    obtain ⟨child, process, hholds⟩ := h.holds ptr hhandle
    obtain ⟨daemon, hderef, hchild, -⟩ := hholds.daemon
    have hfrom := Boxes.fromRaw_of_deref hderef
    have howns := (hhandle ▸ h.owns : s.native.daemons.Owns (some ptr) lost).fromRaw hfrom
    have hstop : s.native.boltDaemonStop s.handle
        = some ({ s.native with
                  daemons := { s.native.daemons with
                    content := Function.update s.native.daemons.content ptr none } }.exited child,
            [.remove daemon.socketPath]) := by
      simp only [Native.boltDaemonStop, hhandle, hfrom, Option.map_some, hchild]
    refine ⟨_, _, by rw [DaemonHost.stop, hstop]; rfl, ?_, ?_⟩
    . refine (h.exited child).idle_of ⟨rfl, rfl, rfl⟩ howns ?_ ?_
      . intro ptr' daemon' hdaemon'
        rw [Boxes.deref_fromRaw hfrom] at hdaemon'
        split at hdaemon'
        . cases hdaemon'
        . exact hdaemon'
      . intro i process' hprocess'
        by_contra hrunning
        obtain ⟨hne, hbefore⟩ := Native.running_exited hprocess' (by simpa using hrunning)
        exact hne (h.child_eq hhandle hholds hbefore (by simpa using hrunning)).symm
    . intro op hop
      rw [List.mem_singleton.mp hop, (h.paths ptr daemon hderef).2]

/--
The handles that a step forgets: those of the daemons that a poll finds to be over.
-/
def dropped (t : Transition DaemonHost Action) : List Nat :=
  match t.action with
  | .poll _ _ => if t.target.handle.isNone then t.source.handle.toList else []
  | _ => []

theorem Sound.with_manager (h : s.Sound id dataDir lost) {ptr : Nat} (hhandle : s.handle = some ptr)
    {manager : DaemonManager} (hflag : manager.handle = s.manager.handle)
    (hport : manager.wsPort = s.manager.wsPort) : { s with manager }.Sound id dataDir lost := by
  constructor
  case id_eq => exact h.id_eq
  case dataDir_eq => exact h.dataDir_eq
  case owns => exact h.owns
  case flag => exact hflag.trans h.flag
  case timer => exact h.timer
  case idle =>
    intro hnone
    cases hhandle.symm.trans hnone
  case holds =>
    intro ptr' hptr'
    obtain ⟨child, process, ⟨daemon, hderef, hchild, hpid, hdaemonPort⟩, hchild', hpid', hargs⟩ :=
      h.holds ptr' hptr'
    refine ⟨child, process, ⟨daemon, hderef, hchild, hpid, ?_⟩, hchild', hpid', ?_⟩
    . exact hdaemonPort.trans hport.symm
    . rw [hargs, hport]
  case running => exact h.running
  case paths => exact h.paths

theorem poll_some {ptr : Nat} {daemon : BoltDaemon} {child : Nat} (hhandle : s.handle = some ptr)
    (hderef : s.native.daemons.deref ptr = some daemon) (hchild : daemon.child = some child)
    (waitFails : Bool) (stderr : Option String)
    : s.poll waitFails stderr
        =
      if waitFails || s.native.isAlive child then
        some { s with manager := s.manager.poll true stderr }
      else
        some
          { s with manager := s.manager.poll false stderr, handle := none, pid := 0, pollTimer := false } := by
  simp only [poll, hhandle, Native.boltDaemonIsRunning, Native.ask_some hderef, hchild,
    Option.bind_eq_bind, Option.bind_some]
  split <;> rfl

theorem Sound.poll (h : s.Sound id dataDir lost) (waitFails : Bool) (stderr : Option String) :
    ∃ s', s.poll waitFails stderr = some s'
      ∧ s'.Sound id dataDir (lost ++ dropped ⟨s, .poll waitFails stderr, s'⟩) := by
  cases hhandle : s.handle with
  | none =>
    refine ⟨s, by rw [DaemonHost.poll, hhandle], ?_⟩
    simpa [dropped, hhandle] using h
  | some ptr =>
    obtain ⟨child, process, hholds⟩ := h.holds ptr hhandle
    obtain ⟨daemon, hderef, hchild, hpid, hport⟩ := hholds.daemon
    have hflag : s.manager.handle = true := by
      rw [h.flag, hhandle]
      rfl
    rw [poll_some hhandle hderef hchild]
    split
    . obtain ⟨hmanager, -, hwsPort⟩ := DaemonManager.poll_running hflag true stderr
      rw [if_pos rfl] at hwsPort
      have hdropped : dropped ⟨s, .poll waitFails stderr, { s with manager := s.manager.poll true stderr }⟩
          = [] := by
        simp [dropped, hhandle]
      refine ⟨_, rfl, ?_⟩
      rw [hdropped, List.append_nil]
      exact h.with_manager hhandle (hmanager.trans hflag.symm) hwsPort
    . next hover =>
      rw [Bool.not_eq_true, Bool.or_eq_false_iff] at hover
      obtain ⟨hmanager, hrunning, hwsPort⟩ := DaemonManager.poll_running hflag false stderr
      refine ⟨_, rfl, ?_⟩
      have hdropped : dropped ⟨s, .poll waitFails stderr,
          { s with manager := s.manager.poll false stderr, handle := none, pid := 0, pollTimer := false }⟩
            = s.handle.toList := rfl
      rw [hdropped]
      refine h.idle_of ⟨hmanager, by simpa using hwsPort, hrunning⟩ h.owns.forget
        (fun _ _ hderef => hderef) ?_
      intro i process' hprocess'
      by_contra halive
      have halive : process'.running = true := by simpa using halive
      obtain rfl := h.child_eq hhandle hholds hprocess' halive
      rw [Native.isAlive_eq_false.mp hover.2 process' hprocess'] at halive
      cases halive

/-! ### Requests -/

/--
The files of the data directory through which the daemon is asked for something.
-/
def signalFiles : List String :=
  ["send_file.signal", "connect_remote.signal", "allow_quic_peer.signal", "disconnect_session.signal",
    "transfer_pause.signal", "transfer_resume.signal"]

def IsSignal (dataDir : String) (op : FileOp) : Prop :=
  ∃ name ∈ signalFiles, ∃ text, op = .write (dataDir ++ "/" ++ name) text

theorem isSignal_writeSignal {name : String} (hname : name ∈ signalFiles) (text : String) (writes : Bool)
    (daemon : BoltDaemon) {op : FileOp} (hop : op ∈ (Native.writeSignal name text writes daemon).2)
    : IsSignal daemon.dataDir op := by
  unfold Native.writeSignal at hop
  split at hop
  . exact ⟨name, hname, text, List.mem_singleton.mp hop⟩
  . cases hop

/--
An answer about the daemon that is held, when all its file operations are requests.
-/
theorem Sound.ask (h : s.Sound id dataDir lost) {answer : BoltDaemon → Int32 × List FileOp}
    (hanswer : ∀ daemon, ∀ op ∈ (answer daemon).2, IsSignal daemon.dataDir op) :
    ∃ result, s.native.ask s.handle (0, []) answer = some result ∧ ∀ op ∈ result.2, IsSignal dataDir op := by
  cases hhandle : s.handle with
  | none => exact ⟨(0, []), rfl, by simp⟩
  | some ptr =>
    obtain ⟨child, process, hholds⟩ := h.holds ptr hhandle
    obtain ⟨daemon, hderef, -⟩ := hholds.daemon
    refine ⟨answer daemon, Native.ask_some hderef _ _, ?_⟩
    rw [← (h.paths ptr daemon hderef).1]
    exact hanswer daemon

theorem Sound.writeSignal (h : s.Sound id dataDir lost) {name : String} (hname : name ∈ signalFiles)
    (text : String) (writes : Bool) :
    ∃ result, s.native.ask s.handle (0, []) (Native.writeSignal name text writes) = some result
      ∧ ∀ op ∈ result.2, IsSignal dataDir op := by
  exact h.ask fun daemon _ => isSignal_writeSignal hname text writes daemon

theorem Sound.connectRemoteV2 (h : s.Sound id dataDir lost) (spell : ℚ → List Char)
    (wsUrl quicAddr quicCertHash : Option String) (writes : Bool) :
    ∃ result,
      s.native.boltDaemonConnectRemoteV2 spell s.handle wsUrl quicAddr quicCertHash writes = some result
        ∧ ∀ op ∈ result.2, IsSignal dataDir op := by
  apply h.ask
  intro daemon op hop
  split at hop
  . cases hop
  . exact isSignal_writeSignal (by simp [signalFiles]) _ writes daemon hop

theorem Sound.allowQuicPeerCertHash (h : s.Sound id dataDir lost) (quicCertHash : Option String)
    (writes : Bool) :
    ∃ result, s.allowQuicPeerCertHash quicCertHash writes = some result
      ∧ ∀ op ∈ result.2, IsSignal dataDir op := by
  unfold DaemonHost.allowQuicPeerCertHash
  split
  . exact ⟨(0, []), rfl, by simp⟩
  . apply h.ask
    intro daemon op hop
    dsimp only at hop
    split at hop
    . cases hop
    . exact isSignal_writeSignal (by simp [signalFiles]) _ writes daemon hop

theorem Sound.request (h : s.Sound id dataDir lost) (spell : ℚ → List Char) (command : Command)
    (writes : Bool) :
    ∃ result, s.request spell command writes = some result ∧ ∀ op ∈ result.2, IsSignal dataDir op := by
  unfold DaemonHost.request
  split
  . exact ⟨(0, []), rfl, by simp⟩
  . cases command with
    | connectToRemote wsUrl quicAddr quicCertHash =>
      dsimp only [DaemonHost.connectToRemote]
      split <;> exact h.connectRemoteV2 _ _ _ _ _
    | allowQuicPeerCertHash quicCertHash => exact h.allowQuicPeerCertHash quicCertHash writes
    | requestDisconnect => exact h.writeSignal (by simp [signalFiles]) _ writes
    | pauseTransfer => exact h.writeSignal (by simp [signalFiles]) _ writes
    | resumeTransfer => exact h.writeSignal (by simp [signalFiles]) _ writes
    | sendFile path => exact h.writeSignal (by simp [signalFiles]) _ writes
    | sendDecision msgType payload => exact ⟨(0, []), rfl, by simp⟩
    | sendSignal toPeerCode signalType dataJson => exact ⟨(0, []), rfl, by simp⟩

/-! ### Runs -/

theorem Sound.socketPath_eq (h : s.Sound id dataDir lost)
    : s.native.socketPath = "/tmp/bolt-native-" ++ toString id.toNat ++ ".sock" := by
  unfold Native.socketPath
  rw [h.id_eq]

/--
`op` is a request to the daemon, or clears the socket away.
-/
def Harmless (id : UInt32) (dataDir : String) (op : FileOp) : Prop :=
  IsSignal dataDir op ∨ op = .remove ("/tmp/bolt-native-" ++ toString id.toNat ++ ".sock")

/--
No action meets a handle that is not good, and each of them keeps the state sound.
-/
theorem Sound.perform (h : s.Sound id dataDir lost) (spell : ℚ → List Char) (action : Action) :
    ∃ s' ops, s.perform spell action = some (s', ops)
      ∧ s'.Sound id dataDir (lost ++ dropped ⟨s, action, s'⟩)
      ∧ ∀ op ∈ ops, Harmless id dataDir op := by
  cases action with
  | start wsPort spawned =>
    obtain ⟨s', hs', hsound⟩ := h.start wsPort spawned
    refine ⟨s', [], by rw [DaemonHost.perform, hs']; rfl, ?_, by simp⟩
    simpa [dropped] using hsound
  | stop =>
    obtain ⟨s', ops, hs', hsound, hops⟩ := h.stop
    refine ⟨s', ops, hs', ?_, ?_⟩
    . simpa [dropped] using hsound
    . intro op hop
      exact .inr (h.socketPath_eq ▸ hops op hop)
  | poll waitFails stderr =>
    obtain ⟨s', hs', hsound⟩ := h.poll waitFails stderr
    exact ⟨s', [], by rw [DaemonHost.perform, hs']; rfl, hsound, by simp⟩
  | request command writes =>
    obtain ⟨⟨answer, ops⟩, hresult, hops⟩ := h.request spell command writes
    refine ⟨s, ops, by rw [DaemonHost.perform, hresult]; rfl, ?_, ?_⟩
    . simpa [dropped] using h
    . intro op hop
      exact .inl (hops op hop)
  | exit child =>
    refine ⟨_, [], rfl, ?_, by simp⟩
    simpa [dropped] using h.exited child

section

variable {spell : ℚ → List Char} {daemonBinaryPath : Option String}
variable {tr : List (Transition DaemonHost Action)}

theorem sound_of_run (h : (machine spell id dataDir daemonBinaryPath).Run tr s) :
    s.Sound id dataDir (tr.flatMap dropped) := by
  induction h with
  | init h =>
    subst h
    exact sound_init daemonBinaryPath
  | @step tr s s' action hrun hstep ih =>
    obtain ⟨s'', ops, hperform, hsound, -⟩ := ih.perform spell action
    replace hstep : s.next spell action = some s' := hstep
    rw [next, hperform] at hstep
    split at hstep
    . obtain rfl := Option.some.inj hstep
      rw [List.flatMap_append, List.flatMap_singleton]
      exact hsound
    . cases hstep

/--
Whatever the app has done so far: its next action finds its handle good and touches no file but requests
and the socket. A process that runs is the one of the handle, told to ask its user before it lets a peer in
and to listen where the app says it does. The handles that are good are this one and those that a poll
forgot.
-/
theorem daemon_owned (h : (machine spell id dataDir daemonBinaryPath).Run tr s)
    : (∀ action, ∃ s' ops, s.perform spell action = some (s', ops) ∧ ∀ op ∈ ops, Harmless id dataDir op)
    ∧ (∀ (child : Nat) process, s.native.processes[child]? = some process → process.running = true →
        process.pid = s.pid
        ∧ process.args = daemonSpawnArgs ("0.0.0.0:" ++ toString s.manager.wsPort.toNat)
            ("/tmp/bolt-native-" ++ toString id.toNat ++ ".sock") dataDir
        ∧ ∃ ptr daemon, s.handle = some ptr ∧ s.native.daemons.deref ptr = some daemon
            ∧ daemon.child = some child)
    ∧ (∀ ptr, s.native.daemons.Live ptr ↔ s.handle = some ptr ∨ ptr ∈ tr.flatMap dropped)
    ∧ (s.handle = none → s.pid = 0 ∧ s.manager.wsPort = 0 ∧ s.manager.isRunning = false) := by
  have hsound := sound_of_run h
  refine ⟨?_, ?_, hsound.owns.live_iff, hsound.idle⟩
  . intro action
    obtain ⟨s', ops, hperform, -, hops⟩ := hsound.perform spell action
    exact ⟨s', ops, hperform, hops⟩
  . intro child process hprocess hrunning
    obtain ⟨ptr, daemon, hptr, hderef, hchild⟩ := hsound.running child process hprocess hrunning
    obtain ⟨child', process', hholds⟩ := hsound.holds ptr hptr
    obtain rfl := hsound.child_eq hptr hholds hprocess hrunning
    obtain rfl := Option.some.inj (hprocess.symm.trans hholds.child)
    refine ⟨hholds.pid, ?_, ptr, daemon, hptr, hderef, hchild⟩
    rw [hholds.args, hsound.socketPath_eq, hsound.dataDir_eq]

end

/--
A daemon ends by itself, a poll forgets it, and the next one is started.
-/
def restart : List Action :=
  [.start 0 (some 4711), .exit 0, .poll false none, .start 9200 (some 4712)]

theorem daemon_owned_after_restart :
    ∃ s, Machine.exec (next fun _ => []) (init 1000 "/data" (some "bolt-daemon")) restart = some s
      ∧ s.manager.wsPort = 9200
      ∧ ∀ ptr, s.native.daemons.Live ptr ↔ ptr = 1 ∨ ptr = 0 := by
  obtain ⟨s, hs⟩ : ∃ s, Machine.exec (next fun _ => []) (init 1000 "/data" (some "bolt-daemon")) restart
      = some s := ⟨_, rfl⟩
  have hhandle : s.handle = some 1 := by
    obtain rfl := Option.some.inj hs
    rfl
  have hport : s.manager.wsPort = 9200 := by
    obtain rfl := Option.some.inj hs
    rfl
  have hdropped : (Machine.trace (next fun _ => []) (init 1000 "/data" (some "bolt-daemon")) restart).flatMap
      dropped = [0] := rfl
  refine ⟨s, hs, hport, ?_⟩
  intro ptr
  have howned := (daemon_owned (Machine.run_of_exec hs)).2.2.1 ptr
  rw [hdropped, hhandle, Option.some.injEq, List.mem_singleton] at howned
  rw [howned, eq_comm]

end DaemonHost

end LocalBolt
