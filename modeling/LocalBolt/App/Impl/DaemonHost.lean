import LocalBolt.App.Impl.App
import LocalBolt.Bridge.Impl.Daemon

/-!
This module contains the daemon manager together with the C functions it calls and the processes they
spawn: what it does with its handle, in any order in which the app may ask for it.
-/

namespace LocalBolt

/--
`manager` has the fields that the views read; its `handle` only says whether there is one.
-/
structure DaemonHost where
  manager : DaemonManager
  handle : Option Nat
  pid : UInt32
  socketPath : String
  dataDir : String
  pollTimer : Bool
  native : Bridge.Native

namespace DaemonHost

open Bridge

inductive Action where
  | start (wsPort : UInt16) (spawned : Option UInt32)
  | stop
  | poll (waitFails : Bool) (stderr : Option String)
  | request (command : Command) (writes : Bool)
  -- a process ends by itself
  | exit (child : Nat)

/-! ### Start, stop and poll -/

def start (s : DaemonHost) (wsPort : UInt16) (spawned : Option UInt32) : Option DaemonHost :=
  match s.manager.daemonBinaryPath, s.handle with
  | some binPath, none => do
    let (handle, native) := s.native.boltDaemonStart (some binPath) wsPort spawned
    if handle.isNone then
      some { s with handle, native }
    else
      let pid ← native.boltDaemonPid handle
      let port ← native.boltDaemonWsPort handle
      let socketPath ← native.boltDaemonSocketPath handle
      let dataDir ← native.boltDaemonDataDir handle
      some
        { manager := s.manager.start (some port)
          handle
          pid
          socketPath := socketPath.getD s.socketPath
          dataDir := dataDir.getD s.dataDir
          pollTimer := true
          native }
  | _, _ => some s

def stop (s : DaemonHost) : Option (DaemonHost × List FileOp) :=
  (s.native.boltDaemonStop s.handle).map fun (native, ops) =>
    ({ manager :=
         { s.manager with
           handle := false
           isRunning := false
           wsPort := 0
           recentStderr := ""
           wtUrl := none
           wtCertHash := none
           quicAddr := none
           quicCertHash := none }
       handle := none
       pid := 0
       socketPath := ""
       dataDir := ""
       pollTimer := false
       native },
      ops)

def poll (s : DaemonHost) (waitFails : Bool) (stderr : Option String) : Option DaemonHost :=
  match s.handle with
  | none => some s
  | some _ => do
    let running := (← s.native.boltDaemonIsRunning s.handle waitFails) = 1
    let stderr ← s.native.ask s.handle none fun _ => stderr
    let s := { s with manager := s.manager.poll running stderr }
    -- a daemon that is over loses its handle here, without `bolt_daemon_stop`
    if running then some s else some { s with handle := none, pid := 0, pollTimer := false }

/-! ### Requests -/

section

variable (spell : ℚ → List Char)

def connectToRemote (s : DaemonHost) (wsUrl : String) (quicAddr quicCertHash : Option String)
    (writes : Bool) : Option (Int32 × List FileOp) :=
  match quicAddr, quicCertHash with
  | some quicAddr, some quicCertHash =>
    s.native.boltDaemonConnectRemoteV2 spell s.handle (some wsUrl) (some quicAddr) (some quicCertHash)
      writes
  | _, _ => s.native.boltDaemonConnectRemoteV2 spell s.handle (some wsUrl) none none writes

def allowQuicPeerCertHash (s : DaemonHost) (quicCertHash : Option String) (writes : Bool) :
    Option (Int32 × List FileOp) :=
  match quicCertHash.filter fun hash => !hash.isEmpty with
  | none => some (0, [])
  | some hash => s.native.boltDaemonAllowQuicPeerCertHash s.handle (some hash) writes

/--
What the manager asks of its daemon: nothing when it has no handle.
-/
def request (s : DaemonHost) (command : Command) (writes : Bool) : Option (Int32 × List FileOp) :=
  if s.handle.isNone then
    some (0, [])
  else
    match command with
    | .connectToRemote wsUrl quicAddr quicCertHash =>
      s.connectToRemote spell wsUrl quicAddr quicCertHash writes
    | .allowQuicPeerCertHash quicCertHash => s.allowQuicPeerCertHash quicCertHash writes
    | .requestDisconnect => s.native.boltDaemonDisconnectSession s.handle writes
    | .pauseTransfer => s.native.boltDaemonPauseTransfer s.handle writes
    | .resumeTransfer => s.native.boltDaemonResumeTransfer s.handle writes
    | .sendFile path => s.native.boltDaemonSendFile s.handle (some path) writes
    -- the other managers' business
    | .sendDecision _ _ | .sendSignal _ _ _ => some (0, [])

/-! ### Steps -/

/--
What can happen: the poll is run by its timer, and only a process that runs can end.
-/
def possible (s : DaemonHost) : Action → Bool
  | .start _ _ | .stop | .request _ _ => true
  | .poll _ _ => s.pollTimer
  | .exit child => s.native.isAlive child

/--
What an action does; there is no result where the library is given a pointer that is not good.
-/
def perform (s : DaemonHost) : Action → Option (DaemonHost × List FileOp)
  | .start wsPort spawned => (s.start wsPort spawned).map (·, [])
  | .stop => s.stop
  | .poll waitFails stderr => (s.poll waitFails stderr).map (·, [])
  | .request command writes => (s.request spell command writes).map fun (_, ops) => (s, ops)
  | .exit child => some ({ s with native := s.native.exited child }, [])

def init (id : UInt32) (defaultDataDir : String) (daemonBinaryPath : Option String) : DaemonHost where
  manager := { daemonBinaryPath }
  handle := none
  pid := 0
  socketPath := ""
  dataDir := ""
  pollTimer := false
  native := { id, defaultDataDir, processes := [], daemons := .empty }

def next (s : DaemonHost) (action : Action) : Option DaemonHost :=
  if s.possible action then (s.perform spell action).map Prod.fst else none

def machine (id : UInt32) (defaultDataDir : String) (daemonBinaryPath : Option String) :
    Machine DaemonHost Action :=
  .ofFun (init id defaultDataDir daemonBinaryPath) (next spell)

end

end DaemonHost

end LocalBolt
