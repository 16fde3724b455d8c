import LocalBolt.Cli.Impl.HandleEvent
import LocalBolt.Script.Basic

/-!
This module contains the commands of the command line client that start and stop a daemon and hand it a
file, as scripts over what they ask of the system.
-/

namespace LocalBolt

namespace Cli

inductive ReadinessResult where
  | ready (daemonVersion : String) (connectedPeers : String)
  | incompatible (daemonVersion : String)
  | failed (reason : String)

/--
An error of `spawn`, with its text.
-/
structure SpawnError where
  notFound : Bool
  text : String

/--
What a command asks for, with the type of the answer. An operation that may fail answers its error, if
there is one.
-/
inductive Op : Type → Type where
  | out (line : String) : Op Unit
  | err (line : String) : Op Unit
  | probe (socketPath : String) : Op Bool
  | probeReadiness (socketPath daemonVersion : String) : Op ReadinessResult
  | eventLoop (socketPath : String) : Op Unit
  | sleep (ms : Nat) : Op Unit
  -- the milliseconds since the daemon was started
  | elapsed : Op Nat
  -- the flag that the Ctrl+C handler sets
  | shutdown : Op Bool
  | setHandler : Op Unit
  | createDirAll (path : String) : Op (Option String)
  | setPermissions (path : String) (mode : Nat) : Op Unit
  | spawn (program : String) (args : List String) : Op (Except SpawnError UInt32)
  -- `some true` of a child that has exited, and `none` if it fails
  | tryWait (pid : UInt32) : Op (Option Bool)
  | wait (pid : UInt32) : Op Unit
  -- `mem::forget` of a child
  | forget (pid : UInt32) : Op Unit
  | processAlive (pid : UInt32) : Op Bool
  | processTerminate (pid : UInt32) : Op Unit
  | processForceKill (pid : UInt32) : Op Unit
  | readToString (path : String) : Op (Option String)
  | removeFile (path : String) : Op Unit
  | writeFile (path text : String) : Op (Option String)
  | canonicalize (path : String) : Op (Except String String)
  | isFile (path : String) : Op Bool
  | connect (socketPath : String) : Op (Option String)
  | tryClone : Op (Option String)
  | writeMessage (msg : IpcMessage Value) : Op (Option String)

/--
A command gives the exit status of the process, which is 1 for `exit(1)` and 0 if it returns.
-/
abbrev Command (α : Type) := Script Op α

structure Config where
  socketPath : String
  dataDir : String
  daemonBin : String
  pidPath : String

def daemonVersion : String := "0.0.1"

def version : String := "0.1.0"

def tell (line : String) : Command Unit := Script.perform (.out ("[localbolt-cli] " ++ line))

def complain (line : String) : Command Unit := Script.perform (.err ("[localbolt-cli] " ++ line))

/-! ### Start -/

def terminateChild (pid : UInt32) : Command Unit := do
  Script.perform (.processTerminate pid)
  let exited ← Script.attempt (do
    Script.perform (.sleep 250)
    match ← Script.perform (.tryWait pid) with
    | some true => pure (some ())
    | _ => pure none) 12
  match exited with
  | some () => pure ()
  | none => do
    Script.perform (.processForceKill pid)
    Script.perform (.wait pid)

/--
How the wait for a new daemon ends.
-/
inductive Waited where
  | shutdown
  | timeout
  | ready
  deriving DecidableEq

def waitRound (socketPath : String) : Command (Option Waited) := do
  if ← Script.perform .shutdown then
    pure (some .shutdown)
  else if (← Script.perform .elapsed) > 10000 then
    pure (some .timeout)
  else do
    Script.perform (.sleep 250)
    if ← Script.perform (.probe socketPath) then pure (some .ready) else pure none

def reportReadiness (socketPath : String) : Command Unit := do
  match ← Script.perform (.probeReadiness socketPath daemonVersion) with
  | .ready daemonVersion connectedPeers =>
    tell ("daemon ready (version " ++ daemonVersion ++ ", peers: " ++ connectedPeers ++ ")")
  | .incompatible daemonVersion =>
    complain
      ("WARNING: daemon version " ++ daemonVersion ++ " may be incompatible with CLI " ++ version)
  | .failed reason => do
    complain ("readiness probe failed: " ++ reason)
    complain "daemon may still be starting — try `localbolt-cli status`"

def doWatch (socketPath : String) : Command Unit := do
  Script.perform .setHandler
  tell "watching events (Ctrl+C to stop)..."
  Script.perform (.out "---")
  Script.perform (.eventLoop socketPath)

def startArgs (cfg : Config) (wsListen pairingPolicy : String) : List String :=
  ["--mode", "ws-endpoint", "--ws-listen", wsListen, "--socket-path", cfg.socketPath, "--data-dir",
    cfg.dataDir, "--pairing-policy", pairingPolicy]

def shutDown (pid : UInt32) : Command Unit := do
  Script.perform (.out ("\n[localbolt-cli] shutting down daemon (PID " ++ toString pid.toNat ++ ")..."))
  terminateChild pid

/--
What `cmd_start` does with the daemon it has started, waiting for it in at most `rounds` rounds. There is
no exit status if these did not suffice.
-/
def runDaemon (cfg : Config) (watch : Bool) (rounds : Nat) (pid : UInt32) : Command (Option Nat) := do
  tell ("daemon started (PID " ++ toString pid.toNat ++ ")")
  Script.perform .setHandler
  match ← Script.attempt (waitRound cfg.socketPath) rounds with
  | none => pure none
  | some .shutdown => do
    shutDown pid
    pure (some 0)
  | some .timeout => do
    complain "daemon did not become ready within 10s"
    terminateChild pid
    pure (some 1)
  | some .ready => do
    reportReadiness cfg.socketPath
    if watch then do
      tell "watching events (Ctrl+C to stop)..."
      Script.perform (.out "---")
      Script.perform (.eventLoop cfg.socketPath)
      shutDown pid
    else do
      tell ("daemon running in background (PID " ++ toString pid.toNat ++ ")")
      tell "use `localbolt-cli watch` to stream events"
      tell "use `localbolt-cli stop` to shut down"
      Script.perform (.forget pid)
    pure (some 0)

def cmdStart (cfg : Config) (wsListen pairingPolicy : String) (watch : Bool) (rounds : Nat) :
    Command (Option Nat) := do
  if ← Script.perform (.probe cfg.socketPath) then do
    complain ("daemon already running at " ++ cfg.socketPath)
    if watch then doWatch cfg.socketPath
    pure (some 0)
  else
    match ← Script.perform (.createDirAll cfg.dataDir) with
    | some e => do
      complain ("failed to create data dir " ++ cfg.dataDir ++ ": " ++ e)
      pure (some 1)
    | none => do
      Script.perform (.setPermissions cfg.dataDir 0o700)
      tell "starting bolt-daemon..."
      Script.perform (.out ("  binary:    " ++ cfg.daemonBin))
      Script.perform (.out ("  ws-listen: " ++ wsListen))
      Script.perform (.out ("  socket:    " ++ cfg.socketPath))
      Script.perform (.out ("  data-dir:  " ++ cfg.dataDir))
      Script.perform (.out ("  policy:    " ++ pairingPolicy))
      match ← Script.perform (.spawn cfg.daemonBin (startArgs cfg wsListen pairingPolicy)) with
      | .error e => do
        complain ("failed to start daemon: " ++ e.text)
        if e.notFound then do
          complain ("bolt-daemon not found at: " ++ cfg.daemonBin)
          complain "install bolt-daemon or use --daemon-path"
        pure (some 1)
      | .ok pid => runDaemon cfg watch rounds pid

/-! ### Stop -/

/--
`str::parse::<u32>`
-/
def parsePid (text : String) : Option UInt32 :=
  let digits :=
    match text.toList with
    | '+' :: digits => digits
    | digits => digits
  if digits.isEmpty || !digits.all Char.isDigit then
    none
  else
    let n := digits.foldl (fun n c => 10 * n + (c.toNat - '0'.toNat)) 0
    if n < 2 ^ 32 then some (.ofNat n) else none

def stopDaemon (cfg : Config) (pid : UInt32) : Command Unit := do
  tell ("sending SIGTERM to daemon (PID " ++ toString pid.toNat ++ ")...")
  Script.perform (.processTerminate pid)
  let gone ← Script.attempt (do
    Script.perform (.sleep 250)
    if ← Script.perform (.probe cfg.socketPath) then pure none else pure (some ())) 20
  match gone with
  | some () => do
    tell "daemon stopped"
    Script.perform (.removeFile cfg.pidPath)
  | none => do
    complain "daemon did not stop gracefully, sending SIGKILL"
    Script.perform (.processForceKill pid)
    Script.perform (.removeFile cfg.pidPath)
    tell "daemon killed"

/--
The process of the PID file, if it is alive.
-/
def livePid (cfg : Config) : Command (Option UInt32) := do
  match (← Script.perform (.readToString cfg.pidPath)).bind fun text => parsePid (trim text) with
  | some pid => do if ← Script.perform (.processAlive pid) then pure (some pid) else pure none
  | none => pure none

def noPidFile (cfg : Config) : Command Nat := do
  complain "daemon socket exists but no PID file found"
  complain ("remove stale socket manually: " ++ cfg.socketPath)
  pure 1

def cmdStop (cfg : Config) : Command Nat := do
  if ← Script.perform (.probe cfg.socketPath) then
    match ← livePid cfg with
    | some pid => do
      stopDaemon cfg pid
      pure 0
    | none => noPidFile cfg
  else do
    tell "daemon not running"
    pure 0

/-! ### Send -/

def versionHandshake : IpcMessage Value :=
  .newDecision "version.handshake" (.object [("app_version", .string daemonVersion)])

def fileSend (path : String) : IpcMessage Value :=
  .newDecision "file.send" (.object [("file_path", .string path)])

def writeSignalFile (cfg : Config) (path : String) : Command Nat := do
  let signalPath := cfg.dataDir ++ "/send_file.signal"
  tell ("writing signal file: " ++ signalPath)
  match ← Script.perform (.writeFile signalPath path) with
  | none => do
    tell "send_file.signal written — daemon will pick up within 250ms"
    pure 0
  | some e => do
    complain ("failed to write signal file: " ++ e)
    pure 1

def sendOverIpc (cfg : Config) (path : String) : Command Nat := do
  tell ("sending via IPC: " ++ path)
  match ← Script.perform (.connect cfg.socketPath) with
  | some e => do
    complain ("IPC connect failed: " ++ e)
    pure 1
  | none =>
    match ← Script.perform .tryClone with
    | some e => do
      complain ("clone stream: " ++ e)
      pure 1
    | none =>
      match ← Script.perform (.writeMessage versionHandshake) with
      | some e => do
        complain ("handshake failed: " ++ e)
        pure 1
      | none =>
        match ← Script.perform (.writeMessage (fileSend path)) with
        | some e => do
          complain ("IPC file.send failed: " ++ e)
          complain "falling back to signal file method"
          writeSignalFile cfg path
        | none => do
          tell "file.send command sent"
          pure 0

def cmdSend (cfg : Config) (filePath : String) : Command Nat := do
  match ← Script.perform (.canonicalize filePath) with
  | .error e => do
    complain ("cannot resolve path " ++ filePath ++ ": " ++ e)
    pure 1
  | .ok path =>
    if ← Script.perform (.isFile path) then
      if ← Script.perform (.probe cfg.socketPath) then sendOverIpc cfg path else writeSignalFile cfg path
    else do
      complain ("not a file: " ++ path)
      pure 1

end Cli

end LocalBolt
