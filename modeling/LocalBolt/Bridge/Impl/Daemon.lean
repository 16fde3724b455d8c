import LocalBolt.Boxes.Basic
import LocalBolt.Bridge.Impl.Decision
import LocalBolt.Bridge.Impl.Signaling
import LocalBolt.Cli.Impl.HandleEvent
import LocalBolt.JsonText.RoundTrip

/-!
This module contains the C functions by which the app runs a daemon: the process it spawns, the handle it
gets for it, and the files through which it asks the daemon for something.
-/

namespace LocalBolt

namespace Bridge

/--
A process that the library has spawned.
-/
structure Process where
  pid : UInt32
  program : String
  args : List String
  running : Bool
  deriving DecidableEq

/--
`child` is the place of the process among those that were spawned.
-/
structure BoltDaemon where
  child : Option Nat
  pid : UInt32
  wsPort : UInt16
  dataDir : String
  socketPath : String
  deriving DecidableEq

inductive FileOp where
  | write (path text : String)
  | remove (path : String)
  deriving DecidableEq

/--
The process of the app as its library finds it: its own id, the data directory of the platform, what it
has spawned, and the handles it has given out.
-/
structure Native where
  id : UInt32
  defaultDataDir : String
  processes : List Process
  daemons : Boxes BoltDaemon

def daemonSpawnArgs (wsListen socketPath dataDir : String) : List String :=
  ["--mode", "ws-endpoint", "--ws-listen", wsListen, "--socket-path", socketPath, "--data-dir", dataDir,
    "--pairing-policy", "ask"]

namespace Native

def isAlive (n : Native) (child : Nat) : Bool := n.processes[child]?.any (·.running)

/--
The process is over, by itself or by `kill` and `wait`.
-/
def exited (n : Native) (child : Nat) : Native :=
  { n with processes := n.processes.modify child fun process => { process with running := false } }

/-! ### Start and stop -/

def port (n : Native) (wsPort : UInt16) : UInt16 :=
  if wsPort = 0 then 9100 + (n.id % 900).toUInt16 else wsPort

def socketPath (n : Native) : String := "/tmp/bolt-native-" ++ toString n.id.toNat ++ ".sock"

def wsListen (n : Native) (wsPort : UInt16) : String := "0.0.0.0:" ++ toString (n.port wsPort).toNat

def newProcess (n : Native) (binPath : String) (wsPort : UInt16) (pid : UInt32) : Process where
  pid
  program := cStr binPath
  args := daemonSpawnArgs (n.wsListen wsPort) n.socketPath n.defaultDataDir
  running := true

def newDaemon (n : Native) (wsPort : UInt16) (pid : UInt32) : BoltDaemon where
  child := some n.processes.length
  pid
  wsPort := n.port wsPort
  dataDir := n.defaultDataDir
  socketPath := n.socketPath

def launched (n : Native) (binPath : String) (wsPort : UInt16) (pid : UInt32) : Native :=
  { n with
    processes := n.processes ++ [n.newProcess binPath wsPort pid]
    daemons := (n.daemons.intoRaw (n.newDaemon wsPort pid)).2 }

/--
A null pointer is `none`. `spawned` is what the spawn gave, the id of the new process.
-/
def boltDaemonStart (n : Native) (daemonBin : Option String) (wsPort : UInt16)
    (spawned : Option UInt32) : Option Nat × Native :=
  match daemonBin, spawned with
  | some binPath, some pid =>
    (some (n.daemons.intoRaw (n.newDaemon wsPort pid)).1, n.launched binPath wsPort pid)
  | _, _ => (none, n)

/--
What a function answers about the daemon behind `handle`, with `null` for a null pointer. There is no
answer where the handle is not good.
-/
def ask {γ : Type} (n : Native) (handle : Option Nat) (null : γ) (answer : BoltDaemon → γ) : Option γ :=
  match handle with
  | none => some null
  | some ptr => (n.daemons.deref ptr).map answer

/--
`waitFails` when `try_wait` is an error, which counts as running.
-/
def boltDaemonIsRunning (n : Native) (handle : Option Nat) (waitFails : Bool) : Option Int32 :=
  n.ask handle 0 fun daemon =>
    match daemon.child with
    | some child => if waitFails || n.isAlive child then 1 else 0
    | none => 0

def boltDaemonWsPort (n : Native) (handle : Option Nat) : Option UInt16 := n.ask handle 0 (·.wsPort)

def boltDaemonPid (n : Native) (handle : Option Nat) : Option UInt32 := n.ask handle 0 (·.pid)

def boltDaemonSocketPath (n : Native) (handle : Option Nat) : Option (Option String) :=
  n.ask handle none fun daemon => cString? daemon.socketPath

def boltDaemonDataDir (n : Native) (handle : Option Nat) : Option (Option String) :=
  n.ask handle none fun daemon => cString? daemon.dataDir

def boltDaemonStop (n : Native) (handle : Option Nat) : Option (Native × List FileOp) :=
  match handle with
  | none => some (n, [])
  | some ptr =>
    (n.daemons.fromRaw ptr).map fun (daemon, daemons) =>
      let n := { n with daemons }
      let n :=
        match daemon.child with
        | some child => n.exited child
        | none => n
      (n, [.remove daemon.socketPath])

/-! ### Requests -/

/--
The request `text` in a file of the data directory; `writes` tells whether it could be written.
-/
def writeSignal (name text : String) (writes : Bool) (daemon : BoltDaemon) : Int32 × List FileOp :=
  if writes then (1, [.write (daemon.dataDir ++ "/" ++ name) text]) else (0, [])

def boltDaemonSendFile (n : Native) (handle : Option Nat) (filePath : Option String) (writes : Bool) :
    Option (Int32 × List FileOp) :=
  match filePath with
  | none => some (0, [])
  | some path => n.ask handle (0, []) (writeSignal "send_file.signal" (cStr path) writes)

def boltDaemonDisconnectSession (n : Native) (handle : Option Nat) (writes : Bool) :
    Option (Int32 × List FileOp) :=
  n.ask handle (0, []) (writeSignal "disconnect_session.signal" "disconnect" writes)

def boltDaemonPauseTransfer (n : Native) (handle : Option Nat) (writes : Bool) :
    Option (Int32 × List FileOp) :=
  n.ask handle (0, []) (writeSignal "transfer_pause.signal" "pause" writes)

def boltDaemonResumeTransfer (n : Native) (handle : Option Nat) (writes : Bool) :
    Option (Int32 × List FileOp) :=
  n.ask handle (0, []) (writeSignal "transfer_resume.signal" "resume" writes)

def boltDaemonConnectRemote (n : Native) (handle : Option Nat) (wsUrl : Option String) (writes : Bool) :
    Option (Int32 × List FileOp) :=
  match wsUrl with
  | none => some (0, [])
  | some url => n.ask handle (0, []) (writeSignal "connect_remote.signal" (cStr url) writes)

def optionalCstr (ptr : Option String) : Option String :=
  (ptr.map fun s => Cli.trim (cStr s)).filter fun value => !value.isEmpty

def optionalValue : Option String → Json
  | some s => .str s
  | none => .null

/--
The `json!` of `bolt_daemon_connect_remote_v2`.
-/
def connectRemotePayload (wsUrl quicAddr quicCertHash : Option String) : Json :=
  .obj [("wsUrl", optionalValue wsUrl), ("quicAddr", optionalValue quicAddr),
    ("quicCertHash", optionalValue quicCertHash)]

/--
`to_string` of a `serde_json::Value`, whose objects are sorted. `spell` is how it writes a number.
-/
def valueToString (spell : ℚ → List Char) (v : Json) : String :=
  .ofList (JsonText.print spell (JsonText.normal v))

def boltDaemonConnectRemoteV2 (spell : ℚ → List Char) (n : Native) (handle : Option Nat)
    (wsUrl quicAddr quicCertHash : Option String) (writes : Bool) : Option (Int32 × List FileOp) :=
  let wsUrl := optionalCstr wsUrl
  let quicAddr := optionalCstr quicAddr
  let quicCertHash := optionalCstr quicCertHash
  n.ask handle (0, []) fun daemon =>
    if wsUrl.isNone && quicAddr.isNone then
      (0, [])
    else
      let payload := connectRemotePayload wsUrl quicAddr quicCertHash
      writeSignal "connect_remote.signal" (valueToString spell payload) writes daemon

def isAsciiHexDigit (c : Char) : Bool :=
  c.isDigit || ('a' ≤ c && c ≤ 'f') || ('A' ≤ c && c ≤ 'F')

def boltDaemonAllowQuicPeerCertHash (n : Native) (handle : Option Nat) (quicCertHash : Option String)
    (writes : Bool) : Option (Int32 × List FileOp) :=
  match quicCertHash with
  | none => some (0, [])
  | some value =>
    n.ask handle (0, []) fun daemon =>
      let hash := Cli.trim (cStr value)
      if hash.utf8ByteSize ≠ 64 || !hash.toList.all isAsciiHexDigit then
        (0, [])
      else
        writeSignal "allow_quic_peer.signal" hash writes daemon

end Native

end Bridge

end LocalBolt
