import LocalBolt.Bridge.Impl.Memory

/-!
This module contains the signaling manager with the handle that it holds and the memory that it shares with
the library: its start, its stop, and its poll call by call, between which discovery events come in.
-/

namespace LocalBolt

open Bridge (Memory SignalingConfig OutgoingSignal DiscoveryEvent)

namespace SignalingHost

/--
Where a poll is, once it has read whether the client is connected. `signals ptr` is after the signals have
been drained and `peer ptr` after a peer has been got, with a pointer that is not null.
-/
inductive Stage where
  | drainEvents
  | drainSignals
  | signals (ptr : Nat)
  | count
  | peers (count index : UInt32) (updated : List DiscoveredPeer)
  | peer (count index : UInt32) (updated : List DiscoveredPeer) (ptr : Nat)

/--
A running `poll`, with the handle it has found.
-/
structure Poll where
  handle : Nat
  stage : Stage

end SignalingHost

/--
`spawned` lists the configurations of the clients that were started, `received` the texts of signals that
polls have drained, and `sent` what the client was asked to send.
-/
structure SignalingHost where
  manager : SignalingManager
  handle : Option Nat
  pollTimer : Bool
  polling : Option SignalingHost.Poll
  memory : Memory
  spawned : List SignalingConfig
  received : List String
  sent : List OutgoingSignal

namespace SignalingHost

inductive Action where
  | start (localUrl : String) (cloudUrl wtUrl wtCertHash localizedName : Option String)
  | stop
  | sendSignal (toPeerCode signalType : String) (dataJson : Option String)
  | poll
  | proceed
  | event (event : DiscoveryEvent)

def init (peerCode : String) : SignalingHost where
  manager := { peerCode }
  handle := none
  pollTimer := false
  polling := none
  memory := .empty
  spawned := []
  received := []
  sent := []

/-! ### Start, stop and signals -/

/--
The address and the certificate of the daemon are only passed on with a cloud server, and the certificate
only with the address.
-/
def start (s : SignalingHost) (localUrl : String) (cloudUrl wtUrl wtCertHash localizedName : Option String) :
    SignalingHost :=
  if s.handle.isSome then
    s
  else
    let wtUrl := cloudUrl.bind fun _ => wtUrl
    let wtCertHash := wtUrl.bind fun _ => wtCertHash
    let ((handle, memory), config) :=
      Memory.boltSignalingStart s.memory localUrl cloudUrl s.manager.peerCode (localizedName.getD "Mac") wtUrl
        wtCertHash
    { s with handle := some handle, memory, spawned := s.spawned ++ [config], pollTimer := true }

def stop (s : SignalingHost) : Option SignalingHost := do
  let memory ← Memory.boltSignalingStop s.memory s.handle
  some
    { s with
      memory
      handle := none
      pollTimer := false
      manager := { s.manager with isConnected := false, peers := [] } }

def sendSignal (fromStr : String → Option Json) (s : SignalingHost) (toPeerCode signalType : String)
    (dataJson : Option String) : Option SignalingHost :=
  match s.handle with
  | none => some s
  | some h => do
    let (_, signal) ←
      Memory.boltSignalingSendSignal fromStr s.memory (some h) (some toPeerCode) (some signalType) dataJson
    some { s with sent := s.sent ++ signal.toList }

/-! ### The poll -/

/--
The head of `poll`.
-/
def poll (s : SignalingHost) : Option SignalingHost :=
  match s.handle with
  | none => some s
  | some h => do
    let isConnected := (← Memory.boltSignalingIsConnected s.memory (some h)) = 1
    some
      { s with
        manager := { s.manager with isConnected }
        polling := some { handle := h, stage := .drainEvents } }

/--
The next call of a poll that has found the handle `h`, with what is done up to the one after it.
-/
def proceed (s : SignalingHost) (h : Nat) (stage : Stage) : Option SignalingHost :=
  match stage with
  | .drainEvents => do
    let (_, memory) ← Memory.boltSignalingDrainEvents s.memory (some h)
    some { s with memory, polling := some ⟨h, .drainSignals⟩ }
  | .drainSignals => do
    let (ptr, memory) ← Memory.boltSignalingDrainSignals s.memory (some h)
    match ptr with
    | some ptr => some { s with memory, polling := some ⟨h, .signals ptr⟩ }
    | none => some { s with memory, polling := some ⟨h, .count⟩ }
  | .signals ptr => do
    let raw ← Memory.readString s.memory (some ptr)
    let memory ← Memory.boltFreeString s.memory (some ptr)
    some { s with memory, received := s.received ++ raw.toList, polling := some ⟨h, .count⟩ }
  | .count => do
    let count ← Memory.boltSignalingPeerCount s.memory (some h)
    some { s with polling := some ⟨h, .peers count 0 []⟩ }
  | .peers count index updated =>
    if index < count then do
      let (ptr, memory) ← Memory.boltSignalingGetPeer s.memory (some h) index
      match ptr with
      | some ptr => some { s with memory, polling := some ⟨h, .peer count index updated ptr⟩ }
      | none => some { s with memory, polling := some ⟨h, .peers count (index + 1) updated⟩ }
    else
      some { s with manager := s.manager.poll s.manager.isConnected updated, polling := none }
  | .peer count index updated ptr => do
    let peer ← Memory.readPeer s.memory ptr
    let memory ← Memory.boltPeerFree s.memory (some ptr)
    some { s with memory, polling := some ⟨h, .peers count (index + 1) (updated ++ [peer.discovered])⟩ }

/-! ### Steps -/

/--
While a poll is running, the main thread does nothing else; the timer starts a poll.
-/
def possible (s : SignalingHost) : Action → Bool
  | .start _ _ _ _ _ | .stop | .sendSignal _ _ _ => s.polling.isNone
  | .poll => s.polling.isNone && s.pollTimer
  | .proceed => s.polling.isSome
  | .event _ => s.handle.isSome

section

variable (toJson : Json → Option String) (fromStr : String → Option Json)

/--
What an action does; there is no result where the library is given a pointer that is not good.
-/
def perform (s : SignalingHost) : Action → Option SignalingHost
  | .start localUrl cloudUrl wtUrl wtCertHash localizedName =>
    some (s.start localUrl cloudUrl wtUrl wtCertHash localizedName)
  | .stop => s.stop
  | .sendSignal toPeerCode signalType dataJson => s.sendSignal fromStr toPeerCode signalType dataJson
  | .poll => s.poll
  | .proceed =>
    match s.polling with
    | none => some s
    | some { handle, stage } => s.proceed handle stage
  | .event event =>
    match s.handle with
    | none => some s
    | some h => (Memory.callback toJson s.memory h event).map fun memory => { s with memory }

def next (s : SignalingHost) (action : Action) : Option SignalingHost :=
  if s.possible action then s.perform toJson fromStr action else none

def machine (peerCode : String) : Machine SignalingHost Action := .ofFun (init peerCode) (next toJson fromStr)

end

end SignalingHost

end LocalBolt
