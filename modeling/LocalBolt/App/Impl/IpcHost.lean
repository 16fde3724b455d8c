import LocalBolt.Boxes.Basic
import LocalBolt.Machine.Basic
import LocalBolt.Session.Impl.IpcManager

/-!
This module contains how the session manager gets its connection to the daemon and loses it: the attempts
of `start` one by one, with everything else that may happen between them.
-/

namespace LocalBolt

/--
The connection behind a handle of `bolt_ipc_start`.
-/
structure IpcConnection where
  socketPath : String
  appVersion : String

/--
An attempt that waits in the main queue.
-/
structure Retry where
  socketPath : String
  appVersion : String
  attempt : Nat
  deriving DecidableEq

/--
`timers` counts the timers that `pollTimer` does not refer to any more but which still poll.
-/
structure IpcHost where
  handle : Option Nat
  isConnected : Bool
  pollTimer : Bool
  timers : Nat
  retries : List Retry
  bridges : Boxes IpcConnection

namespace IpcHost

inductive Action where
  | start (socketPath appVersion : String) (connects : Bool)
  | retry (index : Nat) (connects : Bool)
  | stop
  | poll (connected : Bool)
  | sendPairingDecision

def maxAttempts : Nat := 5

/--
`connects` tells whether `bolt_ipc_start` reaches the daemon.
-/
def startWithRetry (s : IpcHost) (socketPath appVersion : String) (attempt : Nat) (connects : Bool) :
    IpcHost :=
  if connects then
    let (ptr, bridges) := s.bridges.intoRaw { socketPath, appVersion }
    { s with
      handle := some ptr
      isConnected := true
      pollTimer := true
      timers := if s.pollTimer then s.timers + 1 else s.timers
      bridges }
  else if attempt < maxAttempts then
    { s with retries := s.retries ++ [{ socketPath, appVersion, attempt := attempt + 1 }] }
  else
    { s with isConnected := false }

def start (s : IpcHost) (socketPath appVersion : String) (connects : Bool) : IpcHost :=
  if s.handle.isSome then s else s.startWithRetry socketPath appVersion 1 connects

/--
The closure of the attempt at `index` runs; it does not look at the handle.
-/
def retry (s : IpcHost) (index : Nat) (connects : Bool) : IpcHost :=
  match s.retries[index]? with
  | none => s
  | some r =>
    { s with retries := s.retries.eraseIdx index }.startWithRetry r.socketPath r.appVersion r.attempt connects

/--
`stop`, which leaves the attempts that wait where they are.
-/
def stop (s : IpcHost) : Option IpcHost :=
  match s.handle with
  | none => some { s with pollTimer := false, isConnected := false }
  | some ptr =>
    (s.bridges.fromRaw ptr).map fun (_, bridges) =>
      { s with handle := none, pollTimer := false, isConnected := false, bridges }

/--
What the manager does with its connection, if it has one.
-/
def withHandle (s : IpcHost) (use : IpcHost) : Option IpcHost :=
  match s.handle with
  | none => some s
  | some ptr => (s.bridges.deref ptr).map fun _ => use

def poll (s : IpcHost) (connected : Bool) : Option IpcHost :=
  s.withHandle { s with isConnected := connected }

def sendPairingDecision (s : IpcHost) : Option IpcHost := s.withHandle s

def possible (s : IpcHost) : Action → Bool
  | .start _ _ _ | .stop | .sendPairingDecision => true
  | .retry index _ => index < s.retries.length
  | .poll _ => s.pollTimer || 0 < s.timers

/--
What an action does; there is no result where the library is given a pointer that is not good.
-/
def perform (s : IpcHost) : Action → Option IpcHost
  | .start socketPath appVersion connects => some (s.start socketPath appVersion connects)
  | .retry index connects => some (s.retry index connects)
  | .stop => s.stop
  | .poll connected => s.poll connected
  | .sendPairingDecision => s.sendPairingDecision

def next (s : IpcHost) (action : Action) : Option IpcHost :=
  if s.possible action then s.perform action else none

def init : IpcHost where
  handle := none
  isConnected := false
  pollTimer := false
  timers := 0
  retries := []
  bridges := .empty

def machine : Machine IpcHost Action := .ofFun init next

end IpcHost

end LocalBolt
