import LocalBolt.App.Impl.DaemonManager
import LocalBolt.Bridge.Impl.Stderr
import LocalBolt.Machine.Observer
import Mathlib.Data.List.DropRight

/-!
This module contains the daemon manager beside the thread that captures the log it polls, and what the
whole log says about the WebTransport sessions of the daemon.
-/

namespace LocalBolt

structure WtMonitor where
  capture : Bridge.StderrCapture
  daemon : DaemonManager
  running : Bool

/--
The daemon writes a line (given without its end), it exits, or the timer of the manager fires.
-/
inductive WtMonitor.Action where
  | line (line : List UInt8)
  | exit
  | poll

namespace WtMonitor

def started (daemonBinaryPath : String) (wsPort : UInt16) : WtMonitor where
  capture := .start
  daemon := DaemonManager.start { daemonBinaryPath := some daemonBinaryPath } (some wsPort)
  running := true

def next (s : WtMonitor) : Action → Option WtMonitor
  | .line line =>
    if BufRead.newline ∈ line then none else some { s with capture := s.capture.next line }
  | .exit => some { s with running := false }
  | .poll => some { s with daemon := s.daemon.poll s.running (s.capture.recentStderr 30) }

def machine (daemonBinaryPath : String) (wsPort : UInt16) : Machine WtMonitor Action :=
  .ofFun (started daemonBinaryPath wsPort) next

/--
All lines of the log, and those of them that had been written at the last poll.
-/
structure Log where
  written : List (List UInt8)
  polled : List (List UInt8)

def history : Observer WtMonitor Action Log where
  start := { written := [], polled := [] }
  next log _ action _ :=
    match action with
    | .line line => { log with written := log.written ++ [line] }
    | .exit => log
    | .poll => { log with polled := log.written }

def observed (daemonBinaryPath : String) (wsPort : UInt16) : Machine (WtMonitor × Log) Action :=
  (machine daemonBinaryPath wsPort).observed history

end WtMonitor

/-! ### What the log says -/

namespace WtLog

def registered : String := "ACTIVE_SESSION registered"

def cleared : String := "ACTIVE_SESSION cleared"

def lifecycleTokens : List (List Char × Bool) := [(registered.toList, true), (cleared.toList, false)]

/--
The lifecycle tokens of a line in the order in which they stand there: `true` for a registered session,
`false` for a cleared one.
-/
def tokens (line : List UInt8) : List Bool :=
  Occurrence.occurrences (lifecycleTokens.map fun p => (p.1.map fun c => .ofNat c.toNat, p.2)) line

/--
The last lifecycle token of the log says that a session has been registered.
-/
def sessionActive (log : List (List UInt8)) : Bool := (log.flatMap tokens).getLast? = some true

def isRegistered (line : List UInt8) : Bool := true ∈ tokens line

def isLifecycle (line : List UInt8) : Bool := tokens line ≠ []

/--
The log up to its latest line with a registered session.
-/
def throughRegistered (log : List (List UInt8)) : List (List UInt8) :=
  log.rdropWhile fun line => !isRegistered line

/--
The lines between the latest line with a registered session and the lifecycle line before that.
-/
def announcement (log : List (List UInt8)) : List (List UInt8) :=
  (throughRegistered log).dropLast.rtakeWhile fun line => !isLifecycle line

end WtLog

end LocalBolt
