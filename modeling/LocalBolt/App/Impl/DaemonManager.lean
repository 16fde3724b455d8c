import LocalBolt.Foundation.Json

/-!
This module contains the daemon manager: what the app knows of the daemon process, and the poll that
follows its WebTransport sessions through its log.
-/

namespace LocalBolt

def afterFirst? (needle : List Char) : List Char → Option (List Char)
  | [] => needle.isPrefixOf? []
  | c :: text =>
    match needle.isPrefixOf? (c :: text) with
    | some rest => some rest
    | none => afterFirst? needle text

/--
`line.range(of: needle)`, as the text that follows the match.
-/
def rangeOf (needle line : String) : Option String :=
  (afterFirst? needle.toList line.toList).map String.ofList

def containsText (line needle : String) : Bool := (rangeOf needle line).isSome

/--
`split(separator: "\n")`, which leaves out empty pieces.
-/
def splitLines (text : String) : List String :=
  ((text.toList.splitOn '\n').filter (· ≠ [])).map String.ofList

structure WtScan where
  latestWtLifecycle : Option Bool := none
  pendingSas : Option String := none
  latestRegisteredSas : Option String := none
  deriving DecidableEq

namespace WtScan

def scanSas (scan : WtScan) (line : String) : WtScan :=
  match rangeOf "[SAS] " line with
  | none => scan
  | some rest =>
    let candidate := rest.toList.take 6
    if candidate.length = 6 then { scan with pendingSas := some (String.ofList candidate) } else scan

def scanLine (scan : WtScan) (line : String) : WtScan :=
  let scan := scan.scanSas line
  if containsText line "ACTIVE_SESSION registered" then
    { scan with latestWtLifecycle := some true, latestRegisteredSas := scan.pendingSas }
  else if containsText line "ACTIVE_SESSION cleared" then
    { scan with latestWtLifecycle := some false, latestRegisteredSas := none }
  else
    scan

def ofTail (recentStderr : String) : WtScan := (splitLines recentStderr).foldl scanLine {}

end WtScan

structure DaemonManager where
  isRunning : Bool := false
  wsPort : UInt16 := 0
  recentStderr : String := ""
  daemonBinaryPath : Option String := none
  wtUrl : Option String := none
  wtCertHash : Option String := none
  quicAddr : Option String := none
  quicCertHash : Option String := none
  wtSessionActive : Bool := false
  wtSessionSAS : Option String := none
  handle : Bool := false
  deriving DecidableEq

namespace DaemonManager

/--
`start`; `bolt_daemon_start` returned a daemon listening on `started`, or failed.
-/
def start (d : DaemonManager) (started : Option UInt16) : DaemonManager :=
  match d.daemonBinaryPath, d.handle, started with
  | some _, false, some port => { d with handle := true, wsPort := port, isRunning := true }
  | _, _, _ => d

def applyLifecycle (d : DaemonManager) (scan : WtScan) : DaemonManager :=
  match scan.latestWtLifecycle with
  | none => d
  | some true =>
    let d := if d.wtSessionActive then d else { d with wtSessionActive := true, wtSessionSAS := none }
    match scan.latestRegisteredSas with
    | none => d
    | some sas => { d with wtSessionSAS := some sas }
  | some false =>
    if d.wtSessionActive then { d with wtSessionActive := false, wtSessionSAS := none } else d

/--
`poll`, with what the daemon reports: whether it runs, and the tail of its log if there is one.
-/
def poll (d : DaemonManager) (running : Bool) (stderr : Option String) : DaemonManager :=
  if d.handle then
    let d := { d with isRunning := running, recentStderr := stderr.getD d.recentStderr }
    let d := d.applyLifecycle (.ofTail d.recentStderr)
    if running then
      d
    else
      { d with wtSessionActive := false, wtSessionSAS := none, handle := false, wsPort := 0 }
  else
    d

end DaemonManager

end LocalBolt
