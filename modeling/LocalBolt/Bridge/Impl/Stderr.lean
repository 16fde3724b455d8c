import LocalBolt.Bridge.Impl.Signaling
import LocalBolt.Lines.Basic
import LocalBolt.Utf8.Strict

/-!
This module contains how the bridge keeps the log of the daemon: the thread that captures its stderr, and
the tail of it that the app asks for.
-/

namespace LocalBolt

namespace Bridge

/--
The capturing thread and its buffer. `pushed` and `unread` are history fields that no code reads: every
line it has pushed, and the lines that came after it was over.
-/
structure StderrCapture where
  stderrLines : List String
  reading : Bool
  pushed : List String
  unread : List (List UInt8)
  deriving DecidableEq

namespace StderrCapture

def start : StderrCapture where
  stderrLines := []
  reading := true
  pushed := []
  unread := []

def pushLine (buf : List String) (line : String) : List String :=
  let buf := buf ++ [line]
  if buf.length > 1000 then buf.drop 500 else buf

/--
One line of stderr. `map_while(Result::ok)` is over at the first one that is an error.
-/
def next (c : StderrCapture) (line : List UInt8) : StderrCapture :=
  if c.reading then
    match Utf8.decode? line with
    | some line =>
      { c with stderrLines := pushLine c.stderrLines line, pushed := c.pushed ++ [line] }
    | none => { c with reading := false }
  else
    { c with unread := c.unread ++ [line] }

/--
The capture of a stream that has come to its end.
-/
def ofStream (stream : List UInt8) : StderrCapture := (BufRead.lines stream).foldl next start

/--
`bolt_daemon_recent_stderr`
-/
def recentStderr (c : StderrCapture) (lastN : UInt32) : Option String :=
  let start := c.stderrLines.length - lastN.toNat
  cString? (Framing.joinLines (c.stderrLines.drop start))

def machine : Machine StderrCapture (List UInt8) := .ofFun start fun c line => some (c.next line)

end StderrCapture

end Bridge

end LocalBolt
