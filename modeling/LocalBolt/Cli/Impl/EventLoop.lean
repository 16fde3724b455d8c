import LocalBolt.Cli.Impl.HandleEvent
import LocalBolt.Lines.Basic
import LocalBolt.Utf8.Strict

/-!
This module contains the loop in which the command line client reads the messages of the daemon, from its
handshake on, while nobody asks it to shut down.
-/

namespace LocalBolt

namespace Cli

/--
What a read of the socket gives: at least one byte, nothing within a second (`WouldBlock` or `TimedOut`),
an error, or the end of the stream.
-/
inductive Read where
  | data (byte : UInt8) (more : List UInt8)
  | wouldBlock
  | timedOut
  | error (e : String)
  | eof

/--
`line` is what the reader has put into the string of the line it is at. `passed` lists the messages passed
to `handle_event` and what it did with each, which is nothing to speak of if it panicked.
-/
structure EventLoop where
  line : List UInt8
  console : Console
  passed : List (IpcMessage Value × Option (List Effect))
  errors : List String
  running : Bool

namespace EventLoop

def start : EventLoop where
  line := []
  console := .start
  passed := []
  errors := []
  running := true

/--
A panic of `handle_event` ends the process.
-/
def pass (env : Env) (s : EventLoop) (msg : IpcMessage Value) : EventLoop :=
  if s.running then
    let effects := handleEvent env s.console msg
    { s with
      console := s.console.after (effects.getD [])
      passed := s.passed ++ [(msg, effects)]
      running := effects.isSome }
  else
    s

/--
The body of the loop for a line that has been read.
-/
def nextLine (env : Env) (s : EventLoop) (line : String) : EventLoop :=
  if s.running then
    if (trim line).isEmpty then
      s
    else
      match env.fromStr line with
      | .ok msg => s.pass env msg
      | .error e => { s with errors := s.errors ++ ["[localbolt-cli] parse error: " ++ e] }
  else
    s

def readError (s : EventLoop) (e : String) : EventLoop :=
  if s.running then
    { s with errors := s.errors ++ ["[localbolt-cli] IPC read error: " ++ e], running := false }
  else
    s

/--
The bytes of a line, without its end, become a string.
-/
def nextBytes (env : Env) (s : EventLoop) (bytes : List UInt8) : EventLoop :=
  match Utf8.decode? bytes with
  | some line => s.nextLine env line
  | none => s.readError "stream did not contain valid UTF-8"

/--
A read that fails ends the item of `lines` with its error. The next item reads into a new string.
-/
def next (env : Env) (s : EventLoop) (read : Read) : EventLoop :=
  match read with
  | .data byte more =>
    let (lines, rest) := Lines.cut BufRead.newline s.line (byte :: more)
    { (lines.map BufRead.stripCr).foldl (nextBytes env) s with line := rest }
  | .wouldBlock | .timedOut => { s with line := [] }
  | .error e => s.readError e
  | .eof =>
    let s := if s.line.isEmpty then s else s.nextBytes env s.line
    { s with running := false }

def run (env : Env) (reads : List Read) : EventLoop := reads.foldl (next env) start

end EventLoop

end Cli

end LocalBolt
