import LocalBolt.Rendezvous.Impl.Handler

/-!
This module contains a connection's handler together with its write task, the task that moves what
the channel of the connection holds to the WebSocket until the handler aborts it.
-/

namespace LocalBolt

namespace Rendezvous

/--
The write task waits in `recv`, runs up to `recv`, runs up to the `send` of a message, waits in that
`send`, or has ended.
-/
inductive WriteTask where
  | waiting
  | receiving
  | sending (message : ServerMessage)
  | blocked (message : ServerMessage)
  | gone
  deriving DecidableEq

def WriteTask.held : WriteTask → List ServerMessage
  | .sending message | .blocked message => [message]
  | _ => []

def WriteTask.isRunning : WriteTask → Bool
  | .receiving | .sending _ => true
  | _ => false

structure Connection where
  handler : Handler
  channel : List ServerMessage
  writeTask : WriteTask
  aborted : Bool
  written : List ServerMessage

namespace Connection

inductive Action where
  | handle (input : Handler.Input)
  | push (message : ServerMessage)
  | poll
  | recv
  | write
  | suspend

def start (clientIp : String) (now : Nat) : Connection where
  handler := .start clientIp now
  channel := []
  writeTask := .waiting
  aborted := false
  written := []

/--
What has been enqueued and is still on its way to the WebSocket.
-/
def unwritten (c : Connection) : List ServerMessage := c.writeTask.held ++ c.channel

/--
Nothing can be enqueued once the write task, which owns the receiver, is gone.
-/
def enqueue (c : Connection) (messages : List ServerMessage) : Connection :=
  if c.writeTask = .gone then c else { c with channel := c.channel ++ messages }

def cancel (c : Connection) : Connection := { c with writeTask := .gone, channel := [] }

/--
A task that is running when it is aborted goes on to its next suspension.
-/
def abort (c : Connection) : Connection :=
  if c.writeTask.isRunning then { c with aborted := true } else c.cancel

def aborts (h : Handler) : Handler.Input → Bool
  | .proceed => h.pc = .aborting
  | _ => false

def handle (fromStr : String → Except String ClientMessage) (tx : PeerSender) (c : Connection)
    (input : Handler.Input) : Option Connection :=
  match c.handler.next fromStr tx input with
  | none => none
  | some (handler, replies) =>
    let c' := { c with handler }.enqueue replies
    some (if aborts c.handler input then c'.abort else c')

/--
The task stops running before it is done, at `recv` or at `send`.
-/
def suspendTask (c : Connection) : Option Connection :=
  match c.writeTask with
  | .receiving => some (if c.aborted then c.cancel else { c with writeTask := .waiting })
  | .sending message => some (if c.aborted then c.cancel else { c with writeTask := .blocked message })
  | _ => none

def next (fromStr : String → Except String ClientMessage) (tx : PeerSender) (c : Connection) :
    Action → Option Connection
  | .handle input => c.handle fromStr tx input
  | .push message => some (c.enqueue [message])
  | .poll =>
    match c.writeTask with
    | .waiting => some { c with writeTask := .receiving }
    | .blocked message => some { c with writeTask := .sending message }
    | _ => none
  | .recv =>
    match c.writeTask, c.channel with
    | .receiving, message :: channel => some { c with writeTask := .sending message, channel }
    | _, _ => none
  | .write =>
    match c.writeTask with
    | .sending message => some { c with writeTask := .receiving, written := c.written ++ [message] }
    | _ => none
  | .suspend => c.suspendTask

def machine (fromStr : String → Except String ClientMessage) (tx : PeerSender) (clientIp : String)
    (now : Nat) : Machine Connection Action :=
  .ofFun (start clientIp now) (next fromStr tx)

end Connection

end Rendezvous

end LocalBolt
