import LocalBolt.App.Impl.App
import Mathlib.Logic.Function.Basic

/-!
This module contains devices that run the app and reach each other through the signaling server: the
signals their apps send, in the hands of a network that loses, repeats and reorders them, and foreign
clients that send anything under codes of their own.
-/

namespace LocalBolt

/--
A signal on its way; `signal.fromPeer` is the code under which the server knows its sender.
-/
structure Letter where
  recipient : String
  signal : IncomingSignal
  deriving DecidableEq

/--
`sent` holds every signal that has ever been sent, and `shown code` every request for which the app of
`code` has put up its Accept and Decline buttons.
-/
structure Network where
  apps : String → App
  sent : List Letter
  shown : String → List IncomingSignal

namespace Network

inductive Action where
  | act (code : String) (action : LocalBolt.Action)
  | deliver (letter : Letter)
  | foreign (letter : Letter)

def init (daemonBinaryPath : String → Option String) : Network where
  apps code := .init code (daemonBinaryPath code)
  sent := []
  shown _ := []

/--
What `bolt_signaling_send_signal` makes of a command: without data, or with data that is no object, the
other side reads an empty one.
-/
def letter? (code : String) : Command → Option Letter
  | .sendSignal toPeerCode signalType dataJson =>
    some {
      recipient := toPeerCode
      signal := {
        fromPeer := code
        signalType
        data := (dataJson.bind Json.object?).getD [] } }
  | _ => none

/--
A button can be pressed for a request only once the request has been on the screen, and signals come
from the network alone.
-/
def mayAct (s : Network) (code : String) : LocalBolt.Action → Bool
  | .acceptRequest request _ => request ∈ s.shown code
  | .declineRequest request => request ∈ s.shown code
  | .incomingSignal _ => false
  | _ => true

/--
`device code` tells whether a device that runs the app has the code.
-/
def next (device : String → Bool) (s : Network) : Action → Option Network
  | .act code action =>
    if device code && s.mayAct code action then
      ((s.apps code).next action).map fun app =>
        { s with
          apps := Function.update s.apps code app
          sent := s.sent ++ ((s.apps code).commands action).filterMap (letter? code) }
    else
      none
  | .deliver letter =>
    if device letter.recipient && letter ∈ s.sent then
      ((s.apps letter.recipient).next (.incomingSignal letter.signal)).map fun app =>
        { s with
          apps := Function.update s.apps letter.recipient app
          shown := Function.update s.shown letter.recipient
            (s.shown letter.recipient ++ app.signaling.incomingConnectionRequest.toList) }
    else
      none
  | .foreign letter =>
    if device letter.signal.fromPeer then none else some { s with sent := s.sent ++ [letter] }

def machine (device : String → Bool) (daemonBinaryPath : String → Option String) :
    Machine Network Action :=
  .ofFun (init daemonBinaryPath) (next device)

end Network

end LocalBolt
