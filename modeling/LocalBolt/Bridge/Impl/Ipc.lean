import LocalBolt.Bridge.Impl.Signaling
import LocalBolt.Session.Impl.Event

/-!
This module contains the event queue of the Rust IPC bridge as it is kept there, as JSON texts.
-/

namespace LocalBolt

namespace Bridge

structure BoltIpc where
  events : List String
  deriving DecidableEq

namespace BoltIpc

def start : BoltIpc := { events := [] }

/--
The event callback of `bolt_ipc_start`, where `toJson` is `serde_json::to_string`.
-/
def callback (toJson : Json → Option String) (b : BoltIpc) (eventName : String) (payload : Json) :
    BoltIpc :=
  match toJson (bridgeLine eventName payload) with
  | some json => if b.events.length < 1000 then { events := b.events ++ [json] } else b
  | none => b

def drainEvents (b : BoltIpc) : Option String × BoltIpc :=
  let (joined, events) := drainQueue b.events
  (joined, { events })

inductive Action where
  | callback (eventName : String) (payload : Json)
  | drainEvents

def next (toJson : Json → Option String) (b : BoltIpc) : Action → BoltIpc
  | .callback eventName payload => b.callback toJson eventName payload
  | .drainEvents => b.drainEvents.2

def machine (toJson : Json → Option String) : Machine BoltIpc Action :=
  .ofFun start fun b action => some (b.next toJson action)

end BoltIpc

end Bridge

end LocalBolt
