/-!
This module contains the messages between the daemon and its clients, as far as they are read and built
here, with a payload of type `V`.
-/

namespace LocalBolt

inductive IpcKind where
  | event
  | decision
  deriving DecidableEq

structure IpcMessage (V : Type) where
  msgType : String
  kind : IpcKind
  payload : V
  deriving DecidableEq

def IpcMessage.newDecision {V : Type} (msgType : String) (payload : V) : IpcMessage V where
  msgType
  kind := .decision
  payload

end LocalBolt
