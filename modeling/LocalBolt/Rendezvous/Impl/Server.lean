import LocalBolt.Rendezvous.Impl.Handler

/-!
This module contains the rendezvous server: any number of connections, whose handlers share the room
table and enqueue messages into each other's channels. The machine interleaves the operations that
the methods of the room manager are made of; the atomic machine runs each method as one step.
-/

namespace LocalBolt

namespace Rendezvous

/--
Once the write task of a connection is gone, its channel takes no further message.
-/
structure Channel where
  messages : List ServerMessage
  closed : Bool
  deriving DecidableEq

def Channel.push (channel : Channel) (messages : List ServerMessage) : Channel :=
  if channel.closed then channel else { channel with messages := channel.messages ++ messages }

structure Server where
  manager : RoomManager
  calls : PeerSender → Option RoomManager.Pc
  handlers : PeerSender → Option Handler
  channels : PeerSender → Channel

namespace Server

/--
`close` is the end of the write task, at any time after the handler aborts it or a send fails.
-/
inductive Action where
  | accept (conn : PeerSender) (clientIp : String) (now : Nat)
  | receive (conn : PeerSender) (received : Received) (now : Nat)
  | step (conn : PeerSender)
  | close (conn : PeerSender)
  deriving DecidableEq

def start : Server where
  manager := .new
  calls _ := none
  handlers _ := none
  channels _ := ⟨[], false⟩

def deliver (channels : PeerSender → Channel) (sent : List (PeerSender × ServerMessage)) :
    PeerSender → Channel :=
  fun conn => (channels conn).push ((sent.filter fun m => m.1 = conn).map (·.2))

/--
What a step of a handler does to the room table and to the channels of its peers, the call that it
is in afterwards, and what the handler is told.
-/
structure Effect where
  manager : RoomManager
  sent : List (PeerSender × ServerMessage)
  call : Option RoomManager.Pc
  input : Option Handler.Input

def lookup (m : RoomManager) (clientIp target : String) (manual : Bool) :
    RoomManager.ManualPeerLookup :=
  if manual then m.findPeerManual target
  else
    match m.findPeer clientIp target with
    | some sender => .found sender
    | none => .notFound

def relay (s : Server) (me : Identity) (payload : Json) : RoomManager.ManualPeerLookup → Effect
  | .found sender =>
    { manager := s.manager
      sent := [(sender, .signal me.peerCode payload)]
      call := none
      input := some (.relayed (!(s.channels sender).closed)) }
  | _ => { manager := s.manager, sent := [], call := none, input := some (.relayed false) }

def atomicEffect (s : Server) (_ : PeerSender) (h : Handler) : Option Effect :=
  match h.pc with
  | .adding peer =>
    let added := s.manager.addPeer h.clientIp peer
    some { manager := added.manager, sent := added.sent, call := none, input := some (.added added.result) }
  | .removing me =>
    let removed := s.manager.removePeer h.clientIp me.peerCode me.sessionId
    some { manager := removed.manager, sent := removed.sent, call := none, input := some .removed }
  | .finding _ target _ manual =>
    let found := lookup s.manager h.clientIp target manual
    some { manager := s.manager, sent := [], call := none, input := some (.found found) }
  | .relaying me _ payload found => some (s.relay me payload found)
  | _ => some { manager := s.manager, sent := [], call := none, input := some .proceed }

def beginCall (s : Server) (method : RoomManager.Method) : Effect :=
  let (manager, pc) := s.manager.call method
  { manager, sent := [], call := some pc, input := none }

def continueCall (s : Server) (pc : RoomManager.Pc) : Option Effect :=
  match s.manager.step pc with
  | none => none
  | some (manager, .returned (some result)) =>
    some { manager, sent := s.manager.sentAt pc, call := none, input := some (.added result) }
  | some (manager, .returned none) =>
    some { manager, sent := s.manager.sentAt pc, call := none, input := some .removed }
  | some (manager, pc') =>
    some { manager, sent := s.manager.sentAt pc, call := some pc', input := none }

def effect (s : Server) (conn : PeerSender) (h : Handler) : Option Effect :=
  match h.pc with
  | .adding peer =>
    match s.calls conn with
    | none => some (s.beginCall (.addPeer h.clientIp peer))
    | some pc => s.continueCall pc
  | .removing me =>
    match s.calls conn with
    | none => some (s.beginCall (.removePeer h.clientIp me.peerCode me.sessionId))
    | some pc => s.continueCall pc
  | _ => s.atomicEffect conn h

def respond (s : Server) (conn : PeerSender) (p : Handler × List ServerMessage) : Server :=
  { s with
    handlers := Function.update s.handlers conn (some p.1)
    channels := deliver s.channels (p.2.map fun m => (conn, m)) }

section

variable (fromStr : String → Except String ClientMessage)

def run (s : Server) (conn : PeerSender) (h : Handler) (e : Effect) : Option Server :=
  let s' : Server :=
    { s with
      manager := e.manager
      calls := Function.update s.calls conn e.call
      channels := deliver s.channels e.sent }
  match e.input with
  | none => some s'
  | some input => (h.next fromStr conn input).map (s'.respond conn)

def next (effect : Server → PeerSender → Handler → Option Effect) (s : Server) :
    Action → Option Server
  | .accept conn clientIp now =>
    match s.handlers conn with
    | none => some { s with handlers := Function.update s.handlers conn (some (.start clientIp now)) }
    | some _ => none
  | .receive conn received now =>
    (s.handlers conn).bind fun h => (h.receive fromStr conn received now).map (s.respond conn)
  | .step conn =>
    (s.handlers conn).bind fun h => (effect s conn h).bind (s.run fromStr conn h)
  | .close conn =>
    (s.handlers conn).map fun _ =>
      { s with channels := Function.update s.channels conn { s.channels conn with closed := true } }

def machine : Machine Server Action := .ofFun start (next fromStr effect)

def atomicMachine : Machine Server Action := .ofFun start (next fromStr atomicEffect)

end

end Server

end Rendezvous

end LocalBolt
