import LocalBolt.Rendezvous.Impl.Server
import LocalBolt.Rendezvous.Impl.Slots

/-!
This module contains the signaling server as a whole: the loop of `run` that accepts TCP connections, the
slots that it takes for them, and the tasks that it spawns, each of which runs `handle_connection` and
then drops its guard.
-/

namespace LocalBolt

namespace Rendezvous

def defaultMaxWsConnections : BitVec 64 := 256

/--
Where the loop of `run` is: it waits for a connection, or it has one and calls `try_acquire_slot`.
-/
inductive SignalingServer.Pc where
  | accepting
  | acquiring
  deriving DecidableEq

/--
The loop is the only caller of `try_acquire_slot`. A task holds a guard, and is identified with its
connection.
-/
structure SignalingServer where
  pc : SignalingServer.Pc
  slots : Slots Unit 64
  tasks : List PeerSender
  server : Server

namespace SignalingServer

inductive Action where
  | accepted
  | acceptFailed
  | acquire
  | spawn (conn : PeerSender)
  | reject
  -- the handshake of a connection is over, and its handler starts
  | upgrade (conn : PeerSender) (clientIp : String) (now : Nat)
  | receive (conn : PeerSender) (received : Received) (now : Nat)
  | step (conn : PeerSender)
  | close (conn : PeerSender)
  -- `handle_connection` has returned, and the guard is dropped
  | finish (conn : PeerSender)
  deriving DecidableEq

def start : SignalingServer where
  pc := .accepting
  slots := .start
  tasks := []
  server := .start

/--
`handle_connection` has returned, or may return before its handler starts: to plain HTTP, or where the
handshake fails.
-/
def mayReturn (s : SignalingServer) (conn : PeerSender) : Bool :=
  (s.server.handlers conn).all (·.pc = .returned)

section

variable (fromStr : String → Except String ClientMessage) (maxConnections : BitVec 64)

def serve (s : SignalingServer) (action : Server.Action) : Option SignalingServer :=
  (s.server.next fromStr Server.effect action).map fun server => { s with server }

def next (s : SignalingServer) : Action → Option SignalingServer
  | .accepted =>
    if s.pc = .accepting then
      (s.slots.next maxConnections (.call ())).map fun slots => { s with slots, pc := .acquiring }
    else
      none
  | .acceptFailed => if s.pc = .accepting then some s else none
  | .acquire =>
    if s.pc = .acquiring then
      (s.slots.next maxConnections (.step ())).map fun slots => { s with slots }
    else
      none
  | .spawn conn =>
    if s.pc = .acquiring ∧ s.slots.pc () = .returned true ∧ conn ∉ s.tasks
        ∧ s.server.handlers conn = none then
      some { s with pc := .accepting, tasks := conn :: s.tasks }
    else
      none
  | .reject =>
    if s.pc = .acquiring ∧ s.slots.pc () = .returned false then some { s with pc := .accepting } else none
  | .upgrade conn clientIp now =>
    if conn ∈ s.tasks then s.serve fromStr (.accept conn clientIp now) else none
  | .receive conn received now => s.serve fromStr (.receive conn received now)
  | .step conn => s.serve fromStr (.step conn)
  | .close conn => s.serve fromStr (.close conn)
  | .finish conn =>
    if conn ∈ s.tasks ∧ s.mayReturn conn then
      (s.slots.next maxConnections .drop).map fun slots => { s with slots, tasks := s.tasks.erase conn }
    else
      none

def machine : Machine SignalingServer Action := .ofFun start (next fromStr maxConnections)

end

end SignalingServer

end Rendezvous

end LocalBolt
