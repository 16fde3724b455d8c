import LocalBolt.Foundation.Json
import LocalBolt.Machine.Tasks
import Mathlib.Algebra.GroupWithZero.Nat
import Mathlib.Data.List.AList

/-!
This module contains the rooms of the rendezvous server: each of the operations on the room table
that `add_peer` and `remove_peer` are made of, the methods as a whole, and the two methods as the
sequence of their operations.
-/

namespace LocalBolt

namespace Rendezvous

inductive DeviceType where
  | phone
  | tablet
  | laptop
  | desktop
  deriving DecidableEq

structure PeerData where
  peerCode : String
  deviceName : String
  deviceType : DeviceType
  wtUrl : Option String
  wtCertHash : Option String
  deriving DecidableEq

inductive ServerMessage where
  | peers (peers : List PeerData)
  | peerJoined (peer : PeerData)
  | peerLeft (peerCode : String)
  | signal (fromPeer : String) (payload : Json)
  | error (message : String)
  deriving DecidableEq

/--
A channel into the WebSocket of a connection.
-/
abbrev PeerSender := Nat

structure PeerInfo where
  peerCode : String
  deviceName : String
  deviceType : DeviceType
  sender : PeerSender
  sessionId : UInt64
  wtUrl : Option String
  wtCertHash : Option String
  deriving DecidableEq

def PeerInfo.toPeerData (peer : PeerInfo) : PeerData where
  peerCode := peer.peerCode
  deviceName := peer.deviceName
  deviceType := peer.deviceType
  wtUrl := peer.wtUrl
  wtCertHash := peer.wtCertHash

def maxPeersPerRoom : Nat := 256

def maxRooms : Nat := 65536

/--
The room table, with the counter `NEXT_SESSION_ID`.
-/
structure RoomManager where
  rooms : AList fun _ : String => List PeerInfo
  nextSessionId : UInt64

namespace RoomManager

def new : RoomManager where
  rooms := ∅
  nextSessionId := 1

def roomCount (m : RoomManager) : Nat := m.rooms.keys.length

def room (m : RoomManager) (ip : String) : List PeerInfo := (m.rooms.lookup ip).getD []

/-! ### The operations of `add_peer` -/

def fetchSessionId (m : RoomManager) (peer : PeerInfo) : RoomManager × PeerInfo :=
  ({ m with nextSessionId := m.nextSessionId + 1 }, { peer with sessionId := m.nextSessionId })

/--
What a guard is held for: the table it leaves, the messages it enqueues, and what it decides.
-/
structure Guarded (β : Type) where
  manager : RoomManager
  sent : List (PeerSender × ServerMessage)
  result : β

/--
From `entry(ip).or_default()` to the end of `add_peer`.
-/
def enterRoom (m : RoomManager) (ip : String) (peer : PeerInfo) :
    Guarded (Except String (List PeerData × UInt64)) :=
  let room := (m.room ip).eraseP fun p => p.peerCode = peer.peerCode
  if room.length ≥ maxPeersPerRoom then
    { manager := { m with rooms := m.rooms.insert ip room }
      sent := []
      result := .error ("room full (" ++ toString maxPeersPerRoom ++ " peers)") }
  else
    { manager := { m with rooms := m.rooms.insert ip (room ++ [peer]) }
      sent := room.map fun p => (p.sender, .peerJoined peer.toPeerData)
      result := .ok (room.map (·.toPeerData), peer.sessionId) }

/-! ### The operations of `remove_peer` -/

/--
The part of `remove_peer` under `get_mut(ip)`; the result is `should_remove_room`.
-/
def leaveRoom (m : RoomManager) (ip peerCode : String) (sessionId : UInt64) : Guarded Bool :=
  match m.rooms.lookup ip with
  | none => { manager := m, sent := [], result := false }
  | some room =>
    let remaining := room.filter fun p => ¬ (p.peerCode = peerCode ∧ p.sessionId = sessionId)
    let manager := { m with rooms := m.rooms.insert ip remaining }
    if remaining.length < room.length then
      { manager
        sent := remaining.map fun p => (p.sender, .peerLeft peerCode)
        result := remaining.isEmpty }
    else
      { manager, sent := [], result := false }

def dropRoom (m : RoomManager) (ip : String) : RoomManager := { m with rooms := m.rooms.erase ip }

/-! ### The methods as a whole -/

def addPeer (m : RoomManager) (ip : String) (peer : PeerInfo) :
    Guarded (Except String (List PeerData × UInt64)) :=
  let (m, peer) := m.fetchSessionId peer
  if ip ∉ m.rooms ∧ m.roomCount ≥ maxRooms then
    { manager := m
      sent := []
      result := .error ("room limit reached (" ++ toString maxRooms ++ ")") }
  else
    m.enterRoom ip peer

def removePeer (m : RoomManager) (ip peerCode : String) (sessionId : UInt64) : Guarded Unit :=
  let left := m.leaveRoom ip peerCode sessionId
  { manager := if left.result then left.manager.dropRoom ip else left.manager
    sent := left.sent
    result := () }

def findPeer (m : RoomManager) (callerRoom peerCode : String) : Option PeerSender :=
  ((m.room callerRoom).find? fun peer => peer.peerCode = peerCode).map (·.sender)

inductive ManualPeerLookup where
  | found (sender : PeerSender)
  | notFound
  | ambiguous
  deriving DecidableEq

/--
The loop of `find_peer_manual` over the peers of all rooms, with what has been found so far.
-/
def lookupManual (peerCode : String) : Option PeerSender → List PeerInfo → ManualPeerLookup
  | some sender, [] => .found sender
  | none, [] => .notFound
  | found, peer :: peers =>
    if peer.peerCode = peerCode then
      if found.isSome then .ambiguous else lookupManual peerCode (some peer.sender) peers
    else
      lookupManual peerCode found peers

def findPeerManual (m : RoomManager) (peerCode : String) : ManualPeerLookup :=
  lookupManual peerCode none (m.rooms.entries.flatMap (·.2))

def peerCount (m : RoomManager) : Nat := (m.rooms.entries.map (·.2.length)).sum

/-! ### The methods, step by step -/

inductive Method where
  | addPeer (ip : String) (peer : PeerInfo)
  | removePeer (ip peerCode : String) (sessionId : UInt64)

inductive Pc where
  | returned (result : Option (Except String (List PeerData × UInt64)))
  | containsKey (ip : String) (peer : PeerInfo)
  | len (ip : String) (peer : PeerInfo)
  | entry (ip : String) (peer : PeerInfo)
  | getMut (ip peerCode : String) (sessionId : UInt64)
  | remove (ip : String)

def call (m : RoomManager) : Method → RoomManager × Pc
  | .addPeer ip peer =>
    let (m, peer) := m.fetchSessionId peer
    (m, .containsKey ip peer)
  | .removePeer ip peerCode sessionId => (m, .getMut ip peerCode sessionId)

def step (m : RoomManager) : Pc → Option (RoomManager × Pc)
  | .returned _ => none
  | .containsKey ip peer => some (m, if ip ∈ m.rooms then .entry ip peer else .len ip peer)
  | .len ip peer =>
    if m.roomCount ≥ maxRooms then
      some (m, .returned (some (.error ("room limit reached (" ++ toString maxRooms ++ ")"))))
    else
      some (m, .entry ip peer)
  | .entry ip peer =>
    let entered := m.enterRoom ip peer
    some (entered.manager, .returned (some entered.result))
  | .getMut ip peerCode sessionId =>
    let left := m.leaveRoom ip peerCode sessionId
    some (left.manager, if left.result then .remove ip else .returned none)
  | .remove ip => some (m.dropRoom ip, .returned none)

/--
What the step at a program point enqueues while it holds its guard.
-/
def sentAt (m : RoomManager) : Pc → List (PeerSender × ServerMessage)
  | .entry ip peer => (m.enterRoom ip peer).sent
  | .getMut ip peerCode sessionId => (m.leaveRoom ip peerCode sessionId).sent
  | _ => []

def methods : Methods RoomManager Method Pc where
  call
  step

def machine (τ : Type) [DecidableEq τ] :
    Machine (Tasks τ RoomManager Pc) (Tasks.Action τ Method) :=
  .ofFun (.start new (.returned none)) (Tasks.next methods)

end RoomManager

end Rendezvous

end LocalBolt
