import LocalBolt.Rendezvous.Impl.Server

/-!
This module contains a room by itself: its members and its connections, as if they were alone on the
server. A member is known by its connection, so that there are no session ids.
-/

namespace LocalBolt

namespace Rendezvous

/-! ### Session ids aside -/

def PeerInfo.anonymous (peer : PeerInfo) : PeerInfo := { peer with sessionId := 0 }

def Identity.anonymous (me : Identity) : Identity := { me with sessionId := 0 }

def Handler.Pc.anonymous : Handler.Pc → Handler.Pc
  | .registering => .registering
  | .adding peer => .adding peer.anonymous
  | .announcing me existingPeers => .announcing me.anonymous existingPeers
  | .serving me => .serving me.anonymous
  | .finding me target payload manual => .finding me.anonymous target payload manual
  | .relaying me target payload lookup => .relaying me.anonymous target payload lookup
  | .removing me => .removing me.anonymous
  | .rejecting message => .rejecting message
  | .aborting => .aborting
  | .returned => .returned

def Handler.anonymous (h : Handler) : Handler := { h with pc := h.pc.anonymous }

def Handler.Input.anonymous : Handler.Input → Handler.Input
  | .added result => .added (result.map fun p => (p.1, 0))
  | input => input

/-! ### The room -/

@[ext]
structure Room where
  members : List PeerInfo
  handlers : PeerSender → Option Handler
  channels : PeerSender → Channel

namespace Room

def start : Room where
  members := []
  handlers _ := none
  channels _ := ⟨[], false⟩

structure Effect where
  members : List PeerInfo
  sent : List (PeerSender × ServerMessage)
  input : Handler.Input

def enter (members : List PeerInfo) (peer : PeerInfo) : Effect :=
  let others := members.filter fun p => p.peerCode ≠ peer.peerCode
  if others.length < maxPeersPerRoom then
    { members := others ++ [peer]
      sent := others.map fun p => (p.sender, .peerJoined peer.toPeerData)
      input := .added (.ok (others.map (·.toPeerData), 0)) }
  else
    { members
      sent := []
      input := .added (.error ("room full (" ++ toString maxPeersPerRoom ++ " peers)")) }

def leave (members : List PeerInfo) (conn : PeerSender) (peerCode : String) : Effect :=
  let remaining := members.filter fun p => p.sender ≠ conn
  { members := remaining
    sent :=
      if conn ∈ members.map (·.sender) then
        remaining.map fun p => (p.sender, .peerLeft peerCode)
      else
        []
    input := .removed }

def find (members : List PeerInfo) (target : String) : RoomManager.ManualPeerLookup :=
  match members.find? fun p => p.peerCode = target with
  | some p => .found p.sender
  | none => .notFound

def relay (room : Room) (me : Identity) (payload : Json) : RoomManager.ManualPeerLookup → Effect
  | .found sender =>
    { members := room.members
      sent := [(sender, .signal me.peerCode payload)]
      input := .relayed (!(room.channels sender).closed) }
  | _ => { members := room.members, sent := [], input := .relayed false }

def effect (room : Room) (conn : PeerSender) (h : Handler) : Effect :=
  match h.pc with
  | .adding peer => enter room.members peer
  | .removing me => leave room.members conn me.peerCode
  | .finding _ target _ _ =>
    { members := room.members, sent := [], input := .found (find room.members target) }
  | .relaying me _ payload found => room.relay me payload found
  | _ => { members := room.members, sent := [], input := .proceed }

def affected (room : Room) (e : Effect) : Room :=
  { room with members := e.members, channels := Server.deliver room.channels e.sent }

def respond (room : Room) (conn : PeerSender) (p : Handler × List ServerMessage) : Room :=
  { room with
    handlers := Function.update room.handlers conn (some p.1)
    channels := Server.deliver room.channels (p.2.map fun m => (conn, m)) }

def next (fromStr : String → Except String ClientMessage) (room : Room) :
    Server.Action → Option Room
  | .accept conn clientIp now =>
    match room.handlers conn with
    | none =>
      some { room with handlers := Function.update room.handlers conn (some (.start clientIp now)) }
    | some _ => none
  | .receive conn received now =>
    (room.handlers conn).bind fun h => (h.receive fromStr conn received now).map (room.respond conn)
  | .step conn =>
    (room.handlers conn).bind fun h =>
      let e := room.effect conn h
      (h.next fromStr conn e.input).map ((room.affected e).respond conn)
  | .close conn =>
    (room.handlers conn).map fun _ =>
      { room with
        channels := Function.update room.channels conn { room.channels conn with closed := true } }

end Room

end Rendezvous

end LocalBolt
