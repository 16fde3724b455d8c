import LocalBolt.Rendezvous.Impl.RoomManager
import LocalBolt.Scan.Basic

/-!
This module contains the manual lookup as it really runs: the iterator of the room table locks one shard
at a time, so other tasks can change the rooms of the shards that it is not at.
-/

namespace LocalBolt

namespace Rendezvous

namespace RoomManager

/--
The body of the inner loop of `find_peer_manual`.
-/
def visitPeer (peerCode : String) (found : Option PeerSender) (entry : String × PeerInfo) :
    Except ManualPeerLookup (Option PeerSender) :=
  if entry.2.peerCode = peerCode then
    if found.isSome then .error .ambiguous else .ok (some entry.2.sender)
  else
    .ok found

/--
The peers of the rooms in a shard, each with the key of its room.
-/
def shardPeers (shard : String → Nat) (i : Nat) (m : RoomManager) : List (String × PeerInfo) :=
  (m.rooms.entries.filter fun room => shard room.1 = i).flatMap fun room =>
    room.2.map fun peer => (room.1, peer)

/--
`find_peer_manual` beside the tasks that call `add_peer` and `remove_peer`.
-/
def manualScan (τ : Type) [DecidableEq τ] (shards : Nat) (shard : String → Nat) (peerCode : String) :
    Machine (Scan (Tasks τ RoomManager Pc) (Option PeerSender) ManualPeerLookup)
      (Scan.Action (Tasks.Action τ Method)) :=
  Scan.machine (machine τ) shards (fun i s => shardPeers shard i s.shared) (visitPeer peerCode) none

def manualResult (loop : Except ManualPeerLookup (Option PeerSender)) : ManualPeerLookup :=
  match loop with
  | .error result => result
  | .ok (some sender) => .found sender
  | .ok none => .notFound

end RoomManager

end Rendezvous

end LocalBolt
