import LocalBolt.Rendezvous.Impl.Server

/-!
This module contains what a delivery does to the channels.
-/

namespace LocalBolt

namespace Rendezvous

namespace Server

@[simp]
theorem push_nil (channel : Channel) : channel.push [] = channel := by
  unfold Channel.push
  split
  . rfl
  . rw [List.append_nil]

@[simp]
theorem deliver_nil (channels : PeerSender → Channel) : deliver channels [] = channels := by
  funext c
  apply push_nil

@[simp]
theorem closed_push (channel : Channel) (messages : List ServerMessage) :
    (channel.push messages).closed = channel.closed := by
  unfold Channel.push
  split <;> rfl

theorem messages_push {channel : Channel} (hopen : channel.closed = false)
    (messages : List ServerMessage) :
    (channel.push messages).messages = channel.messages ++ messages := by
  unfold Channel.push
  rw [hopen]
  rfl

theorem push_push (channel : Channel) (messages messages' : List ServerMessage) :
    (channel.push messages).push messages' = channel.push (messages ++ messages') := by
  by_cases hclosed : channel.closed = true
  . simp [Channel.push, hclosed]
  . simp [Channel.push, hclosed]

theorem announced {peers : List PeerInfo} (hnodup : (peers.map (·.sender)).Nodup) (m : ServerMessage)
    (conn : PeerSender)
    : ((peers.map fun p => (p.sender, m)).filter fun message => message.1 = conn).map (·.2)
        =
      if conn ∈ peers.map (·.sender) then [m] else [] := by
  induction peers with
  | nil => rfl
  | cons p peers ih =>
    rw [List.map_cons, List.nodup_cons] at hnodup
    have ih := ih hnodup.2
    rw [List.map_cons, List.map_cons]
    by_cases hconn : p.sender = conn
    . have hothers : conn ∉ peers.map (·.sender) := hconn ▸ hnodup.1
      rw [if_neg hothers, List.map_eq_nil_iff] at ih
      rw [List.filter_cons_of_pos (by simpa using hconn), ih, if_pos (by simp [hconn])]
      rfl
    . rw [List.filter_cons_of_neg (by simpa using hconn), ih]
      simp [Ne.symm hconn]

/--
What a connection gets of a message for some of the peers, each of which has a channel of its own.
-/
theorem deliver_announce {peers : List PeerInfo} (hnodup : (peers.map (·.sender)).Nodup)
    (channels : PeerSender → Channel) (m : ServerMessage) (conn : PeerSender)
    : deliver channels (peers.map fun p => (p.sender, m)) conn
        =
      (channels conn).push (if conn ∈ peers.map (·.sender) then [m] else []) := by
  unfold deliver
  rw [announced hnodup]

theorem deliver_self (channels : PeerSender → Channel) (conn : PeerSender)
    (replies : List ServerMessage)
    : deliver channels (replies.map fun m => (conn, m)) conn
        =
      (channels conn).push replies := by
  unfold deliver
  congr 1
  induction replies with
  | nil => rfl
  | cons m replies ih => simp_all

theorem deliver_of_forall_ne (channels : PeerSender → Channel)
    {sent : List (PeerSender × ServerMessage)} {c : PeerSender}
    (h : ∀ message ∈ sent, message.1 ≠ c) : deliver channels sent c = channels c := by
  unfold deliver
  rw [List.filter_eq_nil_iff.mpr]
  . apply push_nil
  . intro message hmessage
    simpa using h message hmessage

theorem deliver_other (channels : PeerSender → Channel) {conn c : PeerSender} (hc : c ≠ conn)
    (replies : List ServerMessage) :
    deliver channels (replies.map fun m => (conn, m)) c = channels c := by
  apply deliver_of_forall_ne
  intro message hmessage
  obtain ⟨m, -, rfl⟩ := List.mem_map.mp hmessage
  exact hc.symm

theorem channels_respond_self (s : Server) (conn : PeerSender) (p : Handler × List ServerMessage) :
    (s.respond conn p).channels conn = (s.channels conn).push p.2 := by
  apply deliver_self

theorem channels_respond_of_ne (s : Server) {conn c : PeerSender} (hc : c ≠ conn)
    (p : Handler × List ServerMessage) : (s.respond conn p).channels c = s.channels c := by
  exact deliver_other s.channels hc p.2

end Server

end Rendezvous

end LocalBolt
