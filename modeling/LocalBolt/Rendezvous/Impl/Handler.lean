import LocalBolt.Rendezvous.Impl.Limits
import LocalBolt.Rendezvous.Impl.RoomManager

/-!
This module contains the handler of one connection after the handshake: where `handle_connection`
waits, what it answers to each frame, and what it does with the results of the room manager.
-/

namespace LocalBolt

namespace Rendezvous

inductive ClientMessage where
  | register (peerCode deviceName : String) (deviceType : DeviceType) (wtUrl wtCertHash : Option String)
  | signal (target : String) (payload : Json)
  | manualSignal (target : String) (payload : Json)
  | ping

inductive Message where
  | text (text : String)
  | binary
  | ping
  | pong
  | close
  | frame
  deriving DecidableEq

/--
How a wait for the next message of the client ends. Only the message loop has a timeout.
-/
inductive Received where
  | message (message : Message)
  | error
  | closed
  | timeout
  deriving DecidableEq

structure Identity where
  peerCode : String
  sessionId : UInt64
  deriving DecidableEq

/--
Where the handler is. At `finding` and `relaying` it handles a signal, at `rejecting` it has been
refused and has not said so yet.
-/
inductive Handler.Pc where
  | registering
  | adding (peer : PeerInfo)
  | announcing (me : Identity) (existingPeers : List PeerData)
  | serving (me : Identity)
  | finding (me : Identity) (target : String) (payload : Json) (manual : Bool)
  | relaying (me : Identity) (target : String) (payload : Json) (lookup : RoomManager.ManualPeerLookup)
  | removing (me : Identity)
  | rejecting (message : String)
  | aborting
  | returned
  deriving DecidableEq

structure Handler where
  clientIp : String
  rateLimit : RateLimit
  pc : Handler.Pc

namespace Handler

def start (clientIp : String) (now : Nat) : Handler where
  clientIp
  rateLimit := .new now
  pc := .registering

def goto (h : Handler) (pc : Pc) : Handler := { h with pc }

/-! ### Frames -/

section

variable (fromStr : String → Except String ClientMessage)

/--
The checks that both loops put before a text frame; over the last violation they go to `closing`.
-/
def admitText (h : Handler) (text : String) (now : Nat) (closing : Pc)
    (answer : Handler → Handler × List ServerMessage) : Handler × List ServerMessage :=
  let (rateLimit, checked) := h.rateLimit.check now
  let h := { h with rateLimit }
  match checked with
  | .error true => (h.goto closing, [])
  | .error false => (h, [.error "rate limited"])
  | .ok () =>
    match validateMessageSize text.utf8ByteSize with
    | .error e => (h, [.error e])
    | .ok () => answer h

/--
From a parsed message of the registration phase to the call of `add_peer`.
-/
def answerRegister (tx : PeerSender) (message : Except String ClientMessage) (h : Handler) :
    Handler × List ServerMessage :=
  match message with
  | .ok (.register peerCode deviceName deviceType wtUrl wtCertHash) =>
    match validateDeviceName deviceName with
    | .error e => (h, [.error e])
    | .ok () =>
      match validatePeerCode peerCode with
      | .error e => (h.goto (.rejecting e), [])
      | .ok peerCode =>
        -- `add_peer` assigns the session id
        let peer : PeerInfo :=
          { peerCode, deviceName, deviceType, sender := tx, sessionId := 0, wtUrl, wtCertHash }
        (h.goto (.adding peer), [])
  | .ok _ => (h, [.error "must send 'register' as first message"])
  | .error e => (h, [.error ("malformed message: " ++ e)])

def answerMessage (me : Identity) (message : Except String ClientMessage) (h : Handler) :
    Handler × List ServerMessage :=
  match message with
  | .ok (.signal target payload) => answerSignal target payload false
  | .ok (.manualSignal target payload) => answerSignal target payload true
  | .ok .ping => (h, [])
  | .ok (.register ..) => (h, [.error "already registered"])
  | .error e => (h, [.error ("malformed message: " ++ e)])
where
  answerSignal (target : String) (payload : Json) (manual : Bool) : Handler × List ServerMessage :=
    match validateSignalTarget target with
    | .error e => (h, [.error e])
    | .ok target => (h.goto (.finding me target payload manual), [])

def receive (tx : PeerSender) (h : Handler) (received : Received) (now : Nat) :
    Option (Handler × List ServerMessage) :=
  match h.pc with
  | .registering =>
    match received with
    | .message (.text text) => some (h.admitText text now .aborting (answerRegister tx (fromStr text)))
    | .message .binary => some (h, [.error "binary frames not accepted"])
    | .message .ping | .message .pong => some (h, [])
    | .message .close | .closed => some (h.goto .aborting, [])
    | .message .frame => some (h, [])
    | .error => some (h.goto .aborting, [])
    | .timeout => none
  | .serving me =>
    match received with
    | .timeout => some (h.goto (.removing me), [])
    | .message (.text text) =>
      some (h.admitText text now (.removing me) (answerMessage me (fromStr text)))
    | .message .binary => some (h, [.error "binary frames not accepted"])
    | .message .ping | .message .pong => some (h, [])
    | .message .close | .closed => some (h.goto (.removing me), [])
    | .message .frame => some (h, [])
    | .error => some (h.goto (.removing me), [])
  | _ => none

end

/-! ### Results -/

def added (h : Handler) (peer : PeerInfo) : Except String (List PeerData × UInt64) → Handler
  | .error e => h.goto (.rejecting e)
  | .ok (existingPeers, sessionId) => h.goto (.announcing ⟨peer.peerCode, sessionId⟩ existingPeers)

/--
What the sender of a signal is told: `delivered` is whether the channel of a target that was found
took the message.
-/
def relayReply (target : String) (lookup : RoomManager.ManualPeerLookup) (delivered : Bool) :
    List ServerMessage :=
  match lookup with
  | .found _ =>
    if delivered then [] else [.error ("peer '" ++ target ++ "' is no longer connected")]
  | .ambiguous => [.error ("peer '" ++ target ++ "' is ambiguous")]
  | .notFound => [.error ("peer '" ++ target ++ "' not found")]

inductive Input where
  | received (received : Received) (now : Nat)
  | added (result : Except String (List PeerData × UInt64))
  | found (lookup : RoomManager.ManualPeerLookup)
  | relayed (delivered : Bool)
  | removed
  | proceed

/--
The handler after an input, with what it enqueues to its own client.
-/
def next (fromStr : String → Except String ClientMessage) (tx : PeerSender) (h : Handler) :
    Input → Option (Handler × List ServerMessage)
  | .received received now => h.receive fromStr tx received now
  | .added result =>
    match h.pc with
    | .adding peer => some (h.added peer result, [])
    | _ => none
  | .found lookup =>
    match h.pc with
    | .finding me target payload _ => some (h.goto (.relaying me target payload lookup), [])
    | _ => none
  | .relayed delivered =>
    match h.pc with
    | .relaying me target _ lookup => some (h.goto (.serving me), relayReply target lookup delivered)
    | _ => none
  | .removed =>
    match h.pc with
    | .removing _ => some (h.goto .aborting, [])
    | _ => none
  | .proceed =>
    match h.pc with
    | .announcing me existingPeers => some (h.goto (.serving me), [.peers existingPeers])
    | .rejecting e => some (h.goto .aborting, [.error e])
    | .aborting => some (h.goto .returned, [])
    | _ => none

def after (fromStr : String → Except String ClientMessage) (tx : PeerSender) (h : Handler)
    (input : Input) : Option Handler :=
  (h.next fromStr tx input).map (·.1)

def machine (fromStr : String → Except String ClientMessage) (tx : PeerSender) (clientIp : String)
    (now : Nat) : Machine Handler Input :=
  .ofFun (start clientIp now) (after fromStr tx)

end Handler

end Rendezvous

end LocalBolt
