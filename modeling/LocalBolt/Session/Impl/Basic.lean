import LocalBolt.Foundation.Json

/-!
This module contains the data of the session manager: peers, pairing requests and their answers,
trust, and the phases of a session and of a transfer.
-/

namespace LocalBolt

structure DiscoveredPeer where
  peerCode : String
  deviceName : String
  deviceType : String
  wtUrl : Option String
  wtCertHash : Option String
  deriving DecidableEq

structure PairingRequest where
  requestId : String
  deviceName : String
  deviceType : String
  sas : String
  deriving DecidableEq

inductive PairingDecision where
  | allowOnce
  | allowAlways
  | denyOnce
  | denyAlways
  deriving DecidableEq

namespace PairingDecision

def wireValue : PairingDecision → String
  | .allowOnce => "allow_once"
  | .allowAlways => "allow_always"
  | .denyOnce => "deny_once"
  | .denyAlways => "deny_always"

def isAllow : PairingDecision → Bool
  | .allowOnce => true
  | .allowAlways => true
  | .denyOnce => false
  | .denyAlways => false

end PairingDecision

inductive TrustState where
  | unverified (sas : String)
  | verified
  | legacy
  | mismatch (deviceName oldKeyPrefix : String)
  deriving DecidableEq

structure PeerSession where
  peerCode : String
  deviceName : String
  deviceType : String
  trust : TrustState
  identityKeyB64 : Option String
  deriving DecidableEq

inductive SessionPhase where
  | idle
  | requesting
  | incomingRequest
  | connecting
  | connected
  | disconnected (reason : String)
  deriving DecidableEq

def SessionPhase.canStartFreshConnection : SessionPhase → Bool
  | .idle => true
  | .disconnected _ => true
  | .requesting => false
  | .incomingRequest => false
  | .connecting => false
  | .connected => false

inductive TransferPhase where
  | idle
  | sending (fileName transferId : String) (progress : ℚ)
  | receiving (fileName transferId : String) (progress : ℚ)
  | complete (fileName : String) (savePath : Option String)
  | failed (fileName reason : String)
  deriving DecidableEq

def isTransferAllowed (sessionPhase : SessionPhase) (trust : TrustState) : Bool :=
  if sessionPhase = .connected then
    match trust with
    | .verified => true
    | .legacy => true
    | .unverified _ => false
    | .mismatch _ _ => false
  else
    false

end LocalBolt
