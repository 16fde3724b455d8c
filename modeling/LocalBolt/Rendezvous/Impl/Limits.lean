import Mathlib.Data.List.Basic

/-!
This module contains the limits that the rendezvous server puts on what clients send: the checks of
the fields of a message, and the rate limiter of a connection.
-/

namespace LocalBolt

namespace Rendezvous

def maxMessageBytes : Nat := 1048576

def maxDeviceNameBytes : Nat := 256

def maxPeerCodeBytes : Nat := 16

def rateLimitPerSecond : Nat := 50

def rateLimitCloseThreshold : Nat := 3

def validateMessageSize (len : Nat) : Except String Unit :=
  if len > maxMessageBytes then
    .error ("message too large (" ++ toString len ++ " bytes, max " ++ toString maxMessageBytes ++ ")")
  else
    .ok ()

def validateDeviceName (name : String) : Except String Unit :=
  if name.utf8ByteSize > maxDeviceNameBytes then
    .error ("device_name too long (" ++ toString name.utf8ByteSize ++ " bytes, max "
      ++ toString maxDeviceNameBytes ++ ")")
  else
    .ok ()

/--
What the two checks of a peer code share; `subject` is what their errors are about, and `tooLong` is
how they describe a length.
-/
def validateCode (subject : String) (tooLong : Nat → String) (code : String) :
    Except String String :=
  let normalized := String.ofList (code.toList.filter (· ≠ '-'))
  if normalized.isEmpty then
    .error ("invalid_peer_code: " ++ subject ++ " cannot be empty")
  else if normalized.utf8ByteSize > maxPeerCodeBytes then
    .error ("invalid_peer_code: " ++ subject ++ " too long (" ++ tooLong normalized.utf8ByteSize
      ++ " after removing hyphens)")
  else if ¬ normalized.toList.all Char.isAlphanum then
    .error ("invalid_peer_code: " ++ subject ++ " must contain only letters and digits "
      ++ "(a-z, A-Z, 0-9). Hyphens are stripped automatically.")
  else
    .ok normalized

def validatePeerCode (code : String) : Except String String :=
  validateCode "Peer code" (fun _ => "max " ++ toString maxPeerCodeBytes ++ " characters") code

def validateSignalTarget (target : String) : Except String String :=
  validateCode "Target peer code"
    (fun len => toString len ++ " chars, max " ++ toString maxPeerCodeBytes) target

/--
Instants are counted in nanoseconds.
-/
def oneSecond : Nat := 1000000000

structure RateLimit where
  remaining : Nat
  windowStart : Nat
  consecutiveViolations : Nat
  deriving DecidableEq

namespace RateLimit

def new (now : Nat) : RateLimit where
  remaining := rateLimitPerSecond
  windowStart := now
  consecutiveViolations := 0

/--
The limiter with its window reset if that is over. `duration_since` is zero for a later instant.
-/
def window (limit : RateLimit) (now : Nat) : RateLimit :=
  if now - limit.windowStart ≥ oneSecond then
    { limit with remaining := rateLimitPerSecond, windowStart := now }
  else
    limit

def check (limit : RateLimit) (now : Nat) : RateLimit × Except Bool Unit :=
  let limit := limit.window now
  if limit.remaining > 0 then
    ({ limit with remaining := limit.remaining - 1, consecutiveViolations := 0 }, .ok ())
  else
    let violations := limit.consecutiveViolations + 1
    ({ limit with consecutiveViolations := violations }, .error (violations ≥ rateLimitCloseThreshold))

end RateLimit

example : (validatePeerCode "b7h2-mn").toOption = some "b7h2mn" := by decide

end Rendezvous

end LocalBolt
