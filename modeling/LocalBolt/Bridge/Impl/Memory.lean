import LocalBolt.Boxes.Cells
import LocalBolt.Bridge.Impl.Decision
import LocalBolt.Bridge.Impl.Poll

/-!
This module contains the C functions of the signaling bridge as they deal with memory: which pointers they
give out, read and take back. None of them has a result where it is given a pointer that is not good.
-/

namespace LocalBolt

namespace Bridge

/--
A `BoltPeer` with its five pointers, `none` for null.
-/
structure RawPeer where
  peerCode : Option Nat
  deviceName : Option Nat
  deviceType : Option Nat
  wtUrl : Option Nat
  wtCertHash : Option Nat

inductive Cell where
  | signaling (s : BoltSignaling)
  | peer (p : RawPeer)
  | string (text : String)

abbrev Memory := Boxes Cell

/--
What a signaling client is started with.
-/
structure SignalingConfig where
  serverUrl : String
  cloudUrl : Option String
  peerCode : String
  deviceName : String
  deviceType : String
  wtUrl : Option String
  wtCertHash : Option String

/--
What `send_signal` of the signaling client is called with.
-/
structure OutgoingSignal where
  toPeerCode : String
  signalType : String
  data : Json
  fromPeer : String

namespace Memory

/-! ### Strings -/

/--
`CString::into_raw`, with the null pointer where there is no text.
-/
def intoRawString (m : Memory) (text : Option String) : Option Nat × Memory :=
  match text with
  | some text =>
    let (ptr, m) := m.intoRaw (.string text)
    (some ptr, m)
  | none => (none, m)

/--
`String(cString:)` on a pointer that may be null.
-/
def readString (m : Memory) (ptr : Option Nat) : Option (Option String) :=
  match ptr with
  | none => some none
  | some ptr =>
    match m.deref ptr with
    | some (.string text) => some (some text)
    | _ => none

def boltFreeString (m : Memory) (ptr : Option Nat) : Option Memory :=
  match ptr with
  | none => some m
  | some ptr =>
    match m.fromRaw ptr with
    | some (.string _, m) => some m
    | _ => none

/-! ### Handles -/

def signaling (m : Memory) (handle : Nat) : Option BoltSignaling :=
  match m.deref handle with
  | some (.signaling s) => some s
  | _ => none

/--
The configuration is that of the client that is spawned.
-/
def boltSignalingStart (m : Memory) (localUrl : String) (cloudUrl : Option String)
    (peerCode deviceName : String) (wtUrl wtCertHash : Option String) : (Nat × Memory) × SignalingConfig :=
  (m.intoRaw (.signaling (.start (cStr peerCode))),
    { serverUrl := cStr localUrl
      cloudUrl := cloudUrl.map cStr
      peerCode := cStr peerCode
      deviceName := cStr deviceName
      deviceType := "desktop"
      wtUrl := wtUrl.map cStr
      wtCertHash := wtCertHash.map cStr })

/--
The callback runs on a thread of its own, which shares what is behind the handle.
-/
def callback (toJson : Json → Option String) (m : Memory) (handle : Nat) (event : DiscoveryEvent) :
    Option Memory := do
  let s ← m.signaling handle
  m.write handle (.signaling (s.callback toJson event))

def boltSignalingIsConnected (m : Memory) (handle : Option Nat) : Option Int32 :=
  match handle with
  | none => some 0
  | some handle => (m.signaling handle).map (·.isConnected)

def boltSignalingPeerCount (m : Memory) (handle : Option Nat) : Option UInt32 :=
  match handle with
  | none => some 0
  | some handle => (m.signaling handle).map (·.peerCount)

def boltSignalingDrainEvents (m : Memory) (handle : Option Nat) : Option (UInt32 × Memory) :=
  match handle with
  | none => some (0, m)
  | some handle => do
    let s ← m.signaling handle
    let (count, s) := s.drainEvents
    some (count, ← m.write handle (.signaling s))

def boltSignalingDrainSignals (m : Memory) (handle : Option Nat) : Option (Option Nat × Memory) :=
  match handle with
  | none => some (none, m)
  | some handle => do
    let s ← m.signaling handle
    let (joined, s) := s.drainSignals
    let m ← m.write handle (.signaling s)
    some (intoRawString m joined)

def boltSignalingSendSignal (fromStr : String → Option Json) (m : Memory) (handle : Option Nat)
    (toPeerCode signalType dataJson : Option String) : Option (Int32 × Option OutgoingSignal) :=
  match handle, toPeerCode, signalType with
  | some handle, some toPeerCode, some signalType => do
    let s ← m.signaling handle
    let data :=
      match dataJson with
      | none => .obj []
      | some dataJson => (fromStr (cStr dataJson)).getD (.obj [])
    some (1, some { toPeerCode := cStr toPeerCode, signalType := cStr signalType, data, fromPeer := s.peerCode })
  | _, _, _ => some (0, none)

def boltSignalingStop (m : Memory) (handle : Option Nat) : Option Memory :=
  match handle with
  | none => some m
  | some handle =>
    match m.fromRaw handle with
    | some (.signaling _, m) => some m
    | _ => none

/-! ### Peers -/

/--
A text with a NUL in it becomes the null pointer, as `BoltPeer.ofInfo` says.
-/
def newPeer (m : Memory) (peer : BoltPeer) : Nat × Memory :=
  let (wtUrl, m) := intoRawString m peer.wtUrl
  let (wtCertHash, m) := intoRawString m peer.wtCertHash
  let (peerCode, m) := intoRawString m peer.peerCode
  let (deviceName, m) := intoRawString m peer.deviceName
  let (deviceType, m) := intoRawString m peer.deviceType
  m.intoRaw (.peer { peerCode, deviceName, deviceType, wtUrl, wtCertHash })

def boltSignalingGetPeer (m : Memory) (handle : Option Nat) (index : UInt32) :
    Option (Option Nat × Memory) :=
  match handle with
  | none => some (none, m)
  | some handle => do
    let s ← m.signaling handle
    match s.getPeer index with
    | none => some (none, m)
    | some peer =>
      let (ptr, m) := newPeer m peer
      some (some ptr, m)

/--
`peerPtr.pointee`, and the texts behind its pointers.
-/
def readPeer (m : Memory) (ptr : Nat) : Option BoltPeer :=
  match m.deref ptr with
  | some (.peer p) => do
    some {
      peerCode := ← readString m p.peerCode
      deviceName := ← readString m p.deviceName
      deviceType := ← readString m p.deviceType
      wtUrl := ← readString m p.wtUrl
      wtCertHash := ← readString m p.wtCertHash
    }
  | _ => none

def boltPeerFree (m : Memory) (peer : Option Nat) : Option Memory :=
  match peer with
  | none => some m
  | some ptr =>
    match m.fromRaw ptr with
    | some (.peer p, m) => do
      let m ← boltFreeString m p.peerCode
      let m ← boltFreeString m p.deviceName
      let m ← boltFreeString m p.deviceType
      let m ← boltFreeString m p.wtUrl
      boltFreeString m p.wtCertHash
    | _ => none

end Memory

end Bridge

end LocalBolt
