import LocalBolt.App.Lemmas.DaemonHost

/-!
This module contains what a daemon finds in the files of its requests, whatever a remote peer has put into
its addresses.
-/

namespace LocalBolt

namespace Bridge

namespace Native

variable {spell : ℚ → List Char}

theorem writeSignal_true (name text : String) (daemon : BoltDaemon)
    : writeSignal name text true daemon = (1, [.write (daemon.dataDir ++ "/" ++ name) text]) := by
  rw [writeSignal, if_pos rfl]

theorem readable_optionalValue (ofNumber : List Char → Option ℚ) (depth : Nat) (s : Option String)
    : JsonText.Readable spell ofNumber depth (optionalValue s) := by
  cases s with
  | none => exact .null
  | some s => exact .str s

theorem normal_optionalValue (s : Option String) : JsonText.normal (optionalValue s) = optionalValue s := by
  cases s <;> rfl

/--
The payload as a reader finds it.
-/
def readPayload (wsUrl quicAddr quicCertHash : Option String) : Json :=
  .obj [("quicAddr", optionalValue quicAddr), ("quicCertHash", optionalValue quicCertHash),
    ("wsUrl", optionalValue wsUrl)]

theorem normal_connectRemotePayload (wsUrl quicAddr quicCertHash : Option String)
    : JsonText.normal (connectRemotePayload wsUrl quicAddr quicCertHash)
        =
      readPayload wsUrl quicAddr quicCertHash := by
  simp only [connectRemotePayload, JsonText.normal, JsonText.normalMembers, normal_optionalValue]
  rfl

theorem normal_readPayload (wsUrl quicAddr quicCertHash : Option String)
    : JsonText.normal (readPayload wsUrl quicAddr quicCertHash)
        =
      readPayload wsUrl quicAddr quicCertHash := by
  simp only [readPayload, JsonText.normal, JsonText.normalMembers, normal_optionalValue]
  rfl

theorem readable_readPayload (ofNumber : List Char → Option ℚ) (wsUrl quicAddr quicCertHash : Option String)
    : JsonText.Readable spell ofNumber JsonText.recursionLimit
        (readPayload wsUrl quicAddr quicCertHash) := by
  refine .obj (by decide) ?_
  simp only [List.forall_mem_cons]
  exact ⟨readable_optionalValue _ _ _, readable_optionalValue _ _ _, readable_optionalValue _ _ _, by simp⟩

/--
The text is one line with one object in it, of these three members and no others.
-/
theorem payload_reads_back (spell : ℚ → List Char) (ofNumber : List Char → Option ℚ) (wsUrl quicAddr quicCertHash : Option String)
    : JsonText.fromStr ofNumber
        (valueToString spell (connectRemotePayload wsUrl quicAddr quicCertHash)).toList
        =
      some (readPayload wsUrl quicAddr quicCertHash)
    ∧ ∀ c ∈ (valueToString spell (connectRemotePayload wsUrl quicAddr quicCertHash)).toList,
        0x20 ≤ c.toNat := by
  have hreadable : JsonText.Readable spell ofNumber _ _ :=
    readable_readPayload ofNumber wsUrl quicAddr quicCertHash
  rw [valueToString, String.toList_ofList, normal_connectRemotePayload]
  refine ⟨?_, hreadable.printable⟩
  rw [JsonText.fromStr_print hreadable, normal_readPayload]

end Native

end Bridge

namespace DaemonHost

open Bridge Bridge.Native

variable {spell : ℚ → List Char} {id : UInt32} {dataDir : String} {s : DaemonHost} {lost : List Nat}

/--
The addresses of a dial as they are passed on: those of QUIC only together.
-/
def dialed (wsUrl : String) (quicAddr quicCertHash : Option String) :
    Option String × Option String × Option String :=
  match quicAddr, quicCertHash with
  | some quicAddr, some quicCertHash =>
    (optionalCstr wsUrl, optionalCstr quicAddr, optionalCstr quicCertHash)
  | _, _ => (optionalCstr wsUrl, none, none)

theorem Sound.ask_eq (h : s.Sound id dataDir lost) (hhandle : s.handle.isSome = true) :
    ∃ daemon : BoltDaemon, daemon.dataDir = dataDir
      ∧ ∀ (null : Int32 × List FileOp) answer, s.native.ask s.handle null answer = some (answer daemon) := by
  obtain ⟨ptr, hptr⟩ := Option.isSome_iff_exists.mp hhandle
  obtain ⟨child, process, hholds⟩ := h.holds ptr hptr
  obtain ⟨daemon, hderef, -⟩ := hholds.daemon
  refine ⟨daemon, (h.paths ptr daemon hderef).1, ?_⟩
  intro null answer
  rw [hptr, ask_some hderef]

theorem Sound.connectRemoteV2_eq (h : s.Sound id dataDir lost) (spell : ℚ → List Char)
    (hhandle : s.handle.isSome = true) (wsUrl quicAddr quicCertHash : Option String)
    : s.native.boltDaemonConnectRemoteV2 spell s.handle wsUrl quicAddr quicCertHash true
        =
      if (optionalCstr wsUrl).isNone && (optionalCstr quicAddr).isNone then
        some (0, [])
      else
        some (1, [.write (dataDir ++ "/" ++ "connect_remote.signal")
          (valueToString spell (connectRemotePayload (optionalCstr wsUrl) (optionalCstr quicAddr)
            (optionalCstr quicCertHash)))]) := by
  obtain ⟨daemon, hdir, hask⟩ := h.ask_eq hhandle
  simp only [boltDaemonConnectRemoteV2, hask, writeSignal_true, hdir, apply_ite some]

theorem Sound.dial_eq (h : s.Sound id dataDir lost) (spell : ℚ → List Char)
    (hhandle : s.handle.isSome = true) (wsUrl : String) (quicAddr quicCertHash : Option String)
    {ws quic hash : Option String} (hdialed : dialed wsUrl quicAddr quicCertHash = (ws, quic, hash))
    : s.request spell (.connectToRemote wsUrl quicAddr quicCertHash) true
        =
      if ws.isNone && quic.isNone then
        some (0, [])
      else
        some (1, [.write (dataDir ++ "/" ++ "connect_remote.signal")
          (valueToString spell (connectRemotePayload ws quic hash))]) := by
  have hnone : s.handle.isNone = false := by
    rw [← Option.not_isSome, hhandle]
    rfl
  simp only [DaemonHost.request, hnone, Bool.false_eq_true, if_false, DaemonHost.connectToRemote]
  unfold dialed at hdialed
  split at hdialed
  . simp only [Prod.mk.injEq] at hdialed
    obtain ⟨rfl, rfl, rfl⟩ := hdialed
    simp only [h.connectRemoteV2_eq spell hhandle]
  . simp only [Prod.mk.injEq] at hdialed
    obtain ⟨rfl, rfl, rfl⟩ := hdialed
    simp only [h.connectRemoteV2_eq spell hhandle]
    rfl

theorem Sound.allow_eq (h : s.Sound id dataDir lost) (hhandle : s.handle.isSome = true)
    {quicCertHash : Option String} {ops : List FileOp}
    (hrequest : s.request spell (.allowQuicPeerCertHash quicCertHash) true = some (1, ops)) :
    ∃ value text, quicCertHash = some value ∧ text = Cli.trim (cStr value)
      ∧ ops = [.write (dataDir ++ "/" ++ "allow_quic_peer.signal") text]
      ∧ text.utf8ByteSize = 64 ∧ ∀ c ∈ text.toList, isAsciiHexDigit c = true := by
  obtain ⟨daemon, hdir, hask⟩ := h.ask_eq hhandle
  have hnone : s.handle.isNone = false := by
    rw [← Option.not_isSome, hhandle]
    rfl
  simp only [DaemonHost.request, hnone, Bool.false_eq_true, if_false, DaemonHost.allowQuicPeerCertHash]
    at hrequest
  split at hrequest
  . simp at hrequest
  . next value hvalue =>
    simp only [boltDaemonAllowQuicPeerCertHash, hask, writeSignal_true, hdir, Option.some.injEq] at hrequest
    split at hrequest
    . simp at hrequest
    . next hhex =>
      rw [Bool.or_eq_true, not_or, decide_eq_true_eq, not_not, Bool.not_eq_true', Bool.not_eq_false,
        List.all_eq_true] at hhex
      obtain ⟨hsize, hhex⟩ := hhex
      have hops := (Prod.mk.inj hrequest).2
      exact ⟨value, _, (Option.filter_eq_some_iff.mp hvalue).1, rfl, hops.symm, hsize, hhex⟩

/--
In whatever state the app is: what it asks of its daemon about a peer is read back by the daemon as it
was meant, whatever texts the peer has sent. A dial is one line with one object of three members, the
addresses up to a NUL and without white space around them; it is not made only when there is no address. A
peer is let in by 64 hexadecimal digits.
-/
theorem peer_requests_read_back {daemonBinaryPath : Option String}
    (h : (machine spell id dataDir daemonBinaryPath).Reachable s) (hhandle : s.handle.isSome = true)
    (ofNumber : List Char → Option ℚ)
    : (∀ wsUrl quicAddr quicCertHash,
        let (ws, quic, hash) := dialed wsUrl quicAddr quicCertHash
        if ws.isNone && quic.isNone then
          s.request spell (.connectToRemote wsUrl quicAddr quicCertHash) true = some (0, [])
        else
          ∃ text, s.request spell (.connectToRemote wsUrl quicAddr quicCertHash) true
              = some (1, [.write (dataDir ++ "/" ++ "connect_remote.signal") text])
            ∧ JsonText.fromStr ofNumber text.toList = some (readPayload ws quic hash)
            ∧ ∀ c ∈ text.toList, 0x20 ≤ c.toNat)
    ∧ ∀ quicCertHash ops,
        s.request spell (.allowQuicPeerCertHash quicCertHash) true = some (1, ops) →
        ∃ value text, quicCertHash = some value ∧ text = Cli.trim (cStr value)
          ∧ ops = [.write (dataDir ++ "/" ++ "allow_quic_peer.signal") text]
          ∧ text.utf8ByteSize = 64 ∧ ∀ c ∈ text.toList, isAsciiHexDigit c = true := by
  obtain ⟨tr, hrun⟩ := h.run
  have hsound := sound_of_run hrun
  constructor
  . intro wsUrl quicAddr quicCertHash
    obtain ⟨⟨ws, quic, hash⟩, hdialed⟩ : ∃ addresses, dialed wsUrl quicAddr quicCertHash = addresses :=
      ⟨_, rfl⟩
    have hdial := hsound.dial_eq spell hhandle wsUrl quicAddr quicCertHash hdialed
    rw [hdialed]
    dsimp only
    split
    . next hnone => rw [hdial, if_pos hnone]
    . next hsome =>
      obtain ⟨hread, hprintable⟩ := payload_reads_back spell ofNumber ws quic hash
      exact ⟨_, by rw [hdial, if_neg hsome], hread, hprintable⟩
  . intro quicCertHash ops hrequest
    exact hsound.allow_eq hhandle hrequest

theorem quoted_url_reads_back :
    ∃ s text, Machine.exec (next fun _ => []) (init 1000 "/data" (some "bolt-daemon")) [.start 0 (some 4711)]
        = some s
      ∧ s.request (fun _ => []) (.connectToRemote " \",\"" none none) true
        = some (1, [.write ("/data" ++ "/" ++ "connect_remote.signal") text])
      ∧ JsonText.fromStr (fun _ => none) text.toList = some (readPayload (some "\",\"") none none) := by
  obtain ⟨s, hs⟩ : ∃ s, Machine.exec (next fun _ => []) (init 1000 "/data" (some "bolt-daemon"))
      [.start 0 (some 4711)] = some s := ⟨_, rfl⟩
  have hhandle : s.handle.isSome = true := by
    obtain rfl := Option.some.inj hs
    rfl
  have hdialed : dialed " \",\"" none none = (some "\",\"", none, none) := by decide
  have hread := (peer_requests_read_back (Machine.reachable_of_exec hs) hhandle fun _ => none).1 " \",\"" none
    none
  rw [hdialed] at hread
  obtain ⟨text, hrequest, hfromStr, -⟩ := hread
  exact ⟨s, text, hs, hrequest, hfromStr⟩

end DaemonHost

end LocalBolt
