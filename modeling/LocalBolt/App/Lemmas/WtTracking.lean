import LocalBolt.App.Lemmas.WtScan
import LocalBolt.Bridge.Lemmas.Stderr

/-!
This module contains how the daemon manager follows the sessions in the log by polling its tail: what a
poll does in terms of the lines it can read, and when its flag agrees with the whole log.
-/

namespace LocalBolt

namespace WtLog

open Bridge

/--
The lines the thread has captured of the log.
-/
def captured (log : List (List UInt8)) : List String :=
  (log.takeWhile StderrCapture.Decodable).filterMap Utf8.decode?

/--
A tail with a NUL in it cannot be handed over.
-/
def readable (lines : List String) : List String :=
  if lines.all fun line => Char.ofNat 0 ∉ line.toList then lines else []

/--
The lines a poll can read.
-/
def window (log : List (List UInt8)) : List String := readable ((captured log).rtake 30)

def windowScan (log : List (List UInt8)) : WtScan := (window log).foldl WtScan.scanLine {}

end WtLog

namespace DaemonManager

/-! ### What a poll does -/

theorem applyLifecycle_eq (d : DaemonManager) (scan : WtScan)
    : d.applyLifecycle scan
        =
      { d with
        wtSessionActive := scan.latestWtLifecycle.getD d.wtSessionActive
        wtSessionSAS :=
          match scan.latestWtLifecycle with
          | some true =>
            scan.latestRegisteredSas.or (if d.wtSessionActive then d.wtSessionSAS else none)
          | some false => if d.wtSessionActive then none else d.wtSessionSAS
          | none => d.wtSessionSAS } := by
  obtain ⟨isRunning, wsPort, recentStderr, binaryPath, wtUrl, wtHash, quicAddr, quicHash, shown, sas, handle⟩ := d
  unfold applyLifecycle
  cases scan.latestWtLifecycle with
  | none => rfl
  | some active =>
    cases active with
    | true => cases scan.latestRegisteredSas <;> cases shown <;> rfl
    | false => cases shown <;> rfl

theorem applyLifecycle_applyLifecycle (d : DaemonManager) (scan : WtScan) :
    (d.applyLifecycle scan).applyLifecycle scan = d.applyLifecycle scan := by
  rw [applyLifecycle_eq, applyLifecycle_eq]
  cases hlatest : scan.latestWtLifecycle with
  | none => rfl
  | some active =>
    cases active <;> cases hsas : scan.latestRegisteredSas <;> simp

/--
The tail that was read last has nothing new to say.
-/
def Settled (d : DaemonManager) : Prop := d.applyLifecycle (.ofTail d.recentStderr) = d

theorem applyLifecycle_frame (d : DaemonManager) (scan : WtScan) (isRunning : Bool) (recentStderr : String)
    : { d with isRunning, recentStderr }.applyLifecycle scan
        =
      { d.applyLifecycle scan with isRunning, recentStderr } := by
  rw [applyLifecycle_eq, applyLifecycle_eq]

/--
A poll applies what the lines of the tail say, and nothing when there is no tail to be had.
-/
theorem poll_joinLines {d : DaemonManager} (hhandle : d.handle = true) (hsettled : d.Settled)
    {lines : List String} (hlines : ∀ line ∈ lines, Framing.IsLine line)
    : ∃ recentStderr,
        d.poll true (Bridge.cString? (Framing.joinLines lines))
            = { d.applyLifecycle ((WtLog.readable lines).foldl WtScan.scanLine {}) with
                isRunning := true, recentStderr }
          ∧ (d.poll true (Bridge.cString? (Framing.joinLines lines))).Settled := by
  have hpoll : ∀ stderr, d.poll true stderr
      = { d.applyLifecycle (.ofTail (stderr.getD d.recentStderr)) with
          isRunning := true, recentStderr := stderr.getD d.recentStderr } := by
    intro stderr
    rw [← applyLifecycle_frame, poll, if_pos hhandle]
    rfl
  have hpolled : ∀ stderr, (d.poll true stderr).Settled := by
    intro stderr
    rw [Settled, hpoll, applyLifecycle_frame, applyLifecycle_applyLifecycle]
  refine ⟨(Bridge.cString? (Framing.joinLines lines)).getD d.recentStderr, ?_, hpolled _⟩
  rw [hpoll]
  by_cases hnul : ∀ line ∈ lines, Char.ofNat 0 ∉ line.toList
  . rw [Bridge.cString?_joinLines hnul, WtLog.readable, if_pos (by simpa using hnul), Option.getD_some,
      WtScan.ofTail_joinLines hlines]
  . -- the tail stays the one that was read last
    have hnone : Bridge.cString? (Framing.joinLines lines) = none := by
      simp only [not_forall, not_not] at hnul
      obtain ⟨line, hline, hnul⟩ := hnul
      exact if_pos (Framing.mem_joinLines_of_mem hline hnul)
    rw [hnone, WtLog.readable, if_neg (by simpa using hnul), Option.getD_none, hsettled]
    rfl

end DaemonManager

namespace WtMonitor

/-! ### The monitor and the log -/

/--
The monitor has come from the lines of the log.
-/
structure Follows (p : WtMonitor × Log) : Prop where
  capture : p.1.capture = p.2.written.foldl Bridge.StderrCapture.next .start
  isLine : ∀ line ∈ p.2.written, BufRead.newline ∉ line
  polled : p.2.polled <+: p.2.written
  daemon : p.1.running = true → p.1.daemon.handle = true ∧ p.1.daemon.Settled

theorem Follows.isLine_captured {p : WtMonitor × Log} (h : Follows p) :
    ∀ line ∈ WtLog.captured p.2.written, Framing.IsLine line := by
  intro text htext hnewline
  obtain ⟨line, hline, hdecode⟩ := List.mem_filterMap.mp htext
  apply h.isLine line ((List.takeWhile_prefix _).subset hline)
  rw [← Utf8.decode?_eq_some_iff.mp hdecode]
  exact Utf8.byte_mem_encode (by decide) hnewline

theorem Follows.poll {p : WtMonitor × Log} (h : Follows p) (hrunning : p.1.running = true)
    : ∃ recentStderr,
        p.1.daemon.poll p.1.running (p.1.capture.recentStderr 30)
            = { p.1.daemon.applyLifecycle (WtLog.windowScan p.2.written) with
                isRunning := true, recentStderr }
          ∧ (p.1.daemon.poll p.1.running (p.1.capture.recentStderr 30)).Settled := by
  have hbounded : p.1.capture.Bounded := h.capture ▸ Bridge.StderrCapture.foldl_bounded _
  have hpushed : p.1.capture.pushed = WtLog.captured p.2.written := by
    rw [h.capture, (Bridge.StderrCapture.foldl_next rfl _).1]
    rfl
  obtain ⟨hhandle, hsettled⟩ := h.daemon hrunning
  rw [hrunning, hbounded.recentStderr (by decide), hpushed]
  apply DaemonManager.poll_joinLines hhandle hsettled
  intro line hline
  exact h.isLine_captured line ((List.drop_suffix _ _).subset hline)

theorem Follows.poll_wtSessionActive {p : WtMonitor × Log} (h : Follows p) (hrunning : p.1.running = true)
    : (p.1.daemon.poll p.1.running (p.1.capture.recentStderr 30)).wtSessionActive
        =
      (WtLog.windowScan p.2.written).latestWtLifecycle.getD p.1.daemon.wtSessionActive := by
  obtain ⟨recentStderr, hpoll, -⟩ := h.poll hrunning
  rw [hpoll, DaemonManager.applyLifecycle_eq]

theorem Follows.step {daemonBinaryPath : String} {wsPort : UInt16} {p q : WtMonitor × Log}
    {action : Action} (h : Follows p) (hstep : (observed daemonBinaryPath wsPort).step p action q) :
    Follows q := by
  obtain ⟨s, log⟩ := p
  obtain ⟨s', log'⟩ := q
  obtain ⟨hnext, hlog⟩ := hstep
  cases action with
  | line line =>
    obtain rfl : log' = { log with written := log.written ++ [line] } := hlog
    simp only [machine, Machine.ofFun, next] at hnext
    split at hnext
    . simp at hnext
    . next hline =>
      obtain rfl := Option.some.inj hnext
      refine ⟨?_, ?_, h.polled.trans (List.prefix_append _ _), h.daemon⟩
      . have hcapture : s.capture = _ := h.capture
        rw [hcapture, List.foldl_append]
        rfl
      . simpa [or_imp, forall_and] using ⟨h.isLine, hline⟩
  | exit =>
    obtain rfl : log' = log := hlog
    obtain rfl := Option.some.inj hnext
    exact ⟨h.capture, h.isLine, h.polled, by simp⟩
  | poll =>
    obtain rfl : log' = { log with polled := log.written } := hlog
    obtain rfl := Option.some.inj hnext
    refine ⟨h.capture, h.isLine, List.prefix_rfl, ?_⟩
    intro hrunning
    obtain ⟨recentStderr, hpoll, hsettled⟩ := h.poll hrunning
    refine ⟨?_, hsettled⟩
    rw [hpoll, DaemonManager.applyLifecycle_eq]
    exact (h.daemon hrunning).1

theorem follows_init {daemonBinaryPath : String} {wsPort : UInt16} {p : WtMonitor × Log}
    (h : (observed daemonBinaryPath wsPort).init p) : Follows p := by
  obtain ⟨s, log⟩ := p
  obtain ⟨hs, hlog⟩ := h
  obtain rfl : s = _ := hs
  obtain rfl : log = _ := hlog
  exact ⟨rfl, by simp [history], List.prefix_rfl, fun _ => ⟨rfl, rfl⟩⟩

theorem reachable_follows {daemonBinaryPath : String} {wsPort : UInt16} {p : WtMonitor × Log}
    (h : (observed daemonBinaryPath wsPort).Reachable p) : Follows p := by
  apply Machine.Reachable.invariant ?_ ?_ h
  . intro p hinit
    exact follows_init hinit
  . intro p action q _ hp hstep
    exact hp.step hstep

/-! ### The flag and the whole log -/

/--
After a poll of the running daemon the flag says what the last lifecycle token of the log says.
-/
def FlagAgrees (t : Transition (WtMonitor × Log) Action) : Prop :=
  t.action = .poll → t.source.1.running = true →
    t.target.1.daemon.wtSessionActive = WtLog.sessionActive t.source.2.written

/--
The lines a poll can read end with the state of the log, and if there is no lifecycle token in them, it
has not changed since the last poll.
-/
def Log.Shown (log : Log) : Prop :=
  match (WtLog.windowScan log.written).latestWtLifecycle with
  | some active => WtLog.sessionActive log.written = active
  | none => WtLog.sessionActive log.written = WtLog.sessionActive log.polled

theorem Log.flag_iff_shown (log : Log)
    : (WtLog.windowScan log.written).latestWtLifecycle.getD (WtLog.sessionActive log.polled)
          = WtLog.sessionActive log.written
        ↔
      log.Shown := by
  unfold Log.Shown
  cases (WtLog.windowScan log.written).latestWtLifecycle with
  | none => exact eq_comm
  | some active => exact eq_comm

def PollShown (t : Transition (WtMonitor × Log) Action) : Prop :=
  t.action = .poll → t.source.1.running = true → t.source.2.Shown

end WtMonitor

namespace WtLog

open Bridge

theorem captured_map_encode (texts : List String) : captured (texts.map Utf8.encode) = texts := by
  unfold captured
  induction texts with
  | nil => rfl
  | cons text texts ih =>
    have hdecodable : StderrCapture.Decodable (Utf8.encode text) = true := by
      simp [StderrCapture.Decodable]
    rw [List.map_cons, List.takeWhile_cons_of_pos hdecodable,
      List.filterMap_cons_some (Utf8.decode?_encode text), ih]

theorem exists_map_encode {log : List (List UInt8)}
    (h : ∀ line ∈ log, StderrCapture.Decodable line = true) :
    ∃ texts : List String, texts.map Utf8.encode = log := by
  induction log with
  | nil => exact ⟨[], rfl⟩
  | cons line log ih =>
    rw [List.forall_mem_cons] at h
    obtain ⟨text, htext⟩ := Option.isSome_iff_exists.mp h.1
    obtain ⟨texts, rfl⟩ := ih h.2
    exact ⟨text :: texts, by rw [List.map_cons, Utf8.decode?_eq_some_iff.mp htext]⟩

theorem rtake_map {α β : Type} (f : α → β) (l : List α) (n : Nat) :
    (l.map f).rtake n = (l.rtake n).map f := by
  rw [List.rtake, List.rtake, List.map_drop, List.length_map]

theorem readable_eq {texts : List String} (h : ∀ line ∈ texts.map Utf8.encode, 0 ∉ line) :
    readable texts = texts := by
  apply if_pos
  rw [List.all_eq_true]
  intro text htext
  rw [decide_eq_true_eq]
  intro hnul
  exact h _ (List.mem_map_of_mem htext) (Utf8.byte_mem_encode (by decide) hnul)

/--
The state of the log can be read off its newest lines, if the tokens that have come since the last poll
are among them.
-/
theorem shown_of_visible {log : WtMonitor.Log} {hidden visible : List (List UInt8)}
    (hwritten : log.written = log.polled ++ hidden ++ visible)
    (hhidden : ∀ line ∈ hidden, tokens line = []) (hvisible : visible.length ≤ 30)
    (hdecodable : ∀ line ∈ log.written, StderrCapture.Decodable line = true)
    (hnul : ∀ line ∈ log.written.rtake 30, 0 ∉ line)
    (hmixed : ∀ line ∈ log.written.rtake 30, ¬ Mixed line) : log.Shown := by
  obtain ⟨texts, htexts⟩ := exists_map_encode hdecodable
  have hnewest : log.written.rtake 30 = (texts.rtake 30).map Utf8.encode := by
    rw [← rtake_map, htexts]
  have hlatest : (windowScan log.written).latestWtLifecycle
      = ((log.written.rtake 30).flatMap tokens).getLast? := by
    rw [hnewest] at hnul hmixed ⊢
    rw [windowScan, WtScan.latestWtLifecycle_foldl, window, ← htexts, captured_map_encode,
      readable_eq hnul]
    apply getLast?_lifecycle
    intro text htext
    exact hmixed _ (List.mem_map_of_mem htext)
  have hlog : log.written.rdrop 30 ++ log.written.rtake 30 = log.written := List.take_append_drop _ _
  have hlast : (log.written.flatMap tokens).getLast?
      = ((log.written.rtake 30).flatMap tokens).getLast?.or
        ((log.written.rdrop 30).flatMap tokens).getLast? := by
    rw [← List.getLast?_append, ← List.flatMap_append, hlog]
  rw [← log.flag_iff_shown, hlatest]
  cases hnew : ((log.written.rtake 30).flatMap tokens).getLast? with
  | some active =>
    rw [hnew] at hlast
    rw [Option.getD_some, sessionActive, hlast]
    cases active <;> rfl
  | none =>
    have hquiet : visible.flatMap tokens = [] := by
      have hsuffix : visible <:+ log.written.rtake 30 := by
        apply List.suffix_of_suffix_length_le (hwritten ▸ List.suffix_append _ _) (List.drop_suffix _ _)
        rw [List.length_drop, hwritten, List.length_append]
        omega
      rw [List.getLast?_eq_none_iff, List.flatMap_eq_nil_iff] at hnew
      rw [List.flatMap_eq_nil_iff]
      intro line hline
      exact hnew line (hsuffix.subset hline)
    have hhidden : hidden.flatMap tokens = [] := List.flatMap_eq_nil_iff.mpr hhidden
    rw [Option.getD_none, sessionActive, sessionActive, hwritten, List.flatMap_append,
      List.flatMap_append, hhidden, hquiet, List.append_nil, List.append_nil]

end WtLog

namespace WtMonitor

theorem run_lines (daemonBinaryPath : String) (wsPort : UInt16) {lines : List (List UInt8)}
    (h : ∀ line ∈ lines, BufRead.newline ∉ line)
    : ∃ tr, (observed daemonBinaryPath wsPort).Run tr
          ({ started daemonBinaryPath wsPort with
              capture := lines.foldl Bridge.StderrCapture.next .start },
            { written := lines, polled := [] })
        ∧ ∀ t ∈ tr, t.action ≠ .poll := by
  induction lines using List.reverseRecOn with
  | nil => exact ⟨[], .init ⟨rfl, rfl⟩, by simp⟩
  | append_singleton lines line ih =>
    rw [List.forall_mem_append, List.forall_mem_singleton] at h
    obtain ⟨tr, hrun, hquiet⟩ := ih h.1
    rw [List.foldl_append]
    refine ⟨_, .step hrun (a := .line line) ⟨?_, rfl⟩, ?_⟩
    . exact if_neg h.2
    . simpa [or_imp, forall_and] using hquiet

def afterPoll (p : WtMonitor × Log) : WtMonitor × Log :=
  ({ p.1 with daemon := p.1.daemon.poll p.1.running (p.1.capture.recentStderr 30) },
    { p.2 with polled := p.2.written })

theorem run_poll {daemonBinaryPath : String} {wsPort : UInt16}
    {tr : List (Transition (WtMonitor × Log) Action)} {p : WtMonitor × Log}
    (h : (observed daemonBinaryPath wsPort).Run tr p) :
    (observed daemonBinaryPath wsPort).Run (tr ++ [⟨p, .poll, afterPoll p⟩]) (afterPoll p) :=
  .step h ⟨rfl, rfl⟩

/--
A session is registered, and 30 more lines come before the manager looks.
-/
def burst : List String := Bridge.StderrCapture.registeredText :: List.replicate 30 "[INFO] frame sent"

end WtMonitor

end LocalBolt
