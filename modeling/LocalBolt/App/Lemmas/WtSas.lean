import LocalBolt.App.Lemmas.WtTracking

/-!
This module contains which session the SAS belongs to that the daemon manager shows beside its flag.
-/

namespace LocalBolt

namespace WtLog

/-! ### The SAS of a session -/

/--
The SAS a line of the log announces.
-/
def sas? (line : List UInt8) : Option String := (Utf8.decode? line).bind WtScan.sas?

def lastSas (lines : List (List UInt8)) : Option String := (lines.filterMap sas?).getLast?

/--
What the last lifecycle line says, where a registered session is looked for first.
-/
def status (lines : List (List UInt8)) : Option Bool :=
  (lines.filter isLifecycle).getLast?.map isRegistered

/--
The lines of the log that a poll reads.
-/
def readLines (log : List (List UInt8)) : List (List UInt8) := (window log).map Utf8.encode

def sessions (log : List (List UInt8)) : Nat := log.countP isRegistered

theorem status_map_encode (texts : List String) :
    status (texts.map Utf8.encode) = (texts.filterMap WtScan.lifecycle?).getLast? := by
  induction texts using List.reverseRecOn with
  | nil => rfl
  | append_singleton texts text ih =>
    have hlifecycle := isLifecycle_encode text
    have hregistered := isRegistered_encode text
    rw [status, List.map_append, List.filter_append, List.getLast?_append, List.filterMap_append,
      List.getLast?_append, ← ih, status]
    cases htext : WtScan.lifecycle? text with
    | none => simp [hlifecycle, htext]
    | some active => simp [hlifecycle, hregistered, htext]

theorem rdropWhile_map {α β : Type} (f : α → β) (p : β → Bool) (l : List α) :
    (l.map f).rdropWhile p = (l.rdropWhile (p ∘ f)).map f := by
  rw [List.rdropWhile, List.rdropWhile, ← List.map_reverse, List.dropWhile_map, List.map_reverse]

theorem lastSas_map_encode (texts : List String) :
    lastSas (texts.map Utf8.encode) = (texts.filterMap WtScan.sas?).getLast? := by
  have hsas : sas? ∘ Utf8.encode = WtScan.sas? := by
    funext text
    simp [sas?]
  rw [lastSas, List.filterMap_map, hsas]

theorem lastSas_throughRegistered_map_encode (texts : List String)
    : lastSas (throughRegistered (texts.map Utf8.encode))
        =
      ((texts.rdropWhile fun text => WtScan.lifecycle? text ≠ some true).filterMap WtScan.sas?).getLast? := by
  have hregistered : (fun line => !isRegistered line) ∘ Utf8.encode
      = fun text => decide (WtScan.lifecycle? text ≠ some true) := by
    funext text
    simp [isRegistered_encode]
  rw [throughRegistered, rdropWhile_map, hregistered, lastSas_map_encode]

/--
The poll sees the state and the SAS of the lines it reads.
-/
theorem windowScan_eq (log : List (List UInt8))
    : (windowScan log).latestWtLifecycle = status (readLines log)
        ∧ (status (readLines log) = some true →
            (windowScan log).latestRegisteredSas = lastSas (throughRegistered (readLines log))) := by
  rw [readLines, status_map_encode, lastSas_throughRegistered_map_encode, windowScan,
    WtScan.latestWtLifecycle_foldl]
  refine ⟨rfl, ?_⟩
  intro hstatus
  apply WtScan.latestRegisteredSas_foldl
  rw [WtScan.latestWtLifecycle_foldl, hstatus]

/--
Without another registered session, the latest one and its announcement stay what they were.
-/
theorem throughRegistered_append {log new : List (List UInt8)}
    (h : sessions (log ++ new) = sessions log) : throughRegistered (log ++ new) = throughRegistered log := by
  have hnew : ∀ line ∈ new.reverse, (!isRegistered line) = true := by
    rw [sessions, sessions, List.countP_append, Nat.add_eq_left, List.countP_eq_zero] at h
    simpa using h
  rw [throughRegistered, throughRegistered, List.rdropWhile, List.rdropWhile, List.reverse_append,
    List.dropWhile_append_of_pos hnew]

end WtLog

namespace WtMonitor

/-! ### The SAS that is shown -/

/--
After a poll, the SAS shown with an active session is one announced for the latest registered session.
-/
def SasAgrees (t : Transition (WtMonitor × Log) Action) : Prop :=
  t.action = .poll → t.target.1.daemon.wtSessionActive = true →
    ∀ sas, t.target.1.daemon.wtSessionSAS = some sas →
      ∃ line ∈ WtLog.announcement t.source.2.written, WtLog.sas? line = some sas

/--
The lines a poll reads tell the latest session from those before it.
-/
structure Announced (p : WtMonitor × Log) : Prop where
  /-- The last SAS they hold before a registered session has been announced for it. -/
  own : WtLog.status (WtLog.readLines p.2.written) = some true →
    ∀ sas, WtLog.lastSas (WtLog.throughRegistered (WtLog.readLines p.2.written)) = some sas →
      WtLog.lastSas (WtLog.announcement p.2.written) = some sas
  /-- While they hold neither that nor the end of a session, no other session has been registered. -/
  same : p.1.daemon.wtSessionActive = true → p.1.daemon.wtSessionSAS.isSome = true →
    WtLog.status (WtLog.readLines p.2.written) ≠ some false →
    (WtLog.status (WtLog.readLines p.2.written) = some true →
      WtLog.lastSas (WtLog.throughRegistered (WtLog.readLines p.2.written)) = none) →
    WtLog.sessions p.2.written = WtLog.sessions p.2.polled

def PollAnnounced (t : Transition (WtMonitor × Log) Action) : Prop :=
  t.action = .poll → t.source.1.running = true → Announced t.source

/--
What is shown has been announced for the latest session of the lines before the last poll.
-/
def ShowsOwn (p : WtMonitor × Log) : Prop :=
  p.1.daemon.wtSessionActive = true →
    p.1.daemon.handle = true
      ∧ ∀ sas, p.1.daemon.wtSessionSAS = some sas →
          ∃ line ∈ WtLog.announcement p.2.polled, WtLog.sas? line = some sas

theorem mem_of_lastSas {lines : List (List UInt8)} {sas : String} (h : WtLog.lastSas lines = some sas) :
    ∃ line ∈ lines, WtLog.sas? line = some sas :=
  List.mem_filterMap.mp (List.mem_of_getLast? h)

theorem Announced.same_announcement {p : WtMonitor × Log} (h : Announced p) (hfollows : Follows p)
    (hactive : p.1.daemon.wtSessionActive = true) {sas : String}
    (hsas : p.1.daemon.wtSessionSAS = some sas)
    (hstatus : WtLog.status (WtLog.readLines p.2.written) ≠ some false)
    (hnone : WtLog.status (WtLog.readLines p.2.written) = some true →
      WtLog.lastSas (WtLog.throughRegistered (WtLog.readLines p.2.written)) = none) :
    WtLog.announcement p.2.written = WtLog.announcement p.2.polled := by
  have hsessions := h.same hactive (hsas ▸ rfl) hstatus hnone
  obtain ⟨new, hnew⟩ := hfollows.polled
  rw [← hnew] at hsessions ⊢
  rw [WtLog.announcement, WtLog.announcement, WtLog.throughRegistered_append hsessions]

theorem Announced.afterPoll {p : WtMonitor × Log} (h : Announced p) (hfollows : Follows p)
    (hrunning : p.1.running = true) (hshows : ShowsOwn p) : ShowsOwn (afterPoll p) := by
  obtain ⟨recentStderr, hpoll, -⟩ := hfollows.poll hrunning
  obtain ⟨hlatest, hpaired⟩ := WtLog.windowScan_eq p.2.written
  have hsame := fun (sas : String) hactive hsas =>
    h.same_announcement hfollows hactive (hsas : p.1.daemon.wtSessionSAS = some sas)
  rw [ShowsOwn, WtMonitor.afterPoll, hpoll, DaemonManager.applyLifecycle_eq, hlatest]
  dsimp only
  intro hactive
  refine ⟨(hfollows.daemon hrunning).1, ?_⟩
  intro sas hsas
  cases hstatus : WtLog.status (WtLog.readLines p.2.written) with
  | none =>
    rw [hstatus] at hactive hsas hsame
    rw [hsame sas hactive hsas (by simp) (by simp)]
    exact (hshows hactive).2 sas hsas
  | some active =>
    cases active with
    | false => simp [hstatus] at hactive
    | true =>
      rw [hstatus] at hsas hsame
      rw [hpaired hstatus] at hsas
      cases hlast : WtLog.lastSas (WtLog.throughRegistered (WtLog.readLines p.2.written)) with
      | some own =>
        obtain rfl : own = sas := by simpa [hlast] using hsas
        exact mem_of_lastSas (h.own hstatus own hlast)
      | none =>
        simp only [hlast, Option.none_or] at hsas
        by_cases hwas : p.1.daemon.wtSessionActive = true
        . rw [if_pos hwas] at hsas
          rw [hsame sas hwas hsas (by simp) fun _ => hlast]
          exact (hshows hwas).2 sas hsas
        . simp [hwas] at hsas

/--
Once the daemon has exited, a poll ends what was shown.
-/
theorem ShowsOwn.afterPoll_exited {p : WtMonitor × Log} (h : ShowsOwn p) (hrunning : p.1.running = false) :
    (afterPoll p).1.daemon.wtSessionActive = false := by
  rw [WtMonitor.afterPoll, hrunning]
  dsimp only
  unfold DaemonManager.poll
  split
  . rfl
  . next hhandle =>
    cases hactive : p.1.daemon.wtSessionActive with
    | false => rfl
    | true => exact absurd (h hactive).1 hhandle

def sasText : String := "[SAS] 482913"

/--
The second session is registered without a SAS of its own.
-/
def reconnected : List String :=
  [sasText, Bridge.StderrCapture.registeredText, "[WT_SESSION] ACTIVE_SESSION cleared",
    Bridge.StderrCapture.registeredText]

/--
A session announces its SAS and is registered.
-/
def connected : List String := [sasText, Bridge.StderrCapture.registeredText]

end WtMonitor

end LocalBolt
