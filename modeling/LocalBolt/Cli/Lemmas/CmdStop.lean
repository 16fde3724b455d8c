import LocalBolt.Cli.Lemmas.Commands

/-!
This module contains which processes `stop` sends a signal to, and when, whatever the system answers.
-/

namespace LocalBolt

namespace Cli

/-! ### What is looked at -/

def isSignal : Script.Event Op → Bool
  | ⟨.processTerminate _, _⟩ | ⟨.processForceKill _, _⟩ => true
  | _ => false

def signals (h : Events) : Events := h.filter isSignal

theorem signals_append (h h' : Events) : signals (h ++ h') = signals h ++ signals h' := by
  apply List.filter_append

theorem signals_cons (e : Script.Event Op) (h : Events)
    : signals (e :: h) = (if isSignal e then [e] else []) ++ signals h := by
  rw [signals, List.filter_cons]
  split <;> rfl

theorem mem_signals {e : Script.Event Op} {h : Events} (he : isSignal e = true) : e ∈ h ↔ e ∈ signals h := by
  rw [signals, List.mem_filter]
  simp [he]

theorem sigterm_ne_sigkill (pid pid' : UInt32) : sigterm pid ≠ sigkill pid' := by
  intro h
  cases h

theorem sigterm_inj {pid pid' : UInt32} (h : sigterm pid = sigterm pid') : pid = pid' := by
  cases h
  rfl

theorem sigkill_inj {pid pid' : UInt32} (h : sigkill pid = sigkill pid') : pid = pid' := by
  cases h
  rfl

def removedPath : Script.Event Op → Option String
  | ⟨.removeFile path, _⟩ => some path
  | _ => none

def removed (h : Events) : List String := h.filterMap removedPath

theorem removed_append (h h' : Events) : removed (h ++ h') = removed h ++ removed h' := by
  apply List.filterMap_append

theorem removed_cons (e : Script.Event Op) (h : Events)
    : removed (e :: h) = (removedPath e).toList ++ removed h := by
  rw [removed, List.filterMap_cons]
  split <;> simp_all [removed]

/-! ### Stopping a process -/

/--
The rounds in which `stop` waits, and the last one if the daemon is gone.
-/
def StillThere (cfg : Config) (round : Events) : Prop :=
  round = [⟨.sleep 250, ()⟩, ⟨.probe cfg.socketPath, true⟩]

def Gone (cfg : Config) (_ : Unit) (round : Events) : Prop :=
  round = [⟨.sleep 250, ()⟩, ⟨.probe cfg.socketPath, false⟩]

theorem stillThere_flatten {cfg : Config} {rounds : List Events} (h : ∀ round ∈ rounds, StillThere cfg round)
    : probes rounds.flatten = List.replicate rounds.length true ∧ signals rounds.flatten = []
    ∧ removed rounds.flatten = [] := by
  induction rounds with
  | nil => exact ⟨rfl, rfl, rfl⟩
  | cons round rounds ih =>
    obtain ⟨hround, hrounds⟩ := List.forall_mem_cons.mp h
    obtain ⟨hprobes, hsignals, hremoved⟩ := ih hrounds
    rw [StillThere] at hround
    subst hround
    rw [List.flatten_cons, probes_append, signals_append, removed_append, hprobes, hsignals, hremoved]
    exact ⟨rfl, rfl, rfl⟩

def pidFileRemoved (cfg : Config) : Script.Event Op := ⟨.removeFile cfg.pidPath, ()⟩

/--
What `stop` does with a process that is alive: it waits until the socket is gone, or for 20 probes.
-/
inductive Stopped (cfg : Config) (pid : UInt32) : Events → Prop where
  | gone (waiting : Events) (hprobes : ∃ n < 20, probes waiting = List.replicate n true ++ [false])
    (hsignals : signals waiting = []) (hremoved : removed waiting = []) :
    Stopped cfg pid
      (told ("sending SIGTERM to daemon (PID " ++ toString pid.toNat ++ ")...") :: sigterm pid
        :: (waiting ++ [told "daemon stopped", pidFileRemoved cfg]))
  | killed (waiting : Events) (hprobes : probes waiting = List.replicate 20 true)
    (hsignals : signals waiting = []) (hremoved : removed waiting = []) :
    Stopped cfg pid
      (told ("sending SIGTERM to daemon (PID " ++ toString pid.toNat ++ ")...") :: sigterm pid
        :: (waiting ++ [complained "daemon did not stop gracefully, sending SIGKILL", sigkill pid,
          pidFileRemoved cfg, told "daemon killed"]))

theorem wp_stopDaemon (cfg : Config) (pid : UInt32) (past : Events)
    : (stopDaemon cfg pid).wp (fun _ h => ∃ events, h = past ++ events ∧ Stopped cfg pid events) past := by
  unfold stopDaemon
  rw [Script.wp_bind]
  apply wp_tell
  simp only [Script.wp_bind, Script.wp_perform]
  rintro ⟨⟩
  apply Script.wp_attempt (StillThere cfg) (Gone cfg)
  . intro past
    simp only [Script.wp_bind, Script.wp_perform]
    rintro ⟨⟩ there
    cases there with
    | true => exact ⟨_, List.append_assoc .., rfl⟩
    | false => exact ⟨_, List.append_assoc .., rfl⟩
  . rintro result events hattempted
    cases hattempted with
    | found rounds b last hlength hrounds hlast =>
      obtain ⟨hprobes, hsignals, hremoved⟩ := stillThere_flatten hrounds
      rw [Gone] at hlast
      subst hlast
      simp only [Script.wp_bind]
      apply wp_tell
      rintro ⟨⟩
      refine ⟨_, ?_, .gone (rounds.flatten ++ [⟨.sleep 250, ()⟩, ⟨.probe cfg.socketPath, false⟩])
        ⟨rounds.length, hlength, ?_⟩ ?_ ?_⟩
      . simp only [List.append_assoc, List.cons_append, List.nil_append]
        rfl
      . rw [probes_append, hprobes]
        rfl
      . rw [signals_append, hsignals]
        rfl
      . rw [removed_append, hremoved]
        rfl
    | exhausted rounds hlength hrounds =>
      obtain ⟨hprobes, hsignals, hremoved⟩ := stillThere_flatten hrounds
      simp only [Script.wp_bind, Script.wp_perform]
      apply wp_complain
      rintro ⟨⟩ ⟨⟩
      apply wp_tell
      refine ⟨_, ?_, .killed rounds.flatten (by rw [hprobes, hlength]) hsignals hremoved⟩
      simp only [List.append_assoc, List.cons_append, List.nil_append]
      rfl

/--
What `stop` has done with the status it gives: nothing, where no daemon answers; nothing but complain,
where the PID file does not name a process that is alive; or else it has stopped that process.
-/
inductive StopRun (cfg : Config) : Nat → Events → Prop where
  | idle : StopRun cfg 0 [⟨.probe cfg.socketPath, false⟩, told "daemon not running"]
  | unknown (reads : Events) (hprobes : probes reads = []) (hsignals : signals reads = [])
    (hremoved : removed reads = []) :
    StopRun cfg 1 (⟨.probe cfg.socketPath, true⟩ :: (reads ++
      [complained "daemon socket exists but no PID file found",
        complained ("remove stale socket manually: " ++ cfg.socketPath)]))
  | stopped (text : String) (pid : UInt32) (hpid : parsePid (trim text) = some pid) (events : Events)
    (hstopped : Stopped cfg pid events) :
    StopRun cfg 0 (⟨.probe cfg.socketPath, true⟩ :: ⟨.readToString cfg.pidPath, some text⟩
      :: ⟨.processAlive pid, true⟩ :: events)

theorem wp_unknown (cfg : Config) {reads : Events} (hprobes : probes reads = []) (hsignals : signals reads = [])
    (hremoved : removed reads = [])
    : (noPidFile cfg).wp (StopRun cfg) (⟨.probe cfg.socketPath, true⟩ :: reads) := by
  rw [noPidFile, Script.wp_bind]
  apply wp_complain
  rw [Script.wp_bind]
  apply wp_complain
  rw [Script.wp_pure, List.append_assoc]
  exact .unknown reads hprobes hsignals hremoved

theorem wp_cmdStop (cfg : Config) : (cmdStop cfg).wp (StopRun cfg) [] := by
  unfold cmdStop livePid
  simp only [Script.wp_bind, Script.wp_perform]
  rintro running
  cases running with
  | false =>
    rw [if_neg Bool.false_ne_true, Script.wp_bind]
    apply wp_tell
    exact .idle
  | true =>
    rw [if_pos rfl]
    simp only [Script.wp_bind, Script.wp_perform]
    intro text
    cases hread : text.bind fun text => parsePid (trim text) with
    | none => exact wp_unknown cfg rfl rfl rfl
    | some pid =>
      obtain ⟨text, rfl, hpid⟩ := Option.bind_eq_some_iff.mp hread
      clear hread
      simp only [Script.wp_bind, Script.wp_perform]
      intro alive
      cases alive with
      | false => exact wp_unknown cfg rfl rfl rfl
      | true =>
        rw [if_pos rfl, Script.wp_pure]
        simp only [Script.wp_bind]
        apply Script.wp_mono (wp_stopDaemon cfg pid _)
        rintro ⟨⟩ h ⟨events, rfl, hstopped⟩
        rw [Script.wp_pure]
        simp only [List.nil_append, List.cons_append]
        exact .stopped text pid hpid events hstopped

/-! ### Signals -/

theorem Stopped.signals_eq {cfg : Config} {pid : UInt32} {events : Events} (h : Stopped cfg pid events)
    : (signals events = [sigterm pid] ∨ signals events = [sigterm pid, sigkill pid])
    ∧ removed events = [cfg.pidPath] := by
  cases h with
  | gone waiting hprobes hsignals hremoved =>
    rw [signals_cons, signals_cons, signals_append, hsignals, removed_cons, removed_cons, removed_append,
      hremoved]
    exact ⟨.inl rfl, rfl⟩
  | killed waiting hprobes hsignals hremoved =>
    rw [signals_cons, signals_cons, signals_append, hsignals, removed_cons, removed_cons, removed_append,
      hremoved]
    exact ⟨.inr rfl, rfl⟩

theorem Stopped.of_sigterm {cfg : Config} {pid p : UInt32} {events : Events} (h : Stopped cfg pid events)
    (hp : sigterm p ∈ signals events) : p = pid := by
  rcases h.signals_eq.1 with hsignals | hsignals
  . rw [hsignals, List.mem_singleton] at hp
    exact sigterm_inj hp
  . rw [hsignals, List.mem_pair] at hp
    rcases hp with hp | hp
    . exact sigterm_inj hp
    . exact absurd hp (sigterm_ne_sigkill p pid)

theorem Stopped.of_sigkill {cfg : Config} {pid p : UInt32} {events : Events} (h : Stopped cfg pid events)
    (hp : sigkill p ∈ signals events) : ∃ before waiting after,
      events = before ++ sigterm p :: (waiting ++ sigkill p :: after)
        ∧ probes waiting = List.replicate 20 true ∧ signals (before ++ waiting ++ after) = [] := by
  cases h with
  | gone waiting hprobes hsignals hremoved =>
    rw [signals_cons, signals_cons, signals_append, hsignals] at hp
    exact absurd (List.mem_singleton.mp hp).symm (sigterm_ne_sigkill pid p)
  | killed waiting hprobes hsignals hremoved =>
    rw [signals_cons, signals_cons, signals_append, hsignals] at hp
    rcases List.mem_pair.mp hp with hp | hp
    . exact absurd hp.symm (sigterm_ne_sigkill pid p)
    . rw [sigkill_inj hp]
      refine ⟨[told ("sending SIGTERM to daemon (PID " ++ toString pid.toNat ++ ")...")],
        waiting ++ [complained "daemon did not stop gracefully, sending SIGKILL"],
        [pidFileRemoved cfg, told "daemon killed"], ?_, ?_, ?_⟩
      . simp only [List.append_assoc, List.cons_append, List.nil_append]
      . rw [probes_append, hprobes]
        rfl
      . rw [signals_append, signals_append, signals_append, hsignals]
        rfl

theorem Stopped.exists_sigterm {cfg : Config} {pid : UInt32} {events : Events} (h : Stopped cfg pid events)
    : ∃ line after, events = told line :: sigterm pid :: after := by
  cases h with
  | gone waiting => exact ⟨_, _, rfl⟩
  | killed waiting => exact ⟨_, _, rfl⟩

end Cli

end LocalBolt
