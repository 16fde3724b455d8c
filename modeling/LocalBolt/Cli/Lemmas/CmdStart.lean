import LocalBolt.Cli.Lemmas.Commands

/-!
This module contains what becomes of the daemon that `start` has started, whatever the system answers.
-/

namespace LocalBolt

namespace Cli

/-! ### What is looked at -/

def isChild : Script.Event Op → Bool
  | ⟨.spawn _ _, _⟩ | ⟨.tryWait _, _⟩ | ⟨.wait _, _⟩ | ⟨.forget _, _⟩ | ⟨.processTerminate _, _⟩
  | ⟨.processForceKill _, _⟩ => true
  | _ => false

/--
Whatever is done with a child process.
-/
def children (h : Events) : Events := h.filter isChild

theorem children_append (h h' : Events) : children (h ++ h') = children h ++ children h' := by
  apply List.filter_append

theorem children_cons (e : Script.Event Op) (h : Events)
    : children (e :: h) = (if isChild e then [e] else []) ++ children h := by
  rw [children, List.filter_cons]
  split <;> rfl

def spawned (cfg : Config) (wsListen pairingPolicy : String) (result : Except SpawnError UInt32) :
    Script.Event Op :=
  ⟨.spawn cfg.daemonBin (startArgs cfg wsListen pairingPolicy), result⟩

def tryWaited (pid : UInt32) (exited : Option Bool) : Script.Event Op := ⟨.tryWait pid, exited⟩

def sleptBy : Script.Event Op → Nat
  | ⟨.sleep ms, _⟩ => ms
  | _ => 0

/--
How long the command has slept, in milliseconds.
-/
def slept : Events → Nat
  | [] => 0
  | e :: h => sleptBy e + slept h

theorem slept_append (h h' : Events) : slept (h ++ h') = slept h + slept h' := by
  induction h with
  | nil => rw [List.nil_append, slept, Nat.zero_add]
  | cons e h ih => rw [List.cons_append, slept, slept, ih, Nat.add_assoc]

def elapsedAnswer : Script.Event Op → Option Nat
  | ⟨.elapsed, ms⟩ => some ms
  | _ => none

/--
No less time goes by than the command has slept.
-/
def Honest (past : Events) (e : Script.Event Op) : Prop := ∀ ms, elapsedAnswer e = some ms → slept past ≤ ms

/-! ### Terminating a child -/

/--
How a child is ended: it has been found to have exited within 12 tries, or else is killed and waited for.
-/
inductive Ended (pid : UInt32) : Events → Prop where
  | exited (tries : List (Option Bool)) (hlength : tries.length < 12) (hnot : some true ∉ tries) :
    Ended pid (sigterm pid :: (tries.map (tryWaited pid) ++ [tryWaited pid (some true)]))
  | killed (tries : List (Option Bool)) (hlength : tries.length = 12) (hnot : some true ∉ tries) :
    Ended pid (sigterm pid :: (tries.map (tryWaited pid) ++ [sigkill pid, ⟨.wait pid, ()⟩]))

def StillRunning (pid : UInt32) (round : Events) : Prop :=
  ∃ exited, exited ≠ some true ∧ round = [⟨.sleep 250, ()⟩, tryWaited pid exited]

def Exited (pid : UInt32) (_ : Unit) (round : Events) : Prop :=
  round = [⟨.sleep 250, ()⟩, tryWaited pid (some true)]

theorem stillRunning_flatten {pid : UInt32} {rounds : List Events} (h : ∀ round ∈ rounds, StillRunning pid round)
    : ∃ tries : List (Option Bool), tries.length = rounds.length ∧ some true ∉ tries
        ∧ children rounds.flatten = tries.map (tryWaited pid) ∧ probes rounds.flatten = [] := by
  induction rounds with
  | nil => exact ⟨[], rfl, List.not_mem_nil, rfl, rfl⟩
  | cons round rounds ih =>
    obtain ⟨⟨exited, hexited, rfl⟩, hrounds⟩ := List.forall_mem_cons.mp h
    obtain ⟨tries, hlength, hnot, hchildren, hprobes⟩ := ih hrounds
    refine ⟨exited :: tries, congrArg Nat.succ hlength, ?_, ?_, ?_⟩
    . rw [List.mem_cons, not_or]
      exact ⟨hexited.symm, hnot⟩
    . rw [List.flatten_cons, children_append, hchildren]
      rfl
    . rw [List.flatten_cons, probes_append, hprobes]
      rfl

theorem wp_terminateChild (pid : UInt32) (past : Events)
    : (terminateChild pid).wp
        (fun _ h => ∃ events, h = past ++ events ∧ probes events = [] ∧ Ended pid (children events)) past := by
  unfold terminateChild
  simp only [Script.wp_bind, Script.wp_perform]
  rintro ⟨⟩
  apply Script.wp_attempt (StillRunning pid) (Exited pid)
  . intro past
    simp only [Script.wp_bind, Script.wp_perform]
    rintro ⟨⟩ exited
    rw [List.append_assoc]
    rcases exited with _ | exited
    . exact ⟨_, rfl, none, nofun, rfl⟩
    cases exited with
    | true => exact ⟨_, rfl, rfl⟩
    | false => exact ⟨_, rfl, some false, nofun, rfl⟩
  . intro result events hattempted
    cases hattempted with
    | found rounds b last hlength hrounds hlast =>
      obtain ⟨tries, htries, hnot, hchildren, hprobes⟩ := stillRunning_flatten hrounds
      rw [Exited] at hlast
      subst hlast
      refine ⟨sigterm pid :: (rounds.flatten ++ [⟨.sleep 250, ()⟩, tryWaited pid (some true)]), ?_, ?_, ?_⟩
      . rw [List.append_assoc]
        rfl
      . rw [probes_cons, probes_append, hprobes]
        rfl
      . rw [children_cons, children_append, hchildren]
        exact .exited tries (htries ▸ hlength) hnot
    | exhausted rounds hlength hrounds =>
      obtain ⟨tries, htries, hnot, hchildren, hprobes⟩ := stillRunning_flatten hrounds
      simp only [Script.wp_bind, Script.wp_perform]
      rintro ⟨⟩ ⟨⟩
      refine ⟨sigterm pid :: (rounds.flatten ++ [sigkill pid, ⟨.wait pid, ()⟩]), ?_, ?_, ?_⟩
      . simp only [List.append_assoc]
        rfl
      . rw [probes_cons, probes_append, hprobes]
        rfl
      . rw [children_cons, children_append, hchildren]
        exact .killed tries (htries.trans hlength) hnot

/-! ### Waiting for the daemon -/

/--
A round in which the daemon has not answered yet, with the time that had gone by.
-/
def NotYet (cfg : Config) (round : Events) : Prop :=
  ∃ ms ≤ 10000, round = [⟨.shutdown, false⟩, ⟨.elapsed, ms⟩, ⟨.sleep 250, ()⟩, ⟨.probe cfg.socketPath, false⟩]

/--
What the probes answer in the round in which the wait ends.
-/
def lastProbes : Waited → List Bool
  | .shutdown | .timeout => []
  | .ready => [true]

def WaitEnds (result : Waited) (round : Events) : Prop :=
  probes round = lastProbes result ∧ children round = []

theorem wp_waitRound (cfg : Config) (past : Events)
    : (waitRound cfg.socketPath).wp
        (fun result h => ∃ events, h = past ++ events ∧ Script.Rounded (NotYet cfg) WaitEnds result events) past := by
  unfold waitRound
  simp only [Script.wp_bind, Script.wp_perform]
  intro shutdown
  cases shutdown with
  | true => exact ⟨_, rfl, rfl, rfl⟩
  | false =>
    rw [if_neg Bool.false_ne_true]
    simp only [Script.wp_bind, Script.wp_perform]
    intro ms
    by_cases hms : ms > 10000
    . rw [if_pos hms, Script.wp_pure, List.append_assoc]
      exact ⟨_, rfl, rfl, rfl⟩
    . rw [if_neg hms]
      simp only [Script.wp_bind, Script.wp_perform, List.append_assoc]
      rintro ⟨⟩ ready
      cases ready with
      | true => exact ⟨_, rfl, rfl, rfl⟩
      | false => exact ⟨_, rfl, ms, Nat.le_of_not_gt hms, rfl⟩

theorem notYet_flatten {cfg : Config} {rounds : List Events} (h : ∀ round ∈ rounds, NotYet cfg round)
    : probes rounds.flatten = List.replicate rounds.length false ∧ children rounds.flatten = []
    ∧ slept rounds.flatten = 250 * rounds.length := by
  induction rounds with
  | nil => exact ⟨rfl, rfl, rfl⟩
  | cons round rounds ih =>
    obtain ⟨⟨ms, -, rfl⟩, hrounds⟩ := List.forall_mem_cons.mp h
    obtain ⟨hprobes, hchildren, hslept⟩ := ih hrounds
    rw [List.flatten_cons, probes_append, children_append, slept_append, hprobes, hchildren, hslept]
    refine ⟨rfl, rfl, ?_⟩
    simp only [slept, sleptBy, List.length_cons]
    omega

/--
A daemon that does not answer is waited for in at most 41 rounds: by then the sleeps alone take more than
ten seconds.
-/
theorem rounds_le {α : Type} {cfg : Config} {command : Command α} {world : Script.World Op}
    (hclock : Script.Respects Honest world) {before after : Events} {rounds : List Events}
    (hrounds : ∀ round ∈ rounds, NotYet cfg round)
    (hrun : (command.run world []).2 = before ++ (rounds.flatten ++ after)) : rounds.length ≤ 41 := by
  rcases List.eq_nil_or_concat rounds with rfl | ⟨earlier, last, rfl⟩
  . exact Nat.zero_le 41
  . rw [List.concat_eq_append] at *
    rw [List.forall_mem_append, List.forall_mem_singleton] at hrounds
    obtain ⟨hearlier, ms, hms, rfl⟩ := hrounds
    have hhonest : Honest ([] ++ (before ++ (earlier.flatten ++ [⟨.shutdown, false⟩]))) ⟨.elapsed, ms⟩ := by
      apply hclock.of_run
      rw [hrun, List.flatten_append, List.flatten_singleton]
      simp only [List.append_assoc, List.cons_append, List.nil_append]
      rfl
    have hslept := hhonest ms rfl
    rw [List.nil_append, slept_append, slept_append, (notYet_flatten hearlier).2.2] at hslept
    rw [List.length_append, List.length_singleton]
    omega

/-! ### A daemon that was started -/

/--
What becomes of the daemon after the wait: the status, what further probes answered, and what was done with
the child.
-/
inductive Started (watch : Bool) (pid : UInt32) : Nat → List Bool → Events → Prop where
  | background (hwatch : watch = false) : Started watch pid 0 [true] [⟨.forget pid, ()⟩]
  | watched (hwatch : watch = true) (life : Events) (hended : Ended pid life) : Started watch pid 0 [true] life
  | interrupted (life : Events) (hended : Ended pid life) : Started watch pid 0 [] life
  | timedOut (life : Events) (hended : Ended pid life) : Started watch pid 1 [] life

def announced (pid : UInt32) : Events :=
  [told ("daemon started (PID " ++ toString pid.toNat ++ ")"), ⟨.setHandler, ()⟩]

/--
What is done with a new daemon, with the exit status if there is one yet.
-/
inductive DaemonRun (cfg : Config) (watch : Bool) (rounds : Nat) (pid : UInt32) : Option Nat → Events → Prop where
  | decided (waits : List Events) (hwaits : ∀ round ∈ waits, NotYet cfg round) (status : Nat) (after : Events)
    (hafter : Started watch pid status (probes after) (children after)) :
    DaemonRun cfg watch rounds pid (some status) (announced pid ++ (waits.flatten ++ after))
  | undecided (waits : List Events) (hlength : waits.length = rounds)
    (hwaits : ∀ round ∈ waits, NotYet cfg round) :
    DaemonRun cfg watch rounds pid none (announced pid ++ (waits.flatten ++ []))

theorem wp_shutDown (pid : UInt32) (past : Events)
    : (shutDown pid).wp
        (fun _ h => ∃ events, h = past ++ events ∧ probes events = [] ∧ Ended pid (children events)) past := by
  unfold shutDown
  simp only [Script.wp_bind, Script.wp_perform]
  rintro ⟨⟩
  apply Script.wp_mono (wp_terminateChild pid _)
  rintro ⟨⟩ h ⟨events, rfl, hprobes, hended⟩
  refine ⟨_, List.append_assoc .., ?_, ?_⟩
  . rw [probes_append, hprobes]
    rfl
  . rwa [children_append]

theorem wp_reportReadiness (socketPath : String) (past : Events)
    : (reportReadiness socketPath).wp
        (fun _ h => ∃ events, h = past ++ events ∧ probes events = [] ∧ children events = []) past := by
  unfold reportReadiness
  simp only [Script.wp_bind, Script.wp_perform]
  intro readiness
  cases readiness with
  | ready daemonVersion connectedPeers =>
    apply wp_tell
    exact ⟨_, List.append_assoc .., rfl, rfl⟩
  | incompatible daemonVersion =>
    apply wp_complain
    exact ⟨_, List.append_assoc .., rfl, rfl⟩
  | failed reason =>
    simp only [Script.wp_bind]
    apply wp_complain
    apply wp_complain
    simp only [List.append_assoc]
    exact ⟨_, rfl, rfl, rfl⟩

theorem wp_runDaemon (cfg : Config) (watch : Bool) (rounds : Nat) (pid : UInt32) (past : Events)
    : (runDaemon cfg watch rounds pid).wp
        (fun status h => ∃ events, h = past ++ events ∧ DaemonRun cfg watch rounds pid status events) past := by
  unfold runDaemon
  simp only [Script.wp_bind]
  apply wp_tell
  rintro ⟨⟩
  rw [List.append_assoc]
  change Script.wp _ _ (past ++ announced pid)
  apply Script.wp_attempt (NotYet cfg) WaitEnds (wp_waitRound cfg)
  intro result events hattempted
  rw [List.append_assoc]
  cases hattempted with
  | exhausted waits hlength hwaits =>
    refine ⟨_, ?_, .undecided waits hlength hwaits⟩
    rw [List.append_nil]
  | found waits result last hlength hwaits hlast =>
    obtain ⟨hprobes, hchildren⟩ := hlast
    cases result with
    | shutdown =>
      simp only [Script.wp_bind]
      apply Script.wp_mono (wp_shutDown pid _)
      rintro ⟨⟩ h ⟨events, rfl, hnone, hended⟩
      refine ⟨_, ?_, .decided waits hwaits 0 (last ++ events) ?_⟩
      . simp only [List.append_assoc]
      . rw [probes_append, children_append, hprobes, hchildren, hnone]
        exact .interrupted _ hended
    | timeout =>
      simp only [Script.wp_bind]
      apply wp_complain
      apply Script.wp_mono (wp_terminateChild pid _)
      rintro ⟨⟩ h ⟨events, rfl, hnone, hended⟩
      refine ⟨_, ?_, .decided waits hwaits 1
        (last ++ (complained "daemon did not become ready within 10s" :: events)) ?_⟩
      . simp only [List.append_assoc, List.cons_append, List.nil_append]
      . rw [probes_append, children_append, hprobes, hchildren, probes_cons, children_cons, hnone]
        exact .timedOut _ hended
    | ready =>
      simp only [Script.wp_bind]
      apply Script.wp_mono (wp_reportReadiness cfg.socketPath _)
      rintro ⟨⟩ h ⟨report, rfl, hreport, hreported⟩
      cases watch with
      | true =>
        rw [if_pos rfl]
        simp only [Script.wp_bind, Script.wp_perform]
        apply wp_tell
        rintro ⟨⟩ ⟨⟩
        apply Script.wp_mono (wp_shutDown pid _)
        rintro ⟨⟩ h ⟨events, rfl, hnone, hended⟩
        refine ⟨_, ?_, .decided waits hwaits 0
          (last ++ (report ++ (told "watching events (Ctrl+C to stop)..." :: ⟨.out "---", ()⟩
            :: ⟨.eventLoop cfg.socketPath, ()⟩ :: events))) ?_⟩
        . simp only [List.append_assoc, List.cons_append, List.nil_append]
        . rw [probes_append, probes_append, hprobes, hreport, probes_cons, probes_cons, probes_cons, hnone]
          rw [children_append, children_append, hchildren, hreported, children_cons, children_cons,
            children_cons]
          exact .watched rfl _ hended
      | false =>
        rw [if_neg Bool.false_ne_true]
        simp only [Script.wp_bind, Script.wp_perform]
        apply wp_tell
        apply wp_tell
        apply wp_tell
        rintro ⟨⟩
        refine ⟨_, ?_, .decided waits hwaits 0
          (last ++ (report ++ [told ("daemon running in background (PID " ++ toString pid.toNat ++ ")"),
            told "use `localbolt-cli watch` to stream events", told "use `localbolt-cli stop` to shut down",
            ⟨.forget pid, ()⟩])) ?_⟩
        . simp only [List.append_assoc, List.cons_append, List.nil_append]
        . rw [probes_append, probes_append, hprobes, hreport, children_append, children_append, hchildren,
            hreported]
          exact .background rfl

/-! ### The command -/

/--
What `start` has done with the exit status it gives, if it gives one.
-/
inductive StartRun (cfg : Config) (wsListen pairingPolicy : String) (watch : Bool) (rounds : Nat) :
    Option Nat → Events → Prop where
  | running (rest : Events) (hprobes : probes rest = []) (hchildren : children rest = []) :
    StartRun cfg wsListen pairingPolicy watch rounds (some 0) (⟨.probe cfg.socketPath, true⟩ :: rest)
  | failed (rest : Events) (hprobes : probes rest = [])
    (hchildren : children rest = [] ∨ ∃ e, children rest = [spawned cfg wsListen pairingPolicy (.error e)]) :
    StartRun cfg wsListen pairingPolicy watch rounds (some 1) (⟨.probe cfg.socketPath, false⟩ :: rest)
  | started (before : Events) (pid : UInt32) (hprobes : probes before = [false])
    (hchildren : children before = [spawned cfg wsListen pairingPolicy (.ok pid)]) (status : Option Nat)
    (events : Events) (hrun : DaemonRun cfg watch rounds pid status events) :
    StartRun cfg wsListen pairingPolicy watch rounds status (before ++ events)

theorem wp_cmdStart (cfg : Config) (wsListen pairingPolicy : String) (watch : Bool) (rounds : Nat)
    : (cmdStart cfg wsListen pairingPolicy watch rounds).wp
        (StartRun cfg wsListen pairingPolicy watch rounds) [] := by
  unfold cmdStart
  simp only [Script.wp_bind, Script.wp_perform]
  intro running
  cases running with
  | true =>
    rw [if_pos rfl]
    simp only [Script.wp_bind]
    apply wp_complain
    cases watch with
    | false => exact .running _ rfl rfl
    | true =>
      rw [if_pos rfl, doWatch]
      simp only [Script.wp_bind, Script.wp_perform]
      rintro ⟨⟩
      apply wp_tell
      rintro ⟨⟩ ⟨⟩
      exact .running _ rfl rfl
  | false =>
    rw [if_neg Bool.false_ne_true]
    simp only [Script.wp_bind, Script.wp_perform]
    intro dirError
    cases dirError with
    | some e =>
      simp only [Script.wp_bind]
      apply wp_complain
      exact .failed _ rfl (.inl rfl)
    | none =>
      simp only [Script.wp_bind, Script.wp_perform]
      rintro ⟨⟩
      apply wp_tell
      rintro ⟨⟩ ⟨⟩ ⟨⟩ ⟨⟩ ⟨⟩ result
      cases result with
      | error e =>
        simp only [Script.wp_bind]
        apply wp_complain
        cases e.notFound with
        | false => exact .failed _ rfl (.inr ⟨e, rfl⟩)
        | true =>
          rw [if_pos rfl]
          simp only [Script.wp_bind]
          apply wp_complain
          apply wp_complain
          exact .failed _ rfl (.inr ⟨e, rfl⟩)
      | ok pid =>
        apply Script.wp_mono (wp_runDaemon cfg watch rounds pid _)
        rintro status h ⟨events, rfl, hrun⟩
        exact .started _ pid rfl rfl status events hrun

/--
The daemon is accounted for. None is started where one answers, or where that fails. A daemon that was
started is left running only if it has answered and is not watched; in every other case it is asked to
terminate, and killed and waited for unless it is found to have exited within 12 tries.
-/
def Accounted (cfg : Config) (wsListen pairingPolicy : String) (watch : Bool) (status : Option Nat)
    (h : Events) : Prop :=
  (status = some 0 ∧ probes h = [true] ∧ children h = [])
    ∨ (status = some 1 ∧ probes h = [false]
      ∧ (children h = [] ∨ ∃ e, children h = [spawned cfg wsListen pairingPolicy (.error e)]))
    ∨ ∃ pid n s answers life, n ≤ 41 ∧ Started watch pid s answers life ∧ status = some s
      ∧ probes h = List.replicate (n + 1) false ++ answers
      ∧ children h = spawned cfg wsListen pairingPolicy (.ok pid) :: life

/--
A system on which a daemon can be started, but never answers and does not react to SIGTERM.
-/
def deaf : Script.World Op := fun past _ op =>
  match op with
  | .out _ | .err _ | .eventLoop _ | .sleep _ | .setHandler | .setPermissions _ _ | .wait _ | .forget _
  | .processTerminate _ | .processForceKill _ | .removeFile _ => ()
  | .probe _ | .shutdown | .processAlive _ | .isFile _ => false
  | .probeReadiness _ _ => .failed "connect"
  | .elapsed => slept past
  | .createDirAll _ | .readToString _ | .writeFile _ _ | .connect _ | .tryClone | .writeMessage _ => none
  | .spawn _ _ => .ok 7
  | .tryWait _ => some false
  | .canonicalize path => .ok path

theorem deaf_honest : Script.Respects Honest deaf := by
  intro past γ op ms heq
  cases op with
  | elapsed => exact Nat.le_of_eq (Option.some.inj heq)
  | _ => cases heq

def deafConfig : Config where
  socketPath := "/tmp/bolt.sock"
  dataDir := "/tmp/bolt"
  daemonBin := "bolt-daemon"
  pidPath := "/tmp/bolt.pid"

example : ((cmdStart deafConfig "127.0.0.1:9100" "ask" false 42).run deaf []).1 = some 1 := by
  decide +kernel

end Cli

end LocalBolt
