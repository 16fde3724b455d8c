import LocalBolt.App.Impl.IpcHost
import LocalBolt.Machine.Flow
import Mathlib.Algebra.BigOperators.Ring.List
import Mathlib.Algebra.Ring.Nat
import Mathlib.Data.List.Perm.Basic

/-!
This module contains that the session manager uses no handle of the bridge that is not good, that its
attempts to connect come to an end, and when it loses a connection.
-/

namespace LocalBolt

namespace IpcHost

variable {s s' : IpcHost} {lost : List Nat}

/--
The handle that a step puts another one in the place of.
-/
def overwritten (t : Transition IpcHost Action) : List Nat :=
  match t.action with
  | .start _ _ _ | .retry _ _ => if t.target.handle = t.source.handle then [] else t.source.handle.toList
  | _ => []

/--
Each connection that was lost has left its timer behind.
-/
structure Sound (s : IpcHost) (lost : List Nat) : Prop where
  owns : s.bridges.Owns s.handle lost
  pollTimer : s.pollTimer = s.handle.isSome
  timers : s.timers = lost.length

theorem sound_init : init.Sound [] where
  owns := Boxes.owns_empty
  pollTimer := rfl
  timers := rfl

theorem handle_ne_next (h : s.bridges.Owns s.handle lost) : s.handle ≠ some s.bridges.next := by
  intro hnext
  exact h.bounded.not_live_next ((h.live_iff _).mpr (.inl hnext))

theorem Sound.with_retries (h : s.Sound lost) (retries : List Retry) : { s with retries }.Sound lost where
  owns := h.owns
  pollTimer := h.pollTimer
  timers := h.timers

/--
An attempt: where it connects, the handle that was there is lost.
-/
theorem Sound.startWithRetry (h : s.Sound lost) (socketPath appVersion : String) (attempt : Nat)
    (connects : Bool)
    : (s.startWithRetry socketPath appVersion attempt connects).Sound
        (lost ++ if connects then s.handle.toList else []) := by
  cases connects with
  | true =>
    rw [if_pos rfl]
    constructor
    case owns => exact h.owns.intoRaw _
    case pollTimer => rfl
    case timers =>
      have hlength : s.handle.toList.length = if s.pollTimer then 1 else 0 := by
        rw [h.pollTimer]
        cases s.handle <;> rfl
      rw [List.length_append, ← h.timers, hlength, IpcHost.startWithRetry, if_pos rfl]
      dsimp only
      split <;> rfl
  | false =>
    rw [if_neg Bool.false_ne_true, List.append_nil, IpcHost.startWithRetry, if_neg Bool.false_ne_true]
    split
    . exact h.with_retries _
    . exact ⟨h.owns, h.pollTimer, h.timers⟩

theorem handle_startWithRetry (socketPath appVersion : String) (attempt : Nat) (connects : Bool)
    : (s.startWithRetry socketPath appVersion attempt connects).handle
        =
      if connects then some s.bridges.next else s.handle := by
  cases connects with
  | true => rfl
  | false =>
    rw [startWithRetry, if_neg Bool.false_ne_true]
    split <;> rfl

theorem overwritten_eq (h : s.Sound lost) {action : Action} {connects : Bool}
    (htarget : s'.handle = if connects then some s.bridges.next else s.handle)
    (haction : overwritten ⟨s, action, s'⟩ = if s'.handle = s.handle then [] else s.handle.toList)
    : overwritten ⟨s, action, s'⟩ = if connects then s.handle.toList else [] := by
  rw [haction, htarget]
  cases connects with
  | true => rw [if_pos rfl, if_neg (handle_ne_next h.owns).symm, if_pos rfl]
  | false => rw [if_neg Bool.false_ne_true, if_pos rfl, if_neg Bool.false_ne_true]

theorem Sound.start (h : s.Sound lost) (socketPath appVersion : String) (connects : Bool)
    : (s.start socketPath appVersion connects).Sound
        (lost ++ overwritten ⟨s, .start socketPath appVersion connects,
          s.start socketPath appVersion connects⟩) := by
  unfold IpcHost.start
  split
  . simpa [overwritten] using h
  . rw [overwritten_eq h (handle_startWithRetry _ _ _ _) rfl]
    exact h.startWithRetry socketPath appVersion 1 connects

theorem Sound.retry (h : s.Sound lost) (index : Nat) (connects : Bool)
    : (s.retry index connects).Sound
        (lost ++ overwritten ⟨s, .retry index connects, s.retry index connects⟩) := by
  unfold IpcHost.retry
  split
  . simpa [overwritten] using h
  . next r hr =>
    have herased := h.with_retries (s.retries.eraseIdx index)
    have hhandle : ({ s with retries := s.retries.eraseIdx index }.startWithRetry r.socketPath
        r.appVersion r.attempt connects).handle = if connects then some s.bridges.next else s.handle := by
      rw [handle_startWithRetry]
    rw [overwritten_eq h hhandle rfl]
    exact herased.startWithRetry r.socketPath r.appVersion r.attempt connects

theorem Sound.stop (h : s.Sound lost) : ∃ s', s.stop = some s' ∧ s'.Sound lost := by
  cases hhandle : s.handle with
  | none =>
    refine ⟨{ s with pollTimer := false, isConnected := false }, ?_, h.owns, ?_, h.timers⟩
    . simp only [IpcHost.stop, hhandle]
    . simp only [hhandle, Option.isSome_none]
  | some ptr =>
    have howns : s.bridges.Owns (some ptr) lost := hhandle ▸ h.owns
    obtain ⟨connection, hderef⟩ := howns.deref
    have hfrom := Boxes.fromRaw_of_deref hderef
    have hstop : s.stop = some
        { s with
          handle := none
          pollTimer := false
          isConnected := false
          bridges := { s.bridges with content := Function.update s.bridges.content ptr none } } := by
      simp only [IpcHost.stop, hhandle, hfrom, Option.map_some]
    exact ⟨_, hstop, howns.fromRaw hfrom, rfl, h.timers⟩

theorem Sound.withHandle (h : s.Sound lost) {use : IpcHost} (huse : use.Sound lost) :
    ∃ s', s.withHandle use = some s' ∧ s'.Sound lost := by
  cases hhandle : s.handle with
  | none => exact ⟨s, by simp only [IpcHost.withHandle, hhandle], h⟩
  | some ptr =>
    have howns : s.bridges.Owns (some ptr) lost := hhandle ▸ h.owns
    obtain ⟨connection, hderef⟩ := howns.deref
    exact ⟨use, by simp only [IpcHost.withHandle, hhandle, hderef, Option.map_some], huse⟩

/--
No action meets a handle that is not good.
-/
theorem Sound.perform (h : s.Sound lost) (action : Action) :
    ∃ s', s.perform action = some s' ∧ s'.Sound (lost ++ overwritten ⟨s, action, s'⟩) := by
  cases action with
  | start socketPath appVersion connects => exact ⟨_, rfl, h.start socketPath appVersion connects⟩
  | retry index connects => exact ⟨_, rfl, h.retry index connects⟩
  | stop =>
    obtain ⟨s', hs', hsound⟩ := h.stop
    exact ⟨s', hs', by simpa [overwritten] using hsound⟩
  | poll connected =>
    have hshown : { s with isConnected := connected }.Sound lost := ⟨h.owns, h.pollTimer, h.timers⟩
    obtain ⟨s', hs', hsound⟩ := h.withHandle hshown
    exact ⟨s', hs', by simpa [overwritten] using hsound⟩
  | sendPairingDecision =>
    obtain ⟨s', hs', hsound⟩ := h.withHandle h
    exact ⟨s', hs', by simpa [overwritten] using hsound⟩

/-! ### Attempts -/

/--
A call of `bolt_ipc_start`.
-/
def attempts (t : Transition IpcHost Action) : Nat :=
  match t.action with
  | .start _ _ _ => if t.source.handle.isSome then 0 else 1
  | .retry _ _ => 1
  | _ => 0

/--
A call of `start` that found no connection.
-/
def begun (t : Transition IpcHost Action) : Nat :=
  match t.action with
  | .start _ _ _ => if t.source.handle.isSome then 0 else 1
  | _ => 0

/--
How many attempts may still be made without another `start`.
-/
def remaining (s : IpcHost) : Nat := (s.retries.map fun r => maxAttempts + 1 - r.attempt).sum

def Counted (s : IpcHost) : Prop := ∀ r ∈ s.retries, r.attempt ≤ maxAttempts

theorem remaining_erase {index : Nat} {r : Retry} (h : s.retries[index]? = some r)
    : (maxAttempts + 1 - r.attempt) + { s with retries := s.retries.eraseIdx index }.remaining
        =
      s.remaining := by
  obtain ⟨hlt, rfl⟩ := List.getElem?_eq_some_iff.mp h
  have hperm := (List.getElem_cons_eraseIdx_perm hlt).map fun r => maxAttempts + 1 - r.attempt
  have hsum := hperm.sum_eq
  rwa [List.map_cons, List.sum_cons] at hsum

theorem remaining_startWithRetry (socketPath appVersion : String) (attempt : Nat) (connects : Bool)
    : (s.startWithRetry socketPath appVersion attempt connects).remaining
        ≤
      s.remaining + (maxAttempts - attempt) := by
  unfold startWithRetry
  split
  . exact Nat.le_add_right _ _
  . split
    . simp only [remaining, List.map_append, List.sum_append, List.map_singleton, List.sum_singleton]
      omega
    . exact Nat.le_add_right _ _

theorem counted_startWithRetry (h : s.Counted) (socketPath appVersion : String) (attempt : Nat)
    (connects : Bool) : (s.startWithRetry socketPath appVersion attempt connects).Counted := by
  unfold startWithRetry
  split
  . exact h
  . split
    . next hlt =>
      intro r hr
      rcases List.mem_append.mp hr with hr | hr
      . exact h r hr
      . obtain rfl := List.mem_singleton.mp hr
        exact hlt
    . exact h

/--
What does not connect: the attempts that wait stay, and there is no new connection.
-/
def Keeps (s s' : IpcHost) : Prop :=
  s'.retries = s.retries ∧ (s'.handle.isSome = true → s.handle.isSome = true)

theorem keeps_stop (h : s.stop = some s') : s.Keeps s' := by
  unfold stop at h
  split at h
  . obtain rfl := Option.some.inj h
    exact ⟨rfl, fun hsome => hsome⟩
  . obtain ⟨_, -, rfl⟩ := Option.map_eq_some_iff.mp h
    exact ⟨rfl, nofun⟩

theorem keeps_withHandle {use : IpcHost} (huse : s.Keeps use) (h : s.withHandle use = some s')
    : s.Keeps s' := by
  unfold withHandle at h
  split at h
  . obtain rfl := Option.some.inj h
    exact ⟨rfl, fun hsome => hsome⟩
  . obtain ⟨_, -, rfl⟩ := Option.map_eq_some_iff.mp h
    exact huse

def Action.mayConnect : Action → Bool
  | .start _ _ _ | .retry _ _ => true
  | _ => false

theorem keeps_perform {action : Action} (hinert : action.mayConnect = false)
    (h : s.perform action = some s') : s.Keeps s' := by
  cases action with
  | start | retry => cases hinert
  | stop => exact keeps_stop h
  | poll connected =>
    have huse : s.Keeps { s with isConnected := connected } := ⟨rfl, fun hsome => hsome⟩
    exact keeps_withHandle huse h
  | sendPairingDecision =>
    have huse : s.Keeps s := ⟨rfl, fun hsome => hsome⟩
    exact keeps_withHandle huse h

/--
An attempt is paid for: by `start` for five, or by the attempt before it.
-/
theorem counted_perform (h : s.Counted) {action : Action} (hpossible : s.possible action = true)
    (hperform : s.perform action = some s')
    : s'.Counted
    ∧ attempts ⟨s, action, s'⟩ + s'.remaining ≤ s.remaining + maxAttempts * begun ⟨s, action, s'⟩ := by
  have hsame : s.Keeps s' → s'.Counted ∧ s'.remaining ≤ s.remaining := by
    rintro ⟨hretries, -⟩
    rw [Counted, remaining, hretries]
    exact ⟨h, Nat.le_refl _⟩
  cases action with
  | start socketPath appVersion connects =>
    obtain rfl := Option.some.inj hperform
    unfold start
    split
    . next hsome => exact ⟨h, by simp [attempts, begun, hsome]⟩
    . next hnone =>
      have hremaining := remaining_startWithRetry (s := s) socketPath appVersion 1 connects
      refine ⟨counted_startWithRetry h _ _ _ _, ?_⟩
      simp only [attempts, begun, hnone, maxAttempts, Bool.false_eq_true, if_false] at hremaining ⊢
      omega
  | retry index connects =>
    obtain rfl := Option.some.inj hperform
    have hlt : index < s.retries.length := by simpa [possible] using hpossible
    have hr := List.getElem?_eq_getElem hlt
    generalize s.retries[index] = r at hr
    have herased : { s with retries := s.retries.eraseIdx index }.Counted := by
      intro r hr
      exact h r (List.mem_of_mem_eraseIdx hr)
    have hle := h r (List.mem_of_getElem? hr)
    have hremaining := remaining_startWithRetry (s := { s with retries := s.retries.eraseIdx index })
      r.socketPath r.appVersion r.attempt connects
    have herase := remaining_erase hr
    unfold retry
    rw [hr]
    refine ⟨counted_startWithRetry herased _ _ _ _, ?_⟩
    simp only [attempts, begun]
    omega
  | stop | poll | sendPairingDecision =>
    simpa [attempts, begun] using hsame (keeps_perform rfl hperform)

theorem next_cases {action : Action} (h : s.next action = some s')
    : s.possible action = true ∧ s.perform action = some s' := by
  unfold next at h
  split at h
  . exact ⟨‹_›, h⟩
  . cases h

/-! ### One chain at a time -/

/--
No more than one attempt waits, and none beside a connection.
-/
def Single (s : IpcHost) : Prop := s.retries.length ≤ 1 ∧ (s.handle.isSome = true → s.retries = [])

theorem single_startWithRetry (hhandle : s.handle = none) (hretries : s.retries = [])
    (socketPath appVersion : String) (attempt : Nat) (connects : Bool)
    : (s.startWithRetry socketPath appVersion attempt connects).Single := by
  cases connects with
  | true => exact ⟨by simp [startWithRetry, hretries], fun _ => hretries⟩
  | false =>
    rw [startWithRetry, if_neg Bool.false_ne_true]
    split
    . simp [Single, hhandle, hretries]
    . simp [Single, hhandle, hretries]

/--
`start` is called only when no attempt waits.
-/
def Spaced (t : Transition IpcHost Action) : Prop :=
  match t.action with
  | .start _ _ _ => t.source.retries = []
  | _ => True

theorem single_perform (h : s.Single) {action : Action} (hspaced : Spaced ⟨s, action, s'⟩)
    (hperform : s.perform action = some s')
    : overwritten ⟨s, action, s'⟩ = [] ∧ s'.Single := by
  have hsame : s.Keeps s' → s'.Single := by
    rintro ⟨hretries, hhandle⟩
    rw [Single, hretries]
    exact ⟨h.1, fun hsome => h.2 (hhandle hsome)⟩
  cases action with
  | start socketPath appVersion connects =>
    obtain rfl := Option.some.inj hperform
    cases hhandle : s.handle with
    | some ptr =>
      have hstart : s.start socketPath appVersion connects = s := by simp [start, hhandle]
      rw [hstart]
      simpa [overwritten] using h
    | none =>
      refine ⟨by simp [overwritten, hhandle], ?_⟩
      rw [start, hhandle, if_neg (by simp)]
      exact single_startWithRetry hhandle hspaced _ _ _ _
  | retry index connects =>
    obtain rfl := Option.some.inj hperform
    cases hr : s.retries[index]? with
    | none =>
      rw [retry, hr]
      simpa [overwritten] using h
    | some r =>
      -- the attempt is the only one, so there is no connection
      have hmem := List.mem_of_getElem? hr
      have hhandle : s.handle = none := by
        by_contra hsome
        rw [h.2 (Option.isSome_iff_ne_none.mpr hsome)] at hmem
        cases hmem
      have herased : s.retries.eraseIdx index = [] := by
        have hlt := (List.getElem?_eq_some_iff.mp hr).1
        have hlength := List.length_eraseIdx_add_one hlt
        have hle := h.1
        exact List.eq_nil_of_length_eq_zero (by omega)
      refine ⟨by simp [overwritten, hhandle], ?_⟩
      have hsingle := single_startWithRetry (s := { s with retries := s.retries.eraseIdx index }) hhandle
        herased r.socketPath r.appVersion r.attempt connects
      rwa [retry, hr]
  | stop | poll | sendPairingDecision =>
    exact ⟨rfl, hsame (keeps_perform rfl hperform)⟩

/-! ### Runs -/

variable {tr : List (Transition IpcHost Action)}

theorem sound_of_run (h : machine.Run tr s) : s.Sound (tr.flatMap overwritten) := by
  induction h with
  | init h =>
    subst h
    exact sound_init
  | @step tr s s' action hrun hstep ih =>
    obtain ⟨s'', hperform, hsound⟩ := ih.perform action
    obtain rfl := Option.some.inj (hperform.symm.trans (next_cases hstep).2)
    rw [List.flatMap_append, List.flatMap_singleton]
    exact hsound

theorem counted_of_reachable (h : machine.Reachable s) : s.Counted := by
  apply h.invariant
  . rintro s rfl r hr
    cases hr
  . intro s action s' _ ih hstep
    obtain ⟨hpossible, hperform⟩ := next_cases hstep
    exact (counted_perform ih hpossible hperform).1

theorem attempts_of_run (h : machine.Run tr s)
    : (tr.map attempts).sum + s.remaining ≤ (tr.map fun t => maxAttempts * begun t).sum := by
  apply h.amortized remaining
  . rintro s rfl
    rfl
  . intro s action s' hs hstep
    obtain ⟨hpossible, hperform⟩ := next_cases hstep
    exact (counted_perform (counted_of_reachable hs) hpossible hperform).2

theorem single_of_run (h : machine.Run tr s) (hspaced : ∀ t ∈ tr, Spaced t)
    : tr.flatMap overwritten = [] ∧ s.Single := by
  induction h with
  | init h =>
    subst h
    exact ⟨rfl, by decide, fun _ => rfl⟩
  | @step tr s s' action hrun hstep ih =>
    rw [List.forall_mem_append, List.forall_mem_singleton] at hspaced
    obtain ⟨hlost, hsingle⟩ := ih hspaced.1
    obtain ⟨hlast, hsingle'⟩ := single_perform hsingle hspaced.2 (next_cases hstep).2
    rw [List.flatMap_append, List.flatMap_singleton, hlost, hlast]
    exact ⟨rfl, hsingle'⟩

/--
Whatever the manager has done so far: its next action finds its handle good. The connections that are
open are the one of its handle and those that an attempt has put another one in the place of, and each of
the latter still polls. There are at most five attempts for each `start` that found no connection. None is
lost as long as `start` is not called while an attempt waits.
-/
theorem connection_owned (h : machine.Run tr s)
    : (∀ action, ∃ s', s.perform action = some s')
    ∧ (∀ ptr, s.bridges.Live ptr ↔ s.handle = some ptr ∨ ptr ∈ tr.flatMap overwritten)
    ∧ s.pollTimer = s.handle.isSome
    ∧ s.timers = (tr.flatMap overwritten).length
    ∧ (tr.map attempts).sum + s.remaining ≤ 5 * (tr.map begun).sum
    ∧ ((∀ t ∈ tr, Spaced t) → tr.flatMap overwritten = []) := by
  have hsound := sound_of_run h
  refine ⟨?_, hsound.owns.live_iff, hsound.pollTimer, hsound.timers, ?_, fun hspaced =>
    (single_of_run h hspaced).1⟩
  . intro action
    obtain ⟨s', hperform, -⟩ := hsound.perform action
    exact ⟨s', hperform⟩
  . have hattempts := attempts_of_run h
    rwa [List.sum_map_mul_left] at hattempts

/--
A second `start` while the first one waits for its second attempt, and both connect.
-/
def overlap : List Action := [.start "sock" "0.0.1" false, .start "sock" "0.0.1" true, .retry 0 true]

theorem connection_owned_after_overlap :
    ∃ s, Machine.exec next init overlap = some s ∧ s.timers = 1
      ∧ ∀ ptr, s.bridges.Live ptr ↔ ptr = 1 ∨ ptr = 0 := by
  obtain ⟨s, hs⟩ : ∃ s, Machine.exec next init overlap = some s := ⟨_, rfl⟩
  have hhandle : s.handle = some 1 := by
    obtain rfl := Option.some.inj hs
    rfl
  have hoverwritten : (Machine.trace next init overlap).flatMap overwritten = [0] := rfl
  obtain ⟨-, hlive, -, htimers, -⟩ := connection_owned (Machine.run_of_exec hs)
  rw [hoverwritten] at hlive htimers
  refine ⟨s, hs, htimers, ?_⟩
  intro ptr
  rw [hlive, hhandle, Option.some.injEq, List.mem_singleton, eq_comm]

/-! ### A chain of attempts as one step -/

theorem exec_retry_nil {outcomes : List Bool} (hretries : s.retries = [])
    (h : Machine.exec next s (outcomes.map (.retry 0 ·)) = some s') : outcomes = [] := by
  cases outcomes with
  | nil => rfl
  | cons connects outcomes =>
    have hnext : s.next (.retry 0 connects) = none := by simp [next, possible, hretries]
    rw [List.map_cons, Machine.exec, hnext] at h
    cases h

/--
An attempt and those after it, as long as they come to an end.
-/
theorem exec_startWithRetry {socketPath appVersion : String} {attempt : Nat} {connects : Bool}
    {outcomes : List Bool} (hhandle : s.handle = none) (hretries : s.retries = [])
    (h : Machine.exec next (s.startWithRetry socketPath appVersion attempt connects)
      (outcomes.map (.retry 0 ·)) = some s')
    (hdone : s'.retries = [])
    : s'.handle.isSome = (connects :: outcomes).any id
    ∧ s'.isConnected = (connects :: outcomes).any id := by
  induction outcomes generalizing s attempt connects socketPath appVersion with
  | nil =>
    obtain rfl := Option.some.inj h
    cases connects with
    | true => exact ⟨rfl, rfl⟩
    | false =>
      rw [startWithRetry, if_neg Bool.false_ne_true] at hdone ⊢
      split at hdone
      . simp [hretries] at hdone
      . next hlt =>
        rw [if_neg hlt]
        simp [hhandle]
  | cons connects' outcomes ih =>
    cases connects with
    | true =>
      have hends : (s.startWithRetry socketPath appVersion attempt true).retries = [] := hretries
      have hnil := exec_retry_nil hends h
      cases hnil
    | false =>
      by_cases hlt : attempt < maxAttempts
      . have hwaits : s.startWithRetry socketPath appVersion attempt false
            = { s with retries := [{ socketPath, appVersion, attempt := attempt + 1 }] } := by
          rw [startWithRetry, if_neg Bool.false_ne_true, if_pos hlt, hretries]
          rfl
        have hnext : next { s with retries := [{ socketPath, appVersion, attempt := attempt + 1 }] }
            (.retry 0 connects')
              = some ({ s with retries := [] }.startWithRetry socketPath appVersion (attempt + 1)
                connects') := rfl
        rw [hwaits, List.map_cons, Machine.exec, hnext] at h
        simpa using ih (s := { s with retries := [] }) hhandle rfl h
      . have hends : (s.startWithRetry socketPath appVersion attempt false).retries = [] := by
          rw [startWithRetry, if_neg Bool.false_ne_true, if_neg hlt]
          exact hretries
        have hnil := exec_retry_nil hends h
        cases hnil

/--
Undisturbed, the attempts of a `start` amount to the one step that the session manager takes, which
connects if one of them does.
-/
theorem start_refines {m : IpcManager} (hm : m.handle = none) (file : Option Json)
    {socketPath appVersion : String} {connects : Bool} {outcomes : List Bool} (hhandle : s.handle = none)
    (hretries : s.retries = [])
    (h : Machine.exec next s
      (.start socketPath appVersion connects :: outcomes.map (.retry 0 ·)) = some s')
    (hdone : s'.retries = [])
    : s'.handle.isSome = (m.start file ((connects :: outcomes).any id)).handle.isSome
    ∧ s'.isConnected = (m.start file ((connects :: outcomes).any id)).isConnected := by
  have hstart : s.next (.start socketPath appVersion connects)
      = some (s.startWithRetry socketPath appVersion 1 connects) := by
    simp [next, possible, perform, start, hhandle]
  rw [Machine.exec, hstart] at h
  obtain ⟨hsome, hconnected⟩ := exec_startWithRetry hhandle hretries h hdone
  rw [hsome, hconnected]
  generalize (connects :: outcomes).any id = connected
  unfold IpcManager.start
  cases connected <;> cases m.pinStore.isNone <;> simp [hm]

end IpcHost

end LocalBolt
