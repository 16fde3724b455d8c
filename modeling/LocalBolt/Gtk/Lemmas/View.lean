import LocalBolt.Gtk.Lemmas.Requests

/-!
This module contains what the GTK shell shows of a transfer: its bar and its status page as functions of the
events that the main loop has handled.
-/

namespace LocalBolt

namespace Gtk

open Cli (Value)

variable {env : Env}

/--
The events that take the bar away.
-/
def endings : List String :=
  ["daemon://transfer-complete", "daemon://transfer-error", "daemon://session-error"]

/--
The last event that the bar depends on was the start of a transfer.
-/
def Started (events : List (String × Value)) (payload : Value) : Prop :=
  ∃ before after, events = before ++ ("daemon://transfer-started", payload) :: after
    ∧ ∀ event ∈ after, event.1 ≠ "daemon://transfer-started" ∧ event.1 ∉ endings

theorem started_append_iff (events : List (String × Value)) (event : String × Value) (payload : Value)
    : Started (events ++ [event]) payload
        ↔
      event = ("daemon://transfer-started", payload)
        ∨ (Started events payload ∧ event.1 ≠ "daemon://transfer-started" ∧ event.1 ∉ endings) := by
  constructor
  . rintro ⟨before, after, hevents, hafter⟩
    rcases List.eq_nil_or_concat after with rfl | ⟨after, last, rfl⟩
    . exact .inl (List.singleton_inj.mp (List.append_inj' hevents rfl).2)
    . rw [List.concat_eq_append, ← List.cons_append, ← List.append_assoc] at hevents
      obtain ⟨rfl, hlast⟩ := List.append_inj' hevents rfl
      obtain rfl := List.singleton_inj.mp hlast
      rw [List.concat_eq_append, List.forall_mem_append, List.forall_mem_singleton] at hafter
      exact .inr ⟨⟨before, after, rfl, hafter.1⟩, hafter.2⟩
  . rintro (rfl | ⟨⟨before, after, rfl, hafter⟩, hevent⟩)
    . exact ⟨events, [], rfl, List.forall_mem_nil _⟩
    . refine ⟨before, after ++ [event], by simp, ?_⟩
      rw [List.forall_mem_append, List.forall_mem_singleton]
      exact ⟨hafter, hevent⟩

/--
The bar is there for the transfer that started last, as long as nothing has ended it, and the page says that
a file is being received only while the bar is there for it.
-/
structure Shows (s : Shell) (events : List (String × Value)) : Prop where
  visible : s.progress.visible = true ↔ ∃ payload, Started events payload
  text : ∀ payload, Started events payload → s.progress.text = fileName payload
  receiving : s.status.title = "Receiving…" →
    s.progress.visible = true ∧ s.status.description = s.progress.text

theorem not_started_nil (payload : Value) : ¬ Started [] payload := by
  rintro ⟨before, after, hevents, -⟩
  simp at hevents

theorem shows_start : Shows .start [] where
  visible := by simp [not_started_nil, Shell.start]
  text payload hstarted := absurd hstarted (not_started_nil payload)
  receiving htitle := by simp [Shell.start] at htitle

variable {s s' : Shell} {events : List (String × Value)}

/--
An event that leaves the bar as it is.
-/
theorem Shows.keep (h : Shows s events) {event : String × Value}
    (hevent : event.1 ≠ "daemon://transfer-started" ∧ event.1 ∉ endings)
    (hvisible : s'.progress.visible = s.progress.visible) (htext : s'.progress.text = s.progress.text)
    (hstatus : s'.status = s.status ∨ s'.status.title ≠ "Receiving…") : Shows s' (events ++ [event]) := by
  have hstarted : ∀ payload, Started (events ++ [event]) payload ↔ Started events payload := by
    intro payload
    rw [started_append_iff]
    constructor
    . rintro (rfl | ⟨hstarted, -⟩)
      . exact absurd rfl hevent.1
      . exact hstarted
    . exact fun hstarted => .inr ⟨hstarted, hevent⟩
  constructor
  case visible => simp only [hvisible, h.visible, hstarted]
  case text =>
    intro payload hpayload
    rw [htext]
    exact h.text payload ((hstarted payload).mp hpayload)
  case receiving =>
    intro htitle
    rcases hstatus with hsame | hother
    . rw [hsame] at htitle ⊢
      rw [hvisible, htext]
      exact h.receiving htitle
    . exact absurd htitle hother

/--
An event that ends a transfer.
-/
theorem shows_of_ending {event : String × Value} (hevent : event.1 ∈ endings)
    (hvisible : s'.progress.visible = false) (htitle : s'.status.title ≠ "Receiving…")
    : Shows s' (events ++ [event]) := by
  have hnot : ∀ payload, ¬ Started (events ++ [event]) payload := by
    intro payload hstarted
    rcases (started_append_iff ..).mp hstarted with rfl | ⟨-, -, hother⟩
    . simp [endings] at hevent
    . exact hother hevent
  constructor
  case visible => simp [hvisible, hnot]
  case text => exact fun payload hstarted => absurd hstarted (hnot payload)
  case receiving => exact fun h => absurd h htitle

theorem shows_transferStarted (s : Shell) (events : List (String × Value)) (payload : Value) :
    Shows (s.transferStarted payload) (events ++ [("daemon://transfer-started", payload)]) := by
  constructor
  case visible =>
    constructor
    . exact fun _ => ⟨payload, (started_append_iff ..).mpr (.inl rfl)⟩
    . exact fun _ => rfl
  case text =>
    intro payload' hstarted
    rcases (started_append_iff ..).mp hstarted with heq | ⟨-, hne, -⟩
    . rw [← (Prod.mk.inj heq).2]
      rfl
    . exact absurd rfl hne
  case receiving => exact fun _ => ⟨rfl, rfl⟩

theorem Shows.handleEvent (env : Env) (h : Shows s events) (name : String) (payload : Value) :
    Shows (s.handleEvent env name payload) (events ++ [(name, payload)]) := by
  unfold Shell.handleEvent
  split
  case h_1 =>
    split
    . exact h.keep (by simp [endings]) rfl rfl (.inr (by simp [idle]))
    . exact h.keep (by simp [endings]) rfl rfl (.inl rfl)
  case h_2 | h_3 =>
    split
    . exact h.keep (by simp [endings]) rfl rfl (.inl rfl)
    . exact h.keep (by simp [endings]) rfl rfl (.inl rfl)
  case h_4 => exact h.keep (by simp [endings]) rfl rfl (.inr (by simp [idle]))
  case h_5 => exact shows_transferStarted s events payload
  case h_6 =>
    split
    . exact h.keep (by simp [endings]) rfl rfl (.inl rfl)
    . exact h.keep (by simp [endings]) rfl rfl (.inl rfl)
  case h_7 => exact shows_of_ending (by simp [endings]) rfl (by simp [Shell.transferComplete, idle])
  case h_8 | h_9 => exact shows_of_ending (by simp [endings]) rfl (by simp [idle])
  case h_10 hstarted _ hcomplete herror hsession =>
    have hnot : name ∉ endings := by simpa [endings] using ⟨hcomplete, herror, hsession⟩
    exact h.keep ⟨hstarted, hnot⟩ rfl rfl (.inl rfl)

theorem Shows.next {action : Action} (h : Shows s events) (hnext : s.next env action = some s')
    : Shows s' (events ++ handled ⟨s, action, s'⟩) := by
  have hsame : ∀ {s' : Shell}, s'.progress = s.progress → s'.status = s.status → Shows s' (events ++ []) := by
    intro s' hprogress hstatus
    rw [List.append_nil]
    constructor
    case visible => rw [hprogress, h.visible]
    case text => rw [hprogress]; exact h.text
    case receiving => rw [hprogress, hstatus]; exact h.receiving
  cases action with
  | bridgeEvent name payload | watchdogEvent state | closeRequest =>
    obtain rfl := Option.some.inj hnext
    exact hsame rfl rfl
  | handle =>
    simp only [Shell.next] at hnext
    split at hnext
    . cases hnext
    . next name payload queue hqueue =>
      obtain rfl := Option.some.inj hnext
      have htaken : Shows { s with queue } events := ⟨h.visible, h.text, h.receiving⟩
      simp only [handled, hqueue, List.take_succ_cons, List.take_zero]
      exact htaken.handleEvent env name payload
  | respond index response failure =>
    simp only [Shell.next] at hnext
    split at hnext
    . cases hnext
    . obtain rfl := Option.some.inj hnext
      exact hsame rfl rfl

theorem shows {tr : List (Transition Shell Action)} (h : (Shell.machine env).Run tr s)
    : Shows s (tr.flatMap handled) := by
  induction h with
  | init hinit =>
    obtain rfl : _ = Shell.start := hinit
    exact shows_start
  | step _ hnext ih =>
    rw [List.flatMap_append, List.flatMap_singleton]
    exact ih.next hnext

/--
In every run the main loop handles the events in the order in which the threads of the lifecycle put them
into the channel, and the view is what these say: the bar names the transfer that started last, it goes when
that one ends, and it is there whenever a file is said to be received.
-/
theorem view_follows_events {tr : List (Transition Shell Action)} (h : (Shell.machine env).Run tr s)
    : tr.flatMap emitted = tr.flatMap handled ++ s.queue
        ∧ (s.progress.visible = true ↔ ∃ payload, Started (tr.flatMap handled) payload)
        ∧ (∀ payload, Started (tr.flatMap handled) payload → s.progress.text = fileName payload)
        ∧ (s.status.title = "Receiving…" →
            s.progress.visible = true ∧ s.status.description = s.progress.text) := by
  have hshows := shows h
  exact ⟨handled_in_order h, hshows.visible, hshows.text, hshows.receiving⟩

/--
A transfer starts, and the daemon becomes ready once more.
-/
def startedAndReady : List Action :=
  [.bridgeEvent "daemon://transfer-started" (.object [("file_name", .string "notes.txt")]),
    .watchdogEvent "Ready", .handle, .handle]

theorem bar_stays_when_ready
    : ∃ tr s, (Shell.machine .plain).Run tr s ∧ s.status.title = "Ready"
        ∧ (s.progress.visible = true ↔ ∃ payload, Started (tr.flatMap handled) payload) := by
  have hexec : (Machine.exec (Shell.next .plain) .start startedAndReady).any
      (fun s => s.status.title = "Ready") = true := by decide
  obtain ⟨s, hs, htitle⟩ := (Option.any_eq_true _ _).mp hexec
  have hrun := Machine.run_of_exec hs
  exact ⟨_, s, hrun, of_decide_eq_true htitle, (view_follows_events hrun).2.1⟩

end Gtk

end LocalBolt
