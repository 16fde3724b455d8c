import LocalBolt.Rendezvous.Impl.Limits
import LocalBolt.Windows.Basic

/-!
This module contains the rate limiter over any sequence of calls: its verdicts follow the windows that
the calls fall into, and when these windows let through no more calls than a sliding window would.
-/

namespace LocalBolt

namespace Rendezvous

open Windows

namespace RateLimit

def after (limit : RateLimit) (calls : List Nat) : RateLimit :=
  calls.foldl (fun limit now => (limit.check now).1) limit

def checks (limit : RateLimit) : List Nat → List (Except Bool Unit)
  | [] => []
  | now :: calls => (limit.check now).2 :: checks (limit.check now).1 calls

/--
What the call with a given number in its window returns.
-/
def verdict (number : Nat) : Except Bool Unit :=
  if number ≤ 50 then .ok () else if number ≤ 52 then .error false else .error true

structure InStep (limit : RateLimit) (p : Place) : Prop where
  windowStart : limit.windowStart = p.start
  remaining : limit.remaining = 50 - p.number
  violations : limit.consecutiveViolations = p.number - 50

theorem inStep_new (start : Nat) : InStep (new start) (opening start) := by
  constructor <;> rfl

theorem InStep.window {limit : RateLimit} {p : Place} (h : InStep limit p) (now : Nat)
    : (limit.window now).windowStart = (place oneSecond p now).start
        ∧ (limit.window now).remaining = 51 - (place oneSecond p now).number
        ∧ (limit.window now).consecutiveViolations = p.number - 50 := by
  obtain ⟨hstart, hremaining, hviolations⟩ := h
  have hpos : 0 < oneSecond := by decide
  have hover : now - limit.windowStart ≥ oneSecond ↔ p.start + oneSecond ≤ now := by omega
  unfold RateLimit.window place
  by_cases hnew : p.start + oneSecond ≤ now
  . rw [if_pos (hover.mpr hnew), if_pos hnew]
    exact ⟨rfl, rfl, hviolations⟩
  . rw [if_neg (hover.not.mpr hnew), if_neg hnew]
    refine ⟨hstart, ?_, hviolations⟩
    dsimp only
    omega

theorem InStep.check {limit : RateLimit} {p : Place} (h : InStep limit p) (now : Nat)
    : InStep (limit.check now).1 (place oneSecond p now)
        ∧ (limit.check now).2 = verdict (place oneSecond p now).number := by
  obtain ⟨hstart, hremaining, hviolations⟩ := h.window now
  have hnumber : (place oneSecond p now).number ≤ p.number + 1
      ∧ (50 < (place oneSecond p now).number → (place oneSecond p now).number = p.number + 1) := by
    unfold place
    split <;> dsimp only <;> omega
  unfold RateLimit.check verdict
  dsimp only
  by_cases hroom : (limit.window now).remaining > 0
  . rw [if_pos hroom, if_pos (by omega)]
    refine ⟨⟨hstart, ?_, ?_⟩, rfl⟩
    . dsimp only
      omega
    . dsimp only
      omega
  . rw [if_neg hroom, if_neg (by omega)]
    refine ⟨⟨hstart, ?_, ?_⟩, ?_⟩
    . dsimp only
      omega
    . dsimp only
      omega
    . by_cases hopen : (place oneSecond p now).number ≤ 52
      . rw [if_pos hopen]
        dsimp only
        congr 1
        rw [decide_eq_false_iff_not, hviolations, rateLimitCloseThreshold]
        omega
      . rw [if_neg hopen]
        dsimp only
        congr 1
        rw [decide_eq_true_eq, hviolations, rateLimitCloseThreshold]
        omega

theorem InStep.checks {limit : RateLimit} {p : Place} (h : InStep limit p) (calls : List Nat)
    : checks limit calls = (places oneSecond p calls).map (fun q => verdict q.number)
        ∧ InStep (limit.after calls) (last oneSecond p calls) := by
  induction calls generalizing limit p with
  | nil => exact ⟨rfl, h⟩
  | cons now calls ih =>
    obtain ⟨hnext, hverdict⟩ := h.check now
    obtain ⟨hchecks, hafter⟩ := ih hnext
    refine ⟨?_, hafter⟩
    simp only [RateLimit.checks, places, List.map_cons, hverdict, hchecks]

theorem checks_new (start : Nat) (calls : List Nat)
    : checks (new start) calls
        =
      (places oneSecond (opening start) calls).map fun p => verdict p.number := by
  exact ((inStep_new start).checks calls).1

theorem verdict_eq_ok_iff (number : Nat) : verdict number = .ok () ↔ number ≤ 50 := by
  unfold verdict
  split
  . next h => simp [h]
  . next h => split <;> simp [h]

theorem verdict_eq_close_iff (number : Nat) : verdict number = .error true ↔ 52 < number := by
  unfold verdict
  split
  . next h =>
    simp
    omega
  . split
    . next h =>
      simp
      omega
    . next h =>
      simp
      omega

/-! ### The windows of the limiter -/

structure FollowsWindows (start : Nat) (calls : List Nat) : Prop where
  verdicts : checks (new start) calls
    = (places oneSecond (opening start) calls).map fun p => verdict p.number
  remaining_le : ((new start).after calls).remaining ≤ 50
  violations_le : ((new start).after calls).consecutiveViolations ≤ 3

theorem number_last_le_of_open {start : Nat} {calls : List Nat}
    (hopen : .error true ∉ checks (new start) calls) :
    (last oneSecond (opening start) calls).number ≤ 52 := by
  cases calls using List.reverseRecOn with
  | nil => exact Nat.zero_le 52
  | append_singleton calls now =>
    by_contra hclosed
    apply hopen
    rw [checks_new, places_append_singleton, List.map_append]
    apply List.mem_append_right
    rw [List.map_singleton, List.mem_singleton, eq_comm, verdict_eq_close_iff]
    omega

theorem followsWindows {start : Nat} {calls : List Nat}
    (hopen : .error true ∉ checks (new start) calls.dropLast) : FollowsWindows start calls := by
  have hinStep := ((inStep_new start).checks calls).2
  refine ⟨checks_new start calls, ?_, ?_⟩
  . rw [hinStep.remaining]
    exact Nat.sub_le 50 _
  . have hnumber : (last oneSecond (opening start) calls).number ≤ 53 := by
      cases calls using List.reverseRecOn with
      | nil => exact Nat.zero_le 53
      | append_singleton calls now =>
        rw [List.dropLast_concat] at hopen
        have hbefore := number_last_le_of_open hopen
        rw [last_append_singleton]
        unfold place
        split <;> dsimp only <;> omega
    rw [hinStep.violations]
    omega

theorem ok_of_conforming {start : Nat} {calls : List Nat} (hsorted : (start :: calls).Pairwise (· ≤ ·))
    (hconforms : ∀ a, calls.countP (fun now => a ≤ now ∧ now < a + oneSecond) ≤ 50) :
    ∀ result ∈ checks (new start) calls, result = .ok () := by
  induction calls using List.reverseRecOn with
  | nil => simp [checks]
  | append_singleton calls now ih =>
    obtain ⟨opened, hnumber⟩ := number_last_le (by decide : 0 < oneSecond) start hsorted
    rw [checks_new, places_append_singleton, List.map_append, ← checks_new, List.forall_mem_append,
      List.map_singleton, List.forall_mem_singleton, verdict_eq_ok_iff]
    refine ⟨ih ?_ ?_, Nat.le_trans hnumber (hconforms opened)⟩
    . rw [← List.cons_append, List.pairwise_append] at hsorted
      exact hsorted.1
    . intro a
      have hle := hconforms a
      rw [List.countP_append] at hle
      omega

theorem limiter_follows_windows {start : Nat} {calls : List Nat}
    (hsorted : (start :: calls).Pairwise (· ≤ ·))
    : (.error true ∉ checks (new start) calls.dropLast → FollowsWindows start calls)
        ∧ ((∀ a, calls.countP (fun now => a ≤ now ∧ now < a + oneSecond) ≤ 50) →
          ∀ result ∈ checks (new start) calls, result = .ok ()) := by
  exact ⟨followsWindows, ok_of_conforming hsorted⟩

theorem burst_follows_windows : FollowsWindows 0 (List.replicate 53 0) := by
  apply (limiter_follows_windows (by decide)).1
  decide

/-! ### The limiter as a sliding window -/

def admitted (start : Nat) (calls : List Nat) : List Nat :=
  ((calls.zip (checks (new start) calls)).filter fun call => call.2 = .ok ()).map (·.1)

def SlidingWindow (start : Nat) (calls : List Nat) : Prop :=
  ∀ a b, b < a + oneSecond →
    (admitted start calls).countP (fun now => a ≤ now ∧ now ≤ b) ≤ rateLimitPerSecond

/--
The first calls of a window leave room for those of the window before that are less than a second ago.
-/
def BurstsSpaced (start : Nat) (calls : List Nat) : Prop :=
  ∀ before now, before ++ [now] <+: calls →
    (last oneSecond (opening start) (before ++ [now])).number ≤ rateLimitPerSecond →
      carried rateLimitPerSecond oneSecond (places oneSecond (opening start) before)
          (last oneSecond (opening start) (before ++ [now]))
        + (last oneSecond (opening start) (before ++ [now])).number ≤ rateLimitPerSecond

theorem admitted_eq (start : Nat) (calls : List Nat)
    : admitted start calls
        =
      (granted rateLimitPerSecond (places oneSecond (opening start) calls)).map (·.now) := by
  have hcalls : (places oneSecond (opening start) calls).map (·.now) = calls := map_now_places _ _
  unfold admitted granted
  rw [checks_new]
  generalize places oneSecond (opening start) calls = ps at hcalls ⊢
  rw [← hcalls, List.zip_map', List.filter_map, List.map_map]
  congr 1
  apply List.filter_congr
  intro p _
  exact decide_eq_decide.mpr (verdict_eq_ok_iff p.number)

theorem sliding_window_iff {start : Nat} {calls : List Nat}
    (hsorted : (start :: calls).Pairwise (· ≤ ·)) :
    SlidingWindow start calls ↔ BurstsSpaced start calls := by
  unfold SlidingWindow
  rw [admitted_eq]
  simp only [List.countP_map]
  exact sliding_iff (by decide) start hsorted

theorem sliding_window_second_apart
    : SlidingWindow 0 [0, 1000000000] ↔ BurstsSpaced 0 [0, 1000000000] := by
  exact sliding_window_iff (by decide)

/--
Fifty calls at the end of one window and fifty at the start of the next are all let through.
-/
theorem sliding_window_double_burst
    : ¬ SlidingWindow 0 (List.replicate 50 900000000 ++ List.replicate 50 1000000000) := by
  intro hsliding
  have hle := hsliding 900000000 1000000000 (by decide)
  revert hle
  decide +kernel

end RateLimit

end Rendezvous

end LocalBolt
