import Mathlib.Data.List.Infix
import Mathlib.Data.List.Induction

/-!
This module contains the division of a sequence of instants into windows: the first window opens at a
given instant, each later one at the first instant that is a period after the opening of the window
before. The first `limit` instants of a window are granted.
-/

namespace Windows

/--
An instant, the window that it falls into, and its number in that window.
-/
structure Place where
  now : Nat
  start : Nat
  number : Nat

def opening (start : Nat) : Place where
  now := start
  start := start
  number := 0

section

variable (period : Nat)

def place (p : Place) (now : Nat) : Place :=
  if p.start + period ≤ now then
    { now, start := now, number := 1 }
  else
    { now, start := p.start, number := p.number + 1 }

def last (p : Place) (nows : List Nat) : Place := nows.foldl (place period) p

def places (p : Place) : List Nat → List Place
  | [] => []
  | now :: nows => place period p now :: places (place period p now) nows

end

variable {period : Nat}

theorem last_append_singleton (p : Place) (nows : List Nat) (now : Nat) :
    last period p (nows ++ [now]) = place period (last period p nows) now := by
  simp only [last, List.foldl_append, List.foldl_cons, List.foldl_nil]

theorem places_append_singleton (p : Place) (nows : List Nat) (now : Nat)
    : places period p (nows ++ [now])
        =
      places period p nows ++ [last period p (nows ++ [now])] := by
  induction nows generalizing p with
  | nil => rfl
  | cons now' nows ih =>
    simp only [List.cons_append, places, List.cons.injEq, true_and]
    exact ih (place period p now')

@[simp]
theorem now_place (p : Place) (now : Nat) : (place period p now).now = now := by
  unfold place
  split <;> rfl

theorem map_now_places (p : Place) (nows : List Nat) : (places period p nows).map (·.now) = nows := by
  induction nows generalizing p with
  | nil => rfl
  | cons now nows ih => simp only [places, List.map_cons, now_place, ih]

/-! ### The windows of a non-decreasing sequence -/

/--
The places `ps` up to the place `p`, which is the last of them.
-/
structure Divided (period : Nat) (ps : List Place) (p : Place) : Prop where
  opened : p.start ≤ p.now
  started : ∀ q ∈ ps, q.start ≤ p.start
  inside : ∀ q ∈ ps, q.start ≤ q.now ∧ q.now < q.start + period
  passed : ∀ q ∈ ps, q.now ≤ p.now
  number_le : ∀ q ∈ ps, q.start = p.start → q.number ≤ p.number
  count : ps.countP (·.start = p.start) = p.number

theorem Divided.append {ps : List Place} {p : Place} {now : Nat} (h : Divided period ps p)
    (hperiod : 0 < period) (hnow : p.now ≤ now) :
    Divided period (ps ++ [place period p now]) (place period p now) := by
  have hopened := h.opened
  have hpassed : ∀ q ∈ ps, q.now ≤ now := fun q hq => Nat.le_trans (h.passed q hq) hnow
  unfold place
  split
  . next hnew =>
    have hearlier : ∀ q ∈ ps, q.start < now := by
      intro q hq
      have := h.started q hq
      omega
    constructor
    . exact Nat.le_refl now
    . rw [List.forall_mem_append, List.forall_mem_singleton]
      exact ⟨fun q hq => Nat.le_of_lt (hearlier q hq), Nat.le_refl now⟩
    . rw [List.forall_mem_append, List.forall_mem_singleton]
      exact ⟨h.inside, Nat.le_refl now, Nat.lt_add_of_pos_right hperiod⟩
    . rw [List.forall_mem_append, List.forall_mem_singleton]
      exact ⟨hpassed, Nat.le_refl now⟩
    . rw [List.forall_mem_append, List.forall_mem_singleton]
      refine ⟨?_, fun _ => Nat.le_refl 1⟩
      intro q hq hsame
      exact absurd hsame (Nat.ne_of_lt (hearlier q hq))
    . have hnone : ps.countP (·.start = now) = 0 := by
        rw [List.countP_eq_zero]
        intro q hq hsame
        exact Nat.ne_of_lt (hearlier q hq) (of_decide_eq_true hsame)
      dsimp only
      rw [List.countP_append, hnone]
      simp
  . next hsame =>
    have hinside : p.start ≤ now ∧ now < p.start + period := by omega
    constructor
    . exact hinside.1
    . rw [List.forall_mem_append, List.forall_mem_singleton]
      exact ⟨h.started, Nat.le_refl p.start⟩
    . rw [List.forall_mem_append, List.forall_mem_singleton]
      exact ⟨h.inside, hinside⟩
    . rw [List.forall_mem_append, List.forall_mem_singleton]
      exact ⟨hpassed, Nat.le_refl now⟩
    . rw [List.forall_mem_append, List.forall_mem_singleton]
      refine ⟨?_, fun _ => Nat.le_refl _⟩
      intro q hq hstart
      exact Nat.le_succ_of_le (h.number_le q hq hstart)
    . dsimp only
      rw [List.countP_append, h.count]
      simp

theorem divided (hperiod : 0 < period) (start : Nat) {nows : List Nat}
    (hsorted : (start :: nows).Pairwise (· ≤ ·)) :
    Divided period (places period (opening start) nows) (last period (opening start) nows) := by
  induction nows using List.reverseRecOn with
  | nil =>
    constructor
    . exact Nat.le_refl _
    all_goals simp [places, last, opening]
  | append_singleton nows now ih =>
    rw [← List.cons_append, List.pairwise_append] at hsorted
    obtain ⟨hsorted, -, hle⟩ := hsorted
    rw [places_append_singleton, last_append_singleton]
    apply (ih hsorted).append hperiod
    apply hle _ _ now (List.mem_singleton.mpr rfl)
    cases nows using List.reverseRecOn with
    | nil => exact List.mem_cons_self
    | append_singleton nows now' =>
      rw [last_append_singleton, now_place]
      simp

theorem number_last_le (hperiod : 0 < period) (start : Nat) {nows : List Nat}
    (hsorted : (start :: nows).Pairwise (· ≤ ·))
    : ∃ opened, (last period (opening start) nows).number
        ≤
      nows.countP fun now => opened ≤ now ∧ now < opened + period := by
  have hdivided := divided hperiod start hsorted
  refine ⟨(last period (opening start) nows).start, ?_⟩
  generalize last period (opening start) nows = p at hdivided ⊢
  rw [← map_now_places (opening start) nows, List.countP_map, ← hdivided.count]
  apply List.countP_mono_left
  intro q hq hsame
  have hinside := hdivided.inside q hq
  rw [of_decide_eq_true hsame] at hinside
  exact decide_eq_true hinside

/-! ### Intervals shorter than a period -/

section

variable (limit : Nat)

def granted (ps : List Place) : List Place := ps.filter (·.number ≤ limit)

/--
How many places of earlier windows are granted less than a period before `p`.
-/
def carried (period : Nat) (ps : List Place) (p : Place) : Nat :=
  (granted limit ps).countP fun q => q.start < p.start ∧ p.now < q.now + period

end

variable {limit : Nat}

theorem countP_eq_add {α : Type} {l : List α} {P Q R : α → Prop} [DecidablePred P] [DecidablePred Q]
    [DecidablePred R] (hsplit : ∀ x ∈ l, P x ↔ Q x ∨ R x) (hdisjoint : ∀ x ∈ l, Q x → ¬ R x)
    : l.countP P = l.countP Q + l.countP R := by
  induction l with
  | nil => rfl
  | cons x l ih =>
    rw [List.forall_mem_cons] at hsplit hdisjoint
    have hx := hsplit.1
    have hx' := hdisjoint.1
    simp only [List.countP_cons, ih hsplit.2 hdisjoint.2, decide_eq_true_eq]
    by_cases hQ : Q x
    . have hR := hx' hQ
      simp only [hx, hQ, hR]
      simp
      omega
    . by_cases hR : R x
      . simp only [hx, hQ, hR]
        simp
        omega
      . simp only [hx, hQ, hR]
        simp

/--
The granted places less than a period before `p`: those of earlier windows and the whole window of
`p`.
-/
theorem countP_granted {ps : List Place} {p : Place} (h : Divided period (ps ++ [p]) p)
    (hnumber : p.number ≤ limit)
    : (granted limit ps).countP (fun q => p.now < q.now + period) + 1
        =
      carried limit period ps p + p.number := by
  have hstarted : ∀ q ∈ granted limit ps, q.start ≤ p.start := by
    intro q hq
    exact h.started q (List.mem_append_left _ (List.mem_of_mem_filter hq))
  have hrecent : ∀ q ∈ granted limit ps, q.start = p.start → p.now < q.now + period := by
    intro q hq hsame
    have hq := h.inside q (List.mem_append_left _ (List.mem_of_mem_filter hq))
    have hp := h.inside p (List.mem_append_right _ (List.mem_singleton.mpr rfl))
    omega
  have hsplit : (granted limit ps).countP (fun q => p.now < q.now + period)
      = carried limit period ps p + (granted limit ps).countP (·.start = p.start) := by
    apply countP_eq_add
    . intro q hq
      have hle := hstarted q hq
      constructor
      . intro hnow
        rcases Nat.lt_or_eq_of_le hle with hlt | heq
        . exact .inl ⟨hlt, hnow⟩
        . exact .inr heq
      . rintro (⟨-, hnow⟩ | hsame)
        . exact hnow
        . exact hrecent q hq hsame
    . intro q _ hearlier
      exact Nat.ne_of_lt hearlier.1
  have hwindow : (granted limit ps).countP (·.start = p.start) = ps.countP (·.start = p.start) := by
    unfold granted
    rw [List.countP_filter]
    apply List.countP_congr
    intro q hq
    rw [Bool.and_eq_true, and_iff_left_iff_imp]
    intro hsame
    have hle := h.number_le q (List.mem_append_left _ hq) (of_decide_eq_true hsame)
    exact decide_eq_true (Nat.le_trans hle hnumber)
  have hcount := h.count
  rw [List.countP_append, List.countP_singleton, if_pos (decide_eq_true rfl)] at hcount
  omega

theorem granted_append (ps ps' : List Place) :
    granted limit (ps ++ ps') = granted limit ps ++ granted limit ps' := by
  apply List.filter_append

/--
No more than `limit` granted instants lie in an interval shorter than a period.
-/
def Sliding (limit period : Nat) (ps : List Place) : Prop :=
  ∀ a b, b < a + period → (granted limit ps).countP (fun q => a ≤ q.now ∧ q.now ≤ b) ≤ limit

theorem Sliding.of_append {ps ps' : List Place} (h : Sliding limit period (ps ++ ps')) :
    Sliding limit period ps := by
  intro a b hab
  have hle := h a b hab
  rw [granted_append, List.countP_append] at hle
  omega

theorem sliding_append_iff {ps : List Place} {p : Place} (h : Divided period (ps ++ [p]) p)
    (hps : Sliding limit period ps)
    : Sliding limit period (ps ++ [p])
        ↔
      (p.number ≤ limit → carried limit period ps p + p.number ≤ limit) := by
  have hinside := h.inside p (List.mem_append_right _ (List.mem_singleton.mpr rfl))
  by_cases hnumber : p.number ≤ limit
  . rw [← countP_granted h hnumber]
    have hgranted : granted limit (ps ++ [p]) = granted limit ps ++ [p] := by
      rw [granted_append]
      congr 1
      exact List.filter_cons_of_pos (decide_eq_true hnumber)
    have hpassed : ∀ q ∈ granted limit ps, q.now ≤ p.now := by
      intro q hq
      exact h.passed q (List.mem_append_left _ (List.mem_of_mem_filter hq))
    constructor
    . intro hsliding _
      -- the widest interval that ends with `p`
      have hle := hsliding (p.now + 1 - period) p.now (by omega)
      rw [hgranted, List.countP_append, List.countP_singleton, if_pos (decide_eq_true (by omega))] at hle
      have hcount : (granted limit ps).countP (fun q => p.now < q.now + period)
          = (granted limit ps).countP (fun q => p.now + 1 - period ≤ q.now ∧ q.now ≤ p.now) := by
        apply List.countP_congr
        intro q hq
        have := hpassed q hq
        simp only [decide_eq_true_eq]
        omega
      rw [hcount]
      exact hle
    . intro hle a b hab
      rw [hgranted, List.countP_append, List.countP_singleton]
      split
      . next hp =>
        rw [decide_eq_true_eq] at hp
        apply Nat.le_trans _ (hle hnumber)
        apply Nat.add_le_add_right
        apply List.countP_mono_left
        intro q _ hq
        rw [decide_eq_true_eq] at hq ⊢
        omega
      . exact hps a b hab
  . have hgranted : granted limit (ps ++ [p]) = granted limit ps := by
      rw [granted_append, granted, granted, List.filter_cons_of_neg (by simpa using hnumber),
        List.filter_nil, List.append_nil]
    refine iff_of_true ?_ (fun h => absurd h hnumber)
    unfold Sliding
    rw [hgranted]
    exact hps

theorem sliding_iff (hperiod : 0 < period) (start : Nat) {nows : List Nat}
    (hsorted : (start :: nows).Pairwise (· ≤ ·))
    : Sliding limit period (places period (opening start) nows)
        ↔
      ∀ before now, before ++ [now] <+: nows →
        (last period (opening start) (before ++ [now])).number ≤ limit →
          carried limit period (places period (opening start) before)
              (last period (opening start) (before ++ [now]))
            + (last period (opening start) (before ++ [now])).number ≤ limit := by
  induction nows using List.reverseRecOn with
  | nil =>
    refine iff_of_true ?_ ?_
    . intro a b _
      exact Nat.zero_le limit
    . intro before now hpre
      have := hpre.length_le
      simp at this
  | append_singleton nows now ih =>
    have hdivided := divided hperiod start hsorted
    rw [places_append_singleton] at hdivided ⊢
    have hearlier : (start :: nows).Pairwise (· ≤ ·) := by
      rw [← List.cons_append, List.pairwise_append] at hsorted
      exact hsorted.1
    have ih := ih hearlier
    constructor
    . intro hsliding before now' hpre
      rcases List.prefix_concat_iff.mp hpre with heq | hpre
      . obtain ⟨rfl, hnow⟩ := List.append_inj' heq rfl
        obtain rfl := List.singleton_inj.mp hnow
        exact (sliding_append_iff hdivided hsliding.of_append).mp hsliding
      . exact ih.mp hsliding.of_append before now' hpre
    . intro hcarried
      have hps := ih.mpr fun before now' hpre =>
        hcarried before now' (hpre.trans (List.prefix_append ..))
      exact (sliding_append_iff hdivided hps).mpr (hcarried nows now (List.prefix_refl _))

end Windows
