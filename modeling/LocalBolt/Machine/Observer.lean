import LocalBolt.Machine.Basic

/-!
This module contains observers, the history variables of a machine: values computed from the steps
a machine takes, which the machine itself never reads. It also contains simulations, along which both
reachable states and what an observer saw carry over from one machine to another.
-/

/--
A history variable: its value before the first step and its update at each step.
-/
structure Observer (σ α γ : Type) where
  start : γ
  next : γ → σ → α → σ → γ

/--
A map of states and actions under which every step of `M` is a step of `N`.
-/
structure Simulation {σ τ α β : Type} (M : Machine σ α) (N : Machine τ β) where
  state : σ → τ
  action : σ → α → β
  init : ∀ s, M.init s → N.init (state s)
  step : ∀ s a s', M.step s a s' → N.step (state s) (action s a) (state s')

def Simulation.transition {σ τ α β : Type} {M : Machine σ α} {N : Machine τ β} (F : Simulation M N)
    (t : Transition σ α) : Transition τ β where
  source := F.state t.source
  action := F.action t.source t.action
  target := F.state t.target

def Observer.comap {σ τ α β γ : Type} {M : Machine σ α} {N : Machine τ β} (O : Observer τ β γ)
    (F : Simulation M N) : Observer σ α γ where
  start := O.start
  next c s a s' := O.next c (F.state s) (F.action s a) (F.state s')

namespace Machine

variable {σ τ α β γ : Type} {M : Machine σ α} {N : Machine τ β}

def observed (M : Machine σ α) (O : Observer σ α γ) : Machine (σ × γ) α where
  init p := M.init p.1 ∧ p.2 = O.start
  step p a q := M.step p.1 a q.1 ∧ q.2 = O.next p.2 p.1 a q.1

theorem Reachable.of_observed {O : Observer σ α γ} {p : σ × γ} (h : (M.observed O).Reachable p) :
    M.Reachable p.1 := by
  induction h with
  | init h => exact .init h.1
  | step _ h ih => exact .step ih h.1

def observedFun (O : Observer σ α γ) (f : σ → α → Option σ) : σ × γ → α → Option (σ × γ) :=
  fun p a => (f p.1 a).map fun s' => (s', O.next p.2 p.1 a s')

theorem observed_ofFun {O : Observer σ α γ} {start : σ} {f : σ → α → Option σ}
    : (ofFun start f).observed O
        =
      ofFun (start, O.start) (observedFun O f) := by
  unfold observed ofFun
  congr 1
  . funext p
    simp only [eq_iff_iff]
    exact (@Prod.ext_iff _ _ p (start, O.start)).symm
  . funext p a q
    simp only [observedFun, eq_iff_iff, Option.map_eq_some_iff]
    constructor
    . rintro ⟨h, hq⟩
      exact ⟨q.1, h, Prod.ext rfl hq.symm⟩
    . rintro ⟨s', h, rfl⟩
      exact ⟨h, rfl⟩

theorem exists_observed_of_exec {O : Observer σ α γ} {start : σ} {f : σ → α → Option σ}
    {as : List α} {P : σ × γ → Bool}
    (h : (exec (observedFun O f) (start, O.start) as).any P = true) :
    ∃ q, ((ofFun start f).observed O).Reachable q ∧ P q = true := by
  rw [observed_ofFun]
  exact exists_reachable_of_exec h

theorem observed_run_of_exec {O : Observer σ α γ} {start : σ} {f : σ → α → Option σ} {as : List α}
    {q : σ × γ} (h : exec (observedFun O f) (start, O.start) as = some q) :
    ((ofFun start f).observed O).Run (trace (observedFun O f) (start, O.start) as) q := by
  rw [observed_ofFun]
  exact run_of_exec h

theorem observed_step_of_fun {O : Observer σ α γ} {f : σ → α → Option σ}
    (hf : ∀ s a s', f s a = some s' → M.step s a s') {p q : σ × γ} {a : α}
    (h : observedFun O f p a = some q) : (M.observed O).step p a q := by
  obtain ⟨s', hs', rfl⟩ := Option.map_eq_some_iff.mp h
  exact ⟨hf _ _ _ hs', rfl⟩

theorem observed_run_trace (O : Observer σ α γ) {start : σ} (hstart : M.init start)
    {f : σ → α → Option σ} (hf : ∀ s a s', f s a = some s' → M.step s a s') (as : List α) :
    ∃ q, (M.observed O).Run (trace (observedFun O f) (start, O.start) as) q := by
  have hinit : (M.observed O).init (start, O.start) := ⟨hstart, rfl⟩
  exact run_trace hinit (fun _ _ _ => observed_step_of_fun hf) as

theorem exists_observed_transition (O : Observer σ α γ) {start : σ} (hstart : M.init start)
    {f : σ → α → Option σ} (hf : ∀ s a s', f s a = some s' → M.step s a s') (as : List α)
    {P : Transition (σ × γ) α → Bool}
    (h : (trace (observedFun O f) (start, O.start) as).any P = true) :
    ∃ tr q, (M.observed O).Run tr q ∧ ∃ t ∈ tr, P t = true := by
  obtain ⟨q, hq⟩ := observed_run_trace O hstart hf as
  exact ⟨_, q, hq, List.any_eq_true.mp h⟩

section Total

variable {O : Observer σ α γ} {start : σ} {f : σ → α → σ}

theorem observed_total_invariant {I : σ × γ → Prop} (hinit : I (start, O.start))
    (hstep : ∀ p a, I p → I (f p.1 a, O.next p.2 p.1 a (f p.1 a))) {q : σ × γ}
    (h : ((ofFun start fun s a => some (f s a)).observed O).Reachable q) : I q := by
  refine Reachable.invariant ?_ ?_ h
  . rintro p ⟨hp, hc⟩
    obtain rfl : p = (start, O.start) := Prod.ext hp hc
    exact hinit
  . rintro p a ⟨s', c'⟩ - hp ⟨hs', hc'⟩
    obtain rfl : f p.1 a = s' := Option.some.inj hs'
    obtain rfl : c' = O.next p.2 p.1 a (f p.1 a) := hc'
    exact hstep p a hp

theorem observed_total_forall_iff_of_good {P C : Transition (σ × γ) α → Prop} (Good : σ × γ → Prop)
    (hinit : Good (start, O.start))
    (hgood : ∀ p a, Good p → P ⟨p, a, (f p.1 a, O.next p.2 p.1 a (f p.1 a))⟩ →
      Good (f p.1 a, O.next p.2 p.1 a (f p.1 a)))
    (hstep : ∀ p a, Good p →
      (P ⟨p, a, (f p.1 a, O.next p.2 p.1 a (f p.1 a))⟩
        ↔ C ⟨p, a, (f p.1 a, O.next p.2 p.1 a (f p.1 a))⟩))
    {tr : List (Transition (σ × γ) α)} {q : σ × γ}
    (h : ((ofFun start fun s a => some (f s a)).observed O).Run tr q) :
    (∀ t ∈ tr, P t) ↔ ∀ t ∈ tr, C t := by
  refine Run.forall_iff_of_good Good ?_ ?_ ?_ h
  . rintro p ⟨hp, hc⟩
    obtain rfl : p = (start, O.start) := Prod.ext hp hc
    exact hinit
  . rintro p a ⟨s', c'⟩ - hp ⟨hs', hc'⟩
    obtain rfl : f p.1 a = s' := Option.some.inj hs'
    obtain rfl : c' = O.next p.2 p.1 a (f p.1 a) := hc'
    exact hgood p a hp
  . rintro p a ⟨s', c'⟩ - hp ⟨hs', hc'⟩
    obtain rfl : f p.1 a = s' := Option.some.inj hs'
    obtain rfl : c' = O.next p.2 p.1 a (f p.1 a) := hc'
    exact hstep p a hp

theorem observed_total_forall_iff {I : σ × γ → Prop} {C : Transition (σ × γ) α → Prop}
    (hinit : I (start, O.start))
    (hstep : ∀ p a, I p →
      (I (f p.1 a, O.next p.2 p.1 a (f p.1 a)) ↔ C ⟨p, a, (f p.1 a, O.next p.2 p.1 a (f p.1 a))⟩))
    {tr : List (Transition (σ × γ) α)} {q : σ × γ}
    (h : ((ofFun start fun s a => some (f s a)).observed O).Run tr q) :
    (∀ t ∈ tr, I t.target) ↔ ∀ t ∈ tr, C t := by
  refine observed_total_forall_iff_of_good I hinit ?_ hstep h
  intro _ _ _ htarget
  exact htarget

end Total

theorem Reachable.simulate (F : Simulation M N) {s : σ} (h : M.Reachable s) :
    N.Reachable (F.state s) := by
  induction h with
  | init h => exact .init (F.init _ h)
  | step _ h ih => exact .step ih (F.step _ _ _ h)

theorem Run.simulate (F : Simulation M N) {tr : List (Transition σ α)} {s : σ} (h : M.Run tr s) :
    N.Run (tr.map F.transition) (F.state s) := by
  induction h with
  | init h => exact .init (F.init _ h)
  | step _ h ih =>
    rw [List.map_append, List.map_singleton]
    exact .step ih (F.step _ _ _ h)

def simulationObserved (F : Simulation M N) (O : Observer τ β γ) :
    Simulation (M.observed (O.comap F)) (N.observed O) where
  state p := (F.state p.1, p.2)
  action p a := F.action p.1 a
  init _ h := ⟨F.init _ h.1, h.2⟩
  step _ _ _ h := ⟨F.step _ _ _ h.1, h.2⟩

end Machine
