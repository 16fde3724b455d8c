import LocalBolt.Machine.Basic

/-!
This module contains projections of a machine: what an observer can tell of a state, when it changes
only with the actions that the observer sees, and then as these actions alone determine.
-/

namespace Machine

variable {σ α β : Type} {M : Machine σ α}

/--
The machine with the steps that `allowed` admits.
-/
def restrict (M : Machine σ α) (allowed : Transition σ α → Prop) : Machine σ α where
  init := M.init
  step s a s' := M.step s a s' ∧ allowed ⟨s, a, s'⟩

theorem Run.of_restrict {allowed : Transition σ α → Prop} {tr : List (Transition σ α)} {s : σ}
    (h : (M.restrict allowed).Run tr s) : M.Run tr s ∧ ∀ t ∈ tr, allowed t := by
  induction h with
  | init h => exact ⟨.init h, by simp⟩
  | step _ h ih =>
    refine ⟨.step ih.1 h.1, ?_⟩
    rw [List.forall_mem_append, List.forall_mem_singleton]
    exact ⟨ih.2, h.2⟩

theorem Run.restrict {allowed : Transition σ α → Prop} {tr : List (Transition σ α)} {s : σ}
    (h : M.Run tr s) (hallowed : ∀ t ∈ tr, allowed t) : (M.restrict allowed).Run tr s := by
  induction h with
  | init h => exact .init h
  | step _ h ih =>
    rw [List.forall_mem_append, List.forall_mem_singleton] at hallowed
    exact .step (ih hallowed.1) ⟨h, hallowed.2⟩

/--
The actions of a run that the observer sees.
-/
def seen (visible : Transition σ α → Bool) (tr : List (Transition σ α)) : List α :=
  (tr.filter visible).map (·.action)

theorem seen_append (visible : Transition σ α → Bool) (tr tr' : List (Transition σ α)) :
    seen visible (tr ++ tr') = seen visible tr ++ seen visible tr' := by
  unfold seen
  rw [List.filter_append, List.map_append]

/--
The step changes what `project` shows as `next` says if it is visible, and not at all otherwise.
-/
def Projects (project : σ → β) (next : β → α → Option β) (visible : Transition σ α → Bool)
    (t : Transition σ α) : Prop :=
  if visible t = true then next (project t.source) t.action = some (project t.target)
  else project t.target = project t.source

variable {project : σ → β} {next : β → α → Option β} {visible : Transition σ α → Bool}

/--
A run is projected to the run of the visible actions.
-/
theorem Run.exec_project {start : β} (hinit : ∀ s, M.init s → project s = start)
    {tr : List (Transition σ α)} {s : σ} (h : M.Run tr s)
    (hproject : ∀ t ∈ tr, Projects project next visible t) :
    Machine.exec next start (seen visible tr) = some (project s) := by
  induction h with
  | init h =>
    rw [hinit _ h]
    rfl
  | @step tr s s' a _ _ ih =>
    rw [List.forall_mem_append, List.forall_mem_singleton] at hproject
    rw [seen_append, exec_append, ih hproject.1, Option.bind_some]
    have hstep := hproject.2
    unfold Projects at hstep
    unfold seen
    split at hstep
    . next hvisible =>
      rw [List.filter_cons_of_pos hvisible, List.filter_nil, List.map_singleton]
      simp only [Machine.exec, hstep]
    . next hhidden =>
      rw [List.filter_cons_of_neg hhidden, List.filter_nil, List.map_nil]
      simp only [Machine.exec, hstep]

/--
Noninterference: runs with the same visible actions look the same in the end.
-/
theorem Run.noninterference {start : β} (hinit : ∀ s, M.init s → project s = start)
    {tr tr' : List (Transition σ α)} {s s' : σ} (h : M.Run tr s) (h' : M.Run tr' s')
    (hproject : ∀ t ∈ tr, Projects project next visible t)
    (hproject' : ∀ t ∈ tr', Projects project next visible t)
    (hseen : seen visible tr = seen visible tr') : project s = project s' := by
  have hexec := h.exec_project hinit hproject
  rw [hseen, h'.exec_project hinit hproject'] at hexec
  exact (Option.some.inj hexec).symm

end Machine
