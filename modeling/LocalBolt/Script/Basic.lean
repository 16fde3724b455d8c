import Mathlib.Data.List.Basic

/-!
This module contains scripts: programs that ask an outside world for one thing after another. What is
proved of a script by its weakest precondition holds in every world.
-/

/--
A script calls operations, and goes on with what they answer.
-/
inductive Script (Op : Type → Type) (α : Type) where
  | done (a : α)
  | call {γ : Type} (op : Op γ) (k : γ → Script Op α)

namespace Script

/--
An operation with what it answered.
-/
structure Event (Op : Type → Type) where
  {γ : Type}
  op : Op γ
  answer : γ

/--
A world answers with everything in view that has happened, oldest first.
-/
abbrev World (Op : Type → Type) := List (Event Op) → {γ : Type} → Op γ → γ

variable {Op : Type → Type} {α β γ : Type}

def bind (c : Script Op α) (f : α → Script Op β) : Script Op β :=
  match c with
  | .done a => f a
  | .call op k => .call op fun answer => (k answer).bind f

instance : Monad (Script Op) where
  pure := .done
  bind := bind

def perform (op : Op γ) : Script Op γ := .call op .done

def run (world : World Op) (c : Script Op α) (past : List (Event Op)) : α × List (Event Op) :=
  match c with
  | .done a => (a, past)
  | .call op k => run world (k (world past op)) (past ++ [⟨op, world past op⟩])

/-! ### Weakest preconditions -/

def wp (c : Script Op α) (Q : α → List (Event Op) → Prop) (past : List (Event Op)) : Prop :=
  match c with
  | .done a => Q a past
  | .call op k => ∀ answer, wp (k answer) Q (past ++ [⟨op, answer⟩])

variable {c : Script Op α} {f : α → Script Op β} {past : List (Event Op)}

theorem wp_run {Q : α → List (Event Op) → Prop} (h : c.wp Q past) (world : World Op)
    : Q (c.run world past).1 (c.run world past).2 := by
  induction c generalizing past with
  | done a => exact h
  | call op k ih => exact ih _ (h (world past op))

theorem wp_bind (Q : β → List (Event Op) → Prop)
    : (c >>= f).wp Q past = c.wp (fun a past => (f a).wp Q past) past := by
  induction c generalizing past with
  | done a => rfl
  | call op k ih => exact forall_congr fun answer => ih answer

theorem wp_pure (a : α) (Q : α → List (Event Op) → Prop)
    : (pure a : Script Op α).wp Q past = Q a past := by
  rfl

theorem wp_perform (op : Op γ) (Q : γ → List (Event Op) → Prop)
    : (perform op).wp Q past = ∀ answer, Q answer (past ++ [⟨op, answer⟩]) := by
  rfl

theorem wp_mono {Q R : α → List (Event Op) → Prop} (h : c.wp Q past)
    (himp : ∀ a past, Q a past → R a past) : c.wp R past := by
  induction c generalizing past with
  | done a => exact himp a past h
  | call op k ih => exact fun answer => ih answer (h answer)

/-! ### Worlds that can be relied on -/

/--
The world gives only answers that are allowed after what has happened.
-/
def Respects (allows : List (Event Op) → Event Op → Prop) (world : World Op) : Prop :=
  ∀ past {γ : Type} (op : Op γ), allows past ⟨op, world past op⟩

theorem exists_run_eq (world : World Op) (c : Script Op α) (past : List (Event Op)) :
    ∃ events, (c.run world past).2 = past ++ events := by
  induction c generalizing past with
  | done a => exact ⟨[], (List.append_nil past).symm⟩
  | call op k ih =>
    obtain ⟨events, hevents⟩ := ih (world past op) (past ++ [⟨op, world past op⟩])
    exact ⟨⟨op, world past op⟩ :: events, by rw [run, hevents, List.append_assoc]; rfl⟩

theorem Respects.of_run {allows : List (Event Op) → Event Op → Prop} {world : World Op}
    (h : Respects allows world) {pre post : List (Event Op)} {e : Event Op}
    (hrun : (c.run world past).2 = past ++ (pre ++ e :: post)) : allows (past ++ pre) e := by
  induction c generalizing past pre with
  | done a =>
    rw [run] at hrun
    exact absurd hrun (by simp)
  | call op k ih =>
    rw [run] at hrun
    cases pre with
    | nil =>
      obtain ⟨events, hevents⟩ := exists_run_eq world (k (world past op)) (past ++ [⟨op, world past op⟩])
      rw [hevents, List.append_assoc, List.append_cancel_left_eq] at hrun
      obtain ⟨rfl, -⟩ := List.cons.inj hrun
      rw [List.append_nil]
      exact h past op
    | cons e' pre =>
      obtain ⟨events, hevents⟩ := exists_run_eq world (k (world past op)) (past ++ [⟨op, world past op⟩])
      have heq := hevents.symm.trans hrun
      rw [List.append_assoc, List.append_cancel_left_eq] at heq
      obtain ⟨rfl, -⟩ := List.cons.inj heq
      have hrest : allows ((past ++ [⟨op, world past op⟩]) ++ pre) e :=
        ih _ (by rw [hrun, List.append_assoc]; rfl)
      rwa [List.append_assoc] at hrest

/-! ### Loops -/

/--
Up to `n` rounds, until one of them gives a result.
-/
def attempt (body : Script Op (Option β)) : Nat → Script Op (Option β)
  | 0 => pure none
  | n + 1 => do
    match ← body with
    | some b => pure (some b)
    | none => attempt body n

/--
What a loop has done: some rounds in vain, fewer than `n` of them before one with a result, else `n`.
-/
inductive Attempted (Round : List (Event Op) → Prop) (Last : β → List (Event Op) → Prop) (n : Nat) :
    Option β → List (Event Op) → Prop where
  | found (rounds : List (List (Event Op))) (b : β) (last : List (Event Op))
    (hlength : rounds.length < n) (hrounds : ∀ round ∈ rounds, Round round) (hlast : Last b last) :
    Attempted Round Last n (some b) (rounds.flatten ++ last)
  | exhausted (rounds : List (List (Event Op))) (hlength : rounds.length = n)
    (hrounds : ∀ round ∈ rounds, Round round) : Attempted Round Last n none rounds.flatten

variable {Round : List (Event Op) → Prop} {Last : β → List (Event Op) → Prop}

theorem Attempted.cons {n : Nat} {result : Option β} {events round : List (Event Op)}
    (hround : Round round) (h : Attempted Round Last n result events)
    : Attempted Round Last (n + 1) result (round ++ events) := by
  cases h with
  | found rounds b last hlength hrounds hlast =>
    rw [← List.append_assoc]
    exact .found (round :: rounds) b last (Nat.succ_lt_succ hlength)
      (List.forall_mem_cons.mpr ⟨hround, hrounds⟩) hlast
  | exhausted rounds hlength hrounds =>
    exact .exhausted (round :: rounds) (congrArg Nat.succ hlength)
      (List.forall_mem_cons.mpr ⟨hround, hrounds⟩)

/--
The events of one round: those of a last one, with its result, or of one in vain.
-/
def Rounded (Round : List (Event Op) → Prop) (Last : β → List (Event Op) → Prop) :
    Option β → List (Event Op) → Prop
  | some b, events => Last b events
  | none, events => Round events

theorem wp_attempt (Round : List (Event Op) → Prop) (Last : β → List (Event Op) → Prop)
    {body : Script Op (Option β)} {Q : Option β → List (Event Op) → Prop}
    (hbody : ∀ past, body.wp
      (fun result past' => ∃ events, past' = past ++ events ∧ Rounded Round Last result events) past)
    (n : Nat) (past : List (Event Op))
    (hQ : ∀ result events, Attempted Round Last n result events → Q result (past ++ events))
    : (attempt body n).wp Q past := by
  induction n generalizing past Q with
  | zero =>
    rw [← List.append_nil past]
    exact hQ none [] (.exhausted [] rfl (by simp))
  | succ n ih =>
    rw [attempt, wp_bind]
    apply wp_mono (hbody past)
    rintro result past' ⟨events, rfl, hresult⟩
    cases result with
    | some b => exact hQ _ _ (.found [] b events (Nat.succ_pos n) (by simp) hresult)
    | none =>
      apply ih
      intro result events' hattempted
      rw [List.append_assoc]
      exact hQ _ _ (hattempted.cons hresult)

end Script
