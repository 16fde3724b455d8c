import LocalBolt.Rendezvous.Impl.Slots

/-!
This module contains the connection slots: that the counter counts the guards, whatever the order in
which calls read it, exchange it and guards are dropped.
-/

namespace LocalBolt

namespace Rendezvous

namespace Slots

variable {τ : Type} [DecidableEq τ] {w : Nat} {maxConnections : BitVec w}

/--
A call that is about to exchange has read a counter below the limit, however old that reading is.
-/
structure Counted (maxConnections : BitVec w) (s : Slots τ w) : Prop where
  active : s.active.toNat = s.guards
  guards_le : s.guards ≤ maxConnections.toNat
  read_lt : ∀ task current, s.pc task = .compareExchange current → current < maxConnections

theorem move_read_lt {s : Slots τ w} {task : τ} {pc : Acquire w}
    (h : ∀ task current, s.pc task = .compareExchange current → current < maxConnections)
    (hpc : ∀ current, pc = .compareExchange current → current < maxConnections)
    : ∀ task' current, (s.move task pc).pc task' = .compareExchange current →
        current < maxConnections := by
  intro task' current hread
  simp only [move, Function.update_apply] at hread
  split at hread
  . exact hpc current hread
  . exact h task' current hread

theorem toNat_one_of_lt {x y : BitVec w} (h : x < y) : (1 : BitVec w).toNat = 1 := by
  have hy := y.isLt
  rw [BitVec.lt_def] at h
  have hone : 1 < 2 ^ w := by omega
  exact Nat.mod_eq_of_lt hone

theorem toNat_add_one {x y : BitVec w} (h : x < y) : (x + 1).toNat = x.toNat + 1 := by
  have hy := y.isLt
  have hone := toNat_one_of_lt h
  rw [BitVec.lt_def] at h
  rw [BitVec.toNat_add, hone, Nat.mod_eq_of_lt]
  omega

theorem toNat_sub_one {x : BitVec w} (h : 0 < x.toNat) : (x - 1).toNat = x.toNat - 1 := by
  have hx := x.isLt
  have hone : (1 : BitVec w).toNat = 1 := toNat_one_of_lt (BitVec.lt_def.mpr h : 0#w < x)
  rw [BitVec.toNat_sub_of_le, hone]
  rw [BitVec.le_def, hone]
  exact h

theorem counted_step {s s' : Slots τ w} {task : τ} (hs : s.Counted maxConnections)
    (h : s.tryAcquireSlot maxConnections task = some s') : s'.Counted maxConnections := by
  unfold tryAcquireSlot at h
  split at h
  . dsimp only at h
    split at h
    . obtain rfl := Option.some.inj h
      exact ⟨hs.active, hs.guards_le, move_read_lt hs.read_lt (by simp)⟩
    . next hlimit =>
      obtain rfl := Option.some.inj h
      refine ⟨hs.active, hs.guards_le, move_read_lt hs.read_lt ?_⟩
      rintro current heq
      obtain rfl := Acquire.compareExchange.inj heq
      exact BitVec.not_le.mp hlimit
  . next current hpc =>
    split at h
    . next hcurrent =>
      obtain rfl := Option.some.inj h
      have hlt := hs.read_lt task current hpc
      have hactive := hs.active
      rw [hcurrent] at hactive
      refine ⟨?_, ?_, move_read_lt hs.read_lt (by simp)⟩
      . exact (toNat_add_one hlt).trans (congrArg (· + 1) hactive)
      . rw [BitVec.lt_def, hactive] at hlt
        exact hlt
    . obtain rfl := Option.some.inj h
      exact ⟨hs.active, hs.guards_le, move_read_lt hs.read_lt (by simp)⟩
  . simp at h

theorem counted_next {s s' : Slots τ w} {action : Action τ} (hs : s.Counted maxConnections)
    (h : s.next maxConnections action = some s') : s'.Counted maxConnections := by
  cases action with
  | call task =>
    simp only [next] at h
    split at h <;> try contradiction
    all_goals
      obtain rfl := Option.some.inj h
      exact ⟨hs.active, hs.guards_le, move_read_lt hs.read_lt (by simp)⟩
  | step task => exact counted_step hs h
  | drop =>
    simp only [next] at h
    split at h
    . next hguards =>
      obtain rfl := Option.some.inj h
      refine ⟨?_, ?_, hs.read_lt⟩
      . rw [← hs.active] at hguards
        exact (toNat_sub_one hguards).trans (congrArg (· - 1) hs.active)
      . exact Nat.le_trans (Nat.sub_le _ _) hs.guards_le
    . contradiction

theorem counted {s : Slots τ w} (h : (machine τ maxConnections).Reachable s) :
    s.Counted maxConnections := by
  refine h.invariant ?_ ?_
  . intro s hs
    obtain rfl : s = start := hs
    refine ⟨?_, Nat.zero_le _, ?_⟩
    . exact BitVec.toNat_zero
    . intro task current hpc
      simp [start] at hpc
  . intro s action s' _ hs hnext
    exact counted_next hs hnext

theorem returned_none_iff {s s' : Slots τ w} {task : τ}
    (h : s.next maxConnections (.step task) = some s') (hpc : s'.pc task = .returned false) :
    s.pc task = .load ∧ maxConnections ≤ s.active := by
  simp only [next, tryAcquireSlot] at h
  split at h
  . next hload =>
    split at h
    . next hlimit => exact ⟨hload, hlimit⟩
    . obtain rfl := Option.some.inj h
      simp [move] at hpc
  . split at h <;>
      . obtain rfl := Option.some.inj h
        simp [move] at hpc
  . contradiction

theorem connection_slots_exact {s : Slots τ w} (h : (machine τ maxConnections).Reachable s)
    : s.active.toNat = s.guards
        ∧ s.guards ≤ maxConnections.toNat
        ∧ (∀ s', s.next maxConnections .drop = some s' → 0 < s.active.toNat)
        ∧ (∀ task current, s.pc task = .compareExchange current → current.toNat + 1 < 2 ^ w)
        ∧ ∀ task s', s.next maxConnections (.step task) = some s' →
            s'.pc task = .returned false →
              s.pc task = .load ∧ s.guards = maxConnections.toNat := by
  have hs := counted h
  refine ⟨hs.active, hs.guards_le, ?_, ?_, ?_⟩
  . intro s' hdrop
    simp only [next] at hdrop
    split at hdrop
    . next hguards =>
      rw [hs.active]
      exact hguards
    . contradiction
  . intro task current hpc
    have hlt := hs.read_lt task current hpc
    have hmax := maxConnections.isLt
    rw [BitVec.lt_def] at hlt
    omega
  . intro task s' hstep hpc
    obtain ⟨hload, hlimit⟩ := returned_none_iff hstep hpc
    rw [BitVec.le_def, hs.active] at hlimit
    exact ⟨hload, Nat.le_antisymm hs.guards_le hlimit⟩

/--
Two calls read the same counter, and the one that exchanges second reads again and is refused.
-/
def lastSlot : List (Action Bool) :=
  [.call false, .call true, .step false, .step true, .step false, .step true, .step true]

theorem last_slot_taken_once
    : ∃ s : Slots Bool 64, (machine Bool (1 : BitVec 64)).Reachable s
        ∧ s.pc false = .returned true ∧ s.pc true = .returned false
        ∧ s.active.toNat = s.guards ∧ s.guards = 1 := by
  have hrun : (Machine.exec (next (1 : BitVec 64)) start lastSlot).any (fun s =>
      s.pc false = .returned true ∧ s.pc true = .returned false ∧ s.guards = 1) = true := by decide
  obtain ⟨s, h, hs⟩ := Machine.exists_reachable_of_exec hrun
  obtain ⟨hfirst, hsecond, hguards⟩ := of_decide_eq_true hs
  exact ⟨s, h, hfirst, hsecond, (connection_slots_exact h).1, hguards⟩

end Slots

end Rendezvous

end LocalBolt
