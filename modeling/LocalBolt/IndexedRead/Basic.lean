import LocalBolt.Machine.Observer

/-!
This module contains the reading of a list one index at a time, up to a length taken at the
beginning, while the list changes between the reads.
-/

/--
A running read: the list as it is now, the length taken at the beginning, the next index and what has
been read so far, each item through a view.
-/
structure IndexedRead (α β : Type) where
  items : List α
  count : Nat
  index : Nat
  read : List β

namespace IndexedRead

variable {α β : Type}

inductive Action (α : Type) where
  | change (items : List α)
  | get

def start (items : List α) (count : Nat) : IndexedRead α β where
  items
  count
  index := 0
  read := []

def next (view : α → β) (s : IndexedRead α β) : Action α → Option (IndexedRead α β)
  | .change items => if s.index < s.count then some { s with items } else none
  | .get =>
    if s.index < s.count then
      some { s with
        index := s.index + 1
        read := s.read ++ (s.items[s.index]?.map view).toList }
    else
      none

def machine (view : α → β) (items : List α) (count : Nat) : Machine (IndexedRead α β) (Action α) :=
  .ofFun (start items count) (next view)

def instants (items : List α) : Observer (IndexedRead α β) (Action α) (List (List α)) where
  start := [items]
  next seen _ _ s := seen ++ [s.items]

/--
A change is steady if fewer items are left than there were read and all had been read, or if it leaves
the items that were read in place and keeps to the first `count` or to no more than `count`.
-/
def Steady (index count : Nat) (items items' : List α) : Prop :=
  (items.length ≤ index ∧ items'.length < index)
    ∨ (index ≤ items.length ∧ items'.take index = items.take index
      ∧ (items'.length ≤ count ∨ items'.take count = items.take count))

instance [DecidableEq α] (index count : Nat) (items items' : List α) :
    Decidable (Steady index count items items') := by
  unfold Steady
  infer_instance

structure Consistent (view : α → β) (p : IndexedRead α β × List (List α)) : Prop where
  now : p.1.items ∈ p.2
  bounded : p.1.index ≤ p.1.count
  read : (p.1.index ≤ p.1.items.length ∧ p.1.read = (p.1.items.take p.1.index).map view
      ∧ (p.1.items.length ≤ p.1.count ∨ p.1.items.take p.1.count ∈ p.2))
    ∨ (p.1.items.length < p.1.index ∧ ∃ items ∈ p.2, p.1.read = items.map view)

theorem Consistent.change {view : α → β} {s : IndexedRead α β} {seen : List (List α)}
    (h : Consistent view (s, seen)) {items : List α}
    (hsteady : Steady s.index s.count s.items items) :
    Consistent view ({ s with items }, seen ++ [items]) where
  now := by simp
  bounded := h.bounded
  read := by
    rcases hsteady with ⟨hall, hfew⟩ | ⟨hindex, htake, hcount⟩
    . -- everything listed has been read, and the read is complete
      right
      refine ⟨hfew, ?_⟩
      rcases h.read with ⟨-, hread, -⟩ | ⟨-, items', hitems', hread⟩
      . refine ⟨s.items, List.mem_append_left _ h.now, ?_⟩
        rw [hread, List.take_of_length_le hall]
      . exact ⟨items', List.mem_append_left _ hitems', hread⟩
    . left
      rcases h.read with ⟨-, hread, hbound⟩ | ⟨hpast, -⟩
      . have hlength := congrArg List.length htake
        rw [List.length_take, List.length_take] at hlength
        refine ⟨by dsimp only; omega, by rw [hread, htake], ?_⟩
        rcases hcount with hcount | hcount
        . exact .inl hcount
        . right
          dsimp only
          rw [hcount]
          apply List.mem_append_left
          rcases hbound with hbound | hbound
          . rw [List.take_of_length_le hbound]
            exact h.now
          . exact hbound
      . dsimp only at hpast
        omega

theorem Consistent.get {view : α → β} {s : IndexedRead α β} {seen : List (List α)}
    (h : Consistent view (s, seen)) (hindex : s.index < s.count) :
    Consistent view
      ({ s with index := s.index + 1, read := s.read ++ (s.items[s.index]?.map view).toList },
        seen ++ [s.items]) where
  now := by simp
  bounded := hindex
  read := by
    rcases h.read with ⟨hlisted, hread, hbound⟩ | ⟨hpast, items, hitems, hread⟩
    . dsimp only at hlisted hread hbound ⊢
      by_cases hmore : s.index < s.items.length
      . left
        refine ⟨hmore, ?_, ?_⟩
        . rw [hread, List.take_add_one, List.map_append, Option.toList_map]
        . exact hbound.imp_right (List.mem_append_left _)
      . right
        refine ⟨by omega, s.items, by simp, ?_⟩
        rw [List.getElem?_eq_none (by omega), hread, List.take_of_length_le (by omega)]
        simp
    . dsimp only at hpast hread ⊢
      right
      refine ⟨by omega, items, List.mem_append_left _ hitems, ?_⟩
      rw [List.getElem?_eq_none (by omega), hread]
      simp

theorem Consistent.finished {view : α → β} {p : IndexedRead α β × List (List α)}
    (h : Consistent view p) (hdone : p.1.index = p.1.count) :
    ∃ items ∈ p.2, p.1.read = items.map view := by
  rcases h.read with ⟨-, hread, hbound⟩ | ⟨-, hread⟩
  . rw [hdone] at hread
    rcases hbound with hbound | hbound
    . exact ⟨p.1.items, h.now, by rw [hread, List.take_of_length_le hbound]⟩
    . exact ⟨_, hbound, hread⟩
  . exact hread

theorem reads_instant {view : α → β} {items : List α}
    {tr : List (Transition (IndexedRead α β × List (List α)) (Action α))}
    {q : IndexedRead α β × List (List α)}
    (h : ((machine view items items.length).observed (instants items)).Run tr q)
    (hsteady : ∀ t ∈ tr, ∀ items', t.action = .change items' →
      Steady t.source.1.index t.source.1.count t.source.1.items items')
    (hdone : q.1.index = q.1.count) : ∃ items ∈ q.2, q.1.read = items.map view := by
  have hconsistent : Consistent view q := by
    refine h.invariant ?_ ?_
    . rintro ⟨s, seen⟩ ⟨hs, hseen⟩
      obtain rfl : s = start items items.length := hs
      obtain rfl : seen = [items] := hseen
      constructor <;> simp [start]
    . rintro ⟨⟨s, seen⟩, action, ⟨s', seen'⟩⟩ ht ⟨hstep, hseen⟩ hs
      obtain rfl : seen' = seen ++ [s'.items] := hseen
      cases action with
      | change items' =>
        obtain ⟨hindex, rfl⟩ : s.index < s.count ∧ { s with items := items' } = s' := by
          simpa [machine, Machine.ofFun, next] using hstep
        exact Consistent.change hs (hsteady _ ht items' rfl)
      | get =>
        obtain ⟨hindex, rfl⟩ : s.index < s.count ∧ { s with
            index := s.index + 1
            read := s.read ++ (s.items[s.index]?.map view).toList } = s' := by
          simpa [machine, Machine.ofFun, next] using hstep
        exact Consistent.get hs hindex
  exact hconsistent.finished hdone

end IndexedRead
