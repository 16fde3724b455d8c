import Mathlib.Data.List.Infix

/-!
This module contains where a pattern occurs in a text, in particular in one that a separator divides.
-/

namespace LocalBolt

namespace Occurrence

variable {α : Type}

def OccursAt (pattern text : List α) (i : Nat) : Prop :=
  ∃ before after, text = before ++ (pattern ++ after) ∧ before.length = i

variable {pattern left right : List α} {sep : α} {i : Nat}

theorem OccursAt.add_length_le {text : List α} (h : OccursAt pattern text i) :
    i + pattern.length ≤ text.length := by
  obtain ⟨before, after, rfl, rfl⟩ := h
  simp

theorem infix_take_iff {text : List α} {n : Nat}
    : pattern <:+: text.take n ↔ ∃ i, OccursAt pattern text i ∧ i + pattern.length ≤ n := by
  constructor
  . rintro ⟨before, after, htake⟩
    rw [List.append_assoc] at htake
    refine ⟨before.length, ⟨before, after ++ text.drop n, ?_, rfl⟩, ?_⟩
    . rw [← List.append_assoc pattern, ← List.append_assoc before, htake, List.take_append_drop]
    . have hlength := congrArg List.length htake
      simp only [List.length_append, List.length_take] at hlength
      omega
  . rintro ⟨i, ⟨before, after, rfl, rfl⟩, hle⟩
    have hlength : (before ++ pattern).length ≤ n := by
      rw [List.length_append]
      exact hle
    refine ⟨before, after.take (n - (before ++ pattern).length), ?_⟩
    rw [← List.append_assoc before, List.take_append, List.take_of_length_le hlength]

/--
A pattern without the separator does not go over it.
-/
theorem occursAt_append_cons (hpattern : sep ∉ pattern)
    : OccursAt pattern (left ++ sep :: right) i
        ↔
      OccursAt pattern left i ∨ ∃ j, i = left.length + 1 + j ∧ OccursAt pattern right j := by
  constructor
  . rintro ⟨before, after, htext, rfl⟩
    rcases List.append_eq_append_iff.mp htext with ⟨more, rfl, hright⟩ | ⟨more, rfl, hafter⟩
    . cases more with
      | nil =>
        cases pattern with
        | nil => exact .inl ⟨left, [], by simp, by simp⟩
        | cons c pattern =>
          obtain rfl := (List.cons.inj hright).1
          exact absurd (List.mem_cons_self ..) hpattern
      | cons c more =>
        obtain ⟨rfl, rfl⟩ := List.cons.inj hright
        refine .inr ⟨more.length, ?_, more, after, rfl, rfl⟩
        rw [List.length_append, List.length_cons]
        omega
    . left
      rcases List.append_eq_append_iff.mp hafter with ⟨rest, rfl, rfl⟩ | ⟨rest, rfl, hrest⟩
      . exact ⟨before, rest, rfl, rfl⟩
      . cases rest with
        | nil => exact ⟨before, [], by simp, rfl⟩
        | cons c rest =>
          obtain rfl := (List.cons.inj hrest).1
          exact absurd (List.mem_append_right more (List.mem_cons_self ..)) hpattern
  . rintro (⟨before, after, rfl, rfl⟩ | ⟨j, rfl, before, after, rfl, rfl⟩)
    . exact ⟨before, after ++ sep :: right, by simp, rfl⟩
    . exact ⟨left ++ sep :: before, after, by simp, by simp; omega⟩

theorem split_unique {p : α → Prop} {left' right' : List α} {a a' : α} (hleft : ∀ b ∈ left, p b)
    (hleft' : ∀ b ∈ left', p b) (ha : ¬ p a) (ha' : ¬ p a')
    (h : left ++ a :: right = left' ++ a' :: right') : left = left' ∧ a = a' ∧ right = right' := by
  rcases List.append_eq_append_iff.mp h with ⟨more, rfl, hmore⟩ | ⟨more, rfl, hmore⟩
  . cases more with
    | nil => exact ⟨(List.append_nil left).symm, List.cons.inj hmore⟩
    | cons b more =>
      obtain rfl := (List.cons.inj hmore).1
      exact absurd (hleft' a (List.mem_append_right left (List.mem_cons_self ..))) ha
  . cases more with
    | nil =>
      obtain ⟨rfl, rfl⟩ := List.cons.inj hmore
      exact ⟨List.append_nil left', rfl, rfl⟩
    | cons b more =>
      obtain rfl := (List.cons.inj hmore).1
      exact absurd (hleft a' (List.mem_append_right left' (List.mem_cons_self ..))) ha'

/--
A pattern with the separator in it lies over the first one, or after that.
-/
theorem occursAt_over {pattern pattern' : List α} (hleft : sep ∉ left) (hpattern : sep ∉ pattern)
    : OccursAt (pattern ++ sep :: pattern') (left ++ sep :: right) i
        ↔
      (pattern <:+ left ∧ pattern' <+: right ∧ i + pattern.length = left.length)
        ∨ ∃ j, i = left.length + 1 + j ∧ OccursAt (pattern ++ sep :: pattern') right j := by
  have hne : ∀ {text : List α}, sep ∉ text → ∀ b ∈ text, b ≠ sep := fun hmem b hb =>
    ne_of_mem_of_not_mem hb hmem
  constructor
  . rintro ⟨before, after, htext, rfl⟩
    by_cases hbefore : sep ∈ before
    . obtain ⟨first, rest, rfl, hfirst⟩ := List.eq_append_cons_of_mem hbefore
      rw [List.append_assoc, List.cons_append] at htext
      obtain ⟨rfl, -, rfl⟩ := split_unique (hne hleft) (hne hfirst) (· rfl) (· rfl) htext
      right
      refine ⟨rest.length, ?_, rest, after, rfl, rfl⟩
      rw [List.length_append, List.length_cons]
      omega
    . left
      rw [List.append_assoc, List.cons_append, ← List.append_assoc] at htext
      have hmem : sep ∉ before ++ pattern := by
        rw [List.mem_append, not_or]
        exact ⟨hbefore, hpattern⟩
      obtain ⟨rfl, -, rfl⟩ := split_unique (hne hleft) (hne hmem) (· rfl) (· rfl) htext
      exact ⟨List.suffix_append .., List.prefix_append .., List.length_append.symm⟩
  . rintro (⟨⟨before, rfl⟩, ⟨after, rfl⟩, hlength⟩ | ⟨j, rfl, before, after, rfl, rfl⟩)
    . rw [List.length_append, Nat.add_right_cancel_iff] at hlength
      exact ⟨before, after, by simp, hlength.symm⟩
    . exact ⟨left ++ sep :: before, after, by simp, by simp; omega⟩

theorem exists_split_cons {β : Type} {b : β} {bs : List β} {p : List β → β → Prop}
    : (∃ before c after, b :: bs = before ++ c :: after ∧ p before c)
        ↔
      p [] b ∨ ∃ before c after, bs = before ++ c :: after ∧ p (b :: before) c := by
  constructor
  . rintro ⟨before, c, after, hsplit, hp⟩
    cases before with
    | nil =>
      obtain ⟨rfl, rfl⟩ := List.cons.inj hsplit
      exact .inl hp
    | cons b' before =>
      obtain ⟨rfl, rfl⟩ := List.cons.inj hsplit
      exact .inr ⟨before, c, after, rfl, hp⟩
  . rintro (hp | ⟨before, c, after, rfl, hp⟩)
    . exact ⟨[], b, bs, rfl, hp⟩
    . exact ⟨b :: before, c, after, rfl, hp⟩

theorem occursAt_lines {β : Type} (hpattern : sep ∉ pattern) (line : β → List α) (items : List β)
    (rest : List α)
    : OccursAt pattern (items.flatMap (fun item => line item ++ [sep]) ++ rest) i
        ↔
      (∃ before item after, items = before ++ item :: after
          ∧ ∃ j, i = (before.flatMap fun item => line item ++ [sep]).length + j
            ∧ OccursAt pattern (line item) j)
        ∨ ∃ j, i = (items.flatMap fun item => line item ++ [sep]).length + j
          ∧ OccursAt pattern rest j := by
  induction items generalizing i with
  | nil => simp
  | cons first items ih =>
    have htext : (first :: items).flatMap (fun item => line item ++ [sep]) ++ rest
        = line first ++ sep :: (items.flatMap (fun item => line item ++ [sep]) ++ rest) := by simp
    have hlength : ∀ items : List β, ((first :: items).flatMap fun item => line item ++ [sep]).length
        = (line first).length + 1 + (items.flatMap fun item => line item ++ [sep]).length := by
      intro items
      rw [List.flatMap_cons, List.length_append, List.length_append, List.length_singleton]
    rw [htext, occursAt_append_cons hpattern, exists_split_cons]
    simp only [ih, hlength]
    constructor
    . rintro (hfirst | ⟨j, rfl, ⟨before, item, after, rfl, k, rfl, hitem⟩ | ⟨k, rfl, hrest⟩⟩)
      . exact .inl (.inl ⟨i, (Nat.zero_add i).symm, hfirst⟩)
      . exact .inl (.inr ⟨before, item, after, rfl, k, (Nat.add_assoc ..).symm, hitem⟩)
      . exact .inr ⟨k, (Nat.add_assoc ..).symm, hrest⟩
    . rintro ((⟨j, rfl, hfirst⟩ | ⟨before, item, after, rfl, j, rfl, hitem⟩) | ⟨j, rfl, hrest⟩)
      . left
        rw [List.flatMap_nil, List.length_nil, Nat.zero_add]
        exact hfirst
      . exact .inr ⟨_, Nat.add_assoc .., .inl ⟨before, item, after, rfl, j, rfl, hitem⟩⟩
      . exact .inr ⟨_, Nat.add_assoc .., .inr ⟨j, rfl, hrest⟩⟩

section Scan

variable [DecidableEq α] {β : Type} {patterns : List (List α × β)}

/--
What the patterns stand for, at each place of the text where one of them begins.
-/
def occurrences (patterns : List (List α × β)) : List α → List β
  | [] => []
  | a :: text =>
    (patterns.filter fun p => p.1 <+: a :: text).map Prod.snd ++ occurrences patterns text

theorem mem_occurrences_iff (hne : ∀ p ∈ patterns, p.1 ≠ []) {text : List α} {b : β}
    : b ∈ occurrences patterns text ↔ ∃ pattern, (pattern, b) ∈ patterns ∧ pattern <:+: text := by
  induction text with
  | nil =>
    simp only [occurrences, List.not_mem_nil, List.infix_nil, false_iff, not_exists, not_and]
    intro pattern hpattern
    exact hne _ hpattern
  | cons a text ih =>
    simp only [occurrences, List.mem_append, List.mem_map, List.mem_filter, decide_eq_true_eq, ih,
      List.infix_cons_iff]
    constructor
    . rintro (⟨⟨pattern, b⟩, ⟨hpattern, hprefix⟩, rfl⟩ | ⟨pattern, hpattern, hinfix⟩)
      . exact ⟨pattern, hpattern, .inl hprefix⟩
      . exact ⟨pattern, hpattern, .inr hinfix⟩
    . rintro ⟨pattern, hpattern, hprefix | hinfix⟩
      . exact .inl ⟨(pattern, b), ⟨hpattern, hprefix⟩, rfl⟩
      . exact .inr ⟨pattern, hpattern, hinfix⟩

/--
What no pattern begins with can be left out in front.
-/
theorem occurrences_append {skipped : List α} (text : List α)
    (h : ∀ a ∈ skipped, ∀ p ∈ patterns, ∀ after, ¬ p.1 <+: a :: after) :
    occurrences patterns (skipped ++ text) = occurrences patterns text := by
  induction skipped with
  | nil => rfl
  | cons a skipped ih =>
    rw [List.forall_mem_cons] at h
    have hnone : (patterns.filter fun p => p.1 <+: a :: (skipped ++ text)) = [] := by
      rw [List.filter_eq_nil_iff]
      intro p hp
      simpa using h.1 p hp (skipped ++ text)
    rw [List.cons_append, occurrences, hnone, ih h.2]
    rfl

end Scan

end Occurrence

end LocalBolt
