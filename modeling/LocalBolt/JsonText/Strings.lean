import LocalBolt.JsonText.Basic

/-!
This module contains lemmas about string literals: how much of a text a string in it takes, and which
texts are literals that stand for themselves.
-/

namespace LocalBolt

namespace JsonText

/--
`c` may stand in a string literal as it is.
-/
def Unescaped (c : Char) : Prop := c ≠ '"' ∧ c ≠ '\\' ∧ 0x20 ≤ c.toNat

instance (c : Char) : Decidable (Unescaped c) := inferInstanceAs (Decidable (_ ∧ _ ∧ _))

theorem step_none_of_unescaped {c : Char} (h : Unescaped c) : step .none c = .next (some c) .none := by
  obtain ⟨hquote, hslash, hcontrol⟩ := h
  rw [step, if_neg hquote, if_neg hslash, if_neg (Nat.not_lt.mpr hcontrol)]

/--
Outside an escape the literal goes on with a character that stands for itself or with a backslash.
-/
theorem step_none_eq_next {c : Char} {char : Option Char} {escape : Escape}
    (h : step .none c = .next char escape)
    : (Unescaped c ∧ char = some c ∧ escape = .none) ∨ (c = '\\' ∧ char = none ∧ escape = .slash) := by
  by_cases hquote : c = '"'
  . rw [step, if_pos hquote] at h
    cases h
  by_cases hslash : c = '\\'
  . rw [step, if_neg hquote, if_pos hslash] at h
    cases h
    exact Or.inr ⟨hslash, rfl, rfl⟩
  by_cases hcontrol : c.toNat < 0x20
  . rw [step, if_neg hquote, if_neg hslash, if_pos hcontrol] at h
    cases h
  . rw [step, if_neg hquote, if_neg hslash, if_neg hcontrol] at h
    cases h
    exact Or.inl ⟨⟨hquote, hslash, Nat.not_lt.mp hcontrol⟩, rfl, rfl⟩

theorem string_unescaped {s : List Char} (h : ∀ c ∈ s, Unescaped c) (rest : List Char)
    : string .none (s ++ '"' :: rest) = some (s, rest) := by
  induction s with
  | nil => rfl
  | cons c s ih =>
    obtain ⟨hc, hs⟩ := List.forall_mem_cons.mp h
    rw [List.cons_append, string, step_none_of_unescaped hc]
    dsimp only
    rw [ih hs]
    rfl

/--
Without a backslash a literal is its own text.
-/
theorem unescaped_of_no_slash {text s rest : List Char} (hslash : '\\' ∉ text)
    (h : string .none text = some (s, rest)) : ∀ c ∈ s, Unescaped c := by
  induction text generalizing s with
  | nil => cases h
  | cons c text ih =>
    rw [List.mem_cons, not_or] at hslash
    rcases string_cons h with ⟨-, hs, -⟩ | ⟨char, escape, s', hnext, hs, hstring⟩
    . rw [hs]
      exact List.forall_mem_nil _
    . rcases step_none_eq_next hnext with ⟨hc, rfl, rfl⟩ | ⟨hc, -⟩
      . rw [hs]
        exact List.forall_mem_cons.mpr ⟨hc, ih hslash.2 hstring⟩
      . exact absurd hc.symm hslash.1

theorem length_add_lt_of_string {escape : Escape} {text s rest : List Char}
    (h : string escape text = some (s, rest)) : s.length + rest.length < text.length := by
  induction text generalizing escape s with
  | nil => cases h
  | cons c text ih =>
    rcases string_cons h with ⟨-, rfl, rfl⟩ | ⟨char, escape', s', -, rfl, hstring⟩
    . simp
    . have hle := Option.length_toList_le (o := char)
      have hlt := ih hstring
      rw [List.length_append, List.length_cons]
      omega

/-! ### A part of a literal -/

/--
What a part of a string literal stands for, if the literal does not end in it, and how much of an escape
it leaves unread.
-/
def scan (escape : Escape) : List Char → Option (List Char × Escape)
  | [] => some ([], escape)
  | c :: text =>
    match step escape c with
    | .next char escape => (scan escape text).map fun (chars, escape) => (char.toList ++ chars, escape)
    | _ => none

theorem scan_cons {escape : Escape} {c : Char} {text s : List Char} {escape' : Escape}
    (h : scan escape (c :: text) = some (s, escape'))
    : ∃ char escape₁ s', step escape c = .next char escape₁ ∧ s = char.toList ++ s' ∧
        scan escape₁ text = some (s', escape') := by
  unfold scan at h
  split at h
  . next char escape₁ hnext =>
    rw [Option.map_eq_some_iff] at h
    obtain ⟨⟨s', escape₂⟩, hscan, heq⟩ := h
    rw [Prod.mk.injEq] at heq
    obtain ⟨hs, rfl⟩ := heq
    exact ⟨char, escape₁, s', hnext, hs.symm, hscan⟩
  . cases h

theorem string_append {escape : Escape} {part text s rest : List Char}
    (h : string escape (part ++ text) = some (s, rest))
    : (∃ rest', string escape part = some (s, rest')) ∨
        ∃ s₁ escape' s₂, scan escape part = some (s₁, escape') ∧
          string escape' text = some (s₂, rest) ∧ s = s₁ ++ s₂ := by
  induction part generalizing escape s with
  | nil => exact Or.inr ⟨[], escape, s, rfl, h, rfl⟩
  | cons c part ih =>
    rcases string_cons h with ⟨hclose, rfl, -⟩ | ⟨char, escape', s', hnext, rfl, hstring⟩
    . exact Or.inl ⟨part, by rw [string, hclose]⟩
    . rcases ih hstring with ⟨rest', hpart⟩ | ⟨s₁, escape'', s₂, hscan, htext, rfl⟩
      . exact Or.inl ⟨rest', by rw [string, hnext]; dsimp only; rw [hpart]; rfl⟩
      . refine Or.inr ⟨char.toList ++ s₁, escape'', s₂, ?_, htext, (List.append_assoc _ _ _).symm⟩
        rw [scan, hnext]
        dsimp only
        rw [hscan]
        rfl

theorem string_append_of_string {escape : Escape} {part s rest : List Char}
    (h : string escape part = some (s, rest)) (text : List Char)
    : string escape (part ++ text) = some (s, rest ++ text) := by
  induction part generalizing escape s with
  | nil => cases h
  | cons c part ih =>
    rcases string_cons h with ⟨hclose, rfl, rfl⟩ | ⟨char, escape', s', hnext, rfl, hstring⟩
    . rw [List.cons_append, string, hclose]
    . rw [List.cons_append, string, hnext]
      dsimp only
      rw [ih hstring]
      rfl

theorem length_le_of_scan {escape : Escape} {part s : List Char} {escape' : Escape}
    (h : scan escape part = some (s, escape')) : s.length ≤ part.length := by
  induction part generalizing escape s with
  | nil =>
    cases h
    exact le_rfl
  | cons c part ih =>
    obtain ⟨char, escape₁, s', -, rfl, hscan⟩ := scan_cons h
    have hle := Option.length_toList_le (o := char)
    have hle' := ih hscan
    rw [List.length_append, List.length_cons]
    omega

/--
An escape stands for less than its length.
-/
theorem scan_none {part s : List Char} {escape : Escape} (h : scan .none part = some (s, escape))
    : (∀ c ∈ part, Unescaped c) ∨ s.length < part.length := by
  induction part generalizing s with
  | nil => exact Or.inl (List.forall_mem_nil _)
  | cons c part ih =>
    obtain ⟨char, escape₁, s', hnext, rfl, hscan⟩ := scan_cons h
    rcases step_none_eq_next hnext with ⟨hc, rfl, rfl⟩ | ⟨-, rfl, rfl⟩
    . rcases ih hscan with hpart | hlt
      . exact Or.inl (List.forall_mem_cons.mpr ⟨hc, hpart⟩)
      . right
        simpa using hlt
    . have hle := length_le_of_scan hscan
      right
      rw [List.length_cons]
      simp
      omega

theorem codeUnit_ne_slash (high : Option Nat) (unit : Nat) (char : Option Char)
    : codeUnit high unit ≠ .next char .slash := by
  unfold codeUnit
  split <;> split_ifs <;> simp

theorem step_eq_slash {escape : Escape} {c : Char} {char : Option Char}
    (h : step escape c = .next char .slash) : c = '\\' := by
  cases escape with
  | none =>
    rcases step_none_eq_next h with ⟨-, -, hescape⟩ | ⟨hc, -⟩
    . cases hescape
    . exact hc
  | slash =>
    rw [step] at h
    split at h
    . cases h
    . split at h
      . cases h
      . cases h
  | hex high unit digits =>
    rw [step] at h
    split at h
    . split at h
      . exact absurd h (codeUnit_ne_slash _ _ _)
      . cases h
    . cases h
  | pairSlash high =>
    rw [step] at h
    split at h
    . cases h
    . cases h
  | pairU high =>
    rw [step] at h
    split at h
    . cases h
    . cases h

theorem scan_slash {escape : Escape} {part s : List Char} (h : scan escape part = some (s, .slash))
    : (part = [] ∧ escape = .slash) ∨ ∃ part', part = part' ++ ['\\'] := by
  induction part generalizing escape s with
  | nil =>
    cases h
    exact Or.inl ⟨rfl, rfl⟩
  | cons c part ih =>
    obtain ⟨char, escape₁, s', hnext, -, hscan⟩ := scan_cons h
    right
    rcases ih hscan with ⟨rfl, rfl⟩ | ⟨part', rfl⟩
    . exact ⟨[], by rw [step_eq_slash hnext]; rfl⟩
    . exact ⟨c :: part', rfl⟩

/--
A quote that does not end the literal is escaped.
-/
theorem string_quote {escape : Escape} {text s rest : List Char}
    (h : string escape ('"' :: text) = some (s, rest))
    : (s = [] ∧ rest = text) ∨
        (escape = .slash ∧ ∃ s', s = '"' :: s' ∧ string .none text = some (s', rest)) := by
  rcases string_cons h with ⟨-, hs, hrest⟩ | ⟨char, escape', s', hnext, rfl, hstring⟩
  . exact Or.inl ⟨hs, hrest⟩
  . right
    cases escape with
    | none => cases hnext
    | slash =>
      cases hnext
      exact ⟨rfl, s', rfl, hstring⟩
    | hex high unit digits => cases hnext
    | pairSlash high => cases hnext
    | pairU high => cases hnext

end JsonText

end LocalBolt
