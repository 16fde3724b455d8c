import LocalBolt.JsonText.Strings

/-!
This module contains how a JSON text is written, without any whitespace, and how its strings and numbers
are read back: a string through its escapes, and the spelling of a number up to where it ends.
-/

namespace LocalBolt

namespace JsonText

/-! ### Strings -/

def hexDigit (n : Nat) : Char := if n < 10 then .ofNat (48 + n) else .ofNat (87 + n)

/--
What stands for a character in a string literal.
-/
def escaped (c : Char) : List Char :=
  if c = '"' then ['\\', '"']
  else if c = '\\' then ['\\', '\\']
  else if c = .ofNat 0x08 then ['\\', 'b']
  else if c = .ofNat 0x0C then ['\\', 'f']
  else if c = '\n' then ['\\', 'n']
  else if c = '\r' then ['\\', 'r']
  else if c = '\t' then ['\\', 't']
  else if c.toNat < 0x20 then
    ['\\', 'u', '0', '0', hexDigit (c.toNat / 16), hexDigit (c.toNat % 16)]
  else [c]

def quote (s : List Char) : List Char := '"' :: (s.flatMap escaped ++ ['"'])

/-! ### Documents -/

section

variable (spell : ℚ → List Char)

mutual

/--
`spell` is how a number is written.
-/
def print : Json → List Char
  | .null => ['n', 'u', 'l', 'l']
  | .bool true => ['t', 'r', 'u', 'e']
  | .bool false => ['f', 'a', 'l', 's', 'e']
  | .num q => spell q
  | .str s => quote s.toList
  | .arr values => '[' :: (printElements values ++ [']'])
  | .obj fields => '\x7b' :: (printMembers fields ++ ['\x7d'])

def printElements : List Json → List Char
  | [] => []
  | [v] => print v
  | v :: vs => print v ++ ',' :: printElements vs

def printMembers : List (String × Json) → List Char
  | [] => []
  | [(key, v)] => quote key.toList ++ ':' :: print v
  | (key, v) :: fields => quote key.toList ++ ':' :: (print v ++ ',' :: printMembers fields)

end

end

/-! ### Strings are read back -/

theorem hexDigit?_hexDigit : ∀ n < 16, hexDigit? (hexDigit n) = some n := by
  decide

theorem string_next {escape escape' : Escape} {c : Char} {char : Option Char} {text s rest : List Char}
    (hstep : step escape c = .next char escape') (h : string escape' text = some (s, rest))
    : string escape (c :: text) = some (char.toList ++ s, rest) := by
  rw [string, hstep]
  dsimp only
  rw [h]
  rfl

theorem string_simple {c d : Char} {text s rest : List Char} (hc : c ≠ 'u')
    (hescape : simpleEscape c = some d) (h : string .none text = some (s, rest))
    : string .none ('\\' :: c :: text) = some (d :: s, rest) := by
  have hstep : step .slash c = .next (some d) .none := by
    rw [step, if_neg hc, hescape]
  have hslash : step .none '\\' = .next none .slash := by rfl
  exact string_next hslash (string_next hstep h)

theorem string_control {n : Nat} (hn : n < 0x20) {text s rest : List Char}
    (h : string .none text = some (s, rest))
    : string .none ('\\' :: 'u' :: '0' :: '0' :: hexDigit (n / 16) :: hexDigit (n % 16) :: text)
        =
      some (.ofNat n :: s, rest) := by
  have hfirst : step (.hex none 0 2) (hexDigit (n / 16)) = .next none (.hex none (n / 16) 1) := by
    rw [step, hexDigit?_hexDigit _ (by omega)]
    simp
  have hsecond : step (.hex none (n / 16) 1) (hexDigit (n % 16)) = .next (some (.ofNat n)) .none := by
    have hunit : n / 16 * 16 + n % 16 = n := Nat.div_add_mod' n 16
    have hpair : ¬ (0xD800 ≤ n ∧ n ≤ 0xDBFF) := by omega
    have hlow : ¬ (0xDC00 ≤ n ∧ n ≤ 0xDFFF) := by omega
    rw [step, hexDigit?_hexDigit _ (by omega)]
    simp only [le_refl, if_true, hunit, codeUnit, if_neg hpair, if_neg hlow]
  have hslash : step .none '\\' = .next none .slash := by rfl
  have hu : step .slash 'u' = .next none (.hex none 0 4) := by rfl
  have hzero : step (.hex none 0 4) '0' = .next none (.hex none 0 3) := by rfl
  have hzero' : step (.hex none 0 3) '0' = .next none (.hex none 0 2) := by rfl
  exact string_next hslash <| string_next hu <| string_next hzero <| string_next hzero' <|
    string_next hfirst (string_next hsecond h)

/--
What is written for `c` is read as `c`.
-/
theorem string_escaped {text s rest : List Char} (h : string .none text = some (s, rest)) (c : Char)
    : string .none (escaped c ++ text) = some (c :: s, rest) := by
  unfold escaped
  split
  . next hc =>
    subst hc
    exact string_simple (by decide) (by rfl) h
  split
  . next hc =>
    subst hc
    exact string_simple (by decide) (by rfl) h
  split
  . next hc =>
    subst hc
    exact string_simple (by decide) (by rfl) h
  split
  . next hc =>
    subst hc
    exact string_simple (by decide) (by rfl) h
  split
  . next hc =>
    subst hc
    exact string_simple (by decide) (by rfl) h
  split
  . next hc =>
    subst hc
    exact string_simple (by decide) (by rfl) h
  split
  . next hc =>
    subst hc
    exact string_simple (by decide) (by rfl) h
  split
  . next hcontrol =>
    have hstring := string_control hcontrol h
    rw [Char.ofNat_toNat] at hstring
    exact hstring
  . next hquote hslash _ _ _ _ _ hcontrol =>
    exact string_next (step_none_of_unescaped ⟨hquote, hslash, Nat.not_lt.mp hcontrol⟩) h

theorem string_quote_append (s rest : List Char)
    : string .none (s.flatMap escaped ++ '"' :: rest) = some (s, rest) := by
  induction s with
  | nil => rfl
  | cons c s ih =>
    rw [List.flatMap_cons, List.append_assoc]
    exact string_escaped ih c

/-! ### Numbers are read up to their end -/

/--
A character that a number may go on with.
-/
def Continues (c : Char) : Prop := c.isDigit = true ∨ c = '.' ∨ c = 'e' ∨ c = 'E'

instance (c : Char) : Decidable (Continues c) := inferInstanceAs (Decidable (_ ∨ _))

/--
No number goes on into the text.
-/
def Ends (text : List Char) : Prop := ∀ c ∈ text.head?, ¬ Continues c

theorem Ends.nil : Ends [] := by
  simp [Ends]

theorem Ends.cons {c : Char} (h : ¬ Continues c) (text : List Char) : Ends (c :: text) := by
  simpa [Ends] using h

/--
`f` takes no more of a longer text.
-/
def Stable (f : List Char → Option (List Char × List Char)) : Prop :=
  ∀ text taken left rest, Ends rest → f text = some (taken, left) → f (text ++ rest) = some (taken, left ++ rest)

theorem takeWhile_isDigit_of_ends {rest : List Char} (h : Ends rest)
    : rest.takeWhile Char.isDigit = [] := by
  cases rest with
  | nil => rfl
  | cons c rest =>
    have hc : ¬ c.isDigit = true := by
      intro hdigit
      exact h c rfl (Or.inl hdigit)
    exact List.takeWhile_cons_of_neg hc

theorem stable_digits : Stable digits := by
  intro text taken left rest hrest h
  have htake := takeWhile_isDigit_of_ends hrest
  have hdrop : rest.dropWhile Char.isDigit = rest := by
    have happend := List.takeWhile_append_dropWhile (p := Char.isDigit) (l := rest)
    rwa [htake] at happend
  unfold digits at h ⊢
  split at h
  . cases h
  . next hsome =>
    obtain ⟨rfl, rfl⟩ := Prod.mk.inj (Option.some.inj h)
    have htaken : (text ++ rest).takeWhile Char.isDigit = text.takeWhile Char.isDigit := by
      rw [List.takeWhile_append]
      split
      . next hall =>
        rw [htake, List.append_nil]
        exact (List.IsPrefix.eq_of_length (List.takeWhile_prefix _) hall).symm
      . rfl
    have hleft : (text ++ rest).dropWhile Char.isDigit = text.dropWhile Char.isDigit ++ rest := by
      rw [List.dropWhile_append]
      split
      . next hall => rw [hdrop, List.isEmpty_iff.mp hall, List.nil_append]
      . rfl
    rw [htaken, hleft, if_neg hsome]

theorem digits_nil : digits [] = none := by
  rfl

theorem stable_integer : Stable integer := by
  intro text taken left rest hrest h
  cases text with
  | nil => cases h
  | cons c text =>
    by_cases hc : c = '0'
    . subst hc
      obtain ⟨rfl, rfl⟩ := Prod.mk.inj (Option.some.inj h)
      rfl
    . have hinteger : ∀ more, integer (c :: more) = digits (c :: more) := by
        intro more
        simp [integer, hc]
      rw [hinteger] at h
      rw [List.cons_append, hinteger]
      exact stable_digits (c :: text) taken left rest hrest h

theorem stable_map {f : List Char → Option (List Char × List Char)} (hf : Stable f)
    (g : List Char → List Char) : Stable fun text => (f text).map fun (ds, rest) => (g ds, rest) := by
  intro text taken left rest hrest h
  obtain ⟨⟨ds, left'⟩, hds, heq⟩ := Option.map_eq_some_iff.mp h
  obtain ⟨rfl, rfl⟩ := Prod.mk.inj heq
  dsimp only
  rw [hf text ds left' rest hrest hds]
  rfl

theorem stable_fraction : Stable fraction := by
  intro text taken left rest hrest h
  cases text with
  | nil =>
    obtain ⟨rfl, rfl⟩ := Prod.mk.inj (Option.some.inj h)
    rw [List.nil_append]
    unfold fraction
    split
    . next text =>
      exact absurd (Or.inr (Or.inl rfl)) (hrest '.' rfl)
    . rfl
  | cons c text =>
    by_cases hc : c = '.'
    . subst hc
      exact stable_map stable_digits ('.' :: ·) text taken left rest hrest h
    . have hfraction : ∀ more, fraction (c :: more) = some ([], c :: more) := by
        intro more
        simp [fraction, hc]
      rw [hfraction] at h
      obtain ⟨rfl, rfl⟩ := Prod.mk.inj (Option.some.inj h)
      exact hfraction (text ++ rest)

theorem stable_exponent : Stable exponent := by
  intro text taken left rest hrest h
  cases text with
  | nil =>
    obtain ⟨rfl, rfl⟩ := Prod.mk.inj (Option.some.inj h)
    rw [List.nil_append]
    unfold exponent
    split
    . next c text =>
      rw [if_neg]
      rintro (rfl | rfl)
      . exact hrest 'e' rfl (Or.inr (Or.inr (Or.inl rfl)))
      . exact hrest 'E' rfl (Or.inr (Or.inr (Or.inr rfl)))
    . rfl
  | cons c text =>
    unfold exponent at h
    rw [List.cons_append]
    unfold exponent
    dsimp only at h ⊢
    split at h
    . next hc =>
      rw [if_pos hc]
      cases text with
      | nil => cases h
      | cons d text =>
        by_cases hplus : d = '+'
        . subst hplus
          exact stable_map stable_digits (c :: '+' :: ·) text taken left rest hrest h
        by_cases hminus : d = '-'
        . subst hminus
          exact stable_map stable_digits (c :: '-' :: ·) text taken left rest hrest h
        . rw [List.cons_append]
          split at h
          . next heq => exact absurd (List.cons.inj heq).1 hplus
          . next heq => exact absurd (List.cons.inj heq).1 hminus
          . split
            . next heq => exact absurd (List.cons.inj heq).1 hplus
            . next heq => exact absurd (List.cons.inj heq).1 hminus
            . exact stable_map stable_digits (c :: ·) (d :: text) taken left rest hrest h
    . next hc =>
      rw [if_neg hc]
      obtain ⟨rfl, rfl⟩ := Prod.mk.inj (Option.some.inj h)
      rfl

theorem sign_append {text : List Char} (h : text ≠ []) (rest : List Char)
    : sign (text ++ rest) = ((sign text).1, (sign text).2 ++ rest) := by
  cases text with
  | nil => contradiction
  | cons c text =>
    by_cases hc : c = '-'
    . subst hc
      rfl
    . simp [sign, hc]

/--
A number ends where its spelling does.
-/
theorem stable_number : Stable number := by
  intro text taken left rest hrest h
  have hsome : text ≠ [] := by
    rintro rfl
    cases h
  simp only [number, Option.bind_eq_bind, Option.bind_eq_some_iff, Option.some.injEq,
    Prod.mk.injEq] at h
  obtain ⟨⟨i, text₁⟩, hinteger, ⟨f, text₂⟩, hfraction, ⟨e, text₃⟩, hexponent, htaken, rfl⟩ := h
  have hinteger' := stable_integer _ _ _ rest hrest hinteger
  have hfraction' := stable_fraction _ _ _ rest hrest hfraction
  have hexponent' := stable_exponent _ _ _ rest hrest hexponent
  simp only [number, sign_append hsome, hinteger', hfraction', hexponent', Option.bind_eq_bind,
    Option.bind_some, htaken]

/--
The characters of a number.
-/
def isNumberChar (c : Char) : Bool := c.isDigit || c ∈ ['-', '+', '.', 'e', 'E']

/--
`f` takes such characters only.
-/
def TakesNumber (f : List Char → Option (List Char × List Char)) : Prop :=
  ∀ text taken left, f text = some (taken, left) → ∀ c ∈ taken, isNumberChar c = true

theorem takesNumber_digits : TakesNumber digits := by
  intro text taken left h
  unfold digits at h
  split at h
  . cases h
  . obtain ⟨rfl, -⟩ := Prod.mk.inj (Option.some.inj h)
    intro c hc
    have hdigit : c.isDigit = true := List.all_eq_true.mp List.all_takeWhile c hc
    simp [isNumberChar, hdigit]

theorem takesNumber_map {f : List Char → Option (List Char × List Char)} (hf : TakesNumber f)
    {g : List Char → List Char} (hg : ∀ ds, (∀ c ∈ ds, isNumberChar c = true) → ∀ c ∈ g ds, isNumberChar c = true)
    : TakesNumber fun text => (f text).map fun (ds, rest) => (g ds, rest) := by
  intro text taken left h
  obtain ⟨⟨ds, left'⟩, hds, heq⟩ := Option.map_eq_some_iff.mp h
  obtain ⟨rfl, rfl⟩ := Prod.mk.inj heq
  exact hg ds (hf text ds left' hds)

theorem takesNumber_integer : TakesNumber integer := by
  intro text taken left h
  unfold integer at h
  split at h
  . obtain ⟨rfl, -⟩ := Prod.mk.inj (Option.some.inj h)
    exact List.forall_mem_singleton.mpr rfl
  . exact takesNumber_digits _ _ _ h

theorem takesNumber_fraction : TakesNumber fraction := by
  intro text taken left h
  unfold fraction at h
  split at h
  . exact takesNumber_map takesNumber_digits (fun ds hds => List.forall_mem_cons.mpr ⟨by decide, hds⟩)
      _ _ _ h
  . obtain ⟨rfl, -⟩ := Prod.mk.inj (Option.some.inj h)
    exact List.forall_mem_nil _

theorem takesNumber_exponent : TakesNumber exponent := by
  intro text taken left h
  unfold exponent at h
  split at h
  . next c text =>
    split at h
    . next hc =>
      have hchar : isNumberChar c = true := by
        rcases hc with rfl | rfl <;> decide
      split at h
      . refine takesNumber_map takesNumber_digits (g := (c :: '+' :: ·)) ?_ _ _ _ h
        intro ds hds
        exact List.forall_mem_cons.mpr ⟨hchar, List.forall_mem_cons.mpr ⟨by decide, hds⟩⟩
      . refine takesNumber_map takesNumber_digits (g := (c :: '-' :: ·)) ?_ _ _ _ h
        intro ds hds
        exact List.forall_mem_cons.mpr ⟨hchar, List.forall_mem_cons.mpr ⟨by decide, hds⟩⟩
      . refine takesNumber_map takesNumber_digits (g := (c :: ·)) ?_ _ _ _ h
        intro ds hds
        exact List.forall_mem_cons.mpr ⟨hchar, hds⟩
    . obtain ⟨rfl, -⟩ := Prod.mk.inj (Option.some.inj h)
      exact List.forall_mem_nil _
  . obtain ⟨rfl, -⟩ := Prod.mk.inj (Option.some.inj h)
    exact List.forall_mem_nil _

theorem takesNumber_number : TakesNumber number := by
  intro text taken left h
  simp only [number, Option.bind_eq_bind, Option.bind_eq_some_iff, Option.some.injEq,
    Prod.mk.injEq] at h
  obtain ⟨⟨i, text₁⟩, hinteger, ⟨f, text₂⟩, hfraction, ⟨e, text₃⟩, hexponent, rfl, -⟩ := h
  have hsign : ∀ c ∈ (sign text).1, isNumberChar c = true := by
    unfold sign
    split
    . exact List.forall_mem_singleton.mpr (by decide)
    . exact List.forall_mem_nil _
  simp only [List.forall_mem_append]
  exact ⟨⟨⟨hsign, takesNumber_integer _ _ _ hinteger⟩, takesNumber_fraction _ _ _ hfraction⟩,
    takesNumber_exponent _ _ _ hexponent⟩

end JsonText

end LocalBolt
