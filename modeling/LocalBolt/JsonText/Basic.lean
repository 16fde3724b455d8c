import LocalBolt.Foundation.Json
import LocalBolt.SortedMap.Basic
import Mathlib.Data.List.Infix
import Mathlib.Data.String.Basic

/-!
This module contains how a JSON text is read: strings with their escapes, one character at a time, and
documents by recursive descent, with a limit on how deep they are nested.
-/

namespace LocalBolt

namespace JsonText

/-! ### Strings -/

/--
How much of an escape has been read. `hex` still waits for `digits` digits of a code unit; once that is
the first half of a surrogate pair, the second half has to follow as another escape.
-/
inductive Escape where
  | none
  | slash
  | hex (high : Option Nat) (unit digits : Nat)
  | pairSlash (high : Nat)
  | pairU (high : Nat)
  deriving DecidableEq

/--
What a character of a string literal does: it ends the literal, or the literal goes on and may have
become longer by a character.
-/
inductive Step where
  | fail
  | close
  | next (char : Option Char) (escape : Escape)

def simpleEscape (c : Char) : Option Char :=
  match c with
  | '"' => some '"'
  | '\\' => some '\\'
  | '/' => some '/'
  | 'b' => some (.ofNat 0x08)
  | 'f' => some (.ofNat 0x0C)
  | 'n' => some '\n'
  | 'r' => some '\r'
  | 't' => some '\t'
  | _ => Option.none

def hexDigit? (c : Char) : Option Nat :=
  if c.isDigit then some (c.toNat - 48)
  else if 'a' ≤ c ∧ c ≤ 'f' then some (c.toNat - 87)
  else if 'A' ≤ c ∧ c ≤ 'F' then some (c.toNat - 55)
  else Option.none

/--
A code unit has been read, after the first half of a pair if there is one.
-/
def codeUnit (high : Option Nat) (unit : Nat) : Step :=
  match high with
  | Option.none =>
    if 0xD800 ≤ unit ∧ unit ≤ 0xDBFF then .next Option.none (.pairSlash unit)
    else if 0xDC00 ≤ unit ∧ unit ≤ 0xDFFF then .fail
    else .next (some (.ofNat unit)) .none
  | some high =>
    if 0xDC00 ≤ unit ∧ unit ≤ 0xDFFF then
      .next (some (.ofNat (0x10000 + (high - 0xD800) * 0x400 + (unit - 0xDC00)))) .none
    else
      .fail

def step : Escape → Char → Step
  | .none, c =>
    if c = '"' then .close
    else if c = '\\' then .next Option.none .slash
    else if c.toNat < 0x20 then .fail
    else .next (some c) .none
  | .slash, c =>
    if c = 'u' then .next Option.none (.hex Option.none 0 4)
    else
      match simpleEscape c with
      | some d => .next (some d) .none
      | Option.none => .fail
  | .hex high unit digits, c =>
    match hexDigit? c with
    | some d =>
      if digits ≤ 1 then codeUnit high (unit * 16 + d)
      else .next Option.none (.hex high (unit * 16 + d) (digits - 1))
    | Option.none => .fail
  | .pairSlash high, c => if c = '\\' then .next Option.none (.pairU high) else .fail
  | .pairU high, c => if c = 'u' then .next Option.none (.hex (some high) 0 4) else .fail

/--
The rest of a string literal, after its opening quote, and what follows the closing one.
-/
def string (escape : Escape) : List Char → Option (List Char × List Char)
  | [] => Option.none
  | c :: text =>
    match step escape c with
    | .fail => Option.none
    | .close => some ([], text)
    | .next char escape => (string escape text).map fun (chars, rest) => (char.toList ++ chars, rest)

/-! ### Numbers -/

def isWhitespace (c : Char) : Bool := c = ' ' || c = '\n' || c = '\t' || c = '\r'

def skipWhitespace (text : List Char) : List Char := text.dropWhile isWhitespace

/--
One or more digits.
-/
def digits (text : List Char) : Option (List Char × List Char) :=
  if (text.takeWhile Char.isDigit).isEmpty then none
  else some (text.takeWhile Char.isDigit, text.dropWhile Char.isDigit)

def sign : List Char → List Char × List Char
  | '-' :: text => (['-'], text)
  | text => ([], text)

def integer : List Char → Option (List Char × List Char)
  | '0' :: text => some (['0'], text)
  | text => digits text

def fraction : List Char → Option (List Char × List Char)
  | '.' :: text => (digits text).map fun (ds, rest) => ('.' :: ds, rest)
  | text => some ([], text)

def exponent : List Char → Option (List Char × List Char)
  | c :: text =>
    if c = 'e' ∨ c = 'E' then
      match text with
      | '+' :: text => (digits text).map fun (ds, rest) => (c :: '+' :: ds, rest)
      | '-' :: text => (digits text).map fun (ds, rest) => (c :: '-' :: ds, rest)
      | text => (digits text).map fun (ds, rest) => (c :: ds, rest)
    else
      some ([], c :: text)
  | [] => some ([], [])

/--
The spelling of a number, and what follows it.
-/
def number (text : List Char) : Option (List Char × List Char) := do
  let (s, text) := sign text
  let (i, text) ← integer text
  let (f, text) ← fraction text
  let (e, text) ← exponent text
  some (s ++ i ++ f ++ e, text)

/-! ### Documents -/

/--
Takes `c`, after whitespace.
-/
def expect (c : Char) (text : List Char) : Option (List Char) :=
  match skipWhitespace text with
  | [] => none
  | d :: text => if d = c then some text else none

def keyword (word : List Char) (v : Json) (text : List Char) : Option (Json × List Char) :=
  if word.isPrefixOf text then some (v, text.drop word.length) else none

/--
Of several members of one name the last one counts.
-/
def collect (members : List (String × Json)) : Dict :=
  members.foldl (fun d (key, v) => SortedMap.insert key v d) []

section

variable (ofNumber : List Char → Option ℚ)

mutual

/--
`ofNumber` is the number that a spelling stands for, if the reader can represent it.
-/
def value (depth : Nat) : Nat → List Char → Option (Json × List Char)
  | 0, _ => none
  | fuel + 1, text =>
    match skipWhitespace text with
    | [] => none
    | c :: text =>
      if c = '"' then (string .none text).map fun (s, rest) => (.str (.ofList s), rest)
      else if c = '[' then
        if depth ≤ 1 then none
        else
          match expect ']' text with
          | some rest => some (.arr [], rest)
          | none => (elements (depth - 1) fuel text).map fun (vs, rest) => (.arr vs, rest)
      else if c = '{' then
        if depth ≤ 1 then none
        else
          match expect '}' text with
          | some rest => some (.obj [], rest)
          | none => (members (depth - 1) fuel text).map fun (ms, rest) => (.obj (collect ms), rest)
      else if c = 'n' then keyword ['u', 'l', 'l'] .null text
      else if c = 't' then keyword ['r', 'u', 'e'] (.bool true) text
      else if c = 'f' then keyword ['a', 'l', 's', 'e'] (.bool false) text
      else do
        let (spelling, rest) ← number (c :: text)
        let q ← ofNumber spelling
        some (.num q, rest)

/--
The values of an array from the next one on.
-/
def elements (depth : Nat) : Nat → List Char → Option (List Json × List Char)
  | 0, _ => none
  | fuel + 1, text => do
    let (v, text) ← value depth fuel text
    match expect ',' text with
    | some text => do
      let (vs, text) ← elements depth fuel text
      some (v :: vs, text)
    | none => do
      let text ← expect ']' text
      some ([v], text)

/--
The members of an object from the next one on.
-/
def members (depth : Nat) : Nat → List Char → Option (List (String × Json) × List Char)
  | 0, _ => none
  | fuel + 1, text => do
    let text ← expect '"' text
    let (key, text) ← string .none text
    let text ← expect ':' text
    let (v, text) ← value depth fuel text
    match expect ',' text with
    | some text => do
      let (ms, text) ← members depth fuel text
      some ((.ofList key, v) :: ms, text)
    | none => do
      let text ← expect '}' text
      some ([(.ofList key, v)], text)

end

def recursionLimit : Nat := 128

/--
The value of a text that holds nothing else.
-/
def fromStr (text : List Char) : Option Json := do
  let (v, rest) ← value ofNumber recursionLimit (2 * text.length + 2) text
  if (skipWhitespace rest).isEmpty then some v else none

end

/-! ### What is left of the text -/

/--
`rest` is what is left of `text` once a character at least has been taken.
-/
def Within (rest text : List Char) : Prop := ∃ c, c :: rest <:+ text

theorem Within.suffix {rest text : List Char} (h : Within rest text) : rest <:+ text := by
  obtain ⟨c, hc⟩ := h
  exact (List.suffix_cons c rest).trans hc

theorem Within.length_lt {rest text : List Char} (h : Within rest text)
    : rest.length < text.length := by
  obtain ⟨c, hc⟩ := h
  have hle := hc.length_le
  rw [List.length_cons] at hle
  omega

theorem Within.of_suffix {rest text text' : List Char} (h : Within rest text) (hsuffix : text <:+ text')
    : Within rest text' := by
  obtain ⟨c, hc⟩ := h
  exact ⟨c, hc.trans hsuffix⟩

theorem Within.after {rest rest' text : List Char} (h : Within rest text) (hsuffix : rest' <:+ rest)
    : Within rest' text := by
  obtain ⟨c, hc⟩ := h
  obtain ⟨taken, rfl⟩ := hsuffix
  cases taken using List.reverseRecOn with
  | nil => exact ⟨c, hc⟩
  | append_singleton taken d =>
    refine ⟨d, List.IsSuffix.trans ?_ hc⟩
    exact ⟨c :: taken, by simp⟩

theorem skipWhitespace_suffix (text : List Char) : skipWhitespace text <:+ text :=
  List.dropWhile_suffix _

theorem expect_suffix {c : Char} {text rest : List Char} (h : expect c text = some rest)
    : c :: rest <:+ text := by
  unfold expect at h
  split at h
  . cases h
  . next d text' htext =>
    split at h
    . next hd =>
      rw [Option.some.injEq] at h
      rw [← h, ← hd, ← htext]
      exact skipWhitespace_suffix text
    . cases h

theorem expect_within {c : Char} {text rest : List Char} (h : expect c text = some rest)
    : Within rest text :=
  ⟨c, expect_suffix h⟩

theorem string_cons {escape : Escape} {c : Char} {text s rest : List Char}
    (h : string escape (c :: text) = some (s, rest))
    : (step escape c = .close ∧ s = [] ∧ rest = text) ∨
        ∃ char escape' s', step escape c = .next char escape' ∧ s = char.toList ++ s' ∧
          string escape' text = some (s', rest) := by
  unfold string at h
  split at h
  . cases h
  . next hclose =>
    rw [Option.some.injEq, Prod.mk.injEq] at h
    exact Or.inl ⟨hclose, h.1.symm, h.2.symm⟩
  . next char escape' hnext =>
    rw [Option.map_eq_some_iff] at h
    obtain ⟨⟨s', rest'⟩, hstring, heq⟩ := h
    rw [Prod.mk.injEq] at heq
    obtain ⟨hs, rfl⟩ := heq
    exact Or.inr ⟨char, escape', s', hnext, hs.symm, hstring⟩

theorem string_within {escape : Escape} {text s rest : List Char}
    (h : string escape text = some (s, rest)) : Within rest text := by
  induction text generalizing escape s rest with
  | nil => cases h
  | cons c text ih =>
    rcases string_cons h with ⟨-, -, rfl⟩ | ⟨char, escape', s', -, -, hstring⟩
    . exact ⟨c, List.suffix_rfl⟩
    . exact Within.of_suffix (ih hstring) (List.suffix_cons c text)

theorem keyword_suffix {word : List Char} {v v' : Json} {text rest : List Char}
    (h : keyword word v text = some (v', rest)) : v' = v ∧ rest <:+ text := by
  unfold keyword at h
  split at h
  . rw [Option.some.injEq, Prod.mk.injEq] at h
    exact ⟨h.1.symm, h.2 ▸ List.drop_suffix _ text⟩
  . cases h

theorem digits_within {text ds rest : List Char} (h : digits text = some (ds, rest))
    : Within rest text := by
  unfold digits at h
  split at h
  . cases h
  . next hsome =>
    rw [Option.some.injEq, Prod.mk.injEq] at h
    rw [← h.2]
    cases text with
    | nil => exact absurd rfl hsome
    | cons c text =>
      by_cases hc : c.isDigit = true
      . rw [List.dropWhile_cons_of_pos hc]
        exact Within.after ⟨c, List.suffix_rfl⟩ (List.dropWhile_suffix _)
      . rw [List.takeWhile_cons_of_neg hc] at hsome
        exact absurd rfl hsome

theorem sign_suffix (text : List Char) : (sign text).2 <:+ text := by
  unfold sign
  split
  . exact List.suffix_cons _ _
  . exact List.suffix_rfl

theorem integer_within {text ds rest : List Char} (h : integer text = some (ds, rest))
    : Within rest text := by
  unfold integer at h
  split at h
  . rw [Option.some.injEq, Prod.mk.injEq] at h
    rw [← h.2]
    exact ⟨'0', List.suffix_rfl⟩
  . exact digits_within h

theorem digits_map_suffix (f : List Char → List Char) {text ds rest : List Char}
    (h : ((digits text).map fun (ds, rest) => (f ds, rest)) = some (ds, rest)) : rest <:+ text := by
  rw [Option.map_eq_some_iff] at h
  obtain ⟨⟨ds', rest'⟩, hdigits, heq⟩ := h
  rw [Prod.mk.injEq] at heq
  rw [← heq.2]
  exact (digits_within hdigits).suffix

theorem fraction_suffix {text ds rest : List Char} (h : fraction text = some (ds, rest))
    : rest <:+ text := by
  unfold fraction at h
  split at h
  . exact (digits_map_suffix ('.' :: ·) h).trans (List.suffix_cons _ _)
  . rw [Option.some.injEq, Prod.mk.injEq] at h
    exact h.2 ▸ List.suffix_rfl

theorem exponent_suffix {text ds rest : List Char} (h : exponent text = some (ds, rest))
    : rest <:+ text := by
  unfold exponent at h
  split at h
  . next c text =>
    split at h
    . refine List.IsSuffix.trans ?_ (List.suffix_cons c text)
      split at h
      . exact (digits_map_suffix (c :: '+' :: ·) h).trans (List.suffix_cons _ _)
      . exact (digits_map_suffix (c :: '-' :: ·) h).trans (List.suffix_cons _ _)
      . exact digits_map_suffix (c :: ·) h
    . rw [Option.some.injEq, Prod.mk.injEq] at h
      exact h.2 ▸ List.suffix_rfl
  . rw [Option.some.injEq, Prod.mk.injEq] at h
    exact h.2 ▸ List.suffix_rfl

theorem number_within {text spelling rest : List Char} (h : number text = some (spelling, rest))
    : Within rest text := by
  simp only [number, Option.bind_eq_bind, Option.bind_eq_some_iff, Option.some.injEq, Prod.mk.injEq] at h
  obtain ⟨⟨i, text₁⟩, hinteger, ⟨f, text₂⟩, hfraction, ⟨e, text₃⟩, hexponent, -, rfl⟩ := h
  have hsuffix : text₃ <:+ text₁ := (exponent_suffix hexponent).trans (fraction_suffix hfraction)
  exact ((integer_within hinteger).after hsuffix).of_suffix (sign_suffix text)

/-! ### Strings of a value -/

/--
`s` is one of the strings of a value, at any depth.
-/
inductive HasString (s : String) : Json → Prop
  | str : HasString s (.str s)
  | arr {v : Json} {values : List Json} (hmem : v ∈ values) (hv : HasString s v) : HasString s (.arr values)
  | obj {p : String × Json} {fields : Dict} (hmem : p ∈ fields) (hp : HasString s p.2)
    : HasString s (.obj fields)

/--
A string literal in `text` spells `s`.
-/
def Spells (text : List Char) (s : String) : Prop :=
  ∃ literal rest, '"' :: literal <:+ text ∧ string .none literal = some (s.toList, rest)

def Spelled (text : List Char) (v : Json) : Prop := ∀ s, HasString s v → Spells text s

theorem Spelled.of_suffix {text text' : List Char} {v : Json} (h : Spelled text v)
    (hsuffix : text <:+ text') : Spelled text' v := by
  intro s hs
  obtain ⟨literal, rest, hliteral, hstring⟩ := h s hs
  exact ⟨literal, rest, hliteral.trans hsuffix, hstring⟩

theorem spelled_arr {text : List Char} {values : List Json} (h : ∀ v ∈ values, Spelled text v)
    : Spelled text (.arr values) := by
  intro s hs
  cases hs with
  | arr hmem hv => exact h _ hmem s hv

theorem spelled_obj {text : List Char} {fields : Dict} (h : ∀ p ∈ fields, Spelled text p.2)
    : Spelled text (.obj fields) := by
  intro s hs
  cases hs with
  | obj hmem hp => exact h _ hmem s hp

theorem forall_mem_collect {P : String × Json → Prop} {ms : List (String × Json)} (h : ∀ p ∈ ms, P p)
    : ∀ p ∈ collect ms, P p := by
  have hinsert : ∀ (ms : List (String × Json)) (d : Dict), (∀ p ∈ ms, P p) → (∀ p ∈ d, P p)
      → ∀ p ∈ ms.foldl (fun d (key, v) => SortedMap.insert key v d) d, P p := by
    intro ms
    induction ms with
    | nil => exact fun d _ hd => hd
    | cons m ms ih =>
      intro d hms hd
      obtain ⟨hm, hms⟩ := List.forall_mem_cons.mp hms
      exact ih _ hms (SortedMap.forall_mem_insert hm hd)
  exact hinsert ms [] h (List.forall_mem_nil P)

section

variable {ofNumber : List Char → Option ℚ}

/--
What `value`, `elements` and `members` return with `fuel`.
-/
structure Sound (ofNumber : List Char → Option ℚ) (fuel : Nat) : Prop where
  value : ∀ {depth text v rest}, value ofNumber depth fuel text = some (v, rest)
    → Within rest text ∧ Spelled text v
  elements : ∀ {depth text vs rest}, elements ofNumber depth fuel text = some (vs, rest)
    → Within rest text ∧ ∀ v ∈ vs, Spelled text v
  members : ∀ {depth text ms rest}, members ofNumber depth fuel text = some (ms, rest)
    → Within rest text ∧ ∀ p ∈ ms, Spelled text p.2

theorem spelled_of_forall_not {text : List Char} {v : Json} (h : ∀ s, ¬HasString s v) : Spelled text v :=
  fun s hs => absurd hs (h s)

theorem keyword_sound {word : List Char} {c : Char} {text tail : List Char} {v v' : Json} {rest : List Char}
    (htext : c :: tail <:+ text) (h : keyword word v tail = some (v', rest)) (hv : ∀ s, ¬HasString s v)
    : Within rest text ∧ Spelled text v' := by
  obtain ⟨rfl, hrest⟩ := keyword_suffix h
  exact ⟨Within.after ⟨c, htext⟩ hrest, spelled_of_forall_not hv⟩

theorem Sound.value_succ {fuel : Nat} (ih : Sound ofNumber fuel) {depth : Nat} {text : List Char}
    {v : Json} {rest : List Char} (h : JsonText.value ofNumber depth (fuel + 1) text = some (v, rest))
    : Within rest text ∧ Spelled text v := by
  unfold JsonText.value at h
  split at h
  . cases h
  next c tail htail =>
  have htext : c :: tail <:+ text := htail ▸ skipWhitespace_suffix text
  have hinside : ∀ {rest}, Within rest tail → Within rest text :=
    fun hrest => hrest.of_suffix ((List.suffix_cons c tail).trans htext)
  split at h
  . next hc =>
    rw [Option.map_eq_some_iff] at h
    obtain ⟨⟨s, rest'⟩, hstring, heq⟩ := h
    rw [Prod.mk.injEq] at heq
    obtain ⟨rfl, rfl⟩ := heq
    refine ⟨hinside (string_within hstring), ?_⟩
    intro s' hs'
    cases hs' with
    | str => exact ⟨tail, rest', hc ▸ htext, by rw [hstring, String.toList_ofList]⟩
  split at h
  . split at h
    . cases h
    split at h
    . next rest' hexpect =>
      rw [Option.some.injEq, Prod.mk.injEq] at h
      obtain ⟨rfl, rfl⟩ := h
      exact ⟨hinside (expect_within hexpect), spelled_arr (List.forall_mem_nil _)⟩
    . rw [Option.map_eq_some_iff] at h
      obtain ⟨⟨vs, rest'⟩, helements, heq⟩ := h
      rw [Prod.mk.injEq] at heq
      obtain ⟨rfl, rfl⟩ := heq
      obtain ⟨hrest, hvs⟩ := ih.elements helements
      refine ⟨hinside hrest, spelled_arr ?_⟩
      exact fun v hv => (hvs v hv).of_suffix ((List.suffix_cons c tail).trans htext)
  split at h
  . split at h
    . cases h
    split at h
    . next rest' hexpect =>
      rw [Option.some.injEq, Prod.mk.injEq] at h
      obtain ⟨rfl, rfl⟩ := h
      exact ⟨hinside (expect_within hexpect), spelled_obj (List.forall_mem_nil _)⟩
    . rw [Option.map_eq_some_iff] at h
      obtain ⟨⟨ms, rest'⟩, hmembers, heq⟩ := h
      rw [Prod.mk.injEq] at heq
      obtain ⟨rfl, rfl⟩ := heq
      obtain ⟨hrest, hms⟩ := ih.members hmembers
      refine ⟨hinside hrest, spelled_obj (forall_mem_collect ?_)⟩
      exact fun p hp => (hms p hp).of_suffix ((List.suffix_cons c tail).trans htext)
  split at h
  . exact keyword_sound htext h fun _ hs => nomatch hs
  split at h
  . exact keyword_sound htext h fun _ hs => nomatch hs
  split at h
  . exact keyword_sound htext h fun _ hs => nomatch hs
  . simp only [Option.bind_eq_bind, Option.bind_eq_some_iff, Option.some.injEq, Prod.mk.injEq] at h
    obtain ⟨⟨spelling, rest'⟩, hnumber, q, -, rfl, rfl⟩ := h
    exact ⟨(number_within hnumber).of_suffix htext, spelled_of_forall_not fun _ hs => nomatch hs⟩

theorem Sound.elements_succ {fuel : Nat} (ih : Sound ofNumber fuel) {depth : Nat} {text : List Char}
    {vs : List Json} {rest : List Char}
    (h : JsonText.elements ofNumber depth (fuel + 1) text = some (vs, rest))
    : Within rest text ∧ ∀ v ∈ vs, Spelled text v := by
  unfold JsonText.elements at h
  simp only [Option.bind_eq_bind, Option.bind_eq_some_iff] at h
  obtain ⟨⟨v, text₁⟩, hvalue, h⟩ := h
  obtain ⟨hwithin, hv⟩ := ih.value hvalue
  split at h
  . next text₂ hcomma =>
    simp only [Option.bind_eq_some_iff, Option.some.injEq, Prod.mk.injEq] at h
    obtain ⟨⟨vs', text₃⟩, helements, rfl, rfl⟩ := h
    obtain ⟨hrest, hvs⟩ := ih.elements helements
    have hsuffix : text₂ <:+ text := ((expect_within hcomma).of_suffix hwithin.suffix).suffix
    refine ⟨hrest.of_suffix hsuffix, List.forall_mem_cons.mpr ⟨hv, ?_⟩⟩
    exact fun v' hv' => (hvs v' hv').of_suffix hsuffix
  . simp only [Option.bind_eq_some_iff, Option.some.injEq, Prod.mk.injEq] at h
    obtain ⟨text₂, hclose, rfl, rfl⟩ := h
    exact ⟨(expect_within hclose).of_suffix hwithin.suffix, List.forall_mem_singleton.mpr hv⟩

theorem Sound.members_succ {fuel : Nat} (ih : Sound ofNumber fuel) {depth : Nat} {text : List Char}
    {ms : List (String × Json)} {rest : List Char}
    (h : JsonText.members ofNumber depth (fuel + 1) text = some (ms, rest))
    : Within rest text ∧ ∀ p ∈ ms, Spelled text p.2 := by
  unfold JsonText.members at h
  simp only [Option.bind_eq_bind, Option.bind_eq_some_iff] at h
  obtain ⟨text₁, hquote, ⟨key, text₂⟩, hkey, text₃, hcolon, ⟨v, text₄⟩, hvalue, h⟩ := h
  have hsuffix₃ : text₃ <:+ text := by
    apply (expect_within hcolon).suffix.trans
    exact (string_within hkey).suffix.trans (expect_within hquote).suffix
  obtain ⟨hwithin, hv⟩ := ih.value hvalue
  have hv := hv.of_suffix hsuffix₃
  have hsuffix₄ : text₄ <:+ text := hwithin.suffix.trans hsuffix₃
  split at h
  . next text₅ hcomma =>
    simp only [Option.bind_eq_some_iff, Option.some.injEq, Prod.mk.injEq] at h
    obtain ⟨⟨ms', text₆⟩, hmembers, rfl, rfl⟩ := h
    obtain ⟨hrest, hms⟩ := ih.members hmembers
    have hsuffix₅ : text₅ <:+ text := (expect_within hcomma).suffix.trans hsuffix₄
    refine ⟨hrest.of_suffix hsuffix₅, List.forall_mem_cons.mpr ⟨hv, ?_⟩⟩
    exact fun p hp => (hms p hp).of_suffix hsuffix₅
  . simp only [Option.bind_eq_some_iff, Option.some.injEq, Prod.mk.injEq] at h
    obtain ⟨text₅, hclose, rfl, rfl⟩ := h
    exact ⟨(expect_within hclose).of_suffix hsuffix₄, List.forall_mem_singleton.mpr hv⟩

theorem sound (fuel : Nat) : Sound ofNumber fuel := by
  induction fuel with
  | zero => exact ⟨nofun, nofun, nofun⟩
  | succ fuel ih => exact ⟨ih.value_succ, ih.elements_succ, ih.members_succ⟩

/--
No string comes out of a text but what one of its literals spells.
-/
theorem spelled_of_fromStr {text : List Char} {v : Json} (h : fromStr ofNumber text = some v)
    : Spelled text v := by
  simp only [fromStr, Option.bind_eq_bind, Option.bind_eq_some_iff] at h
  obtain ⟨⟨v', rest⟩, hvalue, h⟩ := h
  split at h
  . rw [Option.some.injEq] at h
    exact h ▸ ((sound _).value hvalue).2
  . cases h

/-! ### Fuel -/

/--
With `fuel` the three functions have all they need for a text.
-/
structure Enough (ofNumber : List Char → Option ℚ) (fuel : Nat) : Prop where
  value : ∀ {depth text}, 2 * text.length ≤ fuel
    → value ofNumber depth (fuel + 1) text = value ofNumber depth fuel text
  elements : ∀ {depth text}, 2 * text.length < fuel
    → elements ofNumber depth (fuel + 1) text = elements ofNumber depth fuel text
  members : ∀ {depth text}, 2 * text.length < fuel
    → members ofNumber depth (fuel + 1) text = members ofNumber depth fuel text

theorem Enough.value_succ {fuel : Nat} (ih : Enough ofNumber fuel) {depth : Nat} {text : List Char}
    (h : 2 * text.length ≤ fuel + 1)
    : JsonText.value ofNumber depth (fuel + 2) text = JsonText.value ofNumber depth (fuel + 1) text := by
  rw [JsonText.value, JsonText.value]
  split
  . rfl
  next c tail htail =>
  have hlength : 2 * tail.length < fuel := by
    have hle := (skipWhitespace_suffix text).length_le
    rw [htail, List.length_cons] at hle
    omega
  rw [ih.elements hlength, ih.members hlength]

theorem Enough.elements_succ {fuel : Nat} (ih : Enough ofNumber fuel) {depth : Nat} {text : List Char}
    (h : 2 * text.length < fuel + 1)
    : JsonText.elements ofNumber depth (fuel + 2) text
        =
      JsonText.elements ofNumber depth (fuel + 1) text := by
  rw [JsonText.elements, JsonText.elements, ih.value (by omega)]
  apply Option.bind_congr
  rintro ⟨v, text₁⟩ hvalue
  have hlength := ((sound fuel).value hvalue).1.length_lt
  dsimp only
  split
  . next text₂ hcomma =>
    have hlength' := (expect_within hcomma).length_lt
    rw [ih.elements (by omega)]
  . rfl

theorem Enough.members_succ {fuel : Nat} (ih : Enough ofNumber fuel) {depth : Nat} {text : List Char}
    (h : 2 * text.length < fuel + 1)
    : JsonText.members ofNumber depth (fuel + 2) text
        =
      JsonText.members ofNumber depth (fuel + 1) text := by
  rw [JsonText.members, JsonText.members]
  apply Option.bind_congr
  intro text₁ hquote
  apply Option.bind_congr
  rintro ⟨key, text₂⟩ hkey
  apply Option.bind_congr
  intro text₃ hcolon
  have hlength₁ := (expect_within hquote).length_lt
  have hlength₂ := (string_within hkey).length_lt
  have hlength₃ := (expect_within hcolon).length_lt
  rw [ih.value (by omega)]
  apply Option.bind_congr
  rintro ⟨v, text₄⟩ hvalue
  have hlength₄ := ((sound fuel).value hvalue).1.length_lt
  dsimp only
  split
  . next text₅ hcomma =>
    have hlength₅ := (expect_within hcomma).length_lt
    rw [ih.members (by omega)]
  . rfl

theorem enough (fuel : Nat) : Enough ofNumber fuel := by
  induction fuel with
  | zero =>
    refine ⟨?_, fun h => absurd h (Nat.not_lt_zero _), fun h => absurd h (Nat.not_lt_zero _)⟩
    intro depth text h
    have htext : text = [] := List.eq_nil_of_length_eq_zero (by omega)
    rw [htext]
    rfl
  | succ fuel ih => exact ⟨ih.value_succ, ih.elements_succ, ih.members_succ⟩

/--
`fromStr` rejects no text for want of fuel.
-/
theorem value_of_le {depth fuel : Nat} {text : List Char} (h : 2 * text.length ≤ fuel)
    : value ofNumber depth fuel text = value ofNumber depth (2 * text.length) text := by
  induction fuel, h using Nat.le_induction with
  | base => rfl
  | succ fuel hle ih => rw [(enough fuel).value hle, ih]

theorem fromStr_of_value {fuel : Nat} {text : List Char} {v : Json} {rest : List Char}
    (hfuel : 2 * text.length ≤ fuel)
    (h : value ofNumber recursionLimit fuel text = some (v, rest)) (hrest : skipWhitespace rest = [])
    : fromStr ofNumber text = some v := by
  rw [value_of_le hfuel] at h
  rw [fromStr, value_of_le (by omega), h]
  exact if_pos (by rw [hrest]; rfl)

/-! ### Documents that hold no whitespace -/

theorem skipWhitespace_cons {c : Char} (h : isWhitespace c = false) (text : List Char)
    : skipWhitespace (c :: text) = c :: text :=
  List.dropWhile_cons_of_neg (by rw [h]; exact Bool.false_ne_true)

theorem expect_cons {c : Char} (h : isWhitespace c = false) (text : List Char)
    : expect c (c :: text) = some text := by
  rw [expect, skipWhitespace_cons h]
  exact if_pos rfl

theorem expect_cons_of_ne {c d : Char} (h : isWhitespace d = false) (hne : d ≠ c) (text : List Char)
    : expect c (d :: text) = none := by
  rw [expect, skipWhitespace_cons h]
  exact if_neg hne

theorem value_string {depth fuel : Nat} {text s rest : List Char}
    (h : string .none text = some (s, rest))
    : value ofNumber depth (fuel + 1) ('"' :: text) = some (.str (.ofList s), rest) := by
  rw [value, skipWhitespace_cons (by decide)]
  dsimp only
  rw [if_pos rfl, h]
  rfl

theorem value_object {depth fuel : Nat} {text : List Char} {ms : List (String × Json)}
    {rest : List Char} (hdepth : 1 < depth)
    (h : members ofNumber (depth - 1) fuel ('"' :: text) = some (ms, rest))
    : value ofNumber depth (fuel + 1) ('\x7b' :: '"' :: text) = some (.obj (collect ms), rest) := by
  rw [value, skipWhitespace_cons (by decide)]
  dsimp only
  rw [if_neg (by decide), if_neg (by decide), if_pos rfl, if_neg (Nat.not_le.mpr hdepth),
    expect_cons_of_ne (by decide) (by decide)]
  dsimp only
  rw [h]
  rfl

theorem members_cons {depth fuel : Nat} {text key text₁ text₂ rest : List Char} {v : Json}
    {ms : List (String × Json)} (hkey : string .none text = some (key, ':' :: text₁))
    (hvalue : value ofNumber depth fuel text₁ = some (v, ',' :: text₂))
    (hms : members ofNumber depth fuel text₂ = some (ms, rest))
    : members ofNumber depth (fuel + 1) ('"' :: text) = some ((.ofList key, v) :: ms, rest) := by
  rw [members, expect_cons (by decide)]
  simp [hkey, expect_cons (c := ':') (by decide), hvalue, expect_cons (c := ',') (by decide), hms]

theorem members_last {depth fuel : Nat} {text key text₁ rest : List Char} {v : Json}
    (hkey : string .none text = some (key, ':' :: text₁))
    (hvalue : value ofNumber depth fuel text₁ = some (v, '\x7d' :: rest))
    : members ofNumber depth (fuel + 1) ('"' :: text) = some ([(.ofList key, v)], rest) := by
  have hcomma : expect ',' ('\x7d' :: rest) = none := expect_cons_of_ne (by decide) (by decide) rest
  rw [members, expect_cons (by decide)]
  simp [hkey, expect_cons (c := ':') (by decide), hvalue, hcomma, expect_cons (c := '\x7d') (by decide)]

end

end JsonText

end LocalBolt
