import LocalBolt.JsonText.Print

/-!
This module contains that a JSON document that was written is read back in its normal form, and that what a
reader returns is normal and nests no deeper than it goes.
-/

namespace LocalBolt

namespace JsonText

variable {spell : ℚ → List Char} {ofNumber : List Char → Option ℚ}

/-! ### Normal forms -/

mutual

/--
What a reader makes of a value: the members of each object in the order of their names, and of several
members of one name the last one.
-/
def normal : Json → Json
  | .null => .null
  | .bool b => .bool b
  | .num q => .num q
  | .str s => .str s
  | .arr values => .arr (normalElements values)
  | .obj fields => .obj (collect (normalMembers fields))

def normalElements : List Json → List Json
  | [] => []
  | v :: vs => normal v :: normalElements vs

def normalMembers : List (String × Json) → List (String × Json)
  | [] => []
  | (key, v) :: fields => (key, normal v) :: normalMembers fields

end

theorem normalElements_eq_map (values : List Json) : normalElements values = values.map normal := by
  induction values with
  | nil => rfl
  | cons v values ih => rw [normalElements, ih, List.map_cons]

theorem normalMembers_eq_map (fields : Dict)
    : normalMembers fields = fields.map fun p => (p.1, normal p.2) := by
  induction fields with
  | nil => rfl
  | cons p fields ih => rw [normalMembers, ih, List.map_cons]

/-! ### Documents are read back -/

/--
The number is read back from its spelling.
-/
structure Survives (spell : ℚ → List Char) (ofNumber : List Char → Option ℚ) (q : ℚ) : Prop where
  number : number (spell q) = some (spell q, [])
  ofNumber : ofNumber (spell q) = some q

/--
A value whose numbers survive and that nests no deeper than the reader goes.
-/
inductive Readable (spell : ℚ → List Char) (ofNumber : List Char → Option ℚ) : Nat → Json → Prop where
  | null {depth : Nat} : Readable spell ofNumber depth .null
  | bool {depth : Nat} (b : Bool) : Readable spell ofNumber depth (.bool b)
  | num {depth : Nat} {q : ℚ} (hq : Survives spell ofNumber q) : Readable spell ofNumber depth (.num q)
  | str {depth : Nat} (s : String) : Readable spell ofNumber depth (.str s)
  | arr {depth : Nat} {values : List Json} (hdepth : 1 < depth)
    (hvalues : ∀ v ∈ values, Readable spell ofNumber (depth - 1) v) :
    Readable spell ofNumber depth (.arr values)
  | obj {depth : Nat} {fields : Dict} (hdepth : 1 < depth)
    (hvalues : ∀ p ∈ fields, Readable spell ofNumber (depth - 1) p.2) :
    Readable spell ofNumber depth (.obj fields)

/--
After the text of `v`, and up to where it ends, the reader has read `v` in its normal form.
-/
def ReadsBack (spell : ℚ → List Char) (ofNumber : List Char → Option ℚ) (depth : Nat) (v : Json) : Prop :=
  ∀ rest fuel, Ends rest → 2 * (print spell v ++ rest).length ≤ fuel →
    value ofNumber depth fuel (print spell v ++ rest) = some (normal v, rest)

/--
The text can begin an element of an array.
-/
def Begins (text : List Char) : Prop :=
  ∃ c rest, text = c :: rest ∧ isWhitespace c = false ∧ c ≠ ']'

theorem begins_of_number {text rest : List Char} (h : number text = some (text, rest)) : Begins text := by
  cases text with
  | nil => cases h
  | cons c text =>
    have hchar := takesNumber_number _ _ _ h c List.mem_cons_self
    refine ⟨c, text, rfl, ?_, ?_⟩
    . by_contra hspace
      rw [Bool.not_eq_false] at hspace
      simp only [isWhitespace, Bool.or_eq_true, decide_eq_true_eq] at hspace
      rcases hspace with ((rfl | rfl) | rfl) | rfl <;> revert hchar <;> decide
    . rintro rfl
      revert hchar
      decide

theorem Readable.begins {depth : Nat} {v : Json} (h : Readable spell ofNumber depth v)
    : Begins (print spell v) := by
  cases h with
  | null => exact ⟨_, _, rfl, by decide, by decide⟩
  | bool b => cases b <;> exact ⟨_, _, rfl, by decide, by decide⟩
  | num hq => exact begins_of_number hq.number
  | str | arr | obj => exact ⟨_, _, rfl, by decide, by decide⟩

theorem Begins.expect {text : List Char} (h : Begins text) (rest : List Char) :
    expect ']' (text ++ rest) = none := by
  obtain ⟨c, text, rfl, hspace, hc⟩ := h
  exact expect_cons_of_ne hspace hc _

theorem ends_comma (text : List Char) : Ends (',' :: text) := by
  apply Ends.cons
  decide

theorem ends_bracket (text : List Char) : Ends (']' :: text) := by
  apply Ends.cons
  decide

theorem ends_brace (text : List Char) : Ends ('\x7d' :: text) := by
  apply Ends.cons
  decide

theorem elements_print {depth : Nat} {values : List Json} (hsome : values ≠ [])
    (h : ∀ v ∈ values, ReadsBack spell ofNumber depth v) (rest : List Char) (fuel : Nat)
    (hfuel : 2 * (printElements spell values ++ ']' :: rest).length < fuel)
    : elements ofNumber depth fuel (printElements spell values ++ ']' :: rest)
        =
      some (normalElements values, rest) := by
  induction values generalizing fuel with
  | nil => contradiction
  | cons v values ih =>
    obtain ⟨hv, hvalues⟩ := List.forall_mem_cons.mp h
    obtain ⟨fuel, rfl⟩ := Nat.exists_eq_add_of_lt (Nat.zero_lt_of_lt hfuel)
    rw [Nat.zero_add] at hfuel ⊢
    cases values with
    | nil =>
      have hvalue := hv (']' :: rest) fuel (ends_bracket rest) (by simpa [printElements] using Nat.lt_succ_iff.mp hfuel)
      have hcomma : expect ',' (']' :: rest) = none := expect_cons_of_ne (by decide) (by decide) rest
      simp [printElements, normalElements, elements, hvalue, hcomma, expect_cons (c := ']') (by decide)]
    | cons w values =>
      have htext : printElements spell (v :: w :: values) ++ ']' :: rest
          = print spell v ++ ',' :: (printElements spell (w :: values) ++ ']' :: rest) := by
        simp [printElements]
      rw [htext] at hfuel ⊢
      have hvalue := hv (',' :: (printElements spell (w :: values) ++ ']' :: rest)) fuel
        (ends_comma _) (Nat.lt_succ_iff.mp hfuel)
      have hmore := ih (by simp) hvalues fuel (by
        simp only [List.length_append, List.length_cons] at hfuel ⊢
        omega)
      simp [normalElements, elements, hvalue, expect_cons (c := ',') (by decide), hmore]

theorem members_print {depth : Nat} {fields : Dict} (hsome : fields ≠ [])
    (h : ∀ p ∈ fields, ReadsBack spell ofNumber depth p.2) (rest : List Char) (fuel : Nat)
    (hfuel : 2 * (printMembers spell fields ++ '\x7d' :: rest).length < fuel)
    : members ofNumber depth fuel (printMembers spell fields ++ '\x7d' :: rest)
        =
      some (normalMembers fields, rest) := by
  induction fields generalizing fuel with
  | nil => contradiction
  | cons p fields ih =>
    obtain ⟨key, v⟩ := p
    obtain ⟨hv, hvalues⟩ := List.forall_mem_cons.mp h
    obtain ⟨fuel, rfl⟩ := Nat.exists_eq_add_of_lt (Nat.zero_lt_of_lt hfuel)
    rw [Nat.zero_add] at hfuel ⊢
    cases fields with
    | nil =>
      have htext : printMembers spell [(key, v)] ++ '\x7d' :: rest
          = '"' :: (key.toList.flatMap escaped ++ '"' :: ':' :: (print spell v ++ '\x7d' :: rest)) := by
        simp [printMembers, quote]
      rw [htext] at hfuel ⊢
      have hkey := string_quote_append key.toList (':' :: (print spell v ++ '\x7d' :: rest))
      have hvalue := hv ('\x7d' :: rest) fuel (ends_brace rest) (by
        simp only [List.length_append, List.length_cons] at hfuel ⊢
        omega)
      rw [members_last hkey hvalue, String.ofList_toList]
      rfl
    | cons q fields =>
      have htext : printMembers spell ((key, v) :: q :: fields) ++ '\x7d' :: rest
          = '"' :: (key.toList.flatMap escaped ++ '"' :: ':' :: (print spell v ++ ',' ::
            (printMembers spell (q :: fields) ++ '\x7d' :: rest))) := by
        simp [printMembers, quote]
      rw [htext] at hfuel ⊢
      have hkey := string_quote_append key.toList (':' :: (print spell v ++ ',' ::
        (printMembers spell (q :: fields) ++ '\x7d' :: rest)))
      have hvalue := hv (',' :: (printMembers spell (q :: fields) ++ '\x7d' :: rest)) fuel
        (ends_comma _) (by
          simp only [List.length_append, List.length_cons] at hfuel ⊢
          omega)
      have hmore := ih (by simp) hvalues fuel (by
        simp only [List.length_append, List.length_cons] at hfuel ⊢
        omega)
      rw [members_cons hkey hvalue hmore, String.ofList_toList]
      rfl

theorem value_number {q : ℚ} (hq : Survives spell ofNumber q) {depth fuel : Nat} {rest : List Char}
    (hrest : Ends rest) : value ofNumber depth (fuel + 1) (spell q ++ rest) = some (.num q, rest) := by
  have hnumber := stable_number _ _ _ rest hrest hq.number
  have hspelling := hq.ofNumber
  obtain ⟨c, text, htext, hspace, -⟩ := begins_of_number hq.number
  have hchar : isNumberChar c = true := by
    apply takesNumber_number _ _ _ hq.number
    rw [htext]
    exact List.mem_cons_self
  have hne : ∀ d, isNumberChar d = false → c ≠ d := by
    rintro d hd rfl
    rw [hchar] at hd
    contradiction
  rw [htext] at hnumber hspelling ⊢
  rw [List.cons_append] at hnumber ⊢
  rw [value, skipWhitespace_cons hspace]
  dsimp only
  rw [if_neg (hne '"' (by decide)), if_neg (hne '[' (by decide)), if_neg (hne '\x7b' (by decide)),
    if_neg (hne 'n' (by decide)), if_neg (hne 't' (by decide)), if_neg (hne 'f' (by decide)), hnumber]
  simp [hspelling]

theorem value_elements {depth fuel : Nat} {text : List Char} {vs : List Json} {rest : List Char}
    (hdepth : 1 < depth) (hempty : expect ']' text = none)
    (h : elements ofNumber (depth - 1) fuel text = some (vs, rest))
    : value ofNumber depth (fuel + 1) ('[' :: text) = some (.arr vs, rest) := by
  rw [value, skipWhitespace_cons (by decide)]
  dsimp only
  rw [if_neg (by decide), if_pos rfl, if_neg (Nat.not_le.mpr hdepth), hempty]
  dsimp only
  rw [h]
  rfl

theorem value_array {depth : Nat} {values : List Json} (hdepth : 1 < depth)
    (hvalues : ∀ v ∈ values, Readable spell ofNumber (depth - 1) v)
    (ih : ∀ v ∈ values, ReadsBack spell ofNumber (depth - 1) v) {fuel : Nat} {rest : List Char}
    (hfuel : 2 * (print spell (.arr values) ++ rest).length ≤ fuel + 1)
    : value ofNumber depth (fuel + 1) (print spell (.arr values) ++ rest)
        =
      some (normal (.arr values), rest) := by
  have htext : print spell (.arr values) ++ rest = '[' :: (printElements spell values ++ ']' :: rest) := by
    simp [print]
  rw [htext] at hfuel ⊢
  cases values with
  | nil =>
    rw [value, skipWhitespace_cons (by decide)]
    dsimp only
    rw [if_neg (by decide), if_pos rfl, if_neg (Nat.not_le.mpr hdepth)]
    rfl
  | cons v values =>
    apply value_elements hdepth
    . have hbegins := (hvalues v List.mem_cons_self).begins
      cases values with
      | nil => exact hbegins.expect _
      | cons w values =>
        rw [printElements, List.append_assoc]
        . exact hbegins.expect _
        . simp
    . apply elements_print (by simp) ih
      rw [List.length_cons] at hfuel
      omega

theorem value_fields {depth : Nat} {fields : Dict} (hdepth : 1 < depth)
    (ih : ∀ p ∈ fields, ReadsBack spell ofNumber (depth - 1) p.2) {fuel : Nat} {rest : List Char}
    (hfuel : 2 * (print spell (.obj fields) ++ rest).length ≤ fuel + 1)
    : value ofNumber depth (fuel + 1) (print spell (.obj fields) ++ rest)
        =
      some (normal (.obj fields), rest) := by
  have htext : print spell (.obj fields) ++ rest
      = '\x7b' :: (printMembers spell fields ++ '\x7d' :: rest) := by
    simp [print]
  rw [htext] at hfuel ⊢
  cases fields with
  | nil =>
    rw [value, skipWhitespace_cons (by decide)]
    dsimp only
    rw [if_neg (by decide), if_neg (by decide), if_pos rfl, if_neg (Nat.not_le.mpr hdepth)]
    rfl
  | cons p fields =>
    have hmembers := members_print (by simp) ih rest fuel (by
      rw [List.length_cons] at hfuel
      omega)
    obtain ⟨text, hquote⟩ : ∃ text, printMembers spell (p :: fields) ++ '\x7d' :: rest = '"' :: text := by
      cases fields <;> exact ⟨_, rfl⟩
    rw [hquote] at hmembers ⊢
    rw [value_object hdepth hmembers, normal]

theorem Readable.readsBack {depth : Nat} {v : Json} (h : Readable spell ofNumber depth v)
    : ReadsBack spell ofNumber depth v := by
  have hsome : ∀ v, Begins (print spell v) → ∀ rest fuel,
      2 * (print spell v ++ rest).length ≤ fuel → ∃ n, fuel = n + 1 := by
    intro v hbegins rest fuel hfuel
    obtain ⟨c, text, htext, -⟩ := hbegins
    rw [htext, List.length_append, List.length_cons] at hfuel
    exact Nat.exists_eq_succ_of_ne_zero (by omega)
  have hbegins := h.begins
  induction h with
  | null =>
    intro rest fuel _ hfuel
    obtain ⟨fuel, rfl⟩ := hsome _ hbegins rest fuel hfuel
    rfl
  | bool b =>
    intro rest fuel _ hfuel
    obtain ⟨fuel, rfl⟩ := hsome _ hbegins rest fuel hfuel
    cases b <;> rfl
  | num hq =>
    intro rest fuel hrest hfuel
    obtain ⟨fuel, rfl⟩ := hsome _ hbegins rest fuel hfuel
    exact value_number hq hrest
  | str s =>
    intro rest fuel _ hfuel
    obtain ⟨fuel, rfl⟩ := hsome _ hbegins rest fuel hfuel
    have htext : print spell (.str s) ++ rest = '"' :: (s.toList.flatMap escaped ++ '"' :: rest) := by
      simp [print, quote]
    rw [htext, value_string (string_quote_append s.toList rest), String.ofList_toList, normal]
  | arr hdepth hvalues ih =>
    intro rest fuel _ hfuel
    obtain ⟨fuel, rfl⟩ := hsome _ hbegins rest fuel hfuel
    exact value_array hdepth hvalues (fun v hv => ih v hv (hvalues v hv).begins) hfuel
  | obj hdepth hvalues ih =>
    intro rest fuel _ hfuel
    obtain ⟨fuel, rfl⟩ := hsome _ hbegins rest fuel hfuel
    exact value_fields hdepth (fun p hp => ih p hp (hvalues p hp).begins) hfuel

/--
What was written is read back.
-/
theorem fromStr_print {v : Json} (h : Readable spell ofNumber recursionLimit v)
    : fromStr ofNumber (print spell v) = some (normal v) := by
  have hvalue := h.readsBack [] (2 * (print spell v ++ []).length) Ends.nil le_rfl
  rw [List.append_nil] at hvalue
  exact fromStr_of_value le_rfl hvalue rfl

/-! ### No control characters -/

theorem hexDigit_printable : ∀ n < 16, 0x20 ≤ (hexDigit n).toNat := by
  decide

theorem printable_of_all {text : List Char} (h : (text.all fun c => 0x20 ≤ c.toNat) = true)
    : ∀ c ∈ text, 0x20 ≤ c.toNat := by
  simpa using h

theorem printable_escaped (c : Char) : ∀ d ∈ escaped c, 0x20 ≤ d.toNat := by
  have hlow : c.toNat < 0x20 → ∀ d ∈ ['\\', 'u', '0', '0', hexDigit (c.toNat / 16), hexDigit (c.toNat % 16)],
      0x20 ≤ d.toNat := by
    intro hcontrol
    simp only [List.forall_mem_cons]
    exact ⟨by decide, by decide, by decide, by decide, hexDigit_printable _ (by omega),
      hexDigit_printable _ (by omega), List.forall_mem_nil _⟩
  unfold escaped
  split_ifs with hquote hslash hback hfeed hline hreturn htab hcontrol
  . exact printable_of_all rfl
  . exact printable_of_all rfl
  . exact printable_of_all rfl
  . exact printable_of_all rfl
  . exact printable_of_all rfl
  . exact printable_of_all rfl
  . exact printable_of_all rfl
  . exact hlow hcontrol
  . exact List.forall_mem_singleton.mpr (Nat.not_lt.mp hcontrol)

theorem printable_quote (s : List Char) : ∀ d ∈ quote s, 0x20 ≤ d.toNat := by
  unfold quote
  rw [List.forall_mem_cons, List.forall_mem_append, List.forall_mem_singleton]
  refine ⟨by decide, ?_, by decide⟩
  intro d hd
  obtain ⟨c, -, hc⟩ := List.mem_flatMap.mp hd
  exact printable_escaped c d hc

theorem printable_number {c : Char} (h : isNumberChar c = true) : 0x20 ≤ c.toNat := by
  simp only [isNumberChar, Bool.or_eq_true, decide_eq_true_eq] at h
  rcases h with hdigit | hmem
  . have hlow : '0'.toNat ≤ c.toNat := (Char.isDigit_iff_toNat.mp hdigit).1
    exact le_trans (by decide) hlow
  . exact printable_of_all rfl c hmem

theorem forall_mem_printElements {P : Char → Prop} (hcomma : P ',') {values : List Json}
    (h : ∀ v ∈ values, ∀ c ∈ print spell v, P c) : ∀ c ∈ printElements spell values, P c := by
  induction values with
  | nil => exact List.forall_mem_nil _
  | cons v values ih =>
    obtain ⟨hv, hvalues⟩ := List.forall_mem_cons.mp h
    cases values with
    | nil =>
      rw [printElements]
      exact hv
    | cons w values =>
      rw [printElements, List.forall_mem_append, List.forall_mem_cons]
      . exact ⟨hv, hcomma, ih hvalues⟩
      . simp

theorem forall_mem_printMembers {P : Char → Prop} (hcomma : P ',') (hcolon : P ':')
    (hquote : ∀ s, ∀ c ∈ quote s, P c) {fields : Dict}
    (h : ∀ p ∈ fields, ∀ c ∈ print spell p.2, P c) : ∀ c ∈ printMembers spell fields, P c := by
  induction fields with
  | nil => exact List.forall_mem_nil _
  | cons p fields ih =>
    obtain ⟨key, v⟩ := p
    obtain ⟨hv, hvalues⟩ := List.forall_mem_cons.mp h
    cases fields with
    | nil =>
      rw [printMembers, List.forall_mem_append, List.forall_mem_cons]
      exact ⟨hquote _, hcolon, hv⟩
    | cons q fields =>
      rw [printMembers, List.forall_mem_append, List.forall_mem_cons, List.forall_mem_append,
        List.forall_mem_cons]
      . exact ⟨hquote _, hcolon, hv, hcomma, ih hvalues⟩
      . simp

/--
A text that was written is one line of visible characters and blanks.
-/
theorem Readable.printable {depth : Nat} {v : Json} (h : Readable spell ofNumber depth v)
    : ∀ c ∈ print spell v, 0x20 ≤ c.toNat := by
  induction h with
  | null =>
    rw [print]
    exact printable_of_all rfl
  | bool b => cases b <;> rw [print] <;> exact printable_of_all rfl
  | num hq =>
    intro c hc
    exact printable_number (takesNumber_number _ _ _ hq.number c hc)
  | str s => exact printable_quote s.toList
  | arr _ _ ih =>
    rw [print, List.forall_mem_cons, List.forall_mem_append, List.forall_mem_singleton]
    exact ⟨by decide, forall_mem_printElements (by decide) ih, by decide⟩
  | obj _ _ ih =>
    rw [print, List.forall_mem_cons, List.forall_mem_append, List.forall_mem_singleton]
    exact ⟨by decide, forall_mem_printMembers (by decide) (by decide) printable_quote ih, by decide⟩

/-! ### Normal values -/

/--
The members of an object whose names are in order are kept as they are.
-/
theorem collect_of_sorted {fields : Dict} (h : SortedMap.Sorted fields) : collect fields = fields := by
  have hinsert : ∀ (fields d : Dict), SortedMap.Sorted (d ++ fields) →
      fields.foldl (fun d p => SortedMap.insert p.1 p.2 d) d = d ++ fields := by
    intro fields
    induction fields with
    | nil =>
      intro d _
      exact (List.append_nil d).symm
    | cons p fields ih =>
      intro d hsorted
      obtain ⟨key, v⟩ := p
      have hlast : SortedMap.insert key v d = d ++ [(key, v)] := by
        apply SortedMap.insert_of_forall_lt
        intro q hq
        exact (List.pairwise_append.mp hsorted).2.2 q hq (key, v) List.mem_cons_self
      rw [List.foldl_cons]
      dsimp only
      rw [hlast, ih _ (by rwa [List.append_assoc]), List.append_assoc]
      rfl
  exact hinsert fields [] h

/--
What is in its normal form already.
-/
def Normal (v : Json) : Prop := normal v = v

theorem normal_arr {values : List Json} (h : ∀ v ∈ values, Normal v) : Normal (.arr values) := by
  have hmap : values.map normal = values := (List.map_congr_left h).trans (List.map_id'' (fun _ => rfl) _)
  unfold Normal
  rw [normal, normalElements_eq_map, hmap]

theorem normal_obj {fields : Dict} (hsorted : SortedMap.Sorted fields)
    (h : ∀ p ∈ fields, Normal p.2) : Normal (.obj fields) := by
  have hmap : (fields.map fun p => (p.1, normal p.2)) = fields := by
    have hsame : ∀ p ∈ fields, (p.1, JsonText.normal p.2) = p := fun p hp => Prod.ext rfl (h p hp)
    exact (List.map_congr_left hsame).trans (List.map_id'' (fun _ => rfl) _)
  unfold Normal
  rw [normal, normalMembers_eq_map, hmap, collect_of_sorted hsorted]

/-! ### Values that were read -/

/--
`q` is one of the numbers of a value, at any depth.
-/
inductive HasNumber (q : ℚ) : Json → Prop
  | num : HasNumber q (.num q)
  | arr {v : Json} {values : List Json} (hmem : v ∈ values) (hv : HasNumber q v) : HasNumber q (.arr values)
  | obj {p : String × Json} {fields : Dict} (hmem : p ∈ fields) (hp : HasNumber q p.2)
    : HasNumber q (.obj fields)

/--
The value nests no deeper than the reader goes.
-/
inductive Nested : Nat → Json → Prop where
  | null {depth : Nat} : Nested depth .null
  | bool {depth : Nat} (b : Bool) : Nested depth (.bool b)
  | num {depth : Nat} (q : ℚ) : Nested depth (.num q)
  | str {depth : Nat} (s : String) : Nested depth (.str s)
  | arr {depth : Nat} {values : List Json} (hdepth : 1 < depth)
    (hvalues : ∀ v ∈ values, Nested (depth - 1) v) : Nested depth (.arr values)
  | obj {depth : Nat} {fields : Dict} (hdepth : 1 < depth)
    (hvalues : ∀ p ∈ fields, Nested (depth - 1) p.2) : Nested depth (.obj fields)

theorem Nested.readable {depth : Nat} {v : Json} (h : Nested depth v)
    (hnumbers : ∀ q, HasNumber q v → Survives spell ofNumber q) : Readable spell ofNumber depth v := by
  induction h with
  | null => exact .null
  | bool b => exact .bool b
  | num q => exact .num (hnumbers q .num)
  | str s => exact .str s
  | arr hdepth hvalues ih => exact .arr hdepth fun v hv => ih v hv fun q hq => hnumbers q (.arr hv hq)
  | obj hdepth hvalues ih => exact .obj hdepth fun p hp => ih p hp fun q hq => hnumbers q (.obj hp hq)

/--
What a reader that may go `depth` deep returns.
-/
structure IsRead (depth : Nat) (v : Json) : Prop where
  nested : Nested depth v
  normal : Normal v

/--
What `value`, `elements` and `members` return with `fuel`.
-/
structure Reads (ofNumber : List Char → Option ℚ) (fuel : Nat) : Prop where
  value : ∀ {depth text v rest}, value ofNumber depth fuel text = some (v, rest) → IsRead depth v
  elements : ∀ {depth text vs rest}, elements ofNumber depth fuel text = some (vs, rest) →
    ∀ v ∈ vs, IsRead depth v
  members : ∀ {depth text ms rest}, members ofNumber depth fuel text = some (ms, rest) →
    ∀ p ∈ ms, IsRead depth p.2

theorem sorted_collect (ms : List (String × Json)) : SortedMap.Sorted (collect ms) := by
  have hinsert : ∀ (ms : List (String × Json)) (d : Dict), SortedMap.Sorted d →
      SortedMap.Sorted (ms.foldl (fun d p => SortedMap.insert p.1 p.2 d) d) := by
    intro ms
    induction ms with
    | nil => exact fun d hd => hd
    | cons m ms ih => exact fun d hd => ih _ (hd.insert m.1 m.2)
  exact hinsert ms [] List.Pairwise.nil

theorem isRead_arr {depth : Nat} {values : List Json} (hdepth : ¬ depth ≤ 1)
    (h : ∀ v ∈ values, IsRead (depth - 1) v) : IsRead depth (.arr values) where
  nested := .arr (Nat.not_le.mp hdepth) fun v hv => (h v hv).nested
  normal := normal_arr fun v hv => (h v hv).normal

theorem isRead_obj {depth : Nat} {ms : List (String × Json)} (hdepth : ¬ depth ≤ 1)
    (h : ∀ p ∈ ms, IsRead (depth - 1) p.2) : IsRead depth (.obj (collect ms)) where
  nested := .obj (Nat.not_le.mp hdepth) (forall_mem_collect fun p hp => (h p hp).nested)
  normal := normal_obj (sorted_collect ms) (forall_mem_collect fun p hp => (h p hp).normal)

theorem isRead_keyword {depth : Nat} {word text rest : List Char} {v v' : Json}
    (hv : IsRead depth v) (h : keyword word v text = some (v', rest)) : IsRead depth v' := by
  obtain ⟨rfl, -⟩ := keyword_suffix h
  exact hv

theorem Reads.value_succ {fuel : Nat} (ih : Reads ofNumber fuel) {depth : Nat} {text : List Char}
    {v : Json} {rest : List Char} (h : JsonText.value ofNumber depth (fuel + 1) text = some (v, rest))
    : IsRead depth v := by
  unfold JsonText.value at h
  split at h
  . cases h
  split at h
  . obtain ⟨⟨s, rest'⟩, -, heq⟩ := Option.map_eq_some_iff.mp h
    obtain ⟨rfl, -⟩ := Prod.mk.inj heq
    exact ⟨.str _, rfl⟩
  split at h
  . split at h
    . cases h
    next hdepth =>
    split at h
    . obtain ⟨rfl, -⟩ := Prod.mk.inj (Option.some.inj h)
      exact isRead_arr hdepth (List.forall_mem_nil _)
    . obtain ⟨⟨vs, rest'⟩, helements, heq⟩ := Option.map_eq_some_iff.mp h
      obtain ⟨rfl, -⟩ := Prod.mk.inj heq
      exact isRead_arr hdepth (ih.elements helements)
  split at h
  . split at h
    . cases h
    next hdepth =>
    split at h
    . obtain ⟨rfl, -⟩ := Prod.mk.inj (Option.some.inj h)
      exact isRead_obj hdepth (List.forall_mem_nil _)
    . obtain ⟨⟨ms, rest'⟩, hmembers, heq⟩ := Option.map_eq_some_iff.mp h
      obtain ⟨rfl, -⟩ := Prod.mk.inj heq
      exact isRead_obj hdepth (ih.members hmembers)
  split at h
  . exact isRead_keyword ⟨.null, rfl⟩ h
  split at h
  . exact isRead_keyword ⟨.bool true, rfl⟩ h
  split at h
  . exact isRead_keyword ⟨.bool false, rfl⟩ h
  . simp only [Option.bind_eq_bind, Option.bind_eq_some_iff, Option.some.injEq, Prod.mk.injEq] at h
    obtain ⟨-, -, q, -, rfl, -⟩ := h
    exact ⟨.num q, rfl⟩

theorem Reads.elements_succ {fuel : Nat} (ih : Reads ofNumber fuel) {depth : Nat} {text : List Char}
    {vs : List Json} {rest : List Char}
    (h : JsonText.elements ofNumber depth (fuel + 1) text = some (vs, rest)) : ∀ v ∈ vs, IsRead depth v := by
  unfold JsonText.elements at h
  simp only [Option.bind_eq_bind, Option.bind_eq_some_iff] at h
  obtain ⟨⟨v, text₁⟩, hvalue, h⟩ := h
  split at h
  . simp only [Option.bind_eq_some_iff, Option.some.injEq, Prod.mk.injEq] at h
    obtain ⟨⟨vs', text₃⟩, helements, rfl, -⟩ := h
    exact List.forall_mem_cons.mpr ⟨ih.value hvalue, ih.elements helements⟩
  . simp only [Option.bind_eq_some_iff, Option.some.injEq, Prod.mk.injEq] at h
    obtain ⟨text₂, -, rfl, -⟩ := h
    exact List.forall_mem_singleton.mpr (ih.value hvalue)

theorem Reads.members_succ {fuel : Nat} (ih : Reads ofNumber fuel) {depth : Nat} {text : List Char}
    {ms : List (String × Json)} {rest : List Char}
    (h : JsonText.members ofNumber depth (fuel + 1) text = some (ms, rest)) :
    ∀ p ∈ ms, IsRead depth p.2 := by
  unfold JsonText.members at h
  simp only [Option.bind_eq_bind, Option.bind_eq_some_iff] at h
  obtain ⟨text₁, -, ⟨key, text₂⟩, -, text₃, -, ⟨v, text₄⟩, hvalue, h⟩ := h
  split at h
  . simp only [Option.bind_eq_some_iff, Option.some.injEq, Prod.mk.injEq] at h
    obtain ⟨⟨ms', text₆⟩, hmembers, rfl, -⟩ := h
    exact List.forall_mem_cons.mpr ⟨ih.value hvalue, ih.members hmembers⟩
  . simp only [Option.bind_eq_some_iff, Option.some.injEq, Prod.mk.injEq] at h
    obtain ⟨text₅, -, rfl, -⟩ := h
    exact List.forall_mem_singleton.mpr (ih.value hvalue)

theorem reads (fuel : Nat) : Reads ofNumber fuel := by
  induction fuel with
  | zero => exact ⟨nofun, nofun, nofun⟩
  | succ fuel ih => exact ⟨ih.value_succ, ih.elements_succ, ih.members_succ⟩

theorem isRead_of_fromStr {text : List Char} {v : Json} (h : fromStr ofNumber text = some v)
    : IsRead recursionLimit v := by
  simp only [fromStr, Option.bind_eq_bind, Option.bind_eq_some_iff] at h
  obtain ⟨⟨v', rest⟩, hvalue, h⟩ := h
  split at h
  . exact Option.some.inj h ▸ (reads _).value hvalue
  . cases h

end JsonText

end LocalBolt
