import LocalBolt.Rendezvous.Lemmas.Ownership

/-!
This module contains the peer codes that the server accepts, and the agreement of the two checks that
registration and routing make.
-/

namespace LocalBolt

namespace Rendezvous

def withoutHyphens (text : String) : String := String.ofList (text.toList.filter (· ≠ '-'))

/--
One to sixteen ASCII letters and digits.
-/
structure IsPeerCode (code : String) : Prop where
  nonempty : 1 ≤ code.length
  length_le : code.length ≤ 16
  alphanumeric : ∀ c ∈ code.toList, c.isAlphanum = true

theorem utf8Size_of_isAlphanum {c : Char} (h : c.isAlphanum = true) : c.utf8Size = 1 := by
  rw [Char.utf8Size_eq_one_iff]
  have hranges : c.isAlphanum = ((decide (c.val ≥ 'A'.val ∧ c.val ≤ 'Z'.val)
      || (c.val ≥ 'a'.val && c.val ≤ 'z'.val)) || (c.val ≥ '0'.val && c.val ≤ '9'.val)) := by rfl
  simp only [hranges, Bool.or_eq_true, Bool.and_eq_true, decide_eq_true_eq,
    UInt32.le_iff_toNat_le] at h ⊢
  simp at h ⊢
  omega

theorem utf8ByteSize_of_alphanumeric {chars : List Char} (h : ∀ c ∈ chars, c.isAlphanum = true) :
    (String.ofList chars).utf8ByteSize = chars.length := by
  induction chars with
  | nil => rfl
  | cons c chars ih =>
    rw [List.forall_mem_cons] at h
    rw [String.ofList_cons, String.utf8ByteSize_append, String.utf8ByteSize_singleton, ih h.2,
      utf8Size_of_isAlphanum h.1, List.length_cons, Nat.add_comm]

theorem not_mem_of_alphanumeric {chars : List Char} (h : ∀ c ∈ chars, c.isAlphanum = true) :
    '-' ∉ chars := by
  intro hmem
  exact absurd (h '-' hmem) (by decide)

theorem IsPeerCode.withoutHyphens {code : String} (h : IsPeerCode code) : withoutHyphens code = code := by
  have hkept : code.toList.filter (· ≠ '-') = code.toList := by
    rw [List.filter_eq_self]
    intro c hc
    apply decide_eq_true
    rintro rfl
    exact not_mem_of_alphanumeric h.alphanumeric hc
  unfold Rendezvous.withoutHyphens
  rw [hkept, String.ofList_toList]

theorem IsPeerCode.utf8ByteSize {code : String} (h : IsPeerCode code) : code.utf8ByteSize = code.length := by
  have hsize := utf8ByteSize_of_alphanumeric h.alphanumeric
  rw [String.ofList_toList, String.length_toList] at hsize
  exact hsize

theorem validateCode_eq_ok_iff (subject : String) (tooLong : Nat → String) {text code : String}
    : validateCode subject tooLong text = .ok code
        ↔
      IsPeerCode (withoutHyphens text) ∧ code = withoutHyphens text := by
  unfold validateCode
  dsimp only
  rw [← withoutHyphens]
  split
  . next hempty =>
    refine iff_of_false (by simp) ?_
    rintro ⟨hcode, -⟩
    have hnonempty := hcode.nonempty
    rw [String.isEmpty_iff.mp hempty] at hnonempty
    contradiction
  . next hempty =>
    split
    . next hlong =>
      refine iff_of_false (by simp) ?_
      rintro ⟨hcode, -⟩
      have hlength := hcode.length_le
      rw [hcode.utf8ByteSize] at hlong
      exact absurd hlength (Nat.not_le.mpr hlong)
    . next hlong =>
      split
      . next hchars =>
        refine iff_of_false (by simp) ?_
        rintro ⟨hcode, -⟩
        exact hchars (List.all_eq_true.mpr hcode.alphanumeric)
      . next hchars =>
        have halphanumeric := List.all_eq_true.mp (not_not.mp hchars)
        have hsize := utf8ByteSize_of_alphanumeric halphanumeric
        rw [String.ofList_toList, String.length_toList] at hsize
        have hcode : IsPeerCode (withoutHyphens text) := by
          refine ⟨?_, ?_, halphanumeric⟩
          . rw [Nat.one_le_iff_ne_zero, ← hsize]
            intro hzero
            exact hempty (String.isEmpty_iff_utf8ByteSize_eq_zero.mpr hzero)
          . rw [← hsize]
            exact Nat.not_lt.mp hlong
        constructor
        . intro hok
          exact ⟨hcode, (Except.ok.inj hok).symm⟩
        . rintro ⟨-, rfl⟩
          rfl

theorem validateCode_congr (subject : String) (tooLong : Nat → String) {text text' : String}
    (h : withoutHyphens text = withoutHyphens text') :
    validateCode subject tooLong text = validateCode subject tooLong text' := by
  unfold validateCode
  rw [← withoutHyphens, ← withoutHyphens, h]

theorem toOption_eq_some_iff {ε α : Type} {result : Except ε α} {a : α} :
    result.toOption = some a ↔ result = .ok a := by
  cases result <;> simp [Except.toOption]

/--
The two checks accept the same codes, under all their spellings, and a peer is found under all of them.
-/
structure CodesAgree (fromStr : String → Except String ClientMessage) (text : String) : Prop where
  same : (validatePeerCode text).toOption = (validateSignalTarget text).toOption
  ok_iff : ∀ code, validatePeerCode text = .ok code
    ↔ IsPeerCode (withoutHyphens text) ∧ code = withoutHyphens text
  fixed : ∀ code, validatePeerCode text = .ok code →
    validatePeerCode code = .ok code ∧ validateSignalTarget code = .ok code
  spelling : ∀ text', withoutHyphens text' = withoutHyphens text →
    validatePeerCode text' = validatePeerCode text
      ∧ validateSignalTarget text' = validateSignalTarget text
  found : ∀ text' code, withoutHyphens text' = withoutHyphens text → validatePeerCode text = .ok code →
    ∀ s, (Server.machine fromStr).Reachable s → ∀ ip, ∀ p ∈ s.manager.room ip, p.peerCode = code →
      ∃ target, validateSignalTarget text' = .ok target
        ∧ s.manager.findPeer ip target = some p.sender

theorem codes_agree (fromStr : String → Except String ClientMessage) (text : String) :
    CodesAgree fromStr text := by
  have hregister : ∀ {text code}, validatePeerCode text = .ok code
      ↔ IsPeerCode (withoutHyphens text) ∧ code = withoutHyphens text :=
    validateCode_eq_ok_iff ..
  have hroute : ∀ {text code}, validateSignalTarget text = .ok code
      ↔ IsPeerCode (withoutHyphens text) ∧ code = withoutHyphens text :=
    validateCode_eq_ok_iff ..
  constructor
  . apply Option.ext
    intro code
    rw [toOption_eq_some_iff, toOption_eq_some_iff, hregister, hroute]
  . intro code
    exact hregister
  . intro code hok
    obtain ⟨hcode, rfl⟩ := hregister.mp hok
    have hfixed : IsPeerCode (withoutHyphens (withoutHyphens text))
        ∧ withoutHyphens text = withoutHyphens (withoutHyphens text) := by
      rw [hcode.withoutHyphens]
      exact ⟨hcode, rfl⟩
    exact ⟨hregister.mpr hfixed, hroute.mpr hfixed⟩
  . intro text' hsame
    exact ⟨validateCode_congr _ _ hsame, validateCode_congr _ _ hsame⟩
  . intro text' code hsame hok s hs ip p hp hcode
    obtain ⟨hvalid, rfl⟩ := hregister.mp hok
    refine ⟨withoutHyphens text, hroute.mpr ?_, ?_⟩
    . rw [hsame]
      exact ⟨hvalid, rfl⟩
    . rw [← hcode]
      exact RoomManager.findPeer_of_mem (Server.consistent hs).wellFormed hp

end Rendezvous

end LocalBolt
