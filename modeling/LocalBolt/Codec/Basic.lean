import Mathlib.Logic.Function.Defs
import Mathlib.Logic.Relation

/-!
This module contains encodings that lose nothing and decoders that pass over what they do not know.
-/

namespace LocalBolt

namespace Codec

variable {α β : Type}

/--
An encoding `encode` that `decode` takes back, where `decode` reads a value as it reads those that
`Extends` relates to it.
-/
structure Lossless (encode : α → β) (decode : β → Option α) (Extends : β → β → Prop) : Prop where
  decode_encode : ∀ a, decode (encode a) = some a
  injective : Function.Injective encode
  decode_extends : ∀ b b', Extends b b' → decode b' = decode b

theorem injective_of_decode_encode {encode : α → β} {decode : β → Option α}
    (h : ∀ a, decode (encode a) = some a) : Function.Injective encode := by
  intro a a' heq
  apply Option.some.inj
  rw [← h a, heq, h a']

theorem lossless_of_steps {encode : α → β} {decode : β → Option α} {Step : β → β → Prop}
    (hencode : ∀ a, decode (encode a) = some a) (hstep : ∀ b b', Step b b' → decode b' = decode b) :
    Lossless encode decode (Relation.ReflTransGen Step) := by
  refine ⟨hencode, injective_of_decode_encode hencode, ?_⟩
  intro b b' hsteps
  induction hsteps with
  | refl => rfl
  | tail _ hlast ih => rw [hstep _ _ hlast, ih]

/-! ### Lists -/

theorem mapM_map {encode : α → β} {decode : β → Option α} (h : ∀ a, decode (encode a) = some a)
    (as : List α) : (as.map encode).mapM decode = some as := by
  induction as with
  | nil => rfl
  | cons a as ih => simp [List.mapM_cons, h, ih]

theorem mapM_replace {decode : β → Option α} {b b' : β} (h : decode b' = decode b)
    (before after : List β)
    : (before ++ b' :: after).mapM decode = (before ++ b :: after).mapM decode := by
  simp [List.mapM_append, List.mapM_cons, h]

end Codec

end LocalBolt
