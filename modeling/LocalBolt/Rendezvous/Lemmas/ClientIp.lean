import LocalBolt.Rendezvous.Impl.ClientIp

/-!
This module contains when an `X-Forwarded-For` header decides the room of a connection that does not
come from a trusted proxy.
-/

namespace LocalBolt

namespace Rendezvous

/--
The header names no address, or one of the addresses that share the local room anyway.
-/
def NamesNoPublicIp (xForwardedFor : Option HeaderValue) : Prop :=
  ∀ ip, forwardedForXff xForwardedFor = some ip → isPrivateIp ip = true

theorem parse_of_forwardedForXff {xForwardedFor : Option HeaderValue} {ip : String}
    (h : forwardedForXff xForwardedFor = some ip) : (IpAddr.parse ip).isSome = true := by
  simp only [forwardedForXff, Option.bind_eq_bind, Option.bind_eq_some_iff] at h
  obtain ⟨header, -, value, -, h⟩ := h
  split at h
  . next hparse =>
    obtain rfl := Option.some.inj h
    exact hparse
  . contradiction

theorem roomOfIp_eq_local_iff {ip : String} (h : (IpAddr.parse ip).isSome = true) :
    roomOfIp ip = "local" ↔ isPrivateIp ip = true := by
  unfold roomOfIp
  constructor
  . intro hroom
    by_contra hpublic
    rw [if_neg hpublic] at hroom
    rw [hroom] at h
    exact absurd h (by decide)
  . intro hprivate
    rw [if_pos hprivate]

theorem clientIp_eq_socket_iff {trustedProxies : List IpAddr} {addr : IpAddr}
    (huntrusted : addr ∉ trustedProxies) (xForwardedFor : Option HeaderValue)
    : clientIp trustedProxies addr ⟨none, xForwardedFor⟩ = roomOfIp addr.display
        ↔
      (isPrivateIp addr.display = true → NamesNoPublicIp xForwardedFor) := by
  have hforwarded : forwardedFor ⟨none, xForwardedFor⟩ = forwardedForXff xForwardedFor := by rfl
  unfold clientIp NamesNoPublicIp
  rw [hforwarded]
  cases hip : forwardedForXff xForwardedFor with
  | none => simp [rawIp]
  | some ip =>
    have hparse := parse_of_forwardedForXff hip
    have hne : ip ≠ "" := by
      rintro rfl
      exact absurd hparse (by decide)
    by_cases hprivate : isPrivateIp addr.display = true
    . have hraw : rawIp trustedProxies addr (some ip) = ip := by
        simp only [rawIp, if_neg huntrusted]
        exact if_pos ⟨hprivate, hne⟩
      have hlocal : roomOfIp addr.display = "local" := if_pos hprivate
      rw [hraw, hlocal, roomOfIp_eq_local_iff hparse]
      simp [hprivate]
    . have hraw : rawIp trustedProxies addr (some ip) = addr.display := by
        simp only [rawIp, if_neg huntrusted]
        rw [if_neg]
        rintro ⟨h, -⟩
        exact hprivate h
      rw [hraw]
      simp [hprivate]

def header (text : String) : HeaderValue where
  bytes := text.toList.map fun c => UInt8.ofNat c.toNat

end Rendezvous

end LocalBolt
