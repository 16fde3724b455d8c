import LocalBolt.PinStore.Impl

/-!
This module contains what the file of a pin store records, and how that relates to the pins that are
written to it and read back from it.
-/

namespace LocalBolt

def Json.deviceName (entry : Json) : Option String := entry.object?.bind fun fields => fields.string? "deviceName"

def Json.recorded (j : Json) (key : String) : Option (Option String) :=
  (j.object?.bind fun fields => fields.get? key).map Json.deviceName

namespace Pins

def name (pins : Pins) (key : String) : Option (Option String) :=
  (pins.lookup key).map (·.deviceName)

end Pins

@[simp]
theorem PinEntry.deviceName_encode (strategy : DateEncodingStrategy) (entry : PinEntry) :
    (entry.encode strategy).deviceName = entry.deviceName := by
  cases h : entry.deviceName <;>
    simp [Json.deviceName, PinEntry.encode, Json.object?, Dict.string?, Dict.get?, List.lookup_cons, h,
      Json.string?]

theorem PinEntry.deviceName_of_decode {j : Json} {entry : PinEntry} (h : PinEntry.decode j = some entry) :
    j.deviceName = entry.deviceName := by
  simp only [PinEntry.decode, Option.bind_eq_bind, Option.bind_eq_some_iff] at h
  obtain ⟨fields, hfields, _, _, _, _, _, _, _, _, h⟩ := h
  simp only [Json.deviceName, hfields, Option.bind_some, Dict.string?]
  split at h
  . next hname =>
    simp only [Option.some.injEq] at h
    simp [hname, ← h]
  . next hname =>
    simp only [Option.some.injEq] at h
    simp [hname, ← h, Json.string?]
  . next hname =>
    simp only [Option.bind_eq_some_iff, Option.some.injEq] at h
    obtain ⟨text, htext, h⟩ := h
    simp [hname, ← h, htext]

@[simp]
theorem PinEntry.decode_encode_iso8601 (entry : PinEntry) :
    PinEntry.decode (entry.encode .iso8601) = none := by
  simp [PinEntry.decode, PinEntry.encode, Json.object?, Dict.get?, List.lookup_cons, Json.bool?]

@[simp]
theorem PinEntry.decode_encode_deferredToDate (entry : PinEntry) :
    PinEntry.decode (entry.encode .deferredToDate) = some entry := by
  obtain ⟨verified, firstSeen, deviceName⟩ := entry
  cases deviceName <;>
    simp [PinEntry.decode, PinEntry.encode, Json.object?, Dict.get?, List.lookup_cons, Json.bool?,
      Json.string?]

namespace Pins

theorem lookup_map_encode (strategy : DateEncodingStrategy) (key : String)
    (entries : List (Sigma fun _ : String => PinEntry))
    : (entries.map fun e => (e.1, e.2.encode strategy)).lookup key
        =
      (entries.dlookup key).map fun e => e.encode strategy := by
  induction entries with
  | nil => simp
  | cons e entries ih =>
    obtain ⟨k, entry⟩ := e
    by_cases h : key = k
    . subst h
      simp
    . have : (key == k) = false := by simp [h]
      simp only [List.map_cons, List.lookup_cons, this]
      rw [List.dlookup_cons_ne _ _ h]
      exact ih

@[simp]
theorem recorded_encode (strategy : DateEncodingStrategy) (pins : Pins) (key : String) :
    (pins.encode strategy).recorded key = pins.name key := by
  simp only [Json.recorded, encode, Json.object?, Option.bind_some, Dict.get?]
  rw [lookup_map_encode]
  simp [name, AList.lookup, Function.comp_def]

theorem lookup_of_mapM_decode {fields : List (String × Json)}
    {entries : List (Sigma fun _ : String => PinEntry)}
    (h : (fields.mapM fun f => (PinEntry.decode f.2).map fun e => Sigma.mk f.1 e) = some entries)
    (key : String)
    : (fields.lookup key).map Json.deviceName = (entries.dlookup key).map (·.deviceName) := by
  induction fields generalizing entries with
  | nil =>
    simp only [List.mapM_nil, Option.pure_def, Option.some.injEq] at h
    simp [← h]
  | cons f fields ih =>
    obtain ⟨k, j⟩ := f
    simp only [List.mapM_cons, Option.bind_eq_bind, Option.bind_eq_some_iff, Option.map_eq_some_iff,
      Option.pure_def, Option.some.injEq] at h
    obtain ⟨_, ⟨entry, hentry, rfl⟩, rest, hrest, rfl⟩ := h
    by_cases hk : key = k
    . subst hk
      simp [PinEntry.deviceName_of_decode hentry]
    . have : (key == k) = false := by simp [hk]
      simp only [List.lookup_cons, this]
      rw [List.dlookup_cons_ne _ _ hk]
      exact ih hrest

theorem recorded_of_decode {j : Json} {pins : Pins} (h : Pins.decode j = some pins) (key : String) :
    j.recorded key = pins.name key := by
  simp only [decode, Option.bind_eq_bind, Option.bind_eq_some_iff, Option.some.injEq] at h
  obtain ⟨fields, hfields, entries, hentries, rfl⟩ := h
  simp only [Json.recorded, hfields, Option.bind_some, Dict.get?, name, AList.lookup_to_alist]
  exact lookup_of_mapM_decode hentries key

theorem decode_encode_iso8601 {pins : Pins} {key : String} (h : key ∈ pins) :
    Pins.decode (pins.encode .iso8601) = none := by
  have hne : pins.entries ≠ [] := by
    intro hnil
    rw [AList.mem_keys, AList.keys, hnil] at h
    simp at h
  obtain ⟨e, rest, hcons⟩ := List.exists_cons_of_ne_nil hne
  simp [decode, encode, Json.object?, hcons]

end Pins

end LocalBolt
