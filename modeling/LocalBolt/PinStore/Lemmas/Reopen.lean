import LocalBolt.Machine.Basic
import LocalBolt.PinStore.Lemmas.File

/-!
This module contains the histories of a pin store: `pin` calls interleaved with dropping the store
and reopening it on the same directory, and what of the pins survives them.
-/

namespace LocalBolt

namespace PinStore

theorem checkMismatch_eq_none_iff (s : PinStore) (identityKeyB64 deviceName : String)
    : s.checkMismatch identityKeyB64 deviceName = none
        ↔
      ∀ key, key ≠ identityKeyB64 → s.pins.name key ≠ some (some deviceName) := by
  simp only [checkMismatch, Option.map_eq_none_iff, List.find?_eq_none, decide_eq_true_eq, not_and,
    not_not]
  constructor
  . intro h key hkey hname
    simp only [Pins.name, Option.map_eq_some_iff] at hname
    obtain ⟨entry, hentry, hname⟩ := hname
    exact hkey (h ⟨key, entry⟩ (AList.mem_lookup_iff.mp hentry) hname)
  . rintro h ⟨key, entry⟩ hmem hname
    by_contra hkey
    apply h key hkey
    have hlookup : s.pins.lookup key = some entry := AList.mem_lookup_iff.mpr hmem
    simp only at hname
    simp [Pins.name, hlookup, hname]

@[simp]
theorem init_file (file : Option Json) : (init file).file = file := by
  unfold init load
  split <;> rfl

theorem init_pins_of_decode {j : Json} {pins : Pins} (h : Pins.decode j = some pins) :
    (init (some j)).pins = pins := by
  simp [init, load, h]

theorem init_pins_of_decode_none {file : Option Json} (h : file.bind Pins.decode = none) :
    (init file).pins = ∅ := by
  simp [init, load, h]

theorem pin_of_mem {s : PinStore} {key : String} (h : key ∈ s.pins) (deviceName : Option String)
    (now : Date) : s.pin key deviceName now = s := by
  simp [pin, h]

theorem name_pin_self {s : PinStore} {key : String} (h : key ∉ s.pins) (deviceName : Option String)
    (now : Date) : (s.pin key deviceName now).pins.name key = some deviceName := by
  simp [pin, h, save, Pins.name]

theorem name_pin_ne {s : PinStore} {key other : String} (h : other ≠ key)
    (deviceName : Option String) (now : Date) :
    (s.pin key deviceName now).pins.name other = s.pins.name other := by
  unfold pin
  split
  . rfl
  . simp [save, Pins.name, AList.lookup_insert_ne h]

theorem mem_pins_of_name {s : PinStore} {key : String} {name : Option String}
    (h : s.pins.name key = some name) : key ∈ s.pins := by
  rw [← AList.lookup_isSome]
  simp only [Pins.name, Option.map_eq_some_iff] at h
  obtain ⟨entry, hentry, _⟩ := h
  simp [hentry]

theorem notMem_pins_of_name {s : PinStore} {key : String} (h : s.pins.name key = none) :
    key ∉ s.pins := by
  rw [← AList.lookup_eq_none]
  simpa [Pins.name] using h

theorem file_pin_of_notMem {s : PinStore} {key : String} (h : key ∉ s.pins)
    (deviceName : Option String) (now : Date)
    : (s.pin key deviceName now).file
        =
      some ((s.pin key deviceName now).pins.encode .iso8601) := by
  simp [pin, h, save]

inductive Op where
  | pin (identityKeyB64 : String) (deviceName : Option String) (now : Date)
  | reopen

def apply (s : PinStore) : Op → PinStore
  | .pin identityKeyB64 deviceName now => s.pin identityKeyB64 deviceName now
  | .reopen => init s.file

def history (s : PinStore) : List Op → List (Transition PinStore Op)
  | [] => []
  | op :: ops => ⟨s, op, s.apply op⟩ :: history (s.apply op) ops

def recorded (s : PinStore) (key : String) : Option (Option String) :=
  s.file.bind fun j => j.recorded key

/--
Reopening keeps every key with its device name and gives the same mismatch answers; a `pin` call
erases no pin from the file.
-/
def Keeps (t : Transition PinStore Op) : Prop :=
  match t.action with
  | .reopen =>
    (∀ key, t.target.pins.name key = t.source.pins.name key) ∧
      ∀ key name, t.target.checkMismatch key name = none ↔ t.source.checkMismatch key name = none
  | .pin _ _ _ =>
    ∀ key name, t.source.recorded key = some name → t.target.recorded key = some name

/--
Writing the pin of `key` alone would lose a pin from the file: the file records another pin, but it
does not decode.
-/
def Erased (file : Option Json) (key : String) (deviceName : Option String) : Prop :=
  file.bind Pins.decode = none ∧
    ∃ j other name, file = some j ∧ j.recorded other = some name ∧ ¬ (other = key ∧ name = deviceName)

/--
No reopen follows a `pin` call that added a key, and the first such call does not meet a file that
records another pin without decoding.
-/
def Durable (file : Option Json) : List Op → Prop
  | [] => True
  | .reopen :: ops => Durable file ops
  | .pin key deviceName _ :: ops =>
    if key ∈ (init file).pins then
      Durable file ops
    else
      ¬ Erased file key deviceName ∧ .reopen ∉ ops

structure Saved (s : PinStore) : Prop where
  file : s.file = some (s.pins.encode .iso8601)
  nonempty : ∃ key, key ∈ s.pins

theorem Saved.pin {s : PinStore} (h : s.Saved) (key : String) (deviceName : Option String)
    (now : Date) : (s.pin key deviceName now).Saved := by
  by_cases hkey : key ∈ s.pins
  . rw [pin_of_mem hkey]
    exact h
  . constructor
    . exact file_pin_of_notMem hkey deviceName now
    . refine ⟨key, ?_⟩
      simp [PinStore.pin, hkey, save]

theorem saved_pin_of_notMem {s : PinStore} {key : String} (h : key ∉ s.pins)
    (deviceName : Option String) (now : Date) : (s.pin key deviceName now).Saved := by
  constructor
  . exact file_pin_of_notMem h deviceName now
  . refine ⟨key, ?_⟩
    simp [PinStore.pin, h, save]

theorem Saved.recorded_eq {s : PinStore} (h : s.Saved) (key : String) :
    s.recorded key = s.pins.name key := by
  simp [recorded, h.file]

theorem Saved.not_keeps_reopen {s : PinStore} (h : s.Saved) :
    ¬ Keeps ⟨s, .reopen, s.apply .reopen⟩ := by
  intro hkeeps
  obtain ⟨key, hkey⟩ := h.nonempty
  have hfile : s.file.bind Pins.decode = none := by
    rw [h.file, Option.bind_some]
    exact Pins.decode_encode_iso8601 hkey
  have hname := hkeeps.1 key
  simp only [apply, init_pins_of_decode_none hfile] at hname
  obtain ⟨entry, hentry⟩ := Option.isSome_iff_exists.mp (AList.lookup_isSome.mpr hkey)
  simp [Pins.name, hentry] at hname

theorem Saved.keeps_pin {s : PinStore} (h : s.Saved) (key : String) (deviceName : Option String)
    (now : Date) : Keeps ⟨s, .pin key deviceName now, s.pin key deviceName now⟩ := by
  intro other name hrec
  simp only at hrec ⊢
  rw [h.recorded_eq] at hrec
  rw [(h.pin key deviceName now).recorded_eq]
  by_cases hother : other = key
  . subst hother
    rw [pin_of_mem (mem_pins_of_name hrec)]
    exact hrec
  . rw [name_pin_ne hother]
    exact hrec

theorem Saved.history_keeps_iff {s : PinStore} (h : s.Saved) (ops : List Op) :
    (∀ t ∈ s.history ops, Keeps t) ↔ Op.reopen ∉ ops := by
  induction ops generalizing s with
  | nil => simp [history]
  | cons op ops ih =>
    simp only [history, List.forall_mem_cons]
    cases op with
    | reopen => simp [h.not_keeps_reopen]
    | pin key deviceName now =>
      rw [apply, ih (h.pin key deviceName now)]
      simp [h.keeps_pin key deviceName now]

theorem keeps_first_pin_iff {file : Option Json} {key : String} (h : key ∉ (init file).pins)
    (deviceName : Option String) (now : Date)
    : Keeps ⟨init file, .pin key deviceName now, (init file).pin key deviceName now⟩
        ↔
      ¬ Erased file key deviceName := by
  have hsaved := saved_pin_of_notMem h deviceName now
  constructor
  . rintro hkeeps ⟨hdec, j, other, name, rfl, hrec, hne⟩
    have hnew := hkeeps other name (by simp [recorded, hrec])
    simp only [hsaved.recorded_eq] at hnew
    by_cases hother : other = key
    . subst hother
      rw [name_pin_self h, Option.some.injEq] at hnew
      exact hne ⟨rfl, hnew.symm⟩
    . rw [name_pin_ne hother, init_pins_of_decode_none hdec] at hnew
      simp [Pins.name] at hnew
  . intro herased other name hrec
    simp only [recorded, init_file, Option.bind_eq_some_iff] at hrec
    obtain ⟨j, rfl, hrec⟩ := hrec
    simp only [hsaved.recorded_eq]
    cases hdec : Pins.decode j with
    | some pins =>
      rw [Pins.recorded_of_decode hdec, ← init_pins_of_decode hdec] at hrec
      have hother : other ≠ key := by
        rintro rfl
        exact h (mem_pins_of_name hrec)
      rw [name_pin_ne hother]
      exact hrec
    | none =>
      have hsame : other = key ∧ name = deviceName := by
        by_contra hne
        exact herased ⟨by simp [hdec], j, other, name, rfl, hrec, hne⟩
      rw [hsame.1, hsame.2]
      exact name_pin_self h deviceName now

theorem history_keeps_iff_durable (file : Option Json) (ops : List Op) :
    (∀ t ∈ (init file).history ops, Keeps t) ↔ Durable file ops := by
  induction ops with
  | nil => simp [history, Durable]
  | cons op ops ih =>
    simp only [history, List.forall_mem_cons]
    cases op with
    | reopen =>
      have hreopen : (init file).apply .reopen = init file := by simp [apply]
      rw [hreopen, ih]
      simp [Durable, Keeps]
    | pin key deviceName now =>
      simp only [apply, Durable]
      split
      . next hmem =>
        rw [pin_of_mem hmem, ih]
        simp [Keeps]
      . next hmem =>
        rw [keeps_first_pin_iff hmem, (saved_pin_of_notMem hmem deviceName now).history_keeps_iff]

theorem reopen_loses_pin : ¬ ∀ file ops, ∀ t ∈ (init file).history ops, Keeps t := by
  intro h
  have hlast := h none [.pin "AAAABBBBCCCC" (some "Mac") ⟨0⟩, .reopen]
    ⟨(init none).pin "AAAABBBBCCCC" (some "Mac") ⟨0⟩, .reopen,
      init ((init none).pin "AAAABBBBCCCC" (some "Mac") ⟨0⟩).file⟩
    (by simp [history, apply])
  have hanswer := hlast.2 "DDDDEEEEFFFF" "Mac"
  revert hanswer
  decide

end PinStore

end LocalBolt
