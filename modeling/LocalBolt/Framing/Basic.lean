import Mathlib.Logic.Basic

/-!
This module contains queues of texts that are handed over in batches, one text a line, and the
account of what such a queue has been given and has returned.
-/

namespace Framing

/--
The lines of a text.
-/
def split (text : String) : List String := (text.toList.splitOn '\n').map String.ofList

def joinLines (texts : List String) : String := "\n".intercalate texts

def IsLine (text : String) : Prop := '\n' ∉ text.toList

theorem split_joinLines {texts : List String} (hne : texts ≠ []) (h : ∀ text ∈ texts, IsLine text) :
    split (joinLines texts) = texts := by
  unfold split joinLines
  have hlines : ∀ l ∈ texts.map String.toList, '\n' ∉ l := by
    intro l hl
    obtain ⟨text, htext, rfl⟩ := List.mem_map.mp hl
    exact h text htext
  have hsplit := List.splitOn_intercalate '\n' hlines (by simpa using hne)
  rw [String.toList_intercalate, show "\n".toList = ['\n'] from rfl, hsplit, List.map_map]
  simp [Function.comp_def]

theorem mem_intercalate {α : Type} {sep : List α} {ls : List (List α)} {a : α}
    (h : a ∈ sep.intercalate ls) : a ∈ sep ∨ ∃ l ∈ ls, a ∈ l := by
  induction ls with
  | nil => simp at h
  | cons l ls ih =>
    cases ls with
    | nil =>
      rw [List.intercalate_singleton] at h
      exact .inr ⟨l, by simp, h⟩
    | cons l' ls =>
      rw [List.intercalate_cons_cons, List.append_assoc, List.mem_append, List.mem_append] at h
      rcases h with hl | hsep | htail
      . exact .inr ⟨l, by simp, hl⟩
      . exact .inl hsep
      . rcases ih htail with hsep | ⟨l'', hl'', ha⟩
        . exact .inl hsep
        . exact .inr ⟨l'', List.mem_cons_of_mem _ hl'', ha⟩

theorem mem_joinLines {texts : List String} {c : Char} (h : c ∈ (joinLines texts).toList) :
    c = '\n' ∨ ∃ text ∈ texts, c ∈ text.toList := by
  rw [joinLines, String.toList_intercalate] at h
  rcases mem_intercalate h with hsep | ⟨l, hl, hc⟩
  . left
    simpa using hsep
  . obtain ⟨text, htext, rfl⟩ := List.mem_map.mp hl
    exact .inr ⟨text, htext, hc⟩

theorem mem_joinLines_of_mem {texts : List String} {text : String} (htext : text ∈ texts) {c : Char}
    (hc : c ∈ text.toList) : c ∈ (joinLines texts).toList := by
  have hmem : ∀ ls : List (List Char), text.toList ∈ ls → c ∈ ['\n'].intercalate ls := by
    intro ls
    induction ls with
    | nil => simp
    | cons l ls ih =>
      cases ls with
      | nil =>
        intro hl
        rw [List.intercalate_singleton, ← List.mem_singleton.mp hl]
        exact hc
      | cons l' ls =>
        intro hl
        rw [List.intercalate_cons_cons, List.append_assoc, List.mem_append, List.mem_append]
        rcases List.mem_cons.mp hl with rfl | hl
        . exact .inl hc
        . exact .inr (.inr (ih hl))
  rw [joinLines, String.toList_intercalate]
  exact hmem _ (List.mem_map_of_mem htext)

/--
What a queue has been given, and what each of its drains has returned.
-/
structure Delivery where
  pushed : List String
  returned : List (Option String)
  deriving DecidableEq

namespace Delivery

def empty : Delivery := { pushed := [], returned := [] }

def push (d : Delivery) (texts : List String) : Delivery := { d with pushed := d.pushed ++ texts }

def drain (d : Delivery) (result : Option String) : Delivery :=
  { d with returned := d.returned ++ [result] }

/--
The lines of what a drain has returned, where nothing is no line.
-/
def lines (result : Option String) : List String := (result.map split).getD []

def received (d : Delivery) : List String := d.returned.flatMap lines

def Exact (d : Delivery) (queue : List String) : Prop := d.received ++ queue = d.pushed

theorem Exact.push {d : Delivery} {queue : List String} (h : d.Exact queue) (texts : List String) :
    (d.push texts).Exact (queue ++ texts) := by
  unfold Exact at h ⊢
  rw [← List.append_assoc]
  exact congrArg (· ++ texts) h

theorem Exact.drain {d : Delivery} {queue rest : List String} {result : Option String}
    (h : d.Exact queue) (hresult : lines result ++ rest = queue) : (d.drain result).Exact rest := by
  unfold Exact at h ⊢
  calc
    (d.drain result).received ++ rest
    _ = d.received ++ (lines result ++ rest) := by simp [received, Delivery.drain]
    _ = (d.drain result).pushed := by rw [hresult, h, Delivery.drain]

end Delivery

end Framing
