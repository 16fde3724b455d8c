import LocalBolt.Bridge.Impl.Stderr
import LocalBolt.Retention.Basic

/-!
This module contains what the bridge keeps of the daemon's log: which lines of stderr are captured, and
that the bounded buffer answers as the whole log would.
-/

namespace LocalBolt

namespace Bridge

namespace StderrCapture

def Decodable (line : List UInt8) : Bool := (Utf8.decode? line).isSome

theorem next_of_some {c : StderrCapture} (hreading : c.reading = true) {line : List UInt8} {text : String}
    (hline : Utf8.decode? line = some text)
    : c.next line
        =
      { c with stderrLines := pushLine c.stderrLines text, pushed := c.pushed ++ [text] } := by
  rw [next, if_pos hreading, hline]

theorem next_of_none {c : StderrCapture} (hreading : c.reading = true) {line : List UInt8}
    (hline : Utf8.decode? line = none) : c.next line = { c with reading := false } := by
  rw [next, if_pos hreading, hline]

theorem foldl_over {c : StderrCapture} (hreading : c.reading = false) (lines : List (List UInt8)) :
    lines.foldl next c = { c with unread := c.unread ++ lines } := by
  induction lines generalizing c with
  | nil => simp
  | cons line lines ih =>
    have hnext : c.next line = { c with unread := c.unread ++ [line] } := by simp [next, hreading]
    rw [List.foldl_cons, hnext, ih (c := { c with unread := c.unread ++ [line] }) hreading,
      List.append_assoc]
    rfl

/--
What the thread has captured of lines that were written one after the other.
-/
theorem foldl_next {c : StderrCapture} (hreading : c.reading = true) (lines : List (List UInt8))
    : (lines.foldl next c).pushed = c.pushed ++ (lines.takeWhile Decodable).filterMap Utf8.decode?
        ∧ (lines.foldl next c).unread = c.unread ++ (lines.dropWhile Decodable).tail := by
  induction lines generalizing c with
  | nil => simp
  | cons line lines ih =>
    rw [List.foldl_cons]
    cases hline : Utf8.decode? line with
    | some text =>
      have hdecodable : Decodable line = true := by simp [Decodable, hline]
      rw [List.takeWhile_cons_of_pos hdecodable, List.dropWhile_cons_of_pos hdecodable,
        List.filterMap_cons_some hline, next_of_some hreading hline]
      have hrest := ih (c := { c with
        stderrLines := pushLine c.stderrLines text, pushed := c.pushed ++ [text] }) hreading
      rwa [List.append_assoc, List.singleton_append] at hrest
    | none =>
      have hdecodable : ¬ Decodable line = true := by simp [Decodable, hline]
      rw [List.takeWhile_cons_of_neg hdecodable, List.dropWhile_cons_of_neg hdecodable,
        next_of_none hreading hline, foldl_over rfl]
      simp

theorem dropWhile_tail_eq_nil_iff {α : Type} {p : α → Bool} {l : List α} :
    (l.dropWhile p).tail = [] ↔ ∀ a ∈ l.dropLast, p a = true := by
  induction l with
  | nil => simp
  | cons a l ih =>
    by_cases ha : p a = true
    . rw [List.dropWhile_cons_of_pos ha, ih]
      cases l with
      | nil => simp
      | cons b l => simp [ha]
    . rw [List.dropWhile_cons_of_neg ha]
      cases l with
      | nil => simp
      | cons b l => simp [ha]

/--
The thread reads all of its stream and pushes every line that is UTF-8.
-/
def CapturesAll (stream : List UInt8) : Prop :=
  (ofStream stream).unread = []
    ∧ (ofStream stream).pushed = (BufRead.lines stream).filterMap Utf8.decode?

theorem capturesAll_iff (stream : List UInt8)
    : CapturesAll stream
        ↔
      ∀ line ∈ (BufRead.lines stream).dropLast, Decodable line = true := by
  obtain ⟨hpushed, hunread⟩ := foldl_next (c := start) rfl (BufRead.lines stream)
  rw [CapturesAll, ofStream, hpushed, hunread, start, List.nil_append, List.nil_append,
    dropWhile_tail_eq_nil_iff, and_iff_left_iff_imp, ← dropWhile_tail_eq_nil_iff]
  intro htail
  have hsplit := List.takeWhile_append_dropWhile (p := Decodable) (l := BufRead.lines stream)
  have hrest : ((BufRead.lines stream).dropWhile Decodable).filterMap Utf8.decode? = [] := by
    cases hdrop : (BufRead.lines stream).dropWhile Decodable with
    | nil => rfl
    | cons line rest =>
      -- the line the loop is over at is the only one that is left, and it is not pushed
      have hline := List.head_dropWhile_not Decodable (hdrop ▸ List.cons_ne_nil line rest)
      obtain rfl : rest = [] := by simpa [hdrop] using htail
      simp only [hdrop, List.head_cons] at hline
      simpa [Decodable] using hline
  conv => rhs; rw [← hsplit, List.filterMap_append, hrest, List.append_nil]

def undecodableLine : List UInt8 := [0xFF]

def registeredText : String := "[WT_SESSION] ACTIVE_SESSION registered"

def registeredLine : List UInt8 := Utf8.encode registeredText

theorem undecodable_line_ends_capture
    : Decodable registeredLine = true
        ∧ (ofStream ([undecodableLine, registeredLine].flatMap (· ++ [BufRead.newline]))).pushed = []
        ∧ ¬ CapturesAll ([undecodableLine, registeredLine].flatMap (· ++ [BufRead.newline])) := by
  have hlines : BufRead.lines ([undecodableLine, registeredLine].flatMap (· ++ [BufRead.newline]))
      = [undecodableLine, registeredLine] := by decide
  have hnone : Utf8.decode? undecodableLine = none :=
    Utf8.decode?_eq_none (List.mem_singleton_self _) (by decide)
  have hcapture : ofStream ([undecodableLine, registeredLine].flatMap (· ++ [BufRead.newline]))
      = { start with reading := false, unread := [registeredLine] } := by
    rw [ofStream, hlines, List.foldl_cons, next_of_none rfl hnone, foldl_over rfl]
    rfl
  refine ⟨by simp [Decodable, registeredLine], by rw [hcapture]; rfl, ?_⟩
  rintro ⟨hunread, -⟩
  rw [hcapture] at hunread
  exact absurd hunread (List.cons_ne_nil _ _)

/-! ### The bounded buffer -/

/--
The buffer holds the newest part of what has been pushed.
-/
def Bounded (c : StderrCapture) : Prop := Retention.Retains 1000 500 c.stderrLines c.pushed

theorem Bounded.next {c : StderrCapture} (h : c.Bounded) (line : List UInt8) : (c.next line).Bounded := by
  unfold StderrCapture.next
  split
  . cases Utf8.decode? line with
    | some text => exact Retention.Retains.push (by decide) h text
    | none => exact h
  . exact h

theorem reachable_bounded {c : StderrCapture} (h : machine.Reachable c) : c.Bounded := by
  apply Machine.Reachable.invariant (I := Bounded) ?_ ?_ h
  . rintro _ rfl
    exact .nil
  . rintro c line _ - hc hstep
    obtain rfl := Option.some.inj hstep
    exact hc.next line

theorem foldl_bounded (lines : List (List UInt8)) : (lines.foldl next start).Bounded := by
  induction lines using List.reverseRecOn with
  | nil => exact .nil
  | append_singleton lines line ih =>
    rw [List.foldl_append]
    exact ih.next line

/--
The tail of the buffer is the tail of all that has been pushed.
-/
theorem Bounded.recentStderr {c : StderrCapture} (h : c.Bounded) {lastN : UInt32}
    (hlastN : lastN.toNat ≤ 500)
    : c.recentStderr lastN = cString? (Framing.joinLines (c.pushed.rtake lastN.toNat)) := by
  rw [← h.rtake (by omega)]
  rfl

end StderrCapture

end Bridge

end LocalBolt
