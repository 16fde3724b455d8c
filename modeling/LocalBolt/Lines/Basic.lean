import Mathlib.Data.List.Infix

/-!
This module contains how a stream is cut into lines while it arrives piece by piece.
-/

namespace Lines

variable {α : Type} [DecidableEq α] {sep : α}

/--
Reads on after what has been read of a line: the lines that end there, and the one that does not.
-/
def cut (sep : α) (line : List α) : List α → List (List α) × List α
  | [] => ([], line)
  | a :: stream =>
    if a = sep then
      let (lines, rest) := cut sep [] stream
      (line :: lines, rest)
    else
      cut sep (line ++ [a]) stream

/--
The lines of a stream that have come to their end.
-/
def complete (sep : α) (stream : List α) : List (List α) := (cut sep [] stream).1

/--
What has arrived of the line after those.
-/
def pending (sep : α) (stream : List α) : List α := (cut sep [] stream).2

theorem cut_append (line stream more : List α)
    : cut sep line (stream ++ more)
        =
      ((cut sep line stream).1 ++ (cut sep (cut sep line stream).2 more).1,
        (cut sep (cut sep line stream).2 more).2) := by
  induction stream generalizing line with
  | nil => rfl
  | cons a stream ih =>
    rw [List.cons_append, cut, cut]
    split
    . rw [ih]
      rfl
    . exact ih (line ++ [a])

/--
The cut starts over at the end of a line.
-/
theorem complete_append (stream more : List α)
    : complete sep (stream ++ more)
        =
      complete sep stream ++ (cut sep (pending sep stream) more).1 := by
  rw [complete, cut_append]
  rfl

theorem pending_append (stream more : List α) :
    pending sep (stream ++ more) = (cut sep (pending sep stream) more).2 := by
  rw [pending, cut_append]
  rfl

theorem cut_of_not_mem {stream : List α} (h : sep ∉ stream) (line : List α)
    : cut sep line stream = ([], line ++ stream) := by
  induction stream generalizing line with
  | nil => rw [cut, List.append_nil]
  | cons a stream ih =>
    rw [List.mem_cons, not_or] at h
    rw [cut, if_neg (Ne.symm h.1), ih h.2, List.append_assoc]
    rfl

theorem cut_cons_line (sep : α) {line rest : List α} (hline : sep ∉ line) (before : List α)
    : cut sep before (line ++ sep :: rest)
        =
      ((before ++ line) :: (cut sep [] rest).1, (cut sep [] rest).2) := by
  induction line generalizing before with
  | nil =>
    rw [List.nil_append, cut, if_pos rfl, List.append_nil]
  | cons a line ih =>
    rw [List.mem_cons, not_or] at hline
    rw [List.cons_append, cut, if_neg (Ne.symm hline.1), ih hline.2, List.append_assoc]
    rfl

/--
Lines that are written one after the other, each with its end, are the lines that are read.
-/
theorem cut_flatMap {lines : List (List α)} (h : ∀ line ∈ lines, sep ∉ line) :
    cut sep [] (lines.flatMap (· ++ [sep])) = (lines, []) := by
  induction lines with
  | nil => rfl
  | cons line lines ih =>
    rw [List.forall_mem_cons] at h
    rw [List.flatMap_cons, List.append_assoc, List.singleton_append, cut_cons_line sep h.1, ih h.2]
    rfl

end Lines

/-! ### Lines of bytes -/

namespace BufRead

def newline : UInt8 := 0x0A

def carriageReturn : UInt8 := 0x0D

/--
A line may end in `\r\n` as well.
-/
def stripCr (line : List UInt8) : List UInt8 :=
  if line.getLast? = some carriageReturn then line.dropLast else line

/--
The lines of a stream that has come to its end, as `BufRead::lines` reads them.
-/
def lines (stream : List UInt8) : List (List UInt8) :=
  let rest := Lines.pending newline stream
  (Lines.complete newline stream).map stripCr ++ if rest.isEmpty then [] else [rest]

end BufRead
