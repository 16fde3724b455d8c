import LocalBolt.Rendezvous.Impl.Handler
import Mathlib.Data.List.Infix

/-!
This module contains the rate limit of a connection: what the limiter guarantees when every data
frame is charged to it, and which frames the handler answers without doing so.
-/

namespace LocalBolt

namespace Rendezvous

namespace RateLimit

theorem windowStart_window_of_lt {limit : RateLimit} {now : Nat}
    (h : (limit.window now).windowStart ≠ limit.windowStart)
    : limit.windowStart < (limit.window now).windowStart
        ∧ (limit.window now).remaining = rateLimitPerSecond := by
  unfold window at h ⊢
  split at h
  . next hover =>
    rw [if_pos hover]
    refine ⟨?_, rfl⟩
    have hpos : 0 < oneSecond := by decide
    dsimp only
    omega
  . contradiction

theorem remaining_window {limit : RateLimit} {now : Nat}
    (h : (limit.window now).windowStart = limit.windowStart)
    : (limit.window now).remaining = limit.remaining := by
  unfold window at h ⊢
  split at h
  . next hover =>
    have hpos : 0 < oneSecond := by decide
    dsimp only at h
    omega
  . next hover => rw [if_neg hover]

@[simp]
theorem consecutiveViolations_window (limit : RateLimit) (now : Nat) :
    (limit.window now).consecutiveViolations = limit.consecutiveViolations := by
  unfold window
  split <;> rfl

@[simp]
theorem windowStart_check (limit : RateLimit) (now : Nat) :
    (limit.check now).1.windowStart = (limit.window now).windowStart := by
  unfold check
  dsimp only
  split <;> rfl

/--
The window of an admitted frame had room for it.
-/
theorem check_of_ok {limit : RateLimit} {now : Nat} (h : (limit.check now).2 = .ok ())
    : (limit.check now).1.remaining + 1 = (limit.window now).remaining := by
  unfold check at h ⊢
  dsimp only at h ⊢
  split at h
  . next hremaining =>
    rw [if_pos hremaining]
    dsimp only
    omega
  . contradiction

theorem check_of_error {limit : RateLimit} {now : Nat} (h : (limit.check now).2 ≠ .ok ())
    : (limit.check now).1.remaining = (limit.window now).remaining
        ∧ (limit.check now).1.consecutiveViolations = limit.consecutiveViolations + 1
        ∧ (limit.check now).2
            = .error (limit.consecutiveViolations + 1 ≥ rateLimitCloseThreshold) := by
  unfold check at h ⊢
  dsimp only at h ⊢
  split at h
  . exact absurd rfl h
  . next hremaining =>
    rw [if_neg hremaining, consecutiveViolations_window]
    exact ⟨rfl, rfl, rfl⟩

theorem check_ne_self (limit : RateLimit) (now : Nat) : (limit.check now).1 ≠ limit := by
  intro hsame
  have hwindow : (limit.window now).windowStart = limit.windowStart := by
    rw [← windowStart_check, hsame]
  have hremaining := remaining_window hwindow
  by_cases h : (limit.check now).2 = .ok ()
  . have := check_of_ok h
    rw [hsame, hremaining] at this
    omega
  . have := (check_of_error h).2.1
    rw [hsame] at this
    omega

end RateLimit

namespace Handler

/--
When a data frame arrives.
-/
def dataFrame : Input → Option Nat
  | .received (.message (.text _)) now => some now
  | .received (.message .binary) now => some now
  | _ => none

def isBinary : Input → Bool
  | .received (.message .binary) _ => true
  | _ => false

def Pc.closes : Pc → Bool
  | .removing _ | .aborting => true
  | _ => false

section

variable (fromStr : String → Except String ClientMessage) (tx : PeerSender)

def answers (t : Transition Handler Input) : List ServerMessage :=
  ((t.source.next fromStr tx t.action).map (·.2)).getD []

/--
The data frame gets something other than the rate-limit error, and does not close the connection.
-/
def Served (t : Transition Handler Input) : Prop :=
  (dataFrame t.action).isSome = true
    ∧ answers fromStr tx t ≠ [.error "rate limited"]
    ∧ t.target.pc.closes = false

instance (t : Transition Handler Input) : Decidable (Served fromStr tx t) :=
  inferInstanceAs (Decidable (_ ∧ _))

def servedIn (tr : List (Transition Handler Input)) (windowStart : Nat) : Nat :=
  tr.countP fun t => Served fromStr tx t ∧ t.target.rateLimit.windowStart = windowStart

end

def OverLimit (t : Transition Handler Input) : Prop :=
  ∃ now, dataFrame t.action = some now ∧ (t.source.rateLimit.check now).2 ≠ .ok ()

def dataFrames (tr : List (Transition Handler Input)) : List (Transition Handler Input) :=
  tr.filter fun t => (dataFrame t.action).isSome

/--
What the rate limiter is there for, over a run of the handler.
-/
structure RateLimited (fromStr : String → Except String ClientMessage) (tx : PeerSender)
    (tr : List (Transition Handler Input)) : Prop where
  charged : ∀ t ∈ tr, ∀ now, dataFrame t.action = some now →
    t.target.rateLimit = (t.source.rateLimit.check now).1
  served : ∀ windowStart, servedIn fromStr tx tr windowStart ≤ rateLimitPerSecond
  closes : ∀ ts t, ts ++ [t] <:+: dataFrames tr → ts.length + 1 = rateLimitCloseThreshold →
    (∀ u ∈ ts ++ [t], OverLimit u) → t.target.pc.closes = true

/-! ### One frame -/

/--
What the limiter's verdict on a text frame means for the frame.
-/
def Obeyed (h : Handler) (p : Handler × List ServerMessage) : Except Bool Unit → Prop
  | .ok () => True
  | .error true => p.1.pc.closes = true ∧ p.2 = []
  | .error false => p.1.pc = h.pc ∧ p.2 = [.error "rate limited"]

theorem rateLimit_answerRegister (tx : PeerSender) (message : Except String ClientMessage)
    (h : Handler) : (answerRegister tx message h).1.rateLimit = h.rateLimit := by
  unfold answerRegister
  repeat' split
  all_goals rfl

theorem rateLimit_answerMessage (me : Identity) (message : Except String ClientMessage)
    (h : Handler) : (answerMessage me message h).1.rateLimit = h.rateLimit := by
  unfold answerMessage answerMessage.answerSignal
  repeat' split
  all_goals rfl

theorem admitText_charged {h : Handler} {text : String} {now : Nat} {closing : Pc}
    {answer : Handler → Handler × List ServerMessage} (hclosing : closing.closes = true)
    (hanswer : ∀ h, (answer h).1.rateLimit = h.rateLimit)
    : (h.admitText text now closing answer).1.rateLimit = (h.rateLimit.check now).1
        ∧ Obeyed h (h.admitText text now closing answer) (h.rateLimit.check now).2 := by
  unfold admitText
  dsimp only
  split
  . next hchecked =>
    rw [hchecked]
    exact ⟨rfl, hclosing, rfl⟩
  . next hchecked =>
    rw [hchecked]
    exact ⟨rfl, rfl, rfl⟩
  . next hchecked =>
    rw [hchecked]
    split
    . exact ⟨rfl, trivial⟩
    . exact ⟨hanswer _, trivial⟩

variable {fromStr : String → Except String ClientMessage} {tx : PeerSender}

theorem receive_text {h : Handler} {text : String} {now : Nat} {p : Handler × List ServerMessage}
    (hp : h.receive fromStr tx (.message (.text text)) now = some p)
    : p.1.rateLimit = (h.rateLimit.check now).1 ∧ Obeyed h p (h.rateLimit.check now).2 := by
  unfold receive at hp
  split at hp
  . obtain rfl := Option.some.inj hp
    apply admitText_charged rfl
    apply rateLimit_answerRegister
  . obtain rfl := Option.some.inj hp
    apply admitText_charged rfl
    apply rateLimit_answerMessage
  . contradiction

theorem receive_binary {h : Handler} {now : Nat} {p : Handler × List ServerMessage}
    (hp : h.receive fromStr tx (.message .binary) now = some p)
    : p = (h, [.error "binary frames not accepted"]) := by
  unfold receive at hp
  split at hp
  . exact (Option.some.inj hp).symm
  . exact (Option.some.inj hp).symm
  . contradiction

theorem next_of_not_dataFrame {h : Handler} {input : Input} {p : Handler × List ServerMessage}
    (hp : h.next fromStr tx input = some p) (hdata : dataFrame input = none) :
    p.1.rateLimit = h.rateLimit := by
  cases input with
  | received received now =>
    simp only [next, receive] at hp
    split at hp
    . split at hp
      all_goals first
        | contradiction
        | (obtain rfl := Option.some.inj hp; rfl)
    . split at hp
      all_goals first
        | contradiction
        | (obtain rfl := Option.some.inj hp; rfl)
    . contradiction
  | added result =>
    simp only [next] at hp
    split at hp
    . obtain rfl := Option.some.inj hp
      unfold added
      split <;> rfl
    . contradiction
  | found lookup =>
    simp only [next] at hp
    split at hp
    . obtain rfl := Option.some.inj hp
      rfl
    . contradiction
  | relayed delivered =>
    simp only [next] at hp
    split at hp
    . obtain rfl := Option.some.inj hp
      rfl
    . contradiction
  | removed =>
    simp only [next] at hp
    split at hp
    . obtain rfl := Option.some.inj hp
      rfl
    . contradiction
  | proceed =>
    simp only [next] at hp
    split at hp
    . obtain rfl := Option.some.inj hp
      rfl
    . obtain rfl := Option.some.inj hp
      rfl
    . obtain rfl := Option.some.inj hp
      rfl
    . contradiction

/-! ### A run -/

section Run

variable {clientIp : String} {start : Nat} {t : Transition Handler Input}
  {tr : List (Transition Handler Input)} {h : Handler}

theorem next_of_step {s s' : Handler} {input : Input}
    (hstep : (machine fromStr tx clientIp start).step s input s')
    : s.next fromStr tx input = some (s', answers fromStr tx ⟨s, input, s'⟩) := by
  obtain ⟨p, hp, rfl⟩ := Option.map_eq_some_iff.mp hstep
  unfold answers
  dsimp only
  rw [hp]
  rfl

theorem step_charged (hstep : (machine fromStr tx clientIp start).step t.source t.action t.target)
    (hbinary : isBinary t.action = false) {now : Nat} (hdata : dataFrame t.action = some now)
    : t.target.rateLimit = (t.source.rateLimit.check now).1
        ∧ Obeyed t.source (t.target, answers fromStr tx t) (t.source.rateLimit.check now).2 := by
  have hnext : t.source.next fromStr tx t.action = some (t.target, answers fromStr tx t) :=
    next_of_step hstep
  unfold dataFrame at hdata
  split at hdata
  . next haction =>
    rw [haction] at hnext
    obtain rfl := Option.some.inj hdata
    exact receive_text hnext
  . next haction =>
    rw [haction] at hbinary
    contradiction
  . contradiction

theorem not_served_of_obeyed {now : Nat}
    (hobeyed : Obeyed t.source (t.target, answers fromStr tx t) (t.source.rateLimit.check now).2)
    (hover : (t.source.rateLimit.check now).2 ≠ .ok ()) : ¬ Served fromStr tx t := by
  rintro ⟨-, hanswers, hcloses⟩
  unfold Obeyed at hobeyed
  split at hobeyed
  . next hok => exact hover hok
  . rw [hobeyed.1] at hcloses
    contradiction
  . exact hanswers hobeyed.2

/--
How many frames each window has served, against the limiter.
-/
structure Within (fromStr : String → Except String ClientMessage) (tx : PeerSender)
    (tr : List (Transition Handler Input)) (limit : RateLimit) : Prop where
  current : servedIn fromStr tx tr limit.windowStart + limit.remaining ≤ rateLimitPerSecond
  all : ∀ windowStart, servedIn fromStr tx tr windowStart ≤ rateLimitPerSecond
  later : ∀ windowStart, limit.windowStart < windowStart → servedIn fromStr tx tr windowStart = 0

theorem servedIn_append (tr : List (Transition Handler Input)) (t : Transition Handler Input)
    (windowStart : Nat)
    : servedIn fromStr tx (tr ++ [t]) windowStart
        =
      servedIn fromStr tx tr windowStart
        + if Served fromStr tx t ∧ t.target.rateLimit.windowStart = windowStart then 1 else 0 := by
  unfold servedIn
  rw [List.countP_append, List.countP_singleton]
  simp only [decide_eq_true_eq]

theorem Within.window {limit : RateLimit} (hwithin : Within fromStr tx tr limit) (now : Nat) :
    Within fromStr tx tr (limit.window now) := by
  obtain ⟨hcurrent, hall, hlater⟩ := hwithin
  by_cases hsame : (limit.window now).windowStart = limit.windowStart
  . constructor
    . rw [hsame, RateLimit.remaining_window hsame]
      exact hcurrent
    . exact hall
    . rw [hsame]
      exact hlater
  . obtain ⟨hlt, hremaining⟩ := RateLimit.windowStart_window_of_lt hsame
    constructor
    . rw [hlater _ hlt, hremaining, Nat.zero_add]
    . exact hall
    . intro windowStart hwindow
      apply hlater
      omega

theorem Within.step (hwithin : Within fromStr tx tr t.source.rateLimit)
    (hstep : (machine fromStr tx clientIp start).step t.source t.action t.target)
    (hbinary : isBinary t.action = false) :
    Within fromStr tx (tr ++ [t]) t.target.rateLimit := by
  cases hdata : dataFrame t.action with
  | none =>
    have hserved : ¬ Served fromStr tx t := by
      rintro ⟨h, -⟩
      rw [hdata] at h
      contradiction
    have hsame : t.target.rateLimit = t.source.rateLimit :=
      next_of_not_dataFrame (next_of_step hstep) hdata
    rw [hsame]
    obtain ⟨hcurrent, hall, hlater⟩ := hwithin
    constructor <;> simpa only [servedIn_append, hserved, false_and, if_false, Nat.add_zero]
  | some now =>
    obtain ⟨hlimit, hobeyed⟩ := step_charged hstep hbinary hdata
    obtain ⟨hcurrent, hall, hlater⟩ := hwithin.window now
    have hwindow : t.target.rateLimit.windowStart = (t.source.rateLimit.window now).windowStart := by
      rw [hlimit, RateLimit.windowStart_check]
    -- a frame that is served takes one from what remains
    have hremaining : t.target.rateLimit.remaining + (if Served fromStr tx t then 1 else 0)
        ≤ (t.source.rateLimit.window now).remaining := by
      rw [hlimit]
      by_cases hok : (t.source.rateLimit.check now).2 = .ok ()
      . have := RateLimit.check_of_ok hok
        split <;> omega
      . rw [if_neg (not_served_of_obeyed hobeyed hok), (RateLimit.check_of_error hok).1]
        omega
    rw [← hwindow] at hcurrent hlater
    have hcurrent : servedIn fromStr tx (tr ++ [t]) t.target.rateLimit.windowStart
        + t.target.rateLimit.remaining ≤ rateLimitPerSecond := by
      rw [servedIn_append]
      simp only [and_true]
      omega
    constructor
    . exact hcurrent
    . intro windowStart
      by_cases heq : t.target.rateLimit.windowStart = windowStart
      . rw [← heq]
        omega
      . rw [servedIn_append, if_neg (fun h => heq h.2)]
        exact hall windowStart
    . intro windowStart hlt
      rw [servedIn_append, if_neg (fun h => Nat.ne_of_lt hlt h.2)]
      exact hlater windowStart hlt

/--
The over-limit frames at the end of the run have all been counted as violations.
-/
def Counted (tr : List (Transition Handler Input)) (limit : RateLimit) : Prop :=
  ∀ ts, ts <:+ dataFrames tr → (∀ u ∈ ts, OverLimit u) → ts.length ≤ limit.consecutiveViolations

theorem dataFrames_append (tr : List (Transition Handler Input)) (t : Transition Handler Input)
    : dataFrames (tr ++ [t])
        =
      if (dataFrame t.action).isSome then dataFrames tr ++ [t] else dataFrames tr := by
  unfold dataFrames
  rw [List.filter_append, List.filter_singleton]
  cases (dataFrame t.action).isSome <;> simp

theorem overLimit_iff {now : Nat} (hdata : dataFrame t.action = some now) :
    OverLimit t ↔ (t.source.rateLimit.check now).2 ≠ .ok () := by
  unfold OverLimit
  simp [hdata]

theorem Counted.step (hcounted : Counted tr t.source.rateLimit)
    (hstep : (machine fromStr tx clientIp start).step t.source t.action t.target)
    (hbinary : isBinary t.action = false) : Counted (tr ++ [t]) t.target.rateLimit := by
  unfold Counted
  rw [dataFrames_append]
  cases hdata : dataFrame t.action with
  | none =>
    have hsame : t.target.rateLimit = t.source.rateLimit :=
      next_of_not_dataFrame (next_of_step hstep) hdata
    rw [hsame]
    exact hcounted
  | some now =>
    intro ts hts hover
    rw [Option.isSome_some, if_pos rfl, List.suffix_concat_iff] at hts
    rcases hts with rfl | ⟨ts, rfl, hts⟩
    . apply Nat.zero_le
    . rw [List.forall_mem_append, List.forall_mem_singleton, overLimit_iff hdata] at hover
      have hviolations := (RateLimit.check_of_error hover.2).2.1
      rw [(step_charged hstep hbinary hdata).1, hviolations, List.length_append]
      apply Nat.add_le_add_right
      exact hcounted ts hts hover.1

theorem closes_of_counted (hcounted : Counted tr t.source.rateLimit)
    (hstep : (machine fromStr tx clientIp start).step t.source t.action t.target)
    (hbinary : isBinary t.action = false) {ts : List (Transition Handler Input)}
    (hts : ts <:+ dataFrames tr) (hlength : ts.length + 1 = rateLimitCloseThreshold)
    (hover : ∀ u ∈ ts, OverLimit u) (ht : OverLimit t) : t.target.pc.closes = true := by
  obtain ⟨now, hdata, hcheck⟩ := ht
  have hobeyed := (step_charged hstep hbinary hdata).2
  have hviolations : t.source.rateLimit.consecutiveViolations + 1 ≥ rateLimitCloseThreshold := by
    have := hcounted ts hts hover
    omega
  rw [(RateLimit.check_of_error hcheck).2.2, decide_eq_true hviolations] at hobeyed
  exact hobeyed.1

theorem RateLimited.step (hlimited : RateLimited fromStr tx tr)
    (hwithin : Within fromStr tx tr t.source.rateLimit) (hcounted : Counted tr t.source.rateLimit)
    (hstep : (machine fromStr tx clientIp start).step t.source t.action t.target)
    (hbinary : isBinary t.action = false) : RateLimited fromStr tx (tr ++ [t]) := by
  constructor
  . rw [List.forall_mem_append, List.forall_mem_singleton]
    refine ⟨hlimited.charged, ?_⟩
    intro now hdata
    exact (step_charged hstep hbinary hdata).1
  . exact (hwithin.step hstep hbinary).all
  . intro ts u hinfix hlength hover
    rw [dataFrames_append] at hinfix
    split at hinfix
    . rw [List.infix_concat_iff, List.suffix_concat_iff] at hinfix
      rcases hinfix with (hnil | ⟨ts', hts, hsuffix⟩) | hinfix
      . simp at hnil
      . obtain ⟨rfl, hu⟩ := List.append_inj' hts rfl
        obtain rfl : u = t := by simpa using hu
        rw [List.forall_mem_append, List.forall_mem_singleton] at hover
        exact closes_of_counted hcounted hstep hbinary hsuffix hlength hover.1 hover.2
      . exact hlimited.closes ts u hinfix hlength hover
    . exact hlimited.closes ts u hinfix hlength hover

theorem rateLimited_of_no_binary (hrun : (machine fromStr tx clientIp start).Run tr h)
    (hbinary : ∀ t ∈ tr, isBinary t.action = false)
    : RateLimited fromStr tx tr ∧ Within fromStr tx tr h.rateLimit ∧ Counted tr h.rateLimit := by
  induction hrun with
  | init hinit =>
    obtain rfl : _ = Handler.start clientIp start := hinit
    refine ⟨⟨?_, ?_, ?_⟩, ⟨?_, ?_, ?_⟩, ?_⟩ <;>
      simp [servedIn, dataFrames, Counted, Handler.start, RateLimit.new, rateLimitPerSecond]
  | @step tr s s' input _ hstep ih =>
    rw [List.forall_mem_append, List.forall_mem_singleton] at hbinary
    obtain ⟨hlimited, hwithin, hcounted⟩ := ih hbinary.1
    have hstep : (machine fromStr tx clientIp start).step (⟨s, input, s'⟩ : Transition _ _).source
      input s' := hstep
    refine ⟨?_, ?_, ?_⟩
    . exact hlimited.step hwithin hcounted hstep hbinary.2
    . exact hwithin.step hstep hbinary.2
    . exact hcounted.step hstep hbinary.2

theorem isBinary_iff {input : Input} :
    isBinary input = true ↔ ∃ now, input = .received (.message .binary) now := by
  unfold isBinary
  constructor
  . intro hbinary
    split at hbinary
    . exact ⟨_, rfl⟩
    . contradiction
  . rintro ⟨now, rfl⟩
    rfl

theorem not_charged_of_binary
    (hstep : (machine fromStr tx clientIp start).step t.source t.action t.target)
    (hbinary : isBinary t.action = true)
    : ∃ now, dataFrame t.action = some now
        ∧ t.target.rateLimit ≠ (t.source.rateLimit.check now).1 := by
  obtain ⟨now, haction⟩ := isBinary_iff.mp hbinary
  have hnext : t.source.next fromStr tx t.action = some (t.target, answers fromStr tx t) :=
    next_of_step hstep
  rw [haction] at hnext ⊢
  have hreceive : t.source.receive fromStr tx (.message .binary) now
      = some (t.target, answers fromStr tx t) := hnext
  have htarget : t.target = t.source := congrArg Prod.fst (receive_binary hreceive)
  rw [htarget]
  refine ⟨now, rfl, ?_⟩
  apply Ne.symm
  apply RateLimit.check_ne_self

theorem rate_limited_iff (hrun : (machine fromStr tx clientIp start).Run tr h)
    : RateLimited fromStr tx tr
        ↔
      ∀ t ∈ tr, isBinary t.action = false := by
  constructor
  . intro hlimited t ht
    by_contra hbinary
    rw [Bool.not_eq_false] at hbinary
    obtain ⟨now, hdata, hcharged⟩ := not_charged_of_binary (hrun.step_of_mem ht) hbinary
    exact hcharged (hlimited.charged t ht now hdata)
  . intro hbinary
    exact (rateLimited_of_no_binary hrun hbinary).1

def pings : String → Except String ClientMessage := fun _ => .ok .ping

def frames (n : Nat) (message : Message) : List Input :=
  List.replicate n (.received (.message message) 0)

def framesTrace (n : Nat) (message : Message) : List (Transition Handler Input) :=
  Machine.trace (after pings 0) (.start "local" 0) (frames n message)

theorem text_frames_limited
    : let tr := framesTrace 53 (.text "")
      RateLimited pings 0 tr ∧ (dataFrames tr).length = 53 ∧ servedIn pings 0 tr 0 = 50 := by
  intro tr
  obtain ⟨h, hrun⟩ := Machine.run_trace (M := machine pings 0 "local" 0) rfl (fun _ _ _ => id)
    (frames 53 (.text ""))
  refine ⟨?_, by decide, by decide⟩
  apply (rate_limited_iff hrun).mpr
  decide

theorem binary_frames_not_limited
    : ∃ tr h, (machine pings 0 "local" 0).Run tr h ∧ h.pc = .registering
        ∧ servedIn pings 0 tr 0 = 60 ∧ ¬ RateLimited pings 0 tr := by
  have hopen : (Machine.exec (after pings 0) (.start "local" 0) (frames 60 .binary)).any
      (fun h => h.pc = .registering) = true := by decide
  obtain ⟨h, hexec, hpc⟩ := (Option.any_eq_true _ _).mp hopen
  have hserved : servedIn pings 0 (framesTrace 60 .binary) 0 = 60 := by decide
  refine ⟨framesTrace 60 .binary, h, Machine.run_of_exec hexec, of_decide_eq_true hpc, hserved, ?_⟩
  intro hlimited
  have := hlimited.served 0
  rw [hserved] at this
  exact absurd this (by decide)

end Run

end Handler

end Rendezvous

end LocalBolt
