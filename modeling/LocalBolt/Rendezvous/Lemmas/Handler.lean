import LocalBolt.Rendezvous.Impl.Handler

/-!
This module contains where a handler can go from each of its points, and what it replies on the way.
-/

namespace LocalBolt

namespace Rendezvous

namespace Handler

@[simp]
theorem clientIp_goto (h : Handler) (pc : Pc) : (h.goto pc).clientIp = h.clientIp := rfl

@[simp]
theorem pc_goto (h : Handler) (pc : Pc) : (h.goto pc).pc = pc := rfl

def OnlyErrors (replies : List ServerMessage) : Prop := ∀ m ∈ replies, ∃ e, m = .error e

theorem onlyErrors_nil : OnlyErrors [] := by
  simp [OnlyErrors]

theorem onlyErrors_singleton (e : String) : OnlyErrors [.error e] := by
  simp [OnlyErrors]

theorem onlyErrors_relayReply (target : String) (lookup : RoomManager.ManualPeerLookup)
    (delivered : Bool) : OnlyErrors (relayReply target lookup delivered) := by
  unfold relayReply
  cases lookup with
  | found =>
    dsimp only
    split
    . apply onlyErrors_nil
    . apply onlyErrors_singleton
  | ambiguous => apply onlyErrors_singleton
  | notFound => apply onlyErrors_singleton

/--
Where the registration loop can lead.
-/
inductive FromRegistering (tx : PeerSender) : Pc → Prop where
  | registering : FromRegistering tx .registering
  | adding (peer : PeerInfo) : peer.sender = tx → FromRegistering tx (.adding peer)
  | rejecting (e : String) : FromRegistering tx (.rejecting e)
  | aborting : FromRegistering tx .aborting

inductive FromServing (me : Identity) : Pc → Prop where
  | serving : FromServing me (.serving me)
  | finding (target : String) (payload : Json) (manual : Bool) :
      FromServing me (.finding me target payload manual)
  | removing : FromServing me (.removing me)

/--
An answer to a frame leaves the handler in its room at a point that `next` allows, and replies with
errors only.
-/
structure Answers (h : Handler) (next : Pc → Prop) (p : Handler × List ServerMessage) : Prop where
  clientIp : p.1.clientIp = h.clientIp
  pc : next p.1.pc
  replies : OnlyErrors p.2

theorem answers_admitText {h : Handler} {text : String} {now : Nat} {closing : Pc} {next : Pc → Prop}
    {answer : Handler → Handler × List ServerMessage} (hpc : next h.pc) (hclosing : next closing)
    (hanswer : ∀ h' : Handler, h'.clientIp = h.clientIp → h'.pc = h.pc →
      Answers h' next (answer h'))
    : Answers h next (h.admitText text now closing answer) := by
  unfold admitText
  dsimp only
  split
  . exact ⟨rfl, hclosing, onlyErrors_nil⟩
  . exact ⟨rfl, hpc, onlyErrors_singleton _⟩
  . split
    . exact ⟨rfl, hpc, onlyErrors_singleton _⟩
    . have hanswered := hanswer { h with rateLimit := (h.rateLimit.check now).1 } rfl rfl
      exact ⟨hanswered.clientIp, hanswered.pc, hanswered.replies⟩

theorem answers_answerRegister {tx : PeerSender} {message : Except String ClientMessage}
    {h : Handler} (hpc : h.pc = .registering) :
    Answers h (FromRegistering tx) (answerRegister tx message h) := by
  have hstay : FromRegistering tx h.pc := hpc ▸ .registering
  unfold answerRegister
  split
  . split
    . exact ⟨rfl, hstay, onlyErrors_singleton _⟩
    . split
      . exact ⟨rfl, .rejecting _, onlyErrors_nil⟩
      . exact ⟨rfl, .adding _ rfl, onlyErrors_nil⟩
  . exact ⟨rfl, hstay, onlyErrors_singleton _⟩
  . exact ⟨rfl, hstay, onlyErrors_singleton _⟩

theorem answers_answerSignal {me : Identity} {h : Handler} {target : String} {payload : Json}
    {manual : Bool} (hpc : h.pc = .serving me) :
    Answers h (FromServing me) (answerMessage.answerSignal me h target payload manual) := by
  have hstay : FromServing me h.pc := hpc ▸ .serving
  unfold answerMessage.answerSignal
  split
  . exact ⟨rfl, hstay, onlyErrors_singleton _⟩
  . exact ⟨rfl, .finding _ _ _, onlyErrors_nil⟩

theorem answers_answerMessage {me : Identity} {message : Except String ClientMessage} {h : Handler}
    (hpc : h.pc = .serving me) : Answers h (FromServing me) (answerMessage me message h) := by
  have hstay : FromServing me h.pc := hpc ▸ .serving
  unfold answerMessage
  split
  . exact answers_answerSignal hpc
  . exact answers_answerSignal hpc
  . exact ⟨rfl, hstay, onlyErrors_nil⟩
  . exact ⟨rfl, hstay, onlyErrors_singleton _⟩
  . exact ⟨rfl, hstay, onlyErrors_singleton _⟩

variable {fromStr : String → Except String ClientMessage} {tx : PeerSender} {h : Handler}
  {p : Handler × List ServerMessage}

theorem answers_receive_registering {received : Received} {now : Nat} (hpc : h.pc = .registering)
    (hp : h.receive fromStr tx received now = some p) : Answers h (FromRegistering tx) p := by
  have hstay : FromRegistering tx h.pc := hpc ▸ .registering
  unfold receive at hp
  rw [hpc] at hp
  dsimp only at hp
  split at hp
  . obtain rfl := Option.some.inj hp
    apply answers_admitText hstay .aborting
    intro h' _ hpc'
    exact answers_answerRegister (hpc'.trans hpc)
  . obtain rfl := Option.some.inj hp
    exact ⟨rfl, hstay, onlyErrors_singleton _⟩
  . obtain rfl := Option.some.inj hp
    exact ⟨rfl, hstay, onlyErrors_nil⟩
  . obtain rfl := Option.some.inj hp
    exact ⟨rfl, hstay, onlyErrors_nil⟩
  . obtain rfl := Option.some.inj hp
    exact ⟨rfl, .aborting, onlyErrors_nil⟩
  . obtain rfl := Option.some.inj hp
    exact ⟨rfl, .aborting, onlyErrors_nil⟩
  . obtain rfl := Option.some.inj hp
    exact ⟨rfl, hstay, onlyErrors_nil⟩
  . obtain rfl := Option.some.inj hp
    exact ⟨rfl, .aborting, onlyErrors_nil⟩
  . contradiction

theorem answers_receive_serving {me : Identity} {received : Received} {now : Nat}
    (hpc : h.pc = .serving me) (hp : h.receive fromStr tx received now = some p) :
    Answers h (FromServing me) p := by
  have hstay : FromServing me h.pc := hpc ▸ .serving
  unfold receive at hp
  rw [hpc] at hp
  dsimp only at hp
  split at hp
  . obtain rfl := Option.some.inj hp
    exact ⟨rfl, .removing, onlyErrors_nil⟩
  . obtain rfl := Option.some.inj hp
    apply answers_admitText hstay .removing
    intro h' _ hpc'
    exact answers_answerMessage (hpc'.trans hpc)
  . obtain rfl := Option.some.inj hp
    exact ⟨rfl, hstay, onlyErrors_singleton _⟩
  . obtain rfl := Option.some.inj hp
    exact ⟨rfl, hstay, onlyErrors_nil⟩
  . obtain rfl := Option.some.inj hp
    exact ⟨rfl, hstay, onlyErrors_nil⟩
  . obtain rfl := Option.some.inj hp
    exact ⟨rfl, .removing, onlyErrors_nil⟩
  . obtain rfl := Option.some.inj hp
    exact ⟨rfl, .removing, onlyErrors_nil⟩
  . obtain rfl := Option.some.inj hp
    exact ⟨rfl, hstay, onlyErrors_nil⟩
  . obtain rfl := Option.some.inj hp
    exact ⟨rfl, .removing, onlyErrors_nil⟩

theorem pc_of_receive {received : Received} {now : Nat}
    (hp : h.receive fromStr tx received now = some p) :
    h.pc = .registering ∨ ∃ me, h.pc = .serving me := by
  unfold receive at hp
  split at hp
  . next hpc => exact .inl hpc
  . next me hpc => exact .inr ⟨me, hpc⟩
  . contradiction

theorem next_of_rejecting {input : Input} {e : String} (hpc : h.pc = .rejecting e)
    (hp : h.next fromStr tx input = some p) :
    input = .proceed ∧ p = (h.goto .aborting, [.error e]) := by
  cases input with
  | proceed =>
    simp only [next, hpc, Option.some.injEq] at hp
    exact ⟨rfl, hp.symm⟩
  | _ => simp [next, receive, hpc] at hp

theorem next_of_aborting {input : Input} (hpc : h.pc = .aborting)
    (hp : h.next fromStr tx input = some p) : input = .proceed ∧ p = (h.goto .returned, []) := by
  cases input with
  | proceed =>
    simp only [next, hpc, Option.some.injEq] at hp
    exact ⟨rfl, hp.symm⟩
  | _ => simp [next, receive, hpc] at hp

theorem next_of_returned (hpc : h.pc = .returned) (input : Input) :
    h.next fromStr tx input = none := by
  cases input <;> simp [next, receive, hpc]

/--
What a handler tells its own client: errors, or once the list of peers.
-/
theorem replies_next {input : Input} (hp : h.next fromStr tx input = some p)
    : OnlyErrors p.2 ∨ ∃ me existingPeers, h.pc = .announcing me existingPeers ∧ p.2 = [.peers existingPeers] := by
  unfold next at hp
  split at hp
  . rcases pc_of_receive hp with hpc | ⟨me, hpc⟩
    . exact .inl (answers_receive_registering hpc hp).replies
    . exact .inl (answers_receive_serving hpc hp).replies
  . split at hp
    . obtain rfl := Option.some.inj hp
      exact .inl onlyErrors_nil
    . contradiction
  . split at hp
    . obtain rfl := Option.some.inj hp
      exact .inl onlyErrors_nil
    . contradiction
  . split at hp
    . obtain rfl := Option.some.inj hp
      exact .inl (onlyErrors_relayReply _ _ _)
    . contradiction
  . split at hp
    . obtain rfl := Option.some.inj hp
      exact .inl onlyErrors_nil
    . contradiction
  . split at hp
    . next me existingPeers hpc =>
      obtain rfl := Option.some.inj hp
      exact .inr ⟨me, existingPeers, hpc, rfl⟩
    . obtain rfl := Option.some.inj hp
      exact .inl (onlyErrors_singleton _)
    . obtain rfl := Option.some.inj hp
      exact .inl onlyErrors_nil
    . contradiction

end Handler

end Rendezvous

end LocalBolt
