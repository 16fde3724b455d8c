import LocalBolt.Bridge.Impl.Ipc
import LocalBolt.Machine.Observer
import LocalBolt.Session.Impl.IpcManager

/-!
This module contains the two queues of JSON texts that the shell drains: the events of the daemon and
the incoming signals. What the shell reads is what was pushed.
-/

namespace LocalBolt

namespace Bridge

def NoControl (text : String) : Prop := ∀ c ∈ text.toList, 0x20 ≤ c.toNat

instance : DecidablePred NoControl := fun text =>
  decidable_of_iff (text.toList.all (fun c => 0x20 ≤ c.toNat) = true) (by simp [NoControl])

theorem NoControl.isLine {text : String} (h : NoControl text) : Framing.IsLine text := by
  intro hmem
  have := h _ hmem
  simp at this

theorem NoControl.nul_not_mem {text : String} (h : NoControl text) : Char.ofNat 0 ∉ text.toList := by
  intro hmem
  have := h _ hmem
  simp at this

theorem drainQueue_snd (queue : List String) : (drainQueue queue).2 = [] := by
  unfold drainQueue
  split
  . next h => exact List.isEmpty_iff.mp h
  . rfl

theorem drainQueue_lines {queue : List String} (h : ∀ text ∈ queue, NoControl text) :
    Framing.Delivery.lines (drainQueue queue).1 = queue := by
  unfold drainQueue
  split
  . next hempty => exact (List.isEmpty_iff.mp hempty).symm
  . next hne =>
    rw [cString?_joinLines fun text htext => (h text htext).nul_not_mem]
    apply Framing.split_joinLines
    . intro hnil
      simp [hnil] at hne
    . intro text htext
      exact (h text htext).isLine

structure Accounts (d : Framing.Delivery) (queue : List String) : Prop where
  exact : d.Exact queue
  noControl : ∀ text ∈ queue, NoControl text

theorem Accounts.push {d : Framing.Delivery} {queue texts : List String} (h : Accounts d queue)
    (htexts : ∀ text ∈ texts, NoControl text) : Accounts (d.push texts) (queue ++ texts) where
  exact := h.exact.push texts
  noControl := List.forall_mem_append.mpr ⟨h.noControl, htexts⟩

theorem Accounts.skip {d : Framing.Delivery} {queue : List String} (h : Accounts d queue) :
    Accounts (d.push []) queue := by
  have := h.push (List.forall_mem_nil NoControl)
  rwa [List.append_nil] at this

theorem Accounts.drain {d : Framing.Delivery} {queue : List String} (h : Accounts d queue) :
    Accounts (d.drain (drainQueue queue).1) (drainQueue queue).2 where
  exact := h.exact.drain (by rw [drainQueue_lines h.noControl, drainQueue_snd, List.append_nil])
  noControl := by simp [drainQueue_snd]

namespace BoltIpc

/--
The account of the event queue, to which an event that meets 1000 others does not count.
-/
def delivery (toJson : Json → Option String) : Observer BoltIpc Action Framing.Delivery where
  start := .empty
  next d b action _ :=
    match action with
    | .callback eventName payload =>
      if b.events.length = 1000 then d else d.push (toJson (bridgeLine eventName payload)).toList
    | .drainEvents => d.drain b.drainEvents.1

structure Delivers (p : BoltIpc × Framing.Delivery) : Prop where
  accounts : Accounts p.2 p.1.events
  capped : p.1.events.length ≤ 1000

theorem delivers_next {toJson : Json → Option String}
    (hjson : ∀ value text, toJson value = some text → NoControl text)
    {p : BoltIpc × Framing.Delivery} (hp : Delivers p) (action : Action) :
    Delivers (p.1.next toJson action, (delivery toJson).next p.2 p.1 action (p.1.next toJson action)) := by
  cases action with
  | callback eventName payload =>
    simp only [next, callback, delivery]
    cases htext : toJson (bridgeLine eventName payload) with
    | none =>
      refine ⟨?_, hp.capped⟩
      dsimp only
      split
      . exact hp.accounts
      . exact hp.accounts.skip
    | some text =>
      dsimp only
      by_cases hfull : p.1.events.length = 1000
      . rw [if_neg (by omega), if_pos hfull]
        exact hp
      . have hroom : p.1.events.length < 1000 := by
          have := hp.capped
          omega
        rw [if_pos hroom, if_neg hfull]
        constructor
        . exact hp.accounts.push (by simpa using hjson _ text htext)
        . rw [List.length_append, List.length_singleton]
          omega
  | drainEvents =>
    constructor
    . exact hp.accounts.drain
    . simp [next, drainEvents, drainQueue_snd]

end BoltIpc

namespace BoltSignaling

def delivery (toJson : Json → Option String) : Observer BoltSignaling Action Framing.Delivery where
  start := .empty
  next d s action _ :=
    match action with
    | .event (.signal sig _) => d.push (toJson sig.toValue).toList
    | .drainSignals => d.drain s.drainSignals.1
    | _ => d

theorem mergePeers_incomingSignals (list : List PeerInfo) (s : BoltSignaling) :
    (list.foldl mergePeer s).incomingSignals = s.incomingSignals := by
  induction list generalizing s with
  | nil => rfl
  | cons peer list ih =>
    rw [List.foldl_cons, ih, mergePeer]
    split <;> rfl

theorem accounts_next {toJson : Json → Option String}
    (hjson : ∀ value text, toJson value = some text → NoControl text)
    {p : BoltSignaling × Framing.Delivery} (hp : Accounts p.2 p.1.incomingSignals) (action : Action)
    : Accounts ((delivery toJson).next p.2 p.1 action (p.1.next toJson action))
        (p.1.next toJson action).incomingSignals := by
  cases action with
  | event event =>
    cases event with
    | signal sig =>
      simp only [next, callback, delivery]
      cases htext : toJson sig.toValue with
      | none => exact hp.skip
      | some text => exact hp.push (by simpa using hjson _ text htext)
    | peerList list =>
      simp only [next, callback, delivery, mergePeers_incomingSignals]
      exact hp
    | peerJoined peer =>
      simp only [next, callback, delivery]
      split
      . have := mergePeers_incomingSignals [peer] p.1
        simp only [pushEvent, List.foldl_cons, List.foldl_nil] at this ⊢
        rw [this]
        exact hp
      . exact hp
    | _ => exact hp
  | drainEvents => exact hp
  | drainSignals => exact hp.drain

end BoltSignaling

theorem queues_deliver {toJson : Json → Option String}
    (hjson : ∀ value text, toJson value = some text → NoControl text) (peerCode : String)
    : (∀ q, ((BoltIpc.machine toJson).observed (BoltIpc.delivery toJson)).Reachable q →
          q.2.received ++ q.1.events = q.2.pushed ∧ q.1.events.length ≤ 1000)
        ∧ ∀ q, ((BoltSignaling.machine toJson peerCode).observed
            (BoltSignaling.delivery toJson)).Reachable q →
          q.2.received ++ q.1.incomingSignals = q.2.pushed := by
  constructor
  . intro q hq
    have hdelivers : BoltIpc.Delivers q := by
      refine Machine.observed_total_invariant ?_ ?_ hq
      . exact ⟨⟨rfl, by simp [BoltIpc.start]⟩, by simp [BoltIpc.start]⟩
      . intro p action hp
        exact BoltIpc.delivers_next hjson hp action
    exact ⟨hdelivers.accounts.exact, hdelivers.capped⟩
  . intro q hq
    have haccounts : Accounts q.2 q.1.incomingSignals := by
      refine Machine.observed_total_invariant (I := fun p => Accounts p.2 p.1.incomingSignals)
        ?_ ?_ hq
      . exact ⟨rfl, by simp [BoltSignaling.start]⟩
      . intro p action hp
        exact BoltSignaling.accounts_next hjson hp action
    exact haccounts.exact

def strangeEvent : Json := bridgeLine "a\nb" .null

def strangeSignal : Signal where
  fromPeer := "B7H2MN"
  signalType := "x"
  data := .str (String.singleton (Char.ofNat 0))

def strangeToJson (value : Json) : Option String :=
  if value = strangeEvent then
    some "\x7b\"event\":\"a\\nb\",\"payload\":null\x7d"
  else if value = strangeSignal.toValue then
    some "\x7b\"data\":\"\\u0000\",\"from\":\"B7H2MN\",\"signal_type\":\"x\"\x7d"
  else
    none

theorem strange_texts_delivered
    : (∃ q, ((BoltIpc.machine strangeToJson).observed (BoltIpc.delivery strangeToJson)).Reachable q
          ∧ q.2.pushed.length = 3 ∧ q.1.events.length = 1
          ∧ q.2.received ++ q.1.events = q.2.pushed)
        ∧ ∃ q, ((BoltSignaling.machine strangeToJson "A3F9KQ").observed
            (BoltSignaling.delivery strangeToJson)).Reachable q
          ∧ q.2.pushed.length = 2 ∧ q.1.incomingSignals = []
          ∧ q.2.received ++ q.1.incomingSignals = q.2.pushed := by
  have hjson : ∀ value text, strangeToJson value = some text → NoControl text := by
    intro value text htext
    unfold strangeToJson at htext
    split at htext
    . obtain rfl := Option.some.inj htext
      decide
    . split at htext
      . obtain rfl := Option.some.inj htext
        decide
      . simp at htext
  have hdeliver := queues_deliver hjson "A3F9KQ"
  constructor
  . have hrun : (Machine.exec
        (Machine.observedFun (BoltIpc.delivery strangeToJson)
          (fun b action => some (b.next strangeToJson action)))
        (BoltIpc.start, (BoltIpc.delivery strangeToJson).start)
        [.callback "a\nb" .null, .callback "a\nb" .null, .drainEvents, .callback "a\nb" .null]).any
        (fun q => q.2.pushed.length = 3 ∧ q.1.events.length = 1) = true := by decide
    obtain ⟨q, hq, hlengths⟩ := Machine.exists_observed_of_exec hrun
    obtain ⟨hpushed, hqueued⟩ := of_decide_eq_true hlengths
    exact ⟨q, hq, hpushed, hqueued, (hdeliver.1 q hq).1⟩
  . have hrun : (Machine.exec
        (Machine.observedFun (BoltSignaling.delivery strangeToJson)
          (fun s action => some (s.next strangeToJson action)))
        (BoltSignaling.start "A3F9KQ", (BoltSignaling.delivery strangeToJson).start)
        [.event (.signal strangeSignal .localPlane), .event (.signal strangeSignal .cloudPlane),
          .drainSignals]).any
        (fun q => q.2.pushed.length = 2 ∧ q.1.incomingSignals = []) = true := by decide
    obtain ⟨q, hq, hlengths⟩ := Machine.exists_observed_of_exec hrun
    obtain ⟨hpushed, hqueued⟩ := of_decide_eq_true hlengths
    exact ⟨q, hq, hpushed, hqueued, hdeliver.2 q hq⟩

/-! ### The session manager's view of the event queue -/

/--
The texts in the queue are those of the lines the session manager is going to handle.
-/
def Represents (toJson : Json → Option String) (b : BoltIpc) (queue : LocalBolt.BoltIpc) : Prop :=
  b.events.map some = queue.events.map fun event => toJson event.line

theorem Represents.callback {toJson : Json → Option String} {b : BoltIpc} {queue : LocalBolt.BoltIpc}
    (h : Represents toJson b queue) {eventName : String} {payload : Json}
    (hjson : (toJson (bridgeLine eventName payload)).isSome = true) (emittedIn : Nat)
    : Represents toJson (b.callback toJson eventName payload)
        (queue.callback ⟨bridgeLine eventName payload, emittedIn⟩) := by
  obtain ⟨text, htext⟩ := Option.isSome_iff_exists.mp hjson
  have hlength : b.events.length = queue.events.length := by
    simpa using congrArg List.length h
  unfold Represents BoltIpc.callback LocalBolt.BoltIpc.callback at *
  simp only [htext, hlength]
  split
  . simp [h, htext]
  . exact h

theorem Represents.drainEvents {toJson : Json → Option String} {b : BoltIpc}
    {queue : LocalBolt.BoltIpc} (h : Represents toJson b queue)
    (hjson : ∀ text ∈ b.events, NoControl text)
    : (Framing.Delivery.lines b.drainEvents.1).map some
          = queue.drainEvents.1.map (fun event => toJson event.line)
        ∧ Represents toJson b.drainEvents.2 queue.drainEvents.2 := by
  constructor
  . exact (congrArg _ (drainQueue_lines hjson)).trans h
  . simp [Represents, BoltIpc.drainEvents, LocalBolt.BoltIpc.drainEvents, drainQueue_snd]

end Bridge

end LocalBolt
