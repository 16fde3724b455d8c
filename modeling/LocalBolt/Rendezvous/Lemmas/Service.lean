import LocalBolt.Rendezvous.Lemmas.Limiter
import LocalBolt.Rendezvous.Lemmas.RateLimit
import LocalBolt.Rendezvous.Lemmas.Sessions
import LocalBolt.Rendezvous.Lemmas.Speakers

/-!
This module contains what a client can rely on that keeps to the limits: whatever the others do, it is not
cut off, and stays where its peers look for it until another one takes its peer code.
-/

namespace LocalBolt

namespace Rendezvous

theorem RateLimit.checks_append_singleton (limit : RateLimit) (calls : List Nat) (now : Nat)
    : checks limit (calls ++ [now]) = checks limit calls ++ [((limit.after calls).check now).2] := by
  induction calls generalizing limit with
  | nil => rfl
  | cons call calls ih =>
    simp only [List.cons_append, checks, ih]
    rfl

theorem RateLimit.after_append_singleton (limit : RateLimit) (calls : List Nat) (now : Nat)
    : limit.after (calls ++ [now]) = ((limit.after calls).check now).1 := by
  simp only [after, List.foldl_append, List.foldl_cons, List.foldl_nil]

/-! ### The handler of a client that keeps to the limits -/

/--
A message that does not end the connection by itself.
-/
def Received.stays : Received → Bool
  | .message .close | .error | .closed | .timeout => false
  | .message _ => true

namespace Handler

variable {fromStr : String → Except String ClientMessage} {tx : PeerSender} {h : Handler}
  {p : Handler × List ServerMessage}

/--
The handler ends the connection, or has refused it and is about to.
-/
def Pc.isEnding : Pc → Bool
  | .rejecting _ | .removing _ | .aborting | .returned => true
  | _ => false

def Pc.isRejecting : Pc → Bool
  | .rejecting _ => true
  | _ => false

theorem isLeaving_admitText {text : String} {now : Nat} {closing : Pc}
    {answer : Handler → Handler × List ServerMessage} (hpc : h.pc.isLeaving = false)
    (hok : (h.rateLimit.check now).2 = .ok ())
    (hanswer : ∀ h' : Handler, h'.pc = h.pc → (answer h').1.pc.isLeaving = false)
    : (h.admitText text now closing answer).1.pc.isLeaving = false := by
  unfold admitText
  dsimp only
  rw [hok]
  dsimp only
  split
  . exact hpc
  . exact hanswer _ rfl

theorem isLeaving_answerRegister {message : Except String ClientMessage} (hpc : h.pc.isLeaving = false) :
    (answerRegister tx message h).1.pc.isLeaving = false := by
  unfold answerRegister
  split
  . split
    . exact hpc
    . split <;> rfl
  . exact hpc
  . exact hpc

theorem isLeaving_answerMessage {me : Identity} {message : Except String ClientMessage}
    (hpc : h.pc.isLeaving = false) : (answerMessage me message h).1.pc.isLeaving = false := by
  unfold answerMessage answerMessage.answerSignal
  split
  . split
    . exact hpc
    . rfl
  . split
    . exact hpc
    . rfl
  all_goals exact hpc

/--
A frame that the limiter admits and that does not end the connection leaves it open.
-/
theorem isLeaving_receive {received : Received} {now : Nat} (hstays : received.stays = true)
    (hok : ∀ text, received = .message (.text text) → (h.rateLimit.check now).2 = .ok ())
    (hp : h.receive fromStr tx received now = some p) : p.1.pc.isLeaving = false := by
  unfold receive at hp
  split at hp
  . next hpc =>
    have hopen : h.pc.isLeaving = false := by rw [hpc]; rfl
    split at hp
    . obtain rfl := Option.some.inj hp
      apply isLeaving_admitText hopen (hok _ rfl)
      intro h' hpc'
      apply isLeaving_answerRegister
      rwa [hpc']
    all_goals first
      | contradiction
      | (obtain rfl := Option.some.inj hp; exact hopen)
  . next me hpc =>
    have hopen : h.pc.isLeaving = false := by rw [hpc]; rfl
    split at hp
    . contradiction
    . obtain rfl := Option.some.inj hp
      apply isLeaving_admitText hopen (hok _ rfl)
      intro h' hpc'
      apply isLeaving_answerMessage
      rwa [hpc']
    all_goals first
      | contradiction
      | (obtain rfl := Option.some.inj hp; exact hopen)
  . contradiction

/--
Of its own accord a handler ends the connection only after it has refused it.
-/
theorem isLeaving_next {input : Input} (hreceived : ∀ received now, input ≠ .received received now)
    (hp : h.next fromStr tx input = some p) (hpc : h.pc.isLeaving = false)
    (hrejecting : h.pc.isRejecting = false) : p.1.pc.isLeaving = false := by
  cases input with
  | received received now => exact absurd rfl (hreceived received now)
  | added result =>
    simp only [next] at hp
    split at hp <;> try contradiction
    obtain rfl := Option.some.inj hp
    cases result <;> rfl
  | found lookup =>
    simp only [next] at hp
    split at hp <;> try contradiction
    obtain rfl := Option.some.inj hp
    rfl
  | relayed delivered =>
    simp only [next] at hp
    split at hp <;> try contradiction
    obtain rfl := Option.some.inj hp
    rfl
  | removed =>
    simp only [next] at hp
    split at hp <;> try contradiction
    next me hremoving =>
      rw [hremoving] at hpc
      contradiction
  | proceed =>
    simp only [next] at hp
    split at hp <;> try contradiction
    . obtain rfl := Option.some.inj hp
      rfl
    . next e hpc' =>
      rw [hpc'] at hrejecting
      contradiction
    . next hpc' =>
      rw [hpc'] at hpc
      contradiction

theorem identity_next_of_ending {input : Input} (hp : h.next fromStr tx input = some p)
    (hending : h.pc.isEnding = true) : p.1.pc.identity = none := by
  cases hpc : h.pc with
  | rejecting e =>
    obtain ⟨-, rfl⟩ := next_of_rejecting hpc hp
    rfl
  | removing me =>
    cases input with
    | removed =>
      rw [Server.next_removed hp]
      rfl
    | _ => simp [next, receive, hpc] at hp
  | aborting =>
    obtain ⟨-, rfl⟩ := next_of_aborting hpc hp
    rfl
  | returned =>
    rw [next_of_returned hpc] at hp
    cases hp
  | registering | adding | announcing | serving | finding | relaying =>
    rw [hpc] at hending
    cases hending

theorem rateLimit_receive {received : Received} {now : Nat}
    (hp : h.receive fromStr tx received now = some p) (htext : ∀ text, received ≠ .message (.text text)) :
    p.1.rateLimit = h.rateLimit := by
  by_cases hbinary : received = .message .binary
  . subst hbinary
    rw [receive_binary hp]
  . have hnext : h.next fromStr tx (.received received now) = some p := hp
    apply next_of_not_dataFrame hnext
    unfold dataFrame
    split
    . next text now' heq => exact absurd (Input.received.inj heq).1 (htext text)
    . next now' heq => exact absurd (Input.received.inj heq).1 hbinary
    . rfl

end Handler

namespace Server

/-! ### What a client does -/

def acceptedAt (conn : PeerSender) (t : Transition Server Action) : Option Nat :=
  match t.action with
  | .accept c _ now => if c = conn then some now else none
  | _ => none

def textAt (conn : PeerSender) (t : Transition Server Action) : Option Nat :=
  match t.action with
  | .receive c (.message (.text _)) now => if c = conn then some now else none
  | _ => none

def accepts (conn : PeerSender) (tr : List (Transition Server Action)) : List Nat :=
  tr.filterMap (acceptedAt conn)

/--
The instants at which texts of the connection are received.
-/
def texts (conn : PeerSender) (tr : List (Transition Server Action)) : List Nat := tr.filterMap (textAt conn)

/--
The client ends the connection, or is silent for too long.
-/
def hangsUp (conn : PeerSender) (t : Transition Server Action) : Bool :=
  match t.action with
  | .receive c received _ => c = conn && !received.stays
  | _ => false

/--
The client does not end the connection, nor is it silent for too long, and it sends no more than 50 texts
in any second.
-/
structure Conforms (conn : PeerSender) (tr : List (Transition Server Action)) : Prop where
  stays : ∀ t ∈ tr, hangsUp conn t = false
  sorted : (accepts conn tr ++ texts conn tr).Pairwise (· ≤ ·)
  slow : ∀ a, (texts conn tr).countP (fun now => a ≤ now ∧ now < a + oneSecond) ≤ rateLimitPerSecond

theorem accepts_append (conn : PeerSender) (tr : List (Transition Server Action))
    (t : Transition Server Action)
    : accepts conn (tr ++ [t]) = accepts conn tr ++ (acceptedAt conn t).toList := by
  unfold accepts
  rw [List.filterMap_append, List.filterMap_cons]
  cases acceptedAt conn t <;> rfl

theorem texts_append (conn : PeerSender) (tr : List (Transition Server Action))
    (t : Transition Server Action) : texts conn (tr ++ [t]) = texts conn tr ++ (textAt conn t).toList := by
  unfold texts
  rw [List.filterMap_append, List.filterMap_cons]
  cases textAt conn t <;> rfl

theorem Conforms.of_append {conn : PeerSender} {tr : List (Transition Server Action)}
    {t : Transition Server Action} (h : Conforms conn (tr ++ [t])) : Conforms conn tr := by
  obtain ⟨hstays, hsorted, hslow⟩ := h
  rw [accepts_append, texts_append] at hsorted
  refine ⟨fun t ht => hstays t (List.mem_append_left _ ht), ?_, ?_⟩
  . apply List.Pairwise.sublist _ hsorted
    apply List.Sublist.append
    . apply List.sublist_append_left
    . apply List.sublist_append_left
  . intro a
    have hle := hslow a
    rw [texts_append, List.countP_append] at hle
    omega

variable {fromStr : String → Except String ClientMessage} {s s' : Server} {conn : PeerSender}
  {tr : List (Transition Server Action)}

/-! ### The limiter of a connection -/

/--
The limiter has been asked about each text since the connection was accepted, and about nothing else.
-/
structure Limits (conn : PeerSender) (tr : List (Transition Server Action)) (s : Server) : Prop where
  limiter : ∀ h, s.handlers conn = some h → ∃ start, accepts conn tr = [start]
    ∧ h.rateLimit = (RateLimit.new start).after (texts conn tr)
  unaccepted : s.handlers conn = none → accepts conn tr = [] ∧ texts conn tr = []

theorem Limits.idle {t : Transition Server Action} (hlimits : Limits conn tr s)
    (hsame : (s'.handlers conn).map (·.rateLimit) = (s.handlers conn).map (·.rateLimit))
    (haccepted : acceptedAt conn t = none) (htext : textAt conn t = none) : Limits conn (tr ++ [t]) s' := by
  constructor
  . intro h' hh'
    rw [hh'] at hsame
    obtain ⟨h, hh, hlimit⟩ := Option.map_eq_some_iff.mp hsame.symm
    have hlimit : h.rateLimit = h'.rateLimit := hlimit
    rw [accepts_append, texts_append, haccepted, htext, Option.toList_none, List.append_nil, List.append_nil,
      ← hlimit]
    exact hlimits.limiter h hh
  . intro hnone
    rw [hnone] at hsame
    rw [accepts_append, texts_append, haccepted, htext, Option.toList_none, List.append_nil, List.append_nil]
    exact hlimits.unaccepted (Option.map_eq_none_iff.mp hsame.symm)

theorem rateLimit_step {h : Handler} {e : Effect} (he : s.effect conn h = some e)
    (hmoves : Moves fromStr s conn h e s') (hh : s.handlers conn = some h)
    : (s'.handlers conn).map (·.rateLimit) = (s.handlers conn).map (·.rateLimit) := by
  cases hinput : e.input with
  | none => rw [hmoves.idle hinput]
  | some input =>
    obtain ⟨p, hp, hh'⟩ := hmoves.told input hinput
    rw [hh', hh, Option.map_some, Option.map_some]
    congr 1
    apply Handler.next_of_not_dataFrame hp
    unfold Handler.dataFrame
    split
    . next text now => exact absurd hinput (input_effect he _ now)
    . next now => exact absurd hinput (input_effect he _ now)
    . rfl

theorem Limits.next {action : Action} (hlimits : Limits conn tr s)
    (hnext : s.next fromStr effect action = some s') : Limits conn (tr ++ [⟨s, action, s'⟩]) s' := by
  by_cases hc : action.connection = conn
  . cases action with
    | accept c clientIp now =>
      obtain rfl : c = conn := hc
      obtain ⟨hnone, hs'⟩ := handler_of_accept hnext
      have hh' : s'.handlers c = some (.start clientIp now) := by
        rw [hs']
        apply Function.update_self
      obtain ⟨haccepts, htexts⟩ := hlimits.unaccepted hnone
      constructor
      . intro h hh
        obtain rfl := Option.some.inj (hh'.symm.trans hh)
        refine ⟨now, ?_, ?_⟩
        . rw [accepts_append, haccepts]
          simp [acceptedAt]
        . rw [texts_append, htexts]
          rfl
      . intro hnone'
        rw [hh'] at hnone'
        cases hnone'
    | receive c received now =>
      obtain rfl : c = conn := hc
      obtain ⟨h, p, hh, hp, hs'⟩ := handler_of_receive hnext
      have hh' : s'.handlers c = some p.1 := by
        rw [hs']
        apply Function.update_self
      by_cases htext : ∃ text, received = .message (.text text)
      . obtain ⟨text, rfl⟩ := htext
        obtain ⟨start, haccepts, hlimit⟩ := hlimits.limiter h hh
        constructor
        . intro h' hh''
          obtain rfl := Option.some.inj (hh'.symm.trans hh'')
          refine ⟨start, ?_, ?_⟩
          . rw [accepts_append, haccepts]
            rfl
          . have hat : textAt c ⟨s, .receive c (.message (.text text)) now, s'⟩ = some now := by
              simp [textAt]
            rw [texts_append, hat, Option.toList_some, RateLimit.after_append_singleton, ← hlimit]
            exact (Handler.receive_text hp).1
        . intro hnone
          rw [hh'] at hnone
          cases hnone
      . have htext := not_exists.mp htext
        apply hlimits.idle
        . rw [hh', hh, Option.map_some, Option.map_some, Handler.rateLimit_receive hp htext]
        . rfl
        . unfold textAt
          split
          . next c' text now' heq => exact absurd (Action.receive.inj heq).2.1 (htext text)
          . rfl
    | step c =>
      obtain rfl : c = conn := hc
      obtain ⟨h, e, hh, he, hrun⟩ := handler_of_step hnext
      exact hlimits.idle (rateLimit_step he (moves_of_run hrun) hh) rfl rfl
    | close c =>
      obtain ⟨h, -, rfl⟩ := handler_of_close hnext
      exact hlimits.idle rfl rfl rfl
  . have hframe := handlers_frame hnext (Ne.symm hc)
    apply hlimits.idle (by rw [hframe])
    . cases action with
      | accept c clientIp now => exact if_neg hc
      | _ => rfl
    . unfold textAt
      split
      . next c text now heq =>
        dsimp only at heq
        rw [heq] at hc
        exact if_neg hc
      . rfl

theorem limits (hrun : (machine fromStr).Run tr s) : Limits conn tr s := by
  induction hrun with
  | init hinit =>
    obtain rfl : _ = start := hinit
    exact ⟨nofun, fun _ => ⟨rfl, rfl⟩⟩
  | step hrun hnext ih => exact ih.next hnext

/--
The limiter admits the next text of a client that conforms.
-/
theorem Limits.admits {h : Handler} {text : String} {now : Nat} (hlimits : Limits conn tr s)
    (hh : s.handlers conn = some h)
    (hconforms : Conforms conn (tr ++ [⟨s, .receive conn (.message (.text text)) now, s'⟩]))
    : (h.rateLimit.check now).2 = .ok () := by
  obtain ⟨start, haccepts, hlimit⟩ := hlimits.limiter h hh
  have hat : textAt conn ⟨s, .receive conn (.message (.text text)) now, s'⟩ = some now := by
    simp [textAt]
  have hsorted : (start :: (texts conn tr ++ [now])).Pairwise (· ≤ ·) := by
    have hsorted := hconforms.sorted
    rw [accepts_append, texts_append, haccepts, hat] at hsorted
    exact hsorted
  have hslow := hconforms.slow
  rw [texts_append, hat] at hslow
  apply RateLimit.ok_of_conforming hsorted hslow
  rw [RateLimit.checks_append_singleton, hlimit]
  apply List.mem_append_right
  exact List.mem_singleton_self _

/-! ### No one is cut off -/

/--
The server says no to the registration of the connection.
-/
def Refuses (t : Transition Server Action) (conn : PeerSender) : Prop :=
  ∃ h, t.target.handlers conn = some h ∧ h.pc.isRejecting = true

theorem isEnding_eq (pc : Handler.Pc) : pc.isEnding = (pc.isRejecting || pc.isLeaving) := by
  cases pc <;> rfl

/--
A handler that has just come to an end was ended by its client, or has said no before.
-/
theorem isEnding_next {action : Action} {h' : Handler} (hlimits : Limits conn tr s)
    (hconforms : Conforms conn (tr ++ [⟨s, action, s'⟩])) (hnext : s.next fromStr effect action = some s')
    (hh' : s'.handlers conn = some h') (hleaving : h'.pc.isLeaving = true)
    : ∃ h, s.handlers conn = some h ∧ h.pc.isEnding = true
        ∧ (h'.pc.identity = h.pc.identity ∨ h'.pc.identity = none) := by
  have hending : h'.pc.isEnding = true := by
    rw [isEnding_eq, hleaving, Bool.or_true]
  by_cases hc : action.connection = conn
  . cases action with
    | accept c clientIp now =>
      obtain rfl : c = conn := hc
      obtain ⟨-, hs'⟩ := handler_of_accept hnext
      have hself : s'.handlers c = some (.start clientIp now) := by
        rw [hs']
        apply Function.update_self
      obtain rfl := Option.some.inj (hself.symm.trans hh')
      cases hleaving
    | receive c received now =>
      obtain rfl : c = conn := hc
      obtain ⟨h, p, hh, hp, rfl⟩ := handler_of_receive hnext
      have hself : (s.respond c p).handlers c = some p.1 := Function.update_self ..
      obtain rfl := Option.some.inj (hself.symm.trans hh')
      have hstays : received.stays = true := by
        have hnot := hconforms.stays ⟨s, .receive c received now, s.respond c p⟩ (by simp)
        simpa [hangsUp] using hnot
      have hopen : p.1.pc.isLeaving = false := by
        apply Handler.isLeaving_receive hstays _ hp
        rintro text rfl
        exact hlimits.admits hh hconforms
      rw [hleaving] at hopen
      cases hopen
    | close c =>
      obtain ⟨h, hh, rfl⟩ := handler_of_close hnext
      exact ⟨h', hh', hending, .inl rfl⟩
    | step c =>
      obtain rfl : c = conn := hc
      obtain ⟨h, e, hh, he, hrun⟩ := handler_of_step hnext
      have hmoves := moves_of_run hrun
      cases hinput : e.input with
      | none =>
        rw [hmoves.idle hinput] at hh'
        exact ⟨h', hh', hending, .inl rfl⟩
      | some input =>
        obtain ⟨p, hp, hh''⟩ := hmoves.told input hinput
        obtain rfl := Option.some.inj (hh''.symm.trans hh')
        have hnot : ∀ received now, input ≠ .received received now := by
          intro received now hreceived
          exact input_effect he received now (hreceived ▸ hinput)
        have hbefore : h.pc.isEnding = true := by
          by_contra hopen
          rw [Bool.not_eq_true, isEnding_eq, Bool.or_eq_false_iff] at hopen
          have hstill := Handler.isLeaving_next hnot hp hopen.2 hopen.1
          rw [hleaving] at hstill
          cases hstill
        exact ⟨h, hh, hbefore, .inr (Handler.identity_next_of_ending hp hbefore)⟩
  . rw [handlers_frame hnext (Ne.symm hc)] at hh'
    exact ⟨h', hh', hending, .inl rfl⟩

theorem refused_of_ending (hrun : (machine fromStr).Run tr s) (hconforms : Conforms conn tr) {h : Handler}
    (hh : s.handlers conn = some h) (hending : h.pc.isEnding = true)
    : (∃ t ∈ tr, Refuses t conn) ∧ h.pc.identity = none := by
  induction hrun generalizing h with
  | init hinit =>
    obtain rfl : _ = start := hinit
    cases hh
  | @step tr s s' action hrun hnext ih =>
    cases hrejecting : h.pc.isRejecting with
    | true =>
      constructor
      . refine ⟨⟨s, action, s'⟩, ?_, h, hh, hrejecting⟩
        apply List.mem_append_right
        exact List.mem_singleton_self _
      . unfold Handler.Pc.isRejecting at hrejecting
        split at hrejecting
        . next e hpc =>
          rw [hpc]
          rfl
        . cases hrejecting
    | false =>
      rw [isEnding_eq, hrejecting, Bool.false_or] at hending
      obtain ⟨h₀, hh₀, hending₀, hidentity⟩ := isEnding_next (limits hrun) hconforms hnext hh hending
      obtain ⟨⟨t, ht, hrefuses⟩, hnone⟩ := ih hconforms.of_append hh₀ hending₀
      refine ⟨⟨t, List.mem_append_left _ ht, hrefuses⟩, ?_⟩
      rcases hidentity with hsame | hnone'
      . exact hsame.trans hnone
      . exact hnone'

/-! ### No one is forgotten -/

/--
The connection is in the room under the identity.
-/
def Placed (s : Server) (conn : PeerSender) (ip : String) (me : Identity) : Prop :=
  ∃ p ∈ s.manager.room ip, p.sender = conn ∧ p.peerCode = me.peerCode ∧ p.sessionId = me.sessionId

/--
A room that was found to be empty is dropped after the connection has entered it.
-/
def Sweeps (t : Transition Server Action) (conn : PeerSender) (ip : String) : Prop :=
  ∃ c, t.action = .step c ∧ t.source.calls c = some (.remove ip)
    ∧ ∃ p ∈ t.source.manager.room ip, p.sender = conn

def Loses (t : Transition Server Action) (conn : PeerSender) (ip code : String) : Prop :=
  Replaces t conn ip code ∨ Sweeps t conn ip

theorem placed_findPeer {h : Handler} {me : Identity} (hs : s.Consistent)
    (hplaced : s.Placed conn h.clientIp me) : s.manager.findPeer h.clientIp me.peerCode = some conn := by
  obtain ⟨p, hp, rfl, hcode, -⟩ := hplaced
  rw [← hcode]
  exact RoomManager.findPeer_of_mem hs.wellFormed hp

theorem Placed.of_mem {ip : String} {me : Identity} (hplaced : s.Placed conn ip me)
    (hmem : ∀ p ∈ s.manager.room ip, p.sender = conn → p.peerCode = me.peerCode → p.sessionId = me.sessionId →
      p ∈ s'.manager.room ip)
    : s'.Placed conn ip me := by
  obtain ⟨p, hp, hsender, hcode, hsession⟩ := hplaced
  exact ⟨p, hmem p hp hsender hcode hsession, hsender, hcode, hsession⟩

/--
Another handler that leaves its room takes no one along, as long as session ids have not come round.
-/
theorem Placed.leaveRoom {c : PeerSender} {h h' : Handler} {me me' : Identity} {calls : List PeerSender}
    (hs : s.Consistent) (hn : Numbered calls s) (hlength : calls.length ≤ 2 ^ 64) (hne : c ≠ conn)
    (hh : s.handlers conn = some h) (hme : h.pc.identity = some me) (hh' : s.handlers c = some h')
    (hpc : h'.pc = .removing me') (hplaced : s.Placed conn h.clientIp me)
    (hmanager : s'.manager = (s.manager.leaveRoom h'.clientIp me'.peerCode me'.sessionId).manager)
    : s'.Placed conn h.clientIp me := by
  apply hplaced.of_mem
  intro p hp hsender hcode hsession
  rw [hmanager, RoomManager.room_leaveRoom]
  split
  . next hip =>
    apply List.mem_filter.mpr
    refine ⟨hip ▸ hp, decide_eq_true ?_⟩
    rintro ⟨-, hsame⟩
    apply hne
    have hid := hs.sessionOf_eq hh hme
    have hid' := hs.sessionOf_eq hh' (by rw [hpc]; rfl)
    rw [← hsession, hsame] at hid
    exact (hn.unique hlength hid hid').symm
  . exact hp

theorem placed_step_other {c : PeerSender} {h : Handler} {me : Identity} (hs : s.Consistent)
    (hrun : (machine fromStr).Run tr s) (hlength : (addPeerCalls tr).length ≤ 2 ^ 64) (hne : c ≠ conn)
    (hnext : s.next fromStr effect (.step c) = some s') (hh : s.handlers conn = some h)
    (hme : h.pc.identity = some me) (hplaced : s.Placed conn h.clientIp me)
    : s'.Placed conn h.clientIp me ∨ Loses ⟨s, .step c, s'⟩ conn h.clientIp me.peerCode := by
  obtain ⟨h', hh', hstepped, -⟩ := hs.stepped hnext
  have hsame : RoomManager.SameRooms s.manager s'.manager → s'.Placed conn h.clientIp me := by
    intro hrooms
    apply hplaced.of_mem
    intro p hp _ _ _
    rwa [hrooms.room]
  cases hstepped with
  | beginAdd peer hpc hcall hmanager =>
    refine .inl (hsame ?_)
    rw [hmanager]
    exact fun _ => rfl
  | insideAdd pc pc' peer hcall hadded hnotEntry hadded' hin hmanager =>
    refine .inl (hsame ?_)
    rw [hmanager]
    exact fun _ => rfl
  | refused peer pc error hpc hcall hfull hrooms => exact .inl (hsame hrooms)
  | beginRemove me' hpc hcall hmanager =>
    refine .inl (hsame ?_)
    rw [hmanager]
    exact fun _ => rfl
  | move h'' hadding hremoving hcall hmanager =>
    refine .inl (hsame ?_)
    rw [hmanager]
    exact fun _ => rfl
  | leave me' hpc hcall hmanager | leaveLast me' hpc hcall hmanager =>
    exact .inl (hplaced.leaveRoom hs (numbered hrun) hlength hne hh hme hh' hpc hmanager)
  | drop me' hpc hcall hmanager =>
    by_cases hip : h.clientIp = h'.clientIp
    . obtain ⟨p, hp, hsender, -⟩ := hplaced
      refine .inr (.inr ⟨c, rfl, ?_, p, hp, hsender⟩)
      rw [hip]
      exact hcall
    . refine .inl (hplaced.of_mem ?_)
      intro p hp _ _ _
      rw [hmanager, RoomManager.room_dropRoom, if_neg hip]
      exact hp
  | registered peer existingPeers hcall hin hregisters hmanager =>
    have hroom : ∀ ip, s'.manager.room ip
        = if ip = h'.clientIp then s.manager.others h'.clientIp peer.peerCode ++ [peer]
          else s.manager.room ip := by
      intro ip
      rw [hmanager, hregisters.room]
    by_cases hip : h.clientIp = h'.clientIp
    . by_cases hcode : me.peerCode = peer.peerCode
      . obtain ⟨p, hp, hsender, hcode', -⟩ := hplaced
        refine .inr (.inl ⟨p, hp, hsender, hcode', ?_, peer, ?_, hcode.symm⟩)
        . dsimp only
          rw [hroom, if_pos hip, List.mem_append, List.mem_singleton]
          rintro (hothers | rfl)
          . have hnot := (List.mem_filter.mp hothers).2
            exact of_decide_eq_true hnot (hcode'.trans hcode)
          . exact hne (hin.2.1.symm.trans hsender)
        . dsimp only
          rw [hroom, if_pos hip]
          apply List.mem_append_right
          exact List.mem_singleton_self _
      . refine .inl (hplaced.of_mem ?_)
        intro p hp _ hcode' _
        rw [hroom, if_pos hip]
        apply List.mem_append_left
        apply List.mem_filter.mpr
        rw [← hip]
        refine ⟨hp, decide_eq_true ?_⟩
        rw [hcode']
        exact hcode
    . refine .inl (hplaced.of_mem ?_)
      intro p hp _ _ _
      rw [hroom, if_neg hip]
      exact hp

/--
Where a connection gets to by its own step, it is in the room, or was in its message loop before.
-/
theorem placed_step_self {h' : Handler} {me : Identity} (hs : s.Consistent)
    (hnext : s.next fromStr effect (.step conn) = some s') (hh' : s'.handlers conn = some h')
    (hme : h'.pc.identity = some me) (hopen : h'.pc.isLeaving = false)
    : s'.Placed conn h'.clientIp me
      ∨ ∃ h, s.handlers conn = some h ∧ h.clientIp = h'.clientIp ∧ h.pc.identity = some me
        ∧ h.pc.isLeaving = false ∧ s'.manager = s.manager := by
  obtain ⟨h, hh, hstepped, -⟩ := hs.stepped hnext
  have hleaving : ∀ h'', s'.handlers conn = some h'' → h''.pc.isLeaving = true → False := by
    intro h'' hh'' hleaving
    obtain rfl := Option.some.inj (hh'.symm.trans hh'')
    rw [hopen] at hleaving
    cases hleaving
  have hidentity : ∀ h'', s'.handlers conn = some h'' → h''.pc.identity = none → False := by
    intro h'' hh'' hnone
    obtain rfl := Option.some.inj (hh'.symm.trans hh'')
    rw [hme] at hnone
    cases hnone
  cases hstepped with
  | beginAdd peer hpc hcall hmanager hcall' hh'' => exact (hidentity h hh'' (by rw [hpc]; rfl)).elim
  | insideAdd pc pc' peer hcall hadded hnotEntry hadded' hin hmanager hcall' hh'' =>
    obtain ⟨-, peer', hpc, -⟩ := adding_of_inCall hin hadded'
    exact (hidentity h hh'' (by rw [hpc]; rfl)).elim
  | refused peer pc error hpc hcall hfull hrooms hcounter hcall' hh'' => exact (hidentity _ hh'' rfl).elim
  | registered peer existingPeers hcall hin hregisters hmanager hcall' hh'' =>
    obtain rfl := Option.some.inj (hh'.symm.trans hh'')
    obtain rfl := Option.some.inj hme
    refine .inl ⟨peer, ?_, hin.2.1, rfl, rfl⟩
    rw [hmanager, hregisters.room, Handler.clientIp_goto, if_pos rfl]
    apply List.mem_append_right
    exact List.mem_singleton_self _
  | beginRemove me' hpc hcall hmanager hcall' hh'' => exact (hleaving h hh'' (by rw [hpc]; rfl)).elim
  | leave me' hpc hcall hmanager hresult hcall' hh'' => exact (hleaving _ hh'' rfl).elim
  | leaveLast me' hpc hcall hmanager hresult hcall' hh'' => exact (hleaving h hh'' (by rw [hpc]; rfl)).elim
  | drop me' hpc hcall hmanager hcall' hh'' => exact (hleaving _ hh'' rfl).elim
  | move h'' hadding hremoving hcall hmanager hcall' hh'' hip hsame hadding' =>
    obtain rfl := Option.some.inj (hh'.symm.trans hh'')
    rw [hsame] at hme
    refine .inr ⟨h, hh, hip.symm, hme, ?_, hmanager⟩
    apply (not_isLeaving_of_identity hremoving).resolve_left
    simp [hme]

theorem addPeerCalls_append_le (tr : List (Transition Server Action)) (t : Transition Server Action) :
    (addPeerCalls tr).length ≤ (addPeerCalls (tr ++ [t])).length := by
  unfold addPeerCalls
  rw [List.filterMap_append, List.length_append]
  apply Nat.le_add_right

/--
A connection that has registered is in its room for as long as its handler does not end it, unless another
one has taken its peer code there, or the room has been swept away with it.
-/
theorem placed (hrun : (machine fromStr).Run tr s) (hlength : (addPeerCalls tr).length ≤ 2 ^ 64) {h : Handler}
    {me : Identity} (hh : s.handlers conn = some h) (hme : h.pc.identity = some me)
    (hopen : h.pc.isLeaving = false)
    : s.Placed conn h.clientIp me ∨ ∃ t ∈ tr, Loses t conn h.clientIp me.peerCode := by
  induction hrun generalizing h with
  | init hinit =>
    obtain rfl : _ = start := hinit
    cases hh
  | @step tr s s' action hrun hnext ih =>
    have hshorter : (addPeerCalls tr).length ≤ 2 ^ 64 :=
      Nat.le_trans (addPeerCalls_append_le tr ⟨s, action, s'⟩) hlength
    have hs : s.Consistent := consistent hrun.reachable
    -- what is placed or lost already
    have hbefore : ∀ h₀, s.handlers conn = some h₀ → h₀.clientIp = h.clientIp → h₀.pc.identity = some me →
        h₀.pc.isLeaving = false → s'.manager = s.manager →
        s'.Placed conn h.clientIp me
          ∨ ∃ t ∈ tr ++ [⟨s, action, s'⟩], Loses t conn h.clientIp me.peerCode := by
      intro h₀ hh₀ hip hme₀ hopen₀ hmanager
      rw [← hip]
      rcases ih hshorter hh₀ hme₀ hopen₀ with hplaced | ⟨t, ht, hloses⟩
      . refine .inl (hplaced.of_mem ?_)
        intro p hp _ _ _
        rwa [hmanager]
      . exact .inr ⟨t, List.mem_append_left _ ht, hloses⟩
    by_cases hc : action.connection = conn
    . cases action with
      | accept c clientIp now =>
        obtain rfl : c = conn := hc
        obtain ⟨-, hs'⟩ := handler_of_accept hnext
        have hself : s'.handlers c = some (.start clientIp now) := by
          rw [hs']
          apply Function.update_self
        obtain rfl := Option.some.inj (hself.symm.trans hh)
        cases hme
      | receive c received now =>
        obtain rfl : c = conn := hc
        obtain ⟨h₀, p, hh₀, hp, rfl⟩ := handler_of_receive hnext
        have hself : (s.respond c p).handlers c = some p.1 := Function.update_self ..
        obtain rfl := Option.some.inj (hself.symm.trans hh)
        obtain ⟨hip, hsame, -⟩ := identity_receive hp
        apply hbefore h₀ hh₀ hip.symm (hsame.symm.trans hme) _ rfl
        rcases Handler.pc_of_receive hp with hpc | ⟨me', hpc⟩
        . rw [hpc]
          rfl
        . rw [hpc]
          rfl
      | close c =>
        obtain ⟨h₀, hh₀, rfl⟩ := handler_of_close hnext
        exact hbefore h hh rfl hme hopen rfl
      | step c =>
        obtain rfl : c = conn := hc
        rcases placed_step_self hs hnext hh hme hopen with hplaced | ⟨h₀, hh₀, hip, hme₀, hopen₀, hmanager⟩
        . exact .inl hplaced
        . exact hbefore h₀ hh₀ hip hme₀ hopen₀ hmanager
    . have hframe := handlers_frame hnext (Ne.symm hc)
      rw [hframe] at hh
      by_cases hstep : ∃ c, action = .step c
      . obtain ⟨c, rfl⟩ := hstep
        rcases ih hshorter hh hme hopen with hplaced | ⟨t, ht, hloses⟩
        . rcases placed_step_other hs hrun hshorter hc hnext hh hme hplaced with hplaced | hloses
          . exact .inl hplaced
          . exact .inr ⟨_, List.mem_append_right _ (List.mem_singleton_self _), hloses⟩
        . exact .inr ⟨t, List.mem_append_left _ ht, hloses⟩
      . exact hbefore h hh rfl hme hopen (manager_of_not_step (not_exists.mp hstep) hnext).1

/--
One client registers and sends a signal, and another one floods the server until it is cut off.
-/
def besideAFlood : List Action :=
  connects 1 "10.0.0.1" "B7H2MN" ++ List.replicate 5 (.step 1) ++ connects 2 "10.0.0.1" "C8J3PQ"
    ++ List.replicate 4 (.step 2) ++ List.replicate 52 (hears 2 "C8J3PQ") ++ [hears 1 "@C8J3PQ"]

end Server

end Rendezvous

end LocalBolt
