import LocalBolt.Rendezvous.Lemmas.Handler
import LocalBolt.Rendezvous.Spec.Room

/-!
This module contains that a handler does the same whatever its session id is.
-/

namespace LocalBolt

namespace Rendezvous

@[simp]
theorem PeerInfo.peerCode_anonymous (peer : PeerInfo) : peer.anonymous.peerCode = peer.peerCode := rfl

@[simp]
theorem PeerInfo.sender_anonymous (peer : PeerInfo) : peer.anonymous.sender = peer.sender := rfl

@[simp]
theorem PeerInfo.toPeerData_anonymous (peer : PeerInfo) :
    peer.anonymous.toPeerData = peer.toPeerData := rfl

namespace Handler

/--
A reply with the session id of its handler left out.
-/
def anonymousReply (p : Handler × List ServerMessage) : Handler × List ServerMessage :=
  (p.1.anonymous, p.2)

@[simp]
theorem clientIp_anonymous (h : Handler) : h.anonymous.clientIp = h.clientIp := rfl

theorem admitText_anonymous {h : Handler} {closing : Pc}
    {answer answer' : Handler → Handler × List ServerMessage} (text : String) (now : Nat)
    (hanswer : ∀ h, anonymousReply (answer h) = answer' h.anonymous)
    : anonymousReply (h.admitText text now closing answer)
        =
      h.anonymous.admitText text now closing.anonymous answer' := by
  have hcheck : h.anonymous.rateLimit = h.rateLimit := rfl
  unfold admitText
  rw [hcheck]
  dsimp only
  split
  . rfl
  . rfl
  . split
    . rfl
    . apply hanswer

theorem answerRegister_anonymous (tx : PeerSender) (message : Except String ClientMessage)
    (h : Handler) :
    anonymousReply (answerRegister tx message h) = answerRegister tx message h.anonymous := by
  unfold answerRegister
  split
  . split
    . rfl
    . split <;> rfl
  . rfl
  . rfl

theorem answerSignal_anonymous (me : Identity) (h : Handler) (target : String) (payload : Json)
    (manual : Bool)
    : anonymousReply (answerMessage.answerSignal me h target payload manual)
        =
      answerMessage.answerSignal me.anonymous h.anonymous target payload manual := by
  unfold answerMessage.answerSignal
  split <;> rfl

theorem answerMessage_anonymous (me : Identity) (message : Except String ClientMessage) (h : Handler)
    : anonymousReply (answerMessage me message h)
        =
      answerMessage me.anonymous message h.anonymous := by
  unfold answerMessage
  split
  . apply answerSignal_anonymous
  . apply answerSignal_anonymous
  . rfl
  . rfl
  . rfl

variable (fromStr : String → Except String ClientMessage) (tx : PeerSender)

theorem receive_anonymous (h : Handler) (received : Received) (now : Nat)
    : h.anonymous.receive fromStr tx received now
        =
      (h.receive fromStr tx received now).map anonymousReply := by
  have hpc : h.anonymous.pc = h.pc.anonymous := rfl
  unfold receive
  rw [hpc]
  cases h.pc with
  | registering =>
    dsimp only [Pc.anonymous]
    split
    . next text =>
      rw [Option.map_some, admitText_anonymous text now (answerRegister_anonymous tx (fromStr text))]
      rfl
    all_goals rfl
  | serving me =>
    dsimp only [Pc.anonymous]
    split
    . rfl
    . next text =>
      rw [Option.map_some, admitText_anonymous text now (answerMessage_anonymous me (fromStr text))]
      rfl
    all_goals rfl
  | _ => rfl

theorem next_anonymous (h : Handler) (input : Input)
    : h.anonymous.next fromStr tx input.anonymous
        =
      (h.next fromStr tx input).map anonymousReply := by
  have hpc : h.anonymous.pc = h.pc.anonymous := rfl
  cases input with
  | received received now => apply receive_anonymous
  | added result =>
    simp only [next, hpc, Input.anonymous]
    cases h.pc with
    | adding peer => cases result <;> rfl
    | _ => rfl
  | found lookup =>
    simp only [next, hpc, Input.anonymous]
    cases h.pc <;> rfl
  | relayed delivered =>
    simp only [next, hpc, Input.anonymous]
    cases h.pc <;> rfl
  | removed =>
    simp only [next, hpc, Input.anonymous]
    cases h.pc <;> rfl
  | proceed =>
    simp only [next, hpc, Input.anonymous]
    cases h.pc <;> rfl

end Handler

end Rendezvous

end LocalBolt
