import CoapEap.Controller.Retransmission
import CoapEap.Controller.Sessions

/-!
What the handlers give to the EAP layer of their session as a response, and how
`process_acknowledgment` cuts it out of the payload of an acknowledgment.
-/

namespace CoapEap.Mainserver

open Cantcoap EapServer Lalarm Radius Library.Runs

/-- A call of `eap_auth_set_eapRespData`: the buffer that its pointer leads into,
the memory behind that buffer, and how many bytes are copied. -/
structure RespDataCall where
  buffer : Bytes
  behind : Bytes
  length : Nat
  deriving DecidableEq, Repr

/-- What the EAP layer is given. -/
def RespDataCall.data (c : RespDataCall) : Bytes := readBehind c.buffer c.behind c.length

/-- The copy reads nothing behind the buffer. -/
def RespDataCall.inside (c : RespDataCall) : Prop := c.length ≤ c.buffer.length

/-- The call of `process_acknowledgment`, which state 2 makes for a payload of any
kind. -/
def acknowledgmentResponse (s : Controller) (task : NetworkTask) (p : Ptr) (call : Call) :
    Option RespDataCall :=
  match validate task.buf with
  | none => none
  | some request =>
    if (s.heap p).currentState = 2 ∧ hasOption task.buf request optionAuth = false then
      some ⟨request.payload, 0 :: call.behind,
        byteAt request.payload 2 * 10 + byteAt request.payload 3⟩
    else none

variable {s t : Controller} {p : Ptr} {call : Call} {data : Bytes}
variable {task : NetworkTask} {post : Ptr × Nat} {c : RespDataCall} {request : Validated}

/-- The EAP layer of a session is stepped with the response it was given. -/
def StepsWith (s : Controller) (p : Ptr) (call : Call) (data : Bytes)
    (result : Except Halt Controller) : Prop :=
  match eapAuthStep (setEapResponse (s.heap p).eapCtx data) s.radius p call with
  | .error reason => result = .error reason
  | .ok r => ∃ t, result = .ok t ∧ (t.heap p).eapCtx = r.ctx

theorem stepSession_stepsWith {u : Controller} {session : Session} (hradius : u.radius = s.radius)
    (hctx : session.eapCtx = setEapResponse (s.heap p).eapCtx data) :
    StepsWith s p call data (stepSession u p session call) := by
  simp only [StepsWith, stepSession, hctx, hradius]
  cases eapAuthStep (setEapResponse (s.heap p).eapCtx data) s.radius p call with
  | error reason => rfl
  | ok r =>
    refine ⟨_, rfl, ?_⟩
    simp [Controller.setSession]

/-- An acknowledgment steps its session's EAP layer with what the call gives. -/
theorem processAcknowledgment_stepsWith (h : acknowledgmentResponse s task p call = some c) :
    StepsWith s p call c.data (processAcknowledgment s task post p call) := by
  unfold acknowledgmentResponse at h
  cases hvalid : validate task.buf with
  | none => simp [hvalid] at h
  | some request =>
    simp only [hvalid, Option.ite_none_right_eq_some, Option.some.injEq] at h
    obtain ⟨⟨hstate, hauth⟩, rfl⟩ := h
    simp only [processAcknowledgment, hvalid, acknowledgmentSwitch, Controller.record_heap,
      Controller.setSession_heap_self, hstate, hauth, Bool.false_eq_true, if_false]
    exact stepSession_stepsWith rfl rfl

/-- Where no call is made, no EAP layer changes. -/
theorem processAcknowledgment_gives_nothing
    (hnone : acknowledgmentResponse s task p call = none)
    (h : processAcknowledgment s task post p call = .ok t) (q : Ptr) :
    (t.heap q).eapCtx = (s.heap q).eapCtx := by
  obtain ⟨request, u, hvalid, rfl, ⟨hstate, hauth, -⟩ | ⟨-, rfl⟩ | ⟨-, -, rfl⟩⟩ :=
    processAcknowledgment_ok h
  · simp [acknowledgmentResponse, hvalid, hstate, hauth] at hnone
  · by_cases hq : q = p
    · subst hq
      simp [removeCoapEapSession, cancelPostAlarm]
    · simp [removeCoapEapSession, cancelPostAlarm, Controller.setSession_heap_ne _ _ hq]
  · by_cases hq : q = p
    · subst hq
      simp
    · simp [Controller.setSession_heap_ne _ _ hq]

/-- The EAP message in front of the payload, as its own length field says, and
nothing when the payload holds no whole message. -/
def eapMessage (payload : Bytes) : Option Bytes :=
  let length := be16At payload 2
  if 4 ≤ length ∧ length ≤ payload.length then some (payload.take length) else none

/-- The EAP layer is given exactly the message, read from the payload alone. -/
def CutExactly (payload : Bytes) (given : Option RespDataCall) : Prop :=
  given.map RespDataCall.data = eapMessage payload ∧ ∀ c, given = some c → c.inside

/-- The high byte of the length is zero and the low one a length of a message that
the payload holds. -/
def lengthInLowByte (payload : Bytes) : Bool :=
  byteAt payload 2 = 0 && 4 ≤ byteAt payload 3 && byteAt payload 3 ≤ payload.length

theorem readBehind_take {b behind : Bytes} {n : Nat} (h : n ≤ b.length) :
    readBehind b behind n = b.take n := by
  rw [readBehind, List.append_assoc, List.take_append_of_le_length h]

/-- In state 2 the message is cut exactly when the length is in the low byte: the
source takes ten times the high byte, and hands over whatever that gives. -/
theorem acknowledged_message_cut_exactly_iff
    (hstate : (s.heap p).currentState = 2) (hvalid : validate task.buf = some request)
    (hauth : hasOption task.buf request optionAuth = false) :
    CutExactly request.payload (acknowledgmentResponse s task p call) ↔
      lengthInLowByte request.payload = true := by
  have hcall : acknowledgmentResponse s task p call = some ⟨request.payload, 0 :: call.behind,
      byteAt request.payload 2 * 10 + byteAt request.payload 3⟩ := by
    simp [acknowledgmentResponse, hvalid, hstate, hauth]
  have hfield : be16At request.payload 2 =
      256 * byteAt request.payload 2 + byteAt request.payload 3 := rfl
  simp only [CutExactly, hcall, eapMessage, lengthInLowByte, Bool.and_eq_true, decide_eq_true_eq,
    Option.map_some, Option.some.injEq, forall_eq']
  constructor
  · rintro ⟨hgiven, -⟩
    split at hgiven
    · rename_i hwhole
      have hlength := congrArg List.length (Option.some.inj hgiven)
      rw [RespDataCall.data, readBehind_length, List.length_take_of_le hwhole.2] at hlength
      dsimp only at hlength
      omega
    · simp at hgiven
  · rintro ⟨⟨hhigh, hheader⟩, hshort⟩
    have hwhole : 4 ≤ be16At request.payload 2 ∧
        be16At request.payload 2 ≤ request.payload.length := by
      omega
    have hlength : byteAt request.payload 2 * 10 + byteAt request.payload 3 =
        be16At request.payload 2 := by
      omega
    rw [if_pos hwhole, hlength]
    exact ⟨congrArg some (readBehind_take hwhole.2), hwhole.2⟩

/-- An acknowledgment of the first POST, whose payload has six bytes and these two
in its length field. -/
def lengthAck (high low : UInt8) : Bytes :=
  [0x64, 0x41, 0x00, 0x01] ++ le32 1 ++ [0xFF, 0x02, 0x01, high, low, 0x01, 0x61]

def lengthAckTask (high low : UInt8) : NetworkTask := ⟨lengthAck high low, ⟨[1], 5683⟩, 0⟩

/-- The acknowledgment arrives and a worker stands before its handler. -/
def acknowledgedWith (ack : Bytes) : List Event :=
  comesIn 1 ++ [.recvCoap ack ⟨[1], 5683⟩ {}, .lockAcknowledgment, .getTask, .lookup 0 []]

/-- A worker has that task in hand, with its session in state 2. -/
def awaitsHandler (s : Controller) (task : NetworkTask) : Bool :=
  s.workers == [.acknowledgment task (0, 1) 0] && (s.heap 0).currentState == 2

theorem six_bytes_cut_exactly : ∃ s, Reachable noAnswers s ∧
    s.workers = [.acknowledgment (lengthAckTask 0 6) (0, 1) 0] ∧
    CutExactly [0x02, 0x01, 0x00, 0x06, 0x01, 0x61]
      (acknowledgmentResponse s (lengthAckTask 0 6) 0 {}) := by
  have hrun : (run (step noAnswers) initialController (acknowledgedWith (lengthAck 0 6))).any
      (awaitsHandler · (lengthAckTask 0 6)) = true := by
    decide +kernel
  obtain ⟨s, hs, hcheck⟩ := exists_of_run hrun
  simp only [awaitsHandler, Bool.and_eq_true, beq_iff_eq] at hcheck
  have hvalid : validate (lengthAckTask 0 6).buf =
      some ⟨0, [0x02, 0x01, 0x00, 0x06, 0x01, 0x61]⟩ := by
    decide +kernel
  have hauth : hasOption (lengthAckTask 0 6).buf ⟨0, [0x02, 0x01, 0x00, 0x06, 0x01, 0x61]⟩
      optionAuth = false := by
    decide +kernel
  exact ⟨s, reachable_of_run hs, hcheck.1,
    (acknowledged_message_cut_exactly_iff hcheck.2 hvalid hauth).mpr (by decide)⟩

/-- A length of 260 in a payload of six bytes: fourteen bytes are handed over. -/
theorem long_length_read_beyond_payload :
    ¬ ∀ digests s, Reachable digests s → ∀ (i : Nat) task post p call request,
      s.workers[i]? = some (.acknowledgment task post p) → (s.heap p).currentState = 2 →
      validate task.buf = some request → hasOption task.buf request optionAuth = false →
        CutExactly request.payload (acknowledgmentResponse s task p call) := by
  intro hstated
  have hrun : (run (step noAnswers) initialController (acknowledgedWith (lengthAck 1 4))).any
      (awaitsHandler · (lengthAckTask 1 4)) = true := by
    decide +kernel
  obtain ⟨s, hs, hcheck⟩ := exists_of_run hrun
  simp only [awaitsHandler, Bool.and_eq_true, beq_iff_eq] at hcheck
  have hworker : s.workers[(0 : Nat)]? = some (.acknowledgment (lengthAckTask 1 4) (0, 1) 0) := by
    rw [hcheck.1]
    rfl
  have hvalid : validate (lengthAckTask 1 4).buf =
      some ⟨0, [0x02, 0x01, 0x01, 0x04, 0x01, 0x61]⟩ := by
    decide +kernel
  have hauth : hasOption (lengthAckTask 1 4).buf ⟨0, [0x02, 0x01, 0x01, 0x04, 0x01, 0x61]⟩
      optionAuth = false := by
    decide +kernel
  have hgiven : acknowledgmentResponse s (lengthAckTask 1 4) 0 {} =
      some ⟨[0x02, 0x01, 0x01, 0x04, 0x01, 0x61], [0], 14⟩ := by
    simp only [acknowledgmentResponse, hvalid, hcheck.2, hauth, true_and, if_true]
    rfl
  obtain ⟨-, hinside⟩ := hstated noAnswers s (reachable_of_run hs) 0 _ _ 0 {} _ hworker hcheck.2
    hvalid hauth
  have hread : (14 : Nat) ≤ 6 := hinside _ hgiven
  omega

end CoapEap.Mainserver
