import CoapEap.Controller.WellFormed
import Mathlib.Logic.Relation

/-!
The life of one session. Whatever the other threads do in between, a session
goes through the changes of `SessionChange`, so what every change preserves holds
of every session in every run.
-/

namespace CoapEap.Mainserver

open Cantcoap EapServer Lalarm Radius Library.Runs Relation

/-- The EAP context of a session takes a step with the RADIUS client of the
moment. -/
def EapStepped (ctx ctx' : EapAuthCtx) : Prop :=
  ∃ radius p call r, eapAuthStep ctx radius p call = .ok r ∧ r.ctx = ctx'

/-- What the handler of a new session sets before the first EAP step. -/
def openedSession (session : Session) (request : Validated) : Session :=
  { session with
    location := some (if request.payload = [] then defaultLocation else request.payload)
    eapCtx := { session.eapCtx with eap := { session.eapCtx.eap with eapRestart := true } } }

inductive SessionChange (digests : Digests) : Session → Session → Prop
  | received (session : Session) (buf : Bytes) :
      SessionChange digests session { session with lastReceivedMessage := some buf }
  | opened (session : Session) (buf packet : Bytes) (request : Validated) (ctx : EapAuthCtx)
      (short : buf.length < 100) (valid : validate buf = some request)
      (stepped : EapStepped (openedSession session request).eapCtx ctx)
      (asked : ctx.eap.eapReqData = some packet) :
      SessionChange digests session
        (storePost { openedSession session request with
          eapCtx := ctx, currentState := 2, lastReceivedMessage := some buf }
          (firstPost { openedSession session request with
            eapCtx := ctx, currentState := 2, lastReceivedMessage := some buf } packet))
  | fed (session : Session) (buf data : Bytes) (request : Validated) (ctx : EapAuthCtx)
      (state : session.currentState = 2)
      (stepped : EapStepped (setEapResponse session.eapCtx data) ctx) :
      SessionChange digests session { session with
        location := some (getLocation buf request 30), eapCtx := ctx }
  | located (session : Session) (buf : Bytes) (request : Validated)
      (state : session.currentState ≠ 2) :
      SessionChange digests session { session with
        location := some (getLocation buf request 30) }
  | answered (session : Session) (msg : RadiusMsg) (entry : RadiusMsgList) (rand : Nat)
      (accepted : acceptsAnswer digests msg entry.msg = true) (eap : EapSm)
      (stepped : eap =
        eapServerSmStep (answerEap digests msg entry.msg session.eapCtx.eap) rand)
      (sound : eap.faulted = false) :
      SessionChange digests session { session with
        eapCtx := { session.eapCtx with eap, lastRecvRadius := some msg } }
  | wroteIdentity (session : Session) (first : session.eapWorkarround = 0)
      (running : session.eapCtx.eap.eapFail = false) :
      SessionChange digests session { session with
        eapWorkarround := session.eapWorkarround + 1, userId := alphaUserId, mutex := true }
  | handedIdentity (session : Session) (data : Bytes) (ctx : EapAuthCtx)
      (stepped : EapStepped (setEapResponse session.eapCtx data) ctx) :
      SessionChange digests session { session with mutex := false, eapCtx := ctx }
  | posted (session : Session) (packet : Bytes)
      (asked : session.eapCtx.eap.eapReqData = some packet)
      (running : session.eapCtx.eap.eapFail = false) :
      SessionChange digests session
        (storePost (radiusPostSession session) (radiusPost (radiusPostSession session) packet))
  | sendFailed (session : Session) :
      SessionChange digests session { radiusPostSession session with mutex := true }
  | counted (session : Session) (rtxCounter : UInt16) (rt : Rat) :
      SessionChange digests session { session with rtxCounter, rt }

variable {s t : Controller} {i : Nat} {e : Event} {digests : Digests}

/-- A task of a new session carries at most what the receive buffer holds. -/
def Worker.openBuf : Worker → Option Bytes
  | .took (.processCoapMsg task) => some task.buf
  | .coapMsg task _ => some task.buf
  | _ => none

def ShortRequests (s : Controller) : Prop :=
  ∀ w ∈ s.activities, ∀ buf, w.openBuf = some buf → buf.length < 100

theorem ShortRequests.step (hs : ShortRequests s) (h : step digests s e = some t) :
    ShortRequests t := by
  intro w hw buf hbuf
  rcases step_activities h w hw with hold | harises
  · exact hs w hold buf hbuf
  · cases harises with
    | created datagram source arrival =>
      obtain rfl : datagram.take (maxBufLen - 1) = buf := by simpa [Worker.openBuf] using hbuf
      have hlength : (datagram.take (maxBufLen - 1)).length ≤ maxBufLen - 1 :=
        List.length_take_le ..
      exact Nat.lt_of_le_of_lt hlength (by decide)
    | foundCoap i stack task p hfrom => exact hs _ hfrom buf hbuf
    | _ => simp [Worker.openBuf] at hbuf

theorem shortRequests {guard : Controller → Event → Prop}
    (h : ReachableUnder (step digests) guard initialController s) : ShortRequests s := by
  refine h.invariant ?_ fun _ _ _ _ hs _ hstep => hs.step hstep
  simp [ShortRequests, initialController, Controller.activities]

variable {p q : Ptr} {call : Call}

theorem stepSession_heap {session : Session} (h : stepSession s p session call = .ok t) :
    (∃ ctx, EapStepped session.eapCtx ctx ∧ t.heap p = { session with eapCtx := ctx }) ∧
      ∀ q, q ≠ p → t.heap q = s.heap q := by
  obtain ⟨r, hr, rfl⟩ := stepSession_ok h
  refine ⟨⟨r.ctx, ⟨_, _, _, r, hr, rfl⟩, by simp [Controller.setSession]⟩, ?_⟩
  intro q hq
  simp [Controller.setSession, hq]

theorem armPost_heap {session : Session} {pdu : Bytes} {now : Rat} (hq : q ≠ p) :
    (armPost s p session pdu now).heap q = s.heap q := by
  simp [armPost, addPostAlarm, cancelPostAlarm, Controller.setSession_heap_ne _ _ hq]

theorem processCoapMsg_change {task : NetworkTask} (hshort : task.buf.length < 100)
    (h : processCoapMsg s task p call = .ok t) :
    SessionChange digests (s.heap p) (t.heap p) ∧ ∀ q, q ≠ p → t.heap q = s.heap q := by
  obtain ⟨u, session, packet, -, ⟨request, hvalid, hstep⟩, hsession, hpacket, rfl⟩ :=
    processCoapMsg_ok h
  obtain ⟨⟨ctx, hstepped, hu⟩, hothers⟩ := stepSession_heap hstep
  have hopened : session = { openedSession (s.heap p) request with
      eapCtx := ctx, currentState := 2, lastReceivedMessage := some task.buf } := by
    rw [hsession, hu]
    rfl
  have hasked : ctx.eap.eapReqData = some packet := by
    rw [hu] at hpacket
    exact hpacket
  constructor
  · rw [Controller.record_heap, armPost_session, hopened]
    exact .opened _ _ packet request ctx hshort hvalid hstepped hasked
  · intro q hq
    rw [Controller.record_heap, armPost_heap hq, hothers q hq]

theorem processAcknowledgment_change {task : NetworkTask} {post : Ptr × Nat}
    (h : processAcknowledgment s task post p call = .ok t) :
    SessionChange digests (s.heap p) (t.heap p) ∧ ∀ q, q ≠ p → t.heap q = s.heap q := by
  obtain ⟨request, u, hvalid, rfl, ⟨hstate, -, hstep⟩ | ⟨hstate, rfl⟩ | ⟨hnot, -, rfl⟩⟩ :=
    processAcknowledgment_ok h
  · obtain ⟨⟨ctx, hstepped, ht⟩, hothers⟩ := stepSession_heap hstep
    simp only [Controller.record_heap, Controller.setSession_heap_self] at hstepped ht hothers
    constructor
    · rw [ht]
      exact .fed (s.heap p) task.buf _ request ctx hstate hstepped
    · intro q hq
      rw [hothers q hq, Controller.setSession_heap_ne _ _ hq]
  · constructor
    · have hlocated : SessionChange digests (s.heap p) { s.heap p with
          location := some (getLocation task.buf request 30) } :=
        .located (s.heap p) task.buf request (by omega)
      simpa [removeCoapEapSession, cancelPostAlarm] using hlocated
    · intro q hq
      simp [removeCoapEapSession, cancelPostAlarm, Controller.setSession_heap_ne _ _ hq]
  · constructor
    · have hlocated : SessionChange digests (s.heap p) { s.heap p with
          location := some (getLocation task.buf request 30) } :=
        .located (s.heap p) task.buf request hnot
      simpa using hlocated
    · intro q hq
      simp [Controller.setSession_heap_ne _ _ hq]

theorem radiusClientReceive_change {msg : RadiusMsg}
    (h : radiusClientReceive digests s msg call = .ok t) (q : Ptr) :
    t.heap q = s.heap q ∨ SessionChange digests (s.heap q) (t.heap q) := by
  rcases radiusClientReceive_ok h with ⟨-, rfl⟩ | ⟨entry, -, ⟨-, rfl⟩ |
    ⟨haccepted, q', eap, -, heap, hsound, rfl⟩⟩
  · exact .inl rfl
  · exact .inl rfl
  · by_cases hq : q = q'
    · subst hq
      right
      rw [Controller.setSession_heap_self]
      exact .answered (s.heap q) msg entry call.rand haccepted eap heap hsound
    · left
      rw [Controller.setSession_heap_ne _ _ hq]

theorem sendRadiusPost_change {packet : Bytes}
    (hasked : (s.heap p).eapCtx.eap.eapReqData = some packet)
    (hrunning : (s.heap p).eapCtx.eap.eapFail = false)
    (h : sendRadiusPost s p packet call = .ok t) :
    SessionChange digests (s.heap p) (t.heap p) ∧ ∀ q, q ≠ p → t.heap q = s.heap q := by
  rcases (sendRadiusPost_ok h).2 with ⟨-, rfl⟩ | ⟨-, rfl⟩
  · constructor
    · rw [Controller.record_heap, armPost_session]
      exact .posted _ packet hasked hrunning
    · intro q hq
      rw [Controller.record_heap, armPost_heap hq]
  · constructor
    · rw [Controller.setSession_heap_self]
      exact .sendFailed _
    · intro q hq
      rw [Controller.setSession_heap_ne _ _ hq]

theorem processReceiveRadiusMsg_change {msg : RadiusMsg} {identity : Bool}
    (h : processReceiveRadiusMsg digests s msg p call = .ok (t, identity)) (q : Ptr) :
    ReflTransGen (SessionChange digests) (s.heap q) (t.heap q) := by
  obtain ⟨u, hu, hrunning, hcase⟩ := processReceiveRadiusMsg_ok h
  have hreceived : ReflTransGen (SessionChange digests) (s.heap q) (u.heap q) := by
    rcases radiusClientReceive_change hu q with hsame | hchange
    · rw [hsame]
    · exact .single hchange
  rcases hcase with ⟨-, -, rfl, -⟩ | ⟨packet, hasked, ⟨hfirst, rfl, -⟩ | ⟨-, hsend, -⟩⟩
  · exact hreceived
  · by_cases hq : q = p
    · subst hq
      refine hreceived.tail ?_
      have hwrote : SessionChange digests (u.heap q) { u.heap q with
          eapWorkarround := (u.heap q).eapWorkarround + 1, userId := alphaUserId
          mutex := true } :=
        .wroteIdentity _ hfirst hrunning
      simpa [identityWorkarround, cancelPostAlarm] using hwrote
    · have hsame : (identityWorkarround u p packet).heap q = u.heap q := by
        simp [identityWorkarround, cancelPostAlarm, Controller.setSession_heap_ne _ _ hq]
      rw [hsame]
      exact hreceived
  · have hsent : SessionChange digests (u.heap p) (t.heap p) ∧ ∀ q, q ≠ p → t.heap q = u.heap q :=
      sendRadiusPost_change hasked hrunning hsend
    obtain ⟨hchange, hothers⟩ := hsent
    by_cases hq : q = p
    · subst hq
      exact hreceived.tail hchange
    · rw [hothers q hq]
      exact hreceived

theorem identityHandOver_change (h : identityHandOver s p call = .ok t) :
    SessionChange digests (s.heap p) (t.heap p) ∧ ∀ q, q ≠ p → t.heap q = s.heap q := by
  obtain ⟨⟨ctx, hstepped, ht⟩, hothers⟩ := stepSession_heap h
  refine ⟨?_, hothers⟩
  rw [ht]
  exact .handedIdentity _ _ ctx hstepped

theorem processRetrCoapEap_change {id : Nat} (h : processRetrCoapEap s id p call = .ok t) :
    SessionChange digests (s.heap p) (t.heap p) ∧ ∀ q, q ≠ p → t.heap q = s.heap q := by
  refine ⟨?_, ?_⟩
  · rw [processRetrCoapEap_session h]
    exact .counted _ _ _
  · rcases processRetrCoapEap_ok h with ⟨-, rfl⟩ | ⟨-, session, u, rfl, rfl,
      ⟨-, -, rfl⟩ | ⟨-, pdu, -, -, rfl⟩ | ⟨-, rfl⟩⟩
    · exact fun _ _ => rfl
    · intro q hq
      simp [cancelPostAlarm, Controller.setSession_heap_ne _ _ hq]
    · intro q hq
      simp [addPostAlarm, cancelPostAlarm, Controller.setSession_heap_ne _ _ hq]
    · intro q hq
      simp [removeCoapEapSession, cancelPostAlarm, Controller.setSession_heap_ne _ _ hq]

/-- A step changes a session only as its life allows, or makes it. -/
theorem step_session (hshort : ShortRequests s) (h : step digests s e = some t) (q : Ptr) :
    (q = s.nextPtr ∧ ∃ buf source arrival, t.heap q = initCoapEapSession buf source arrival) ∨
      ReflTransGen (SessionChange digests) (s.heap q) (t.heap q) := by
  have hone : ∀ p, (SessionChange digests (s.heap p) (t.heap p) ∧
      ∀ q, q ≠ p → t.heap q = s.heap q) →
        ReflTransGen (SessionChange digests) (s.heap q) (t.heap q) := by
    rintro p ⟨hchange, hothers⟩
    by_cases hq : q = p
    · subst hq
      exact .single hchange
    · rw [hothers q hq]
  obtain ⟨-, hmove⟩ := step_move h
  cases hmove with
  | created datagram source arrival =>
    by_cases hq : q = s.nextPtr
    · subst hq
      exact .inl ⟨rfl, _, source, arrival, newSession_heap_self ..⟩
    · right
      rw [newSession_heap_ne _ _ _ hq]
  | queued task p =>
    refine .inr (hone p ⟨?_, fun q hq => Controller.setSession_heap_ne s _ hq⟩)
    have hreceived : SessionChange digests (s.heap p)
        { s.heap p with lastReceivedMessage := some task.buf } :=
      .received _ _
    simpa [addTask] using hreceived
  | handledCoap i call task p u hworker _ hresult =>
    have hbuf : task.buf.length < 100 :=
      hshort _ (mem_activities_of_worker hworker) task.buf rfl
    have hchange : SessionChange digests (s.heap p) (u.heap p) ∧
        ∀ q, q ≠ p → u.heap q = s.heap q :=
      processCoapMsg_change hbuf hresult
    exact .inr (hone p hchange)
  | handledAcknowledgment i call task post p u _ _ hresult =>
    have hchange : SessionChange digests (s.heap p) (u.heap p) ∧
        ∀ q, q ≠ p → u.heap q = s.heap q :=
      processAcknowledgment_change hresult
    exact .inr (hone p hchange)
  | handledRadius i call msg p u _ _ hresult =>
    exact .inr (processReceiveRadiusMsg_change hresult q)
  | wroteIdentity i call msg p u _ _ hresult =>
    exact .inr (processReceiveRadiusMsg_change hresult q)
  | handedIdentity i call p u _ hresult =>
    have hchange : SessionChange digests (s.heap p) (u.heap p) ∧
        ∀ q, q ≠ p → u.heap q = s.heap q :=
      identityHandOver_change hresult
    exact .inr (hone p hchange)
  | handledRetr i call origin id p u _ _ hresult =>
    have hchange : SessionChange digests (s.heap p) (u.heap p) ∧
        ∀ q, q ≠ p → u.heap q = s.heap q :=
      processRetrCoapEap_change hresult
    exact .inr (hone p hchange)
  | _ => exact .inr .refl

theorem sessionChanges_keep {P : Session → Prop} {x y : Session}
    (hchange : ∀ x y, SessionChange digests x y → P x → P y)
    (h : ReflTransGen (SessionChange digests) x y) (hx : P x) : P y := by
  induction h with
  | refl => exact hx
  | tail _ hlast ih => exact hchange _ _ hlast ih

/-- The rule for what holds of every session: it holds of a new one, and every
change keeps it. -/
theorem session_invariant {guard : Controller → Event → Prop} {P : Session → Prop}
    (hnew : ∀ buf source arrival, P (initCoapEapSession buf source arrival))
    (hchange : ∀ x y, SessionChange digests x y → P x → P y)
    (h : ReachableUnder (step digests) guard initialController s) (p : Ptr) : P (s.heap p) := by
  have hall : ∀ p, P (s.heap p) := by
    induction h with
    | start => exact fun _ => hnew [] _ _
    | step hbefore _ htaken ih =>
      intro q
      rcases step_session (shortRequests hbefore) htaken q with ⟨-, buf, source, arrival, hq⟩ |
        hchanges
      · rw [hq]
        exact hnew buf source arrival
      · exact sessionChanges_keep hchange hchanges (ih q)
  exact hall p

end CoapEap.Mainserver
