import CoapEap.Controller.Completion
import CoapEap.Controller.IdentityResponse

/-!
What every run knows of the datagrams in hand and of the first POST of a session.
What was let in validates. A session is opened by the first POST it stores, and
then it knows where to send to.
-/

namespace CoapEap.Mainserver

open Cantcoap EapServer Lalarm Radius Library.Runs

variable {digests : Digests} {s t : Controller} {e : Event} {p q : Ptr} {i : Nat} {call : Call}

/-- Every datagram that was let in validates. -/
structure BuffersValid (s : Controller) : Prop where
  requests : ∀ w ∈ s.activities, ∀ buf, w.openBuf = some buf → (validate buf).isSome
  acknowledgments : ∀ w ∈ s.activities, ∀ task post, w.acknowledgment? = some (task, post) →
    (validate task.buf).isSome
  named : ∀ task p, s.networkThread = .acknowledgment task p → (validate task.buf).isSome

theorem BuffersValid.step (hs : BuffersValid s) (h : step digests s e = some t) :
    BuffersValid t where
  requests := by
    intro w hw buf hbuf
    rcases step_activities h w hw with hold | harises
    · exact hs.requests w hold buf hbuf
    · cases harises with
      | created datagram source arrival hvalid =>
        obtain rfl : datagram.take (maxBufLen - 1) = buf := by simpa [Worker.openBuf] using hbuf
        exact hvalid
      | foundCoap i stack task p hbefore => exact hs.requests _ hbefore buf hbuf
      | _ => simp [Worker.openBuf] at hbuf
  acknowledgments := by
    intro w hw task post hack
    rcases step_activities h w hw with hold | harises
    · exact hs.acknowledgments w hold task post hack
    · cases harises with
      | queued task' p lastSent hnamed =>
        obtain ⟨rfl, -⟩ : task' = task ∧ (p, (s.heap p).posts) = post := by
          simpa [Worker.acknowledgment?] using hack
        exact hs.named _ _ hnamed
      | foundAcknowledgment i stack task' post' p hbefore =>
        exact hs.acknowledgments _ hbefore task post hack
      | _ => simp [Worker.acknowledgment?] at hack
  named := by
    intro task p hnamed
    obtain ⟨-, hmove⟩ := step_move h
    cases hmove with
    | named datagram source arrival q _ hvalid =>
      obtain ⟨rfl, -⟩ : (⟨datagram.take (maxBufLen - 1), source, 0⟩ : NetworkTask) = task ∧ q = p :=
        by simpa using hnamed
      exact hvalid
    | duplicate | queued => simp at hnamed
    | handledCoap | handledAcknowledgment | handledRadius | wroteIdentity | handedIdentity
    | handledRetr =>
      rw [(handle_frame (step_move h).2).networkThread] at hnamed
      exact hs.named task p hnamed
    | _ => exact hs.named task p hnamed

theorem buffersValid {guard : Controller → Event → Prop}
    (h : ReachableUnder (step digests) guard initialController s) : BuffersValid s := by
  refine h.invariant ?_ fun _ _ _ _ hs _ hstep => hs.step hstep
  constructor <;> simp [initialController, Controller.activities]

theorem received_isSome {guard : Controller → Event → Prop}
    (h : ReachableUnder (step digests) guard initialController s) (p : Ptr) :
    (s.heap p).lastReceivedMessage.isSome := by
  have hkeeps : ∀ x y : Session, SessionChange digests x y → x.lastReceivedMessage.isSome →
      y.lastReceivedMessage.isSome := by
    intro x y hchange hx
    cases hchange with
    | received | opened => rfl
    | _ => exact hx
  exact session_invariant (fun _ _ _ => rfl) hkeeps h p

/-- A session without a POST does not wait for the acknowledgment of one. -/
theorem state_of_unsent {guard : Controller → Event → Prop}
    (h : ReachableUnder (step digests) guard initialController s) (p : Ptr)
    (hnone : (s.heap p).lastSentMessage = none) : (s.heap p).currentState ≠ 2 := by
  have hnew : ∀ buf source arrival, (initCoapEapSession buf source arrival).lastSentMessage = none →
      (initCoapEapSession buf source arrival).currentState ≠ 2 := by
    intro buf source arrival _
    simp [initCoapEapSession]
  have hkeeps : ∀ x y : Session, SessionChange digests x y →
      (x.lastSentMessage = none → x.currentState ≠ 2) →
        y.lastSentMessage = none → y.currentState ≠ 2 := by
    intro x y hchange hx hnone
    cases hchange with
    | opened | posted => simp [storePost] at hnone
    | sendFailed =>
      simp only [radiusPostSession]
      split
      · decide
      · exact hx hnone
    | _ => exact hx hnone
  exact session_invariant hnew hkeeps h p hnone

theorem SessionChange.location_isSome {x y : Session} (h : SessionChange digests x y)
    (hx : x.location.isSome) : y.location.isSome := by
  cases h with
  | opened | fed | located => rfl
  | _ => exact hx

/-- The handler of a new session stores its first POST and knows its location. -/
theorem processCoapMsg_opened {task : NetworkTask} (h : processCoapMsg s task p call = .ok t) :
    (t.heap p).lastSentMessage.isSome ∧ (t.heap p).location.isSome := by
  obtain ⟨u, session, packet, -, ⟨request, -, hstep⟩, rfl, -, rfl⟩ := processCoapMsg_ok h
  obtain ⟨hsession, -⟩ := stepSession_session hstep
  rw [Controller.record_heap, armPost_session]
  constructor
  · rfl
  · simp only [storePost]
    rw [hsession]
    rfl

theorem step_lastSent (hreach : Reachable digests s) (h : step digests s e = some t)
    (hq : q < s.nextPtr) (hsent : (s.heap q).lastSentMessage.isSome) :
    (t.heap q).lastSentMessage.isSome := by
  have hposted : HasPost s q := ⟨hq, Option.isSome_iff_ne_none.mp hsent⟩
  exact Option.isSome_iff_ne_none.mpr (hposted.step (shortRequests hreach) h).2

/-- A session that stores its first POST knows where to send it. -/
theorem step_first_post (h : step digests s e = some t)
    (hnone : (s.heap q).lastSentMessage = none) (hsent : (t.heap q).lastSentMessage.isSome) :
    (t.heap q).location.isSome := by
  have hkept : (t.heap q).lastSentMessage = (s.heap q).lastSentMessage →
      (t.heap q).location.isSome := by
    intro hsame
    rw [hsame, hnone] at hsent
    cases hsent
  have hother : ∀ p u, Touches p s u → q ≠ p →
      (u.heap q).lastSentMessage = (s.heap q).lastSentMessage := by
    intro p u htouches hq
    rw [htouches.others q hq]
  obtain ⟨-, hmove⟩ := step_move h
  cases hmove with
  | created datagram source arrival =>
    by_cases hq : q = s.nextPtr
    · subst hq
      rw [newSession_heap_self] at hsent
      cases hsent
    · exact hkept (by rw [newSession_heap_ne _ _ _ hq])
  | queued task p =>
    apply hkept
    simp only [addTask, Controller.record_heap, setReceived_heap]
  | handledCoap i call task p u _ _ hresult =>
    by_cases hq : q = p
    · subst hq
      exact (processCoapMsg_opened hresult).2
    · exact hkept (hother p u (touches_processCoapMsg hresult) hq)
  | handledAcknowledgment i call task post p u _ _ hresult =>
    by_cases hq : q = p
    · subst hq
      obtain ⟨request, -, hsession⟩ := processAcknowledgment_session hresult
      apply hkept
      simp only [endWorker]
      rw [hsession]
    · exact hkept (hother p u (touches_processAcknowledgment hresult) hq)
  | handledRadius i call msg p u _ _ hresult =>
    by_cases hq : q = p
    · subst hq
      obtain ⟨v, hv, -, hcase⟩ := processReceiveRadiusMsg_ok hresult
      have hsession := radiusClientReceive_session hv q
      rcases hcase with ⟨-, -, rfl, -⟩ | ⟨packet, -, ⟨-, -, hidentity⟩ | ⟨-, hsend, -⟩⟩
      · apply hkept
        simp only [endWorker]
        rw [hsession]
      · cases hidentity
      · obtain ⟨⟨hlocation, -⟩, hways⟩ := sendRadiusPost_ok hsend
        have hlocated : (radiusPostSession (v.heap q)).location.isSome :=
          Option.isSome_iff_ne_none.mpr hlocation
        rcases hways with ⟨-, rfl⟩ | ⟨-, rfl⟩
        · simp only [endWorker, Controller.record_heap, armPost_session]
          exact hlocated
        · simp only [endWorker, Controller.setSession_heap_self]
          exact hlocated
    · exact hkept (hother p u (touches_processReceiveRadiusMsg hresult) hq)
  | wroteIdentity i call msg p u _ _ hresult =>
    by_cases hq : q = p
    · subst hq
      obtain ⟨v, hv, -, hcase⟩ := processReceiveRadiusMsg_ok hresult
      have hsession := radiusClientReceive_session hv q
      rcases hcase with ⟨-, -, -, hidentity⟩ | ⟨packet, -, ⟨-, rfl, -⟩ | ⟨-, -, hidentity⟩⟩
      · cases hidentity
      · apply hkept
        simp only [setWorker, identityWorkarround, Controller.setSession_heap_self]
        rw [hsession]
      · cases hidentity
    · exact hkept (hother p u (touches_processReceiveRadiusMsg hresult) hq)
  | handedIdentity i call p u _ hresult =>
    by_cases hq : q = p
    · subst hq
      apply hkept
      simp only [endWorker]
      rw [identityHandOver_session hresult]
    · exact hkept (hother p u (touches_identityHandOver hresult) hq)
  | handledRetr i call origin id p u _ _ hresult =>
    by_cases hq : q = p
    · subst hq
      apply hkept
      simp only [endWorker]
      rw [processRetrCoapEap_session hresult]
    · exact hkept (hother p u (touches_processRetrCoapEap hresult) hq)
  | _ => exact hkept rfl

/-- The handler of a new session ends the process or opens the session. -/
theorem handled_coapMsg {task : NetworkTask} (h : step digests s (.handle i call) = some t)
    (hworker : s.workers[i]? = some (.coapMsg task p)) :
    (t.heap = s.heap ∧ t.radius = s.radius) ∨ (t.heap p).lastSentMessage.isSome := by
  obtain ⟨-, hmove⟩ := step_move h
  cases hmove with
  | ignored => exact .inl ⟨rfl, rfl⟩
  | ended => exact .inl ⟨rfl, rfl⟩
  | handledCoap _ _ task' p' u hworker' _ hresult =>
    rw [hworker] at hworker'
    obtain ⟨rfl, rfl⟩ : task = task' ∧ p = p' := by simpa using hworker'
    exact .inr (processCoapMsg_opened hresult).1
  | handledAcknowledgment _ _ _ _ _ _ hworker' => simp [hworker] at hworker'
  | handledRadius _ _ _ _ _ hworker' => simp [hworker] at hworker'
  | wroteIdentity _ _ _ _ _ hworker' => simp [hworker] at hworker'
  | handedIdentity _ _ _ _ hworker' => simp [hworker] at hworker'
  | handledRetr _ _ _ _ _ _ hworker' => simp [hworker] at hworker'

/-- The worker that enters the identity workaround. -/
theorem wrote_of_answersIdentity {packet : Bytes}
    (h : answersIdentity digests s e = some (p, packet)) : ∃ i call msg u, e = .handle i call ∧
      s.workers[i]? = some (.receiveRadiusMsg msg p) ∧
        processReceiveRadiusMsg digests s msg p call = .ok (u, true) := by
  cases e with
  | handle i call =>
    simp only [answersIdentity] at h
    split at h
    · rename_i msg q hworker
      split at h
      · rename_i v u hresult _
        obtain ⟨_, -, heq⟩ := Option.map_eq_some_iff.mp h
        obtain rfl : q = p := congrArg Prod.fst heq
        exact ⟨i, call, msg, v, rfl, hworker, hresult⟩
      · cases h
    · cases h
  | _ => cases h

end CoapEap.Mainserver
