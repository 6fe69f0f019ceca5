import CoapEap.Controller.Overlapping
import CoapEap.Controller.Sessions

/-!
What a step without work on the list of the RADIUS client shares with the handlers that are
in the list: it makes the same move whatever the client is, and it leaves the sessions
alone whose mutex they hold.
-/

namespace CoapEap.Mainserver

open Cantcoap EapServer Lalarm Radius Library.Runs

variable {digests : Digests} {s t : Controller} {e : Event} {p : Ptr} {i : Nat} {call : Call}

/-- The state with another RADIUS client. -/
def Controller.withClient (s : Controller) (radius : RadiusClient) : Controller :=
  { s with radius }

section Fields

variable (s : Controller) (radius : RadiusClient)

@[simp] theorem Controller.withClient_heap (p : Ptr) :
    (s.withClient radius).heap p = s.heap p := rfl

@[simp] theorem Controller.withClient_workers : (s.withClient radius).workers = s.workers := rfl

@[simp] theorem Controller.withClient_tasks : (s.withClient radius).tasks = s.tasks := rfl

@[simp] theorem Controller.withClient_networkThread :
    (s.withClient radius).networkThread = s.networkThread := rfl

@[simp] theorem Controller.withClient_halted : (s.withClient radius).halted = s.halted := rfl

@[simp] theorem getCoapEapSession_withClient (id : UInt32) :
    getCoapEapSession (s.withClient radius) id = getCoapEapSession s id := rfl

@[simp] theorem searchEapCtxRadClient_withClient (identifier : UInt8) :
    searchEapCtxRadClient (s.withClient radius) identifier =
      searchEapCtxRadClient s identifier := rfl

end Fields

theorem checkAcknowledgment_withClient (task : NetworkTask) (radius : RadiusClient) :
    checkAcknowledgment (s.withClient radius) task p =
      (checkAcknowledgment s task p).map fun t => t.withClient radius := by
  unfold checkAcknowledgment
  simp only [Controller.withClient]
  cases (s.heap p).lastReceivedMessage with
  | none => rfl
  | some lastReceived =>
    cases (s.heap p).lastSentMessage with
    | none =>
      simp only
      split
      · rfl
      · by_cases hunset : (s.heap p).lastSentMessageLen < 4
        · simp only [hunset, if_true]
          rfl
        · simp only [hunset, if_false]
          rfl
    | some lastSent =>
      simp only
      split
      · rfl
      · split
        · rfl
        · split <;> rfl

theorem conclude_withClient (result : Except Halt Controller) (radius : RadiusClient) :
    conclude (s.withClient radius) (result.map fun t => t.withClient radius) =
      (conclude s result).withClient radius := by
  cases result <;> rfl

theorem lookupStep_withClient (worker : Worker) (stack : Bytes) (radius : RadiusClient) :
    lookupStep (s.withClient radius) i worker stack =
      (lookupStep s i worker stack).map fun result => result.map fun t => t.withClient radius := by
  cases worker with
  | took task =>
    cases task with
    | processCoapMsg task =>
      simp only [lookupStep, getCoapEapSession_withClient, Option.map_some]
      split
      · rfl
      · cases getCoapEapSession s task.sessionId <;> rfl
    | processAcknowledgment task post =>
      simp only [lookupStep, getCoapEapSession_withClient, Option.map_some]
      split
      · rfl
      · cases getCoapEapSession s (tokenSessionId task.buf stack) <;> rfl
    | processReceiveRadiusMsg msg =>
      simp only [lookupStep, searchEapCtxRadClient_withClient, Option.map_some]
      cases searchEapCtxRadClient s msg.identifier <;> rfl
    | processRetrCoapEap origin => rfl
  | _ => rfl

theorem alarmThreadStep_withClient (radius : RadiusClient) :
    alarmThreadStep (s.withClient radius) =
      (alarmThreadStep s).map fun t => t.withClient radius := by
  unfold alarmThreadStep
  simp only [Controller.withClient]
  cases s.alarmThread with
  | sweeping time =>
    simp only
    cases getNextAlarmCoapEap s.alarms time <;> rfl
  | idCleared time alarm =>
    simp only
    split <;> rfl
  | _ => rfl

theorem stepSession_withClient {session : Session}
    (hnone : handedResponse session.eapCtx call = none) (radius : RadiusClient) :
    stepSession (s.withClient radius) p session call =
      (stepSession s p session call).map fun t => t.withClient radius := by
  have hsame : eapAuthStep session.eapCtx radius p call =
      (eapAuthStep session.eapCtx s.radius p call).map fun r => { r with radius } := by
    simp only [eapAuthStep, handedResponse] at hnone ⊢
    split
    · rfl
    · split
      · rename_i hresp
        rw [if_pos hresp] at hnone
        simp only [hnone]
        rfl
      · rfl
  simp only [stepSession]
  show (eapAuthStep session.eapCtx radius p call).map _ = _
  rw [hsame]
  cases eapAuthStep session.eapCtx s.radius p call <;> rfl

theorem processCoapMsg_withClient {task : NetworkTask}
    (hnone : handedResponse { (s.heap p).eapCtx with
      eap := { (s.heap p).eapCtx.eap with eapRestart := true } } call = none)
    (radius : RadiusClient) :
    processCoapMsg (s.withClient radius) task p call =
      (processCoapMsg s task p call).map fun t => t.withClient radius := by
  unfold processCoapMsg
  cases validate task.buf with
  | none => rfl
  | some request =>
    let session := { s.heap p with
      location := some (if request.payload = [] then defaultLocation else request.payload)
      eapCtx := { (s.heap p).eapCtx with
        eap := { (s.heap p).eapCtx.eap with eapRestart := true } } }
    have hstep : stepSession (s.withClient radius) p session call =
        (stepSession s p session call).map fun t => t.withClient radius :=
      stepSession_withClient hnone radius
    show (stepSession (s.withClient radius) p session call >>= _) =
      (stepSession s p session call >>= _).map _
    rw [hstep]
    cases stepSession s p session call with
    | error reason => rfl
    | ok u =>
      simp only [Except.map, bind, Except.bind]
      rw [Controller.withClient_heap]
      cases (u.heap p).eapCtx.eap.eapReqData <;> rfl

theorem processAcknowledgment_withClient {task : NetworkTask} {post : Ptr × Nat}
    (hnone : (s.heap p).currentState = 2 → ∀ request, validate task.buf = some request →
      handedResponse (setEapResponse (s.heap p).eapCtx
        (acknowledgedEap request.payload call.behind)) call = none)
    (radius : RadiusClient) :
    processAcknowledgment (s.withClient radius) task post p call =
      (processAcknowledgment s task post p call).map fun t => t.withClient radius := by
  unfold processAcknowledgment
  cases hvalid : validate task.buf with
  | none => rfl
  | some request =>
    let noted : List Occurrence :=
      if answersOutstanding (s.heap p) task.buf then [.acknowledged p (s.heap p).posts] else []
    let located := s.setSession p
      { s.heap p with location := some (getLocation task.buf request 30) }
    show acknowledgmentSwitch ((located.record noted).withClient radius) task request post p call =
      (acknowledgmentSwitch (located.record noted) task request post p call).map _
    have hheap : (located.record noted).heap p =
        { s.heap p with location := some (getLocation task.buf request 30) } :=
      Controller.setSession_heap_self ..
    simp only [acknowledgmentSwitch]
    rw [Controller.withClient_heap, hheap]
    simp only
    split
    · rename_i htwo
      split
      · rfl
      · have hfed := hnone htwo request hvalid
        show stepSession (((located.record noted).record [.fed p post]).withClient radius) p _
          call = _
        exact stepSession_withClient hfed radius
    · rfl
    · rfl

theorem identityHandOver_withClient
    (hnone : handedResponse (setEapResponse (s.heap p).eapCtx
      (s.eapReqId.take (5 + (s.heap p).userId.length))) call = none) (radius : RadiusClient) :
    identityHandOver (s.withClient radius) p call =
      (identityHandOver s p call).map fun t => t.withClient radius :=
  stepSession_withClient hnone radius

theorem coapRetransmitLastSentMessage_withClient {pdu : Bytes} {now : Rat}
    (radius : RadiusClient) :
    coapRetransmitLastSentMessage (s.withClient radius) p pdu now =
      (coapRetransmitLastSentMessage s p pdu now).map fun t => t.withClient radius := by
  unfold coapRetransmitLastSentMessage
  split <;> rfl

theorem processRetrCoapEap_withClient {id : Nat} (radius : RadiusClient) :
    processRetrCoapEap (s.withClient radius) id p call =
      (processRetrCoapEap s id p call).map fun t => t.withClient radius := by
  unfold processRetrCoapEap
  rw [Controller.withClient_heap]
  by_cases hpost : id = postAlarm
  · simp only [hpost, if_true]
    split
    · cases (s.heap p).lastSentMessage with
      | none => rfl
      | some pdu =>
        show coapRetransmitLastSentMessage
          (((cancelPostAlarm s (s.heap p).sessionId).setSession p _).withClient radius) p pdu
            call.now = _
        rw [coapRetransmitLastSentMessage_withClient]
    · rfl
  · simp only [hpost, if_false]
    rfl

theorem handleStep_withClient {worker : Worker} (hworker : s.workers[i]? = some worker)
    (hanswer : ∀ msg p, worker ≠ .receiveRadiusMsg msg p)
    (htakes : takesIdentifier s (.handle i call) = none) (radius : RadiusClient) :
    handleStep digests (s.withClient radius) i worker call =
      (handleStep digests s i worker call).map fun result =>
        result.map fun t => t.withClient radius := by
  have hnone : ∀ p ctx, eapRun s (.handle i call) = some (p, ctx, call) →
      handedResponse ctx call = none := by
    intro p ctx hrun
    rw [takesIdentifier, hrun, Option.bind_some, Option.map_eq_none_iff] at htakes
    exact htakes
  have hmutex : ∀ p, ((s.withClient radius).heap p).mutex = (s.heap p).mutex := fun _ => rfl
  cases worker with
  | receiveRadiusMsg msg p => exact absurd rfl (hanswer msg p)
  | coapMsg task p =>
    simp only [handleStep, hmutex]
    rw [processCoapMsg_withClient (hnone p _ (by simp [eapRun, hworker]))]
    split
    · rfl
    · cases processCoapMsg s task p call <;> rfl
  | acknowledgment task post p =>
    simp only [handleStep, hmutex]
    rw [processAcknowledgment_withClient]
    · split
      · rfl
      · cases processAcknowledgment s task post p call <;> rfl
    · intro htwo request hvalid
      exact hnone p _ (by simp [eapRun, hworker, htwo, hvalid])
  | radiusIdentity p =>
    simp only [handleStep]
    rw [identityHandOver_withClient (hnone p _ (by simp [eapRun, hworker]))]
    cases identityHandOver s p call <;> rfl
  | retrCoapEap origin id p =>
    simp only [handleStep, hmutex]
    rw [processRetrCoapEap_withClient]
    split
    · rfl
    · cases processRetrCoapEap s id p call <;> rfl
  | _ => rfl

/-- What a step without work on the list does has nothing to do with the RADIUS client. -/
theorem step_withClient (h : step digests s e = some t) (hanswer : NoAnswer s e)
    (htakes : takesIdentifier s e = none) (radius : RadiusClient) :
    step digests (s.withClient radius) e = some (t.withClient radius) := by
  have hrunning := (step_move h).1
  have hsame : step digests (s.withClient radius) e =
      (step digests s e).map fun t => t.withClient radius := by
    simp only [step, Controller.withClient_halted, hrunning, Option.isSome_none,
      Bool.false_eq_true, if_false]
    cases e with
    | recvCoap datagram source arrival =>
      simp only [Controller.withClient_networkThread]
      cases s.networkThread with
      | acknowledgment task p => rfl
      | waiting =>
        simp only
        split
        · rfl
        · split
          · rfl
          · rw [getCoapEapSession_withClient]
            cases getCoapEapSession s _ <;> rfl
    | lockAcknowledgment =>
      simp only [Controller.withClient_networkThread]
      cases s.networkThread with
      | waiting => rfl
      | acknowledgment task p =>
        simp only [Controller.withClient_heap, checkAcknowledgment_withClient]
        split
        · rfl
        · cases checkAcknowledgment s task p <;> rfl
    | recvRadius datagram =>
      simp only [Controller.withClient_networkThread]
      cases s.networkThread with
      | acknowledgment task p => rfl
      | waiting =>
        simp only
        split
        · rfl
        · cases radiusMsgParse (datagram.take maxDataLen) <;> rfl
    | getTask =>
      simp only [Controller.withClient_tasks]
      cases s.tasks <;> rfl
    | lookup i stack =>
      simp only [Controller.withClient_workers]
      cases s.workers[i]? with
      | none => rfl
      | some worker =>
        simp only [Option.bind_some, lookupStep_withClient, Option.map_map]
        congr 1
        funext result
        exact conclude_withClient result radius
    | handle i call =>
      simp only [Controller.withClient_workers]
      cases hworker : s.workers[i]? with
      | none => rfl
      | some worker =>
        have hother : ∀ msg p, worker ≠ .receiveRadiusMsg msg p := by
          rintro msg p rfl
          exact hanswer i call msg p rfl hworker
        simp only [Option.bind_some, handleStep_withClient hworker hother htakes, Option.map_map]
        congr 1
        funext result
        exact conclude_withClient result radius
    | wake time =>
      have hthread : (s.withClient radius).alarmThread = s.alarmThread := rfl
      simp only [hthread]
      split <;> rfl
    | alarmStep => exact alarmThreadStep_withClient radius
  rw [hsame, h, Option.map_some]

/-- A step without an answer leaves the sessions alone whose mutex somebody else holds. -/
theorem step_heap_held (hshort : ShortRequests s) (h : step digests s e = some t)
    (hanswer : NoAnswer s e) (hmade : p < s.nextPtr) (hheld : takesMutex s e ≠ some p) :
    t.heap p = s.heap p := by
  have hhandler : ∀ i call worker q, e = .handle i call → s.workers[i]? = some worker →
      worker.session = some q → p ≠ q := by
    rintro i call worker q rfl hworker hsession rfl
    exact hheld (by simp [takesMutex, hworker, hsession])
  obtain ⟨-, hmove⟩ := step_move h
  cases hmove with
  | created datagram source arrival => exact newSession_heap_ne _ _ _ (Nat.ne_of_lt hmade)
  | queued task q sent hthread =>
    refine Controller.setSession_heap_ne s _ ?_
    rintro rfl
    exact hheld (by simp [takesMutex, hthread, NetworkThread.session])
  | handledCoap i call task q u hworker _ hresult =>
    have hbuf : task.buf.length < 100 :=
      hshort _ (mem_activities_of_worker hworker) task.buf rfl
    have hchange : SessionChange digests (s.heap q) (u.heap q) ∧
        ∀ p, p ≠ q → u.heap p = s.heap p :=
      processCoapMsg_change hbuf hresult
    exact hchange.2 p (hhandler i call _ q rfl hworker rfl)
  | handledAcknowledgment i call task post q u hworker _ hresult =>
    have hchange : SessionChange digests (s.heap q) (u.heap q) ∧
        ∀ p, p ≠ q → u.heap p = s.heap p :=
      processAcknowledgment_change hresult
    exact hchange.2 p (hhandler i call _ q rfl hworker rfl)
  | handledRadius i call msg q u hworker _ hresult =>
    exact absurd hworker (hanswer i call msg q rfl)
  | wroteIdentity i call msg q u hworker _ hresult =>
    exact absurd hworker (hanswer i call msg q rfl)
  | handedIdentity i call q u hworker hresult =>
    have hchange : SessionChange digests (s.heap q) (u.heap q) ∧
        ∀ p, p ≠ q → u.heap p = s.heap p :=
      identityHandOver_change hresult
    exact hchange.2 p (hhandler i call _ q rfl hworker rfl)
  | handledRetr i call origin id q u hworker _ hresult =>
    have hchange : SessionChange digests (s.heap q) (u.heap q) ∧
        ∀ p, p ≠ q → u.heap p = s.heap p :=
      processRetrCoapEap_change hresult
    exact hchange.2 p (hhandler i call _ q rfl hworker rfl)
  | _ => rfl

end CoapEap.Mainserver
