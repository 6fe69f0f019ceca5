import CoapEap.Controller.Sessions
import CoapEap.Controller.Retransmission
import CoapEap.Library.FirstMatch

/-!
Which session an answer of the RADIUS server goes to. Contexts are found by the
identifier of their last request: a new context is put in front with identifier
zero, and none ever leaves the list or gives its identifier up.
-/

namespace CoapEap.Mainserver

open Cantcoap EapServer Lalarm Radius Library.Runs Library.FirstMatch

/-- The identifier that the context of a session is found under. -/
def Controller.radiusIdentifier (s : Controller) (p : Ptr) : UInt8 :=
  (s.heap p).eapCtx.radiusIdentifier

/-- An answer to a waiting request goes to the session that sent the request. -/
def AnswersRouted (s : Controller) : Prop :=
  ∀ identifier entry, matching s.radius identifier = some entry →
    searchEapCtxRadClient s identifier = some entry.session

/-- The session whose EAP layer a handler steps, and the context and the
environment it does so with. -/
def eapRun (s : Controller) : Event → Option (Ptr × EapAuthCtx × Call)
  | .handle i call =>
    match s.workers[i]? with
    | some (.coapMsg _ p) =>
      let ctx := (s.heap p).eapCtx
      some (p, { ctx with eap := { ctx.eap with eapRestart := true } }, call)
    | some (.acknowledgment task _ p) =>
      if (s.heap p).currentState = 2 then
        (validate task.buf).map fun request =>
          (p, setEapResponse (s.heap p).eapCtx (acknowledgedEap request.payload call.behind), call)
      else none
    | some (.radiusIdentity p) =>
      let session := s.heap p
      some (p, setEapResponse session.eapCtx (s.eapReqId.take (5 + session.userId.length)), call)
    | _ => none
  | _ => none

/-- The response for the RADIUS server that the step of a context ends with. -/
def handedResponse (ctx : EapAuthCtx) (call : Call) : Option Bytes :=
  let eap := eapServerSmStep ctx.eap call.rand
  if eap.aaaEapResp then eap.aaaEapRespData else none

/-- The user name fits into an attribute, so the request is completed. -/
def userNameFits (ctx : EapAuthCtx) (data : Bytes) : Bool :=
  (((learnedIdentity data).or ctx.eapIdentity).getD []).length ≤ radiusMaxAttrLen

/-- The requests that still wait when a session has taken the next identifier and
its request, if it was completed, has been put into the list. -/
def waitingBeside (radius : RadiusClient) (completed : Bool) : List RadiusMsgList :=
  let msgs := (radiusClientGetId radius).2.msgs
  if completed && radius.numMsgs ≥ radiusClientMaxEntries then msgs.dropLast else msgs

/-- The session may take the next identifier: none of its own requests waits
under the identifier it gives up, and no context in front of it has the one it
takes. -/
def mayTakeIdentifier (s : Controller) (p : Ptr) (completed : Bool) : Bool :=
  (waitingBeside s.radius completed).all (fun entry => entry.session ≠ p) &&
    (!completed ||
      unclaimedBefore s.radCtx s.radiusIdentifier p s.radius.nextRadiusIdentifier)

/-- No session is made while a request with identifier zero waits, and a session
takes an identifier only when it may. -/
def keepsRouting (s : Controller) : Event → Bool
  | .recvCoap datagram _ _ =>
    let buf := datagram.take (maxBufLen - 1)
    (validate buf).isNone || getType buf = .acknowledgement || (matching s.radius 0).isNone
  | e =>
    match eapRun s e with
    | none => true
    | some (p, ctx, call) =>
      match handedResponse ctx call with
      | none => true
      | some data => mayTakeIdentifier s p (userNameFits ctx data)

variable {digests : Digests} {s t u : Controller} {e : Event} {p : Ptr} {call : Call}

/-- No identifier was taken: contexts are found as before, and at most requests
went away. -/
structure SameRouting (s t : Controller) : Prop where
  nextPtr : t.nextPtr = s.nextPtr
  radCtx : t.radCtx = s.radCtx
  identifiers : ∀ q, t.radiusIdentifier q = s.radiusIdentifier q
  msgs : ∀ entry ∈ t.radius.msgs, entry ∈ s.radius.msgs

/-- A session took the next identifier. -/
structure TookIdentifier (s t : Controller) (p : Ptr) (completed : Bool) : Prop where
  nextPtr : t.nextPtr = s.nextPtr
  radCtx : t.radCtx = s.radCtx
  identifiers : t.radiusIdentifier =
    Function.update s.radiusIdentifier p s.radius.nextRadiusIdentifier
  msgs : ∀ entry ∈ t.radius.msgs, entry ∈ waitingBeside s.radius completed ∨
    (completed = true ∧ entry.session = p ∧
      entry.msg.identifier = s.radius.nextRadiusIdentifier)

theorem SameRouting.refl (s : Controller) : SameRouting s s :=
  ⟨rfl, rfl, fun _ => rfl, fun _ h => h⟩

theorem SameRouting.trans (h₁ : SameRouting s t) (h₂ : SameRouting t u) : SameRouting s u where
  nextPtr := h₂.nextPtr.trans h₁.nextPtr
  radCtx := h₂.radCtx.trans h₁.radCtx
  identifiers := fun q => (h₂.identifiers q).trans (h₁.identifiers q)
  msgs := fun entry h => h₁.msgs entry (h₂.msgs entry h)

theorem TookIdentifier.then_same {completed : Bool} (h₁ : TookIdentifier s t p completed)
    (h₂ : SameRouting t u) : TookIdentifier s u p completed where
  nextPtr := h₂.nextPtr.trans h₁.nextPtr
  radCtx := h₂.radCtx.trans h₁.radCtx
  identifiers := by
    rw [← h₁.identifiers]
    funext q
    exact h₂.identifiers q
  msgs := fun entry h => h₁.msgs entry (h₂.msgs entry h)

/-- A session is replaced by one with the same identifier. -/
theorem sameRouting_setSession {session : Session}
    (h : session.eapCtx.radiusIdentifier = s.radiusIdentifier p) :
    SameRouting s (s.setSession p session) where
  nextPtr := rfl
  radCtx := rfl
  identifiers := by
    intro q
    rw [Controller.radiusIdentifier, Controller.setSession_heap]
    split
    · subst q
      exact h
    · rfl
  msgs := fun _ h => h

theorem waitingBeside_ne {radius : RadiusClient} {completed : Bool} {entry : RadiusMsgList}
    (h : entry ∈ waitingBeside radius completed) :
    entry ∈ radius.msgs ∧ entry.msg.identifier ≠ radius.nextRadiusIdentifier := by
  have hmem : entry ∈ (radiusClientGetId radius).2.msgs := by
    unfold waitingBeside at h
    split at h
    · exact (List.dropLast_sublist _).subset h
    · exact h
  simpa [radiusClientGetId] using hmem

theorem mem_radiusClientListAdd {radius : RadiusClient} {entry new : RadiusMsgList}
    (h : entry ∈ (radiusClientListAdd (radiusClientGetId radius).2 new).msgs) :
    entry = new ∨ entry ∈ waitingBeside radius true := by
  by_cases hfull : radius.numMsgs ≥ radiusClientMaxEntries
  · simpa [radiusClientListAdd, radiusClientGetId, waitingBeside, hfull] using h
  · simpa [radiusClientListAdd, radiusClientGetId, waitingBeside, hfull] using h

/-- A step of the EAP layer takes an identifier exactly when it ends with a
response for the RADIUS server. -/
theorem eapAuthStep_routing {ctx : EapAuthCtx} {radius : RadiusClient} {r : EapStep}
    (h : eapAuthStep ctx radius p call = .ok r) :
    (handedResponse ctx call = none ∧ r.ctx.radiusIdentifier = ctx.radiusIdentifier ∧
        r.radius = radius) ∨
      ∃ data, handedResponse ctx call = some data ∧
        r.ctx.radiusIdentifier = radius.nextRadiusIdentifier ∧
        ∀ entry ∈ r.radius.msgs, entry ∈ waitingBeside radius (userNameFits ctx data) ∨
          (userNameFits ctx data = true ∧ entry.session = p ∧
            entry.msg.identifier = radius.nextRadiusIdentifier) := by
  simp only [eapAuthStep] at h
  split at h
  · simp at h
  · split at h
    · rename_i hresp
      split at h
      · simp at h
      · rename_i data hdata
        simp only [Except.ok.injEq] at h
        subst h
        refine .inr ⟨data, by simp [handedResponse, hresp, hdata], ?_⟩
        unfold eapAuthEncapsulateRadius
        simp only
        split
        · rename_i hlong
          have hfits : userNameFits ctx data = false := by
            simpa [userNameFits] using hlong
          refine ⟨rfl, ?_⟩
          intro entry hentry
          left
          rw [hfits]
          simpa [waitingBeside] using hentry
        · rename_i hshort
          have hfits : userNameFits ctx data = true := by
            simpa [userNameFits] using hshort
          refine ⟨rfl, ?_⟩
          intro entry hentry
          rw [hfits]
          rcases mem_radiusClientListAdd hentry with rfl | hold
          · exact .inr ⟨rfl, rfl, rfl⟩
          · exact .inl hold
    · rename_i hresp
      simp only [Except.ok.injEq] at h
      subst h
      exact .inl ⟨by simp [handedResponse, hresp], rfl, rfl⟩

/-- The session steps with the context, and its next identifier is taken if the
step ends with a response. -/
def StepsRouting (s t : Controller) (p : Ptr) (ctx : EapAuthCtx) (call : Call) : Prop :=
  (handedResponse ctx call = none ∧ SameRouting s t) ∨
    ∃ data, handedResponse ctx call = some data ∧ TookIdentifier s t p (userNameFits ctx data)

theorem StepsRouting.then_same {ctx : EapAuthCtx} (h₁ : StepsRouting s t p ctx call)
    (h₂ : SameRouting t u) : StepsRouting s u p ctx call := by
  rcases h₁ with ⟨hnone, hsame⟩ | ⟨data, hdata, htook⟩
  · exact .inl ⟨hnone, hsame.trans h₂⟩
  · exact .inr ⟨data, hdata, htook.then_same h₂⟩

theorem SameRouting.then_steps {ctx : EapAuthCtx} (h₁ : SameRouting s t)
    (hradius : t.radius = s.radius) (h₂ : StepsRouting t u p ctx call) :
    StepsRouting s u p ctx call := by
  have hidentifiers : t.radiusIdentifier = s.radiusIdentifier := funext h₁.identifiers
  rcases h₂ with ⟨hnone, hsame⟩ | ⟨data, hdata, htook⟩
  · exact .inl ⟨hnone, h₁.trans hsame⟩
  · refine .inr ⟨data, hdata, ?_⟩
    constructor
    · exact htook.nextPtr.trans h₁.nextPtr
    · exact htook.radCtx.trans h₁.radCtx
    · rw [htook.identifiers, hidentifiers, hradius]
    · intro entry hentry
      rw [← hradius]
      exact htook.msgs entry hentry

theorem stepSession_routing {session : Session}
    (hid : session.eapCtx.radiusIdentifier = s.radiusIdentifier p)
    (h : stepSession s p session call = .ok t) : StepsRouting s t p session.eapCtx call := by
  obtain ⟨r, hr, rfl⟩ := stepSession_ok h
  rcases eapAuthStep_routing hr with ⟨hnone, hkept, hradius⟩ | ⟨data, hdata, htaken, hmsgs⟩
  · refine .inl ⟨hnone, ?_⟩
    have hset : SameRouting s (s.setSession p { session with eapCtx := r.ctx }) :=
      sameRouting_setSession (hkept.trans hid)
    exact ⟨hset.nextPtr, hset.radCtx, hset.identifiers, fun entry hentry => hradius ▸ hentry⟩
  · refine .inr ⟨data, hdata, rfl, rfl, ?_, hmsgs⟩
    funext q
    by_cases hq : q = p
    · subst hq
      simp [Controller.radiusIdentifier, Controller.setSession, htaken]
    · simp [Controller.radiusIdentifier, Controller.setSession, hq]

theorem sameRouting_armPost {session : Session} {pdu : Bytes} {now : Rat}
    (h : session.eapCtx.radiusIdentifier = s.radiusIdentifier p) :
    SameRouting s (armPost s p session pdu now) := by
  have hset : SameRouting s (s.setSession p (storePost session pdu)) := sameRouting_setSession h
  exact ⟨hset.nextPtr, hset.radCtx, hset.identifiers, hset.msgs⟩

theorem processCoapMsg_routing {task : NetworkTask}
    (h : processCoapMsg s task p call = .ok t) :
    StepsRouting s t p { (s.heap p).eapCtx with
      eap := { (s.heap p).eapCtx.eap with eapRestart := true } } call := by
  obtain ⟨u, session, packet, -, ⟨request, -, hstep⟩, hsession, -, rfl⟩ := processCoapMsg_ok h
  have hsteps := stepSession_routing (by rfl) hstep
  refine hsteps.then_same ?_
  have harmed : SameRouting u (armPost u p session (firstPost session packet) call.now) :=
    sameRouting_armPost (by rw [hsession]; rfl)
  exact ⟨harmed.nextPtr, harmed.radCtx, harmed.identifiers, harmed.msgs⟩

theorem processAcknowledgment_routing {task : NetworkTask} {post : Ptr × Nat}
    (h : processAcknowledgment s task post p call = .ok t) :
    SameRouting s t ∨ ((s.heap p).currentState = 2 ∧ ∃ request, validate task.buf = some request ∧
      StepsRouting s t p (setEapResponse (s.heap p).eapCtx
        (acknowledgedEap request.payload call.behind)) call) := by
  obtain ⟨request, u, hvalid, rfl, hcase⟩ := processAcknowledgment_ok h
  have hlocated : SameRouting s (s.setSession p { s.heap p with
      location := some (getLocation task.buf request 30) }) :=
    sameRouting_setSession (by rfl)
  rcases hcase with ⟨hstate, -, hstep⟩ | ⟨-, rfl⟩ | ⟨-, -, rfl⟩
  · refine .inr ⟨hstate, request, hvalid, ?_⟩
    have hsteps := stepSession_routing (by rfl) hstep
    rw [Controller.record_heap, Controller.setSession_heap_self] at hsteps
    refine SameRouting.then_steps ?_ ?_ hsteps
    · exact ⟨hlocated.nextPtr, hlocated.radCtx, hlocated.identifiers, hlocated.msgs⟩
    · rfl
  · exact .inl ⟨hlocated.nextPtr, hlocated.radCtx, hlocated.identifiers, hlocated.msgs⟩
  · exact .inl ⟨hlocated.nextPtr, hlocated.radCtx, hlocated.identifiers, hlocated.msgs⟩

theorem radiusClientReceive_routing {msg : RadiusMsg}
    (h : radiusClientReceive digests s msg call = .ok t) : SameRouting s t := by
  have hremoved : ∀ entry ∈ (removeMatching s.radius msg.identifier).msgs,
      entry ∈ s.radius.msgs :=
    fun entry hentry => List.mem_of_mem_eraseP hentry
  rcases radiusClientReceive_ok h with ⟨-, rfl⟩ | ⟨entry, -, ⟨-, rfl⟩ | ⟨-, q, eap, -, -, -, rfl⟩⟩
  · exact .refl _
  · exact ⟨rfl, rfl, fun _ => rfl, hremoved⟩
  · have hanswered : SameRouting { s with radius := removeMatching s.radius msg.identifier }
        (Controller.setSession { s with radius := removeMatching s.radius msg.identifier } q
          { s.heap q with
            eapCtx := { (s.heap q).eapCtx with eap, lastRecvRadius := some msg } }) :=
      sameRouting_setSession (by rfl)
    exact ⟨rfl, rfl, hanswered.identifiers, hremoved⟩

theorem processReceiveRadiusMsg_routing {msg : RadiusMsg} {identity : Bool}
    (h : processReceiveRadiusMsg digests s msg p call = .ok (t, identity)) :
    SameRouting s t := by
  obtain ⟨u, hu, -, ⟨-, -, rfl, -⟩ | ⟨packet, -, ⟨-, rfl, -⟩ | ⟨-, hsend, -⟩⟩⟩ :=
    processReceiveRadiusMsg_ok h
  · exact radiusClientReceive_routing hu
  · refine (radiusClientReceive_routing hu).trans ?_
    have hset : SameRouting u (u.setSession p { u.heap p with
        eapWorkarround := (u.heap p).eapWorkarround + 1, userId := alphaUserId
        mutex := true }) :=
      sameRouting_setSession (by rfl)
    exact ⟨hset.nextPtr, hset.radCtx, hset.identifiers, hset.msgs⟩
  · refine (radiusClientReceive_routing hu).trans ?_
    rcases (sendRadiusPost_ok hsend).2 with ⟨-, rfl⟩ | ⟨-, rfl⟩
    · have harmed : SameRouting u (armPost u p (radiusPostSession (u.heap p))
          (radiusPost (radiusPostSession (u.heap p)) packet) call.now) :=
        sameRouting_armPost (by rfl)
      exact ⟨harmed.nextPtr, harmed.radCtx, harmed.identifiers, harmed.msgs⟩
    · exact sameRouting_setSession (by rfl)

theorem processRetrCoapEap_routing {id : Nat} (h : processRetrCoapEap s id p call = .ok t) :
    SameRouting s t := by
  have htouches := touches_processRetrCoapEap h
  have hradius : t.radius = s.radius := by
    rcases processRetrCoapEap_ok h with ⟨-, rfl⟩ | ⟨-, session, u, rfl, rfl,
      ⟨-, -, rfl⟩ | ⟨-, pdu, -, -, rfl⟩ | ⟨-, rfl⟩⟩ <;> rfl
  have hothers : SessionChange noAnswers (s.heap p) (t.heap p) ∧
      ∀ q, q ≠ p → t.heap q = s.heap q :=
    processRetrCoapEap_change h
  refine ⟨htouches.nextPtr, htouches.radCtx, ?_, fun entry hentry => hradius ▸ hentry⟩
  intro q
  unfold Controller.radiusIdentifier
  by_cases hq : q = p
  · subst hq
    rw [processRetrCoapEap_session h]
  · rw [hothers.2 q hq]

/-- What a step does to contexts and requests. -/
inductive RoutingMove (s : Controller) (e : Event) (t : Controller) : Prop
  | same (same : SameRouting s t)
  | created (datagram : Bytes) (source : Endpoint) (arrival : Arrival)
      (event : e = .recvCoap datagram source arrival)
      (valid : (validate (datagram.take (maxBufLen - 1))).isSome)
      (type : getType (datagram.take (maxBufLen - 1)) ≠ .acknowledgement)
      (state : t = newSession s (datagram.take (maxBufLen - 1)) source arrival)
  | stepped (p : Ptr) (ctx : EapAuthCtx) (call : Call) (data : Bytes)
      (run : eapRun s e = some (p, ctx, call)) (made : p < s.nextPtr)
      (handed : handedResponse ctx call = some data)
      (took : TookIdentifier s t p (userNameFits ctx data))

theorem StepsRouting.routingMove {ctx : EapAuthCtx} (h : StepsRouting s u p ctx call)
    (hrun : eapRun s e = some (p, ctx, call)) (hmade : p < s.nextPtr) (hsame : SameRouting u t) :
    RoutingMove s e t := by
  rcases h with ⟨-, hkept⟩ | ⟨data, hdata, htook⟩
  · exact .same (hkept.trans hsame)
  · exact .stepped p ctx call data hrun hmade hdata (htook.then_same hsame)

theorem step_routing (hs : WellFormed s) (h : step digests s e = some t) :
    RoutingMove s e t := by
  have hended : ∀ (u : Controller) (i : Nat), SameRouting u (endWorker u i) :=
    fun _ _ => ⟨rfl, rfl, fun _ => rfl, fun _ h => h⟩
  obtain ⟨-, hmove⟩ := step_move h
  cases hmove with
  | created datagram source arrival _ hvalid htype =>
    exact .created datagram source arrival rfl hvalid htype rfl
  | queued task p =>
    have hset : SameRouting s
        (s.setSession p { s.heap p with lastReceivedMessage := some task.buf }) :=
      sameRouting_setSession (by rfl)
    exact .same ⟨hset.nextPtr, hset.radCtx, hset.identifiers, hset.msgs⟩
  | handledCoap i call task p u hworker _ hresult =>
    have hmade : p < s.nextPtr :=
      hs.activities _ (mem_activities_of_worker hworker) p (by simp [Worker.pointers])
    exact (processCoapMsg_routing hresult).routingMove (by simp [eapRun, hworker]) hmade
      (hended u i)
  | handledAcknowledgment i call task post p u hworker _ hresult =>
    have hmade : p < s.nextPtr :=
      hs.activities _ (mem_activities_of_worker hworker) p (by simp [Worker.pointers])
    rcases processAcknowledgment_routing hresult with hsame | ⟨hstate, request, hvalid, hsteps⟩
    · exact .same (hsame.trans (hended u i))
    · exact hsteps.routingMove (by simp [eapRun, hworker, hstate, hvalid]) hmade (hended u i)
  | handledRadius i call msg p u _ _ hresult =>
    exact .same ((processReceiveRadiusMsg_routing hresult).trans (hended u i))
  | wroteIdentity i call msg p u _ _ hresult =>
    have hsame := processReceiveRadiusMsg_routing hresult
    exact .same ⟨hsame.nextPtr, hsame.radCtx, hsame.identifiers, hsame.msgs⟩
  | handedIdentity i call p u hworker hresult =>
    have hmade : p < s.nextPtr :=
      hs.activities _ (mem_activities_of_worker hworker) p (by simp [Worker.pointers])
    have hsteps := stepSession_routing (by rfl) hresult
    exact hsteps.routingMove (by simp [eapRun, hworker]) hmade (hended u i)
  | handledRetr i call origin id p u _ _ hresult =>
    exact .same ((processRetrCoapEap_routing hresult).trans (hended u i))
  | _ => exact .same ⟨rfl, rfl, fun _ => rfl, fun _ h => h⟩

/-- Every request that waits is found under its identifier, and every session has
its context in the list. -/
structure Routed (s : Controller) : Prop where
  requests : ∀ entry ∈ s.radius.msgs,
    first s.radCtx s.radiusIdentifier entry.msg.identifier = some entry.session
  contexts : ∀ p < s.nextPtr, p ∈ s.radCtx

theorem Routed.answersRouted (hs : Routed s) : AnswersRouted s := by
  intro identifier entry hmatch
  have hmem := List.mem_of_find?_eq_some hmatch
  have hid : entry.msg.identifier = identifier := by
    simpa using List.find?_some hmatch
  rw [← hs.requests entry hmem, hid]
  rfl

theorem Routed.of_same (hs : Routed s) (h : SameRouting s t) : Routed t where
  requests := by
    intro entry hentry
    have hidentifiers : t.radiusIdentifier = s.radiusIdentifier := funext h.identifiers
    rw [h.radCtx, hidentifiers]
    exact hs.requests entry (h.msgs entry hentry)
  contexts := by
    rw [h.nextPtr, h.radCtx]
    exact hs.contexts

/-- A new context takes no request over when none with identifier zero waits. -/
theorem Routed.newSession (hs : Routed s) (hwf : WellFormed s)
    (hzero : matching s.radius 0 = none) (buf : Bytes) (source : Endpoint) (arrival : Arrival) :
    Routed (newSession s buf source arrival) where
  requests := by
    intro entry hentry
    have hentry : entry ∈ s.radius.msgs := hentry
    have hnonzero : entry.msg.identifier ≠ 0 := by
      simpa using List.find?_eq_none.mp hzero entry hentry
    have hnew : (Mainserver.newSession s buf source arrival).radiusIdentifier s.nextPtr = 0 := by
      rw [Controller.radiusIdentifier, newSession_heap_self]
      rfl
    have hfront : (Mainserver.newSession s buf source arrival).radCtx = s.nextPtr :: s.radCtx :=
      rfl
    rw [hfront, first_cons_of_ne (by rw [hnew]; exact Ne.symm hnonzero), ← hs.requests entry hentry]
    apply first_congr
    intro q hq
    have hother : q ≠ s.nextPtr := Nat.ne_of_lt (hwf.contexts q hq)
    rw [Controller.radiusIdentifier, newSession_heap_ne _ _ _ hother, Controller.radiusIdentifier]
  contexts := by
    intro p hp
    have hp : p < s.nextPtr + 1 := hp
    rcases Nat.lt_succ_iff_lt_or_eq.mp hp with hold | rfl
    · exact List.mem_cons_of_mem _ (hs.contexts p hold)
    · exact List.mem_cons_self ..

/-- A session that may take the next identifier takes no request with it. -/
theorem Routed.took {completed : Bool} (hs : Routed s) (hmade : p < s.nextPtr)
    (hmay : mayTakeIdentifier s p completed = true) (h : TookIdentifier s t p completed) :
    Routed t where
  requests := by
    intro entry hentry
    rw [mayTakeIdentifier, Bool.and_eq_true] at hmay
    rw [h.radCtx, h.identifiers]
    rcases h.msgs entry hentry with hold | ⟨hcompleted, howner, hid⟩
    · obtain ⟨hmem, hne⟩ := waitingBeside_ne hold
      have hother : entry.session ≠ p := by
        simpa using List.all_eq_true.mp hmay.1 entry hold
      exact first_update_of_ne (hs.requests entry hmem) hother (Ne.symm hne)
    · rw [hid, howner]
      have hfree := hmay.2
      rw [hcompleted] at hfree
      exact first_update_self (hs.contexts p hmade) (by simpa using hfree)
  contexts := by
    rw [h.nextPtr, h.radCtx]
    exact hs.contexts

theorem Routed.step (hs : Routed s) (hwf : WellFormed s) (hkeeps : keepsRouting s e = true)
    (h : step digests s e = some t) : Routed t := by
  cases step_routing hwf h with
  | same hsame => exact hs.of_same hsame
  | created datagram source arrival hevent hvalid htype hstate =>
    subst hevent hstate
    have hzero : matching s.radius 0 = none := by
      have hpresent : (validate (datagram.take (maxBufLen - 1))).isNone = false := by
        simpa using hvalid
      simpa [keepsRouting, hpresent, htype] using hkeeps
    exact hs.newSession hwf hzero _ source arrival
  | stepped p ctx call data hrun hmade hhanded htook =>
    have hmay : mayTakeIdentifier s p (userNameFits ctx data) = true := by
      cases e with
      | recvCoap => simp [eapRun] at hrun
      | _ => simpa [keepsRouting, hrun, hhanded] using hkeeps
    exact hs.took hmade hmay htook

/-- In every run in which no session takes over the identifier of a request that
waits, every answer to a waiting request goes to the session that sent it. -/
theorem answers_reach_their_session
    (h : ReachableUnder (step digests) (fun s e => keepsRouting s e = true) initialController s) :
    AnswersRouted s := by
  have hrouted : Routed s := by
    refine h.invariant ?_ fun a e b hbefore ha hkeeps hstep =>
      ha.step (wellFormed hbefore) hkeeps hstep
    constructor
    · simp [initialController]
    · simp [initialController]
  exact hrouted.answersRouted

/-- Two sessions, of which the one made last sends its request first. -/
def newestAsksFirst : List Event :=
  comesIn 1 ++ comesIn 2 ++ acknowledges 2 1 ++ acknowledges 1 1

theorem two_answers_reach_their_sessions : ∃ s,
    ReachableUnder (step noAnswers) (fun s e => keepsRouting s e = true) initialController s ∧
      s.radius.msgs.map RadiusMsgList.session = [0, 1] ∧ AnswersRouted s := by
  have hrun : (run (guarded (step noAnswers) fun s e => keepsRouting s e = true)
      initialController newestAsksFirst).any
        (fun s => s.radius.msgs.map RadiusMsgList.session = [0, 1]) = true := by
    decide +kernel
  obtain ⟨s, hs, hwaiting⟩ := exists_of_run hrun
  have hreach := reachableUnder_of_run hs
  exact ⟨s, hreach, by simpa using hwaiting, answers_reach_their_session hreach⟩

/-- The older session sends the first request, which has identifier zero as the
context of the other session has. -/
theorem answer_reaches_idle_session :
    ¬ ∀ digests s, Reachable digests s → AnswersRouted s := by
  intro hstated
  have hrun : (run (step noAnswers) initialController
      (comesIn 1 ++ comesIn 2 ++ acknowledges 1 1)).any
        (fun s => (matching s.radius 0).any fun entry =>
          searchEapCtxRadClient s 0 ≠ some entry.session) = true := by
    decide +kernel
  obtain ⟨s, hs, hcheck⟩ := exists_of_run hrun
  cases hmatch : matching s.radius 0 with
  | none => simp [hmatch] at hcheck
  | some entry =>
    have hrouted := hstated noAnswers s (reachable_of_run hs) 0 entry hmatch
    simp [hmatch, hrouted] at hcheck

end CoapEap.Mainserver
