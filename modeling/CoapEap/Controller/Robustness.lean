import CoapEap.Controller.Bystanders
import CoapEap.Controller.Openings
import CoapEap.Controller.Refusal

/-!
Datagrams that neither end the process nor reach a session they are not for. The EAP
machine of a session runs for the session alone: it is started with the first POST,
and no answer and no response gets to it before.
-/

namespace CoapEap.Mainserver

open Cantcoap EapServer Lalarm Radius Library.Runs

/-- A listed session goes by the identifier. -/
def namesSession (s : Controller) (id : UInt32) : Bool :=
  s.sessions.any fun p => s.sessionId p = id

/-- The session was made for the request and has sent nothing yet. -/
def opensOwn (s : Controller) (task : NetworkTask) (p : Ptr) : Bool :=
  let session := s.heap p
  session.lastSentMessage.isNone && session.lastReceivedMessage = some task.buf &&
    session.recvAddr = task.theirAddr

/-- What waits under the identifier that the next request takes is of the session, and
so is the oldest request where the list has no room for another. -/
def makesOwnRoom (radius : RadiusClient) (completed : Bool) (p : Ptr) : Bool :=
  radius.msgs.all (fun entry =>
      entry.msg.identifier ≠ radius.nextRadiusIdentifier || entry.session = p) &&
    (!completed || radius.numMsgs < radiusClientMaxEntries ||
      (radiusClientGetId radius).2.msgs.getLast?.all fun entry => entry.session = p)

/-- Where a handler ends with a request, the session makes the room for it. -/
def dropsOwn (s : Controller) (i : Nat) (call : Call) (p : Ptr) : Bool :=
  (eapRun s (.handle i call)).all fun run =>
    (handedResponse run.2.1 run.2.2).all fun data =>
      makesOwnRoom s.radius (userNameFits run.2.1 data) p

/-- What the worker is to hand over stands in `eap_req_id`. -/
def Worker.inWorkarround : Worker → Bool
  | .radiusIdentity _ => true
  | _ => false

/-- A handler works on the session its datagram is for, finds no other session in its
place, comes upon none of the ways out of the process, and does not write over
`eap_req_id` before another handler has read it. -/
def sparesOthers (digests : Digests) (s : Controller) (i : Nat) (call : Call) : Worker → Bool
  | .coapMsg task p => opensOwn s task p && ownAlarms s p 1 && dropsOwn s i call p
  | .acknowledgment task post p =>
    post.1 = p && dropsOwn s i call p &&
      match (s.heap p).currentState with
      | 2 => (validate task.buf).all fun request => !hasOption task.buf request optionAuth
      | 3 => ownAlarms s p 2 && ownEntries s p 2
      | _ => true
  | .receiveRadiusMsg msg p =>
    reachesOwn digests s msg p && !failsOn digests s msg p &&
      ownAlarms s p 1 && ((s.heap p).eapWorkarround ≠ 0 || !s.workers.any Worker.inWorkarround)
  | .radiusIdentity p => dropsOwn s i call p
  | _ => true

/-- An acknowledgment names a listed session when it comes and when it is looked up,
and the session has sent a message or the length of none; what comes from the RADIUS
server can be parsed; and the handlers spare the other sessions. -/
def spares (digests : Digests) (s : Controller) : Event → Bool
  | .recvCoap datagram _ arrival =>
    let buf := datagram.take (maxBufLen - 1)
    (validate buf).isNone || getType buf ≠ .acknowledgement ||
      namesSession s (tokenSessionId buf arrival.stack)
  | .lockAcknowledgment =>
    match s.networkThread with
    | .acknowledgment _ p => (s.heap p).lastSentMessage.isSome || (s.heap p).lastSentMessageLen < 4
    | .waiting => true
  | .recvRadius datagram =>
    (datagram.take maxDataLen).isEmpty || (radiusMsgParse (datagram.take maxDataLen)).isSome
  | .lookup i stack =>
    match s.workers[i]? with
    | some (.took (.processCoapMsg task)) => namesSession s task.sessionId
    | some (.took (.processAcknowledgment task _)) => namesSession s (tokenSessionId task.buf stack)
    | _ => true
  | .handle i call => (s.workers[i]?).all (sparesOthers digests s i call)
  | _ => true

/-- The runs in which every step spares the other sessions. -/
abbrev Sparing (digests : Digests) : Controller → Prop :=
  ReachableUnder (step digests) (fun s e => spares digests s e = true) initialController

variable {digests : Digests} {s t : Controller} {e : Event} {p q : Ptr} {i : Nat} {call : Call}

/-- Only a session that stored a POST has a machine that runs, a waiting request and a
worker in the identity workaround. -/
structure Opened (s : Controller) : Prop where
  machines : ∀ p, InOrder (s.heap p).eapCtx.eap
  unopened : ∀ p, (s.heap p).lastSentMessage = none → Unstarted (s.heap p).eapCtx.eap
  located : ∀ p, (s.heap p).lastSentMessage.isSome → (s.heap p).location.isSome
  requests : ∀ entry ∈ s.radius.msgs,
    entry.session < s.nextPtr ∧ (s.heap entry.session).lastSentMessage.isSome
  identities : ∀ p, .radiusIdentity p ∈ s.activities → (s.heap p).lastSentMessage.isSome

theorem opened_initial : Opened initialController where
  machines := fun _ => inOrder_initialSm
  unopened := fun _ _ => unstarted_initialSm
  located := by simp [initialController, initCoapEapSession]
  requests := by simp [initialController]
  identities := by simp [initialController, Controller.activities]

/-- The condition on a handler, for the worker that runs it. -/
theorem sparesOthers_of_worker {worker : Worker} (h : spares digests s (.handle i call) = true)
    (hworker : s.workers[i]? = some worker) : sparesOthers digests s i call worker = true := by
  simpa [spares, hworker] using h

/-- An answer is taken in only by a session that asked. -/
theorem Opened.asked (hs : Opened s) {msg : RadiusMsg} {entry : RadiusMsgList}
    (hmatch : matching s.radius msg.identifier = some entry)
    (haccepted : acceptsAnswer digests msg entry.msg = true)
    (hreaches : reachesOwn digests s msg p = true) :
    searchEapCtxRadClient s msg.identifier = some p ∧ (s.heap p).lastSentMessage.isSome := by
  simp only [reachesOwn, hmatch, Option.all_some, haccepted, Bool.not_true, Bool.false_or,
    Bool.and_eq_true, decide_eq_true_eq] at hreaches
  obtain ⟨rfl, hfound⟩ := hreaches
  exact ⟨hfound, (hs.requests entry (List.mem_of_find?_eq_some hmatch)).2⟩

theorem Opened.step_machines (hs : Opened s) (hmet : spares digests s e = true)
    (h : step digests s e = some t) (q : Ptr) : InOrder (t.heap q).eapCtx.eap := by
  have hmove := step_machine h q
  generalize (t.heap q).eapCtx.eap = eap at hmove ⊢
  cases hmove with
  | created => exact inOrder_initialSm
  | kept => exact hs.machines q
  | opened i call task rand hworker =>
    have hown := sparesOthers_of_worker hmet hworker
    simp only [sparesOthers, opensOwn, Bool.and_eq_true, Option.isNone_iff_eq_none] at hown
    have hnew := hs.unopened q hown.1.1.1.1
    exact inOrder_taken ((inOrder_restarted (hs.machines q) hnew.identity).run rand)
  | responded i call data rand =>
    exact inOrder_taken ((inOrder_responded (hs.machines q) data).run rand)
  | answered i call msg p entry =>
    exact (inOrder_answered (hs.machines q) digests msg entry.msg).run call.rand

theorem Opened.step_unopened (hs : Opened s) (hreach : Reachable digests s)
    (hmet : spares digests s e = true) (h : step digests s e = some t) (q : Ptr)
    (hnone : (t.heap q).lastSentMessage = none) : Unstarted (t.heap q).eapCtx.eap := by
  rcases step_session (shortRequests hreach) h q with ⟨-, buf, source, arrival, hnew⟩ | hchanges
  · rw [hnew]
    exact unstarted_initialSm
  · have hbefore : (s.heap q).lastSentMessage = none := by
      by_contra hsent
      have hkeeps : ∀ x y : Session, SessionChange digests x y → x.lastSentMessage ≠ none →
          y.lastSentMessage ≠ none :=
        fun _ _ hchange => hchange.keepsPost
      exact sessionChanges_keep hkeeps hchanges hsent hnone
    have hmove := step_machine h q
    generalize hmachine : (t.heap q).eapCtx.eap = eap at hmove ⊢
    cases hmove with
    | created => exact unstarted_initialSm
    | kept => exact hs.unopened q hbefore
    | opened i call task rand hworker =>
      rcases handled_coapMsg h hworker with ⟨hheap, -⟩ | hsent
      · rw [← hmachine, hheap]
        exact hs.unopened q hbefore
      · rw [hnone] at hsent
        cases hsent
    | responded i call data rand hworker =>
      rcases hworker with hidentity | ⟨hstate, -⟩
      · have hsent := hs.identities q (mem_activities_of_worker hidentity)
        rw [hbefore] at hsent
        cases hsent
      · exact absurd hstate (state_of_unsent hreach q hbefore)
    | answered i call msg p entry hworker hmatch haccepted hfound =>
      have hspares := sparesOthers_of_worker hmet hworker
      simp only [sparesOthers, Bool.and_eq_true] at hspares
      obtain ⟨hsearch, hsent⟩ := hs.asked hmatch haccepted hspares.1.1.1
      obtain rfl : q = p := Option.some.inj (hfound.symm.trans hsearch)
      rw [hbefore] at hsent
      cases hsent

theorem Opened.step_located (hs : Opened s) (hreach : Reachable digests s)
    (h : step digests s e = some t) (q : Ptr) (hsent : (t.heap q).lastSentMessage.isSome) :
    (t.heap q).location.isSome := by
  cases hbefore : (s.heap q).lastSentMessage with
  | none => exact step_first_post h hbefore hsent
  | some pdu =>
    rcases step_session (shortRequests hreach) h q with ⟨-, buf, source, arrival, hnew⟩ | hchanges
    · rw [hnew] at hsent
      cases hsent
    · have hkeeps : ∀ x y : Session, SessionChange digests x y → x.location.isSome →
          y.location.isSome :=
        fun _ _ hchange hx => hchange.location_isSome hx
      exact sessionChanges_keep hkeeps hchanges (hs.located q (by rw [hbefore]; rfl))

/-- The session whose EAP layer takes a step is opened, or is being so. -/
theorem Opened.run (hs : Opened s) (hreach : Reachable digests s) {ctx : EapAuthCtx}
    (hrun : eapRun s e = some (p, ctx, call)) : (s.heap p).lastSentMessage.isSome ∨
      ∃ i call task, e = .handle i call ∧ s.workers[i]? = some (.coapMsg task p) := by
  cases e with
  | handle i call =>
    simp only [eapRun] at hrun
    split at hrun
    · rename_i task q hworker
      obtain ⟨rfl, -⟩ : q = p ∧ _ := by simpa using hrun
      exact .inr ⟨i, call, task, rfl, hworker⟩
    · rename_i task post q hworker
      split at hrun
      · rename_i hstate
        obtain ⟨request, -, hrun⟩ := Option.map_eq_some_iff.mp hrun
        obtain ⟨rfl, -⟩ : q = p ∧ _ := by simpa using hrun
        left
        by_contra hnone
        exact state_of_unsent hreach q (by simpa using hnone) hstate
      · cases hrun
    · rename_i q hworker
      obtain ⟨rfl, -⟩ : q = p ∧ _ := by simpa using hrun
      exact .inl (hs.identities q (mem_activities_of_worker hworker))
    · cases hrun
  | _ => cases hrun

theorem Opened.step_requests (hs : Opened s) (hreach : Reachable digests s)
    (h : step digests s e = some t) : ∀ entry ∈ t.radius.msgs,
      entry.session < t.nextPtr ∧ (t.heap entry.session).lastSentMessage.isSome := by
  have hold : ∀ entry ∈ s.radius.msgs,
      entry.session < t.nextPtr ∧ (t.heap entry.session).lastSentMessage.isSome := by
    intro entry hentry
    obtain ⟨hmade, hsent⟩ := hs.requests entry hentry
    exact ⟨Nat.lt_of_lt_of_le hmade (step_grows h).nextPtr, step_lastSent hreach h hmade hsent⟩
  intro entry hentry
  cases step_routing (wellFormed hreach) h with
  | same hsame => exact hold entry (hsame.msgs entry hentry)
  | created datagram source arrival _ _ _ hstate =>
    rw [hstate] at hentry
    exact hold entry hentry
  | stepped p ctx call data hrun hmade _ htook =>
    rcases htook.msgs entry hentry with hwaiting | ⟨-, howner, -⟩
    · exact hold entry (waitingBeside_ne hwaiting).1
    · rcases hs.run hreach hrun with hsent | ⟨i, call, task, rfl, hworker⟩
      · rw [howner, htook.nextPtr]
        exact ⟨hmade, step_lastSent hreach h hmade hsent⟩
      · rcases handled_coapMsg h hworker with ⟨-, hradius⟩ | hsent
        · exact hold entry (hradius ▸ hentry)
        · rw [howner, htook.nextPtr]
          exact ⟨hmade, hsent⟩

theorem Opened.step_identities (hs : Opened s) (hreach : Reachable digests s)
    (hmet : spares digests s e = true) (h : step digests s e = some t) (q : Ptr)
    (hw : .radiusIdentity q ∈ t.activities) : (t.heap q).lastSentMessage.isSome := by
  have hwf := wellFormed hreach
  have hkept : .radiusIdentity q ∈ s.activities → (t.heap q).lastSentMessage.isSome := by
    intro hold
    have hmade : q < s.nextPtr := hwf.activities _ hold q (by simp [Worker.pointers])
    exact step_lastSent hreach h hmade (hs.identities q hold)
  cases ha : answersIdentity digests s e with
  | none => exact hkept ((step_eapReqId ha h).2 q hw)
  | some entered =>
    obtain ⟨p, packet⟩ := entered
    have henters := answersIdentity_enters hreach ha h
    rcases henters.inside q hw with rfl | hold
    swap
    · exact hkept hold
    obtain ⟨i, call, msg, u, rfl, hworker, hresult⟩ := wrote_of_answersIdentity ha
    apply step_lastSent hreach h henters.made
    by_contra hunsent
    have hnew := hs.unopened q (by simpa using hunsent)
    have hspares := sparesOthers_of_worker hmet hworker
    simp only [sparesOthers, Bool.and_eq_true] at hspares
    obtain ⟨v, hv, -⟩ := processReceiveRadiusMsg_ok hresult
    have hkept : (v.heap q).eapCtx.eap = (s.heap q).eapCtx.eap := by
      rcases radiusClientReceive_ok hv with ⟨-, rfl⟩ | ⟨entry, hmatch, ⟨-, rfl⟩ |
        ⟨haccepted, -⟩⟩
      · rfl
      · rfl
      · exact absurd (hs.asked hmatch haccepted hspares.1.1.1).2 hunsent
    have hidle : hasNext digests s msg q call = false := by
      simp only [hasNext, hv, hkept, hnew.eapReq, hnew.eapSuccess, Bool.or_false]
    obtain ⟨-, hidentity⟩ := processReceiveRadiusMsg_idle_ok hidle hresult
    cases hidentity

theorem Opened.step (hs : Opened s) (hreach : Reachable digests s)
    (hmet : spares digests s e = true) (h : step digests s e = some t) : Opened t where
  machines := hs.step_machines hmet h
  unopened := hs.step_unopened hreach hmet h
  located := hs.step_located hreach h
  requests := hs.step_requests hreach h
  identities := hs.step_identities hreach hmet h

theorem opened (h : Sparing digests s) : Opened s :=
  h.invariant opened_initial fun _ _ _ hbefore hs hmet hstep => hs.step hbefore.reachable hmet hstep

theorem getCoapEapSession_total {id : UInt32} (h : namesSession s id = true) :
    ∃ p, getCoapEapSession s id = .ok p := by
  have hfound : (s.sessions.find? fun p => s.sessionId p = id).isSome := by
    rw [List.find?_isSome]
    obtain ⟨p, hlisted, hid⟩ := List.any_eq_true.mp h
    exact ⟨p, hlisted, hid⟩
  obtain ⟨p, hp⟩ := Option.isSome_iff_exists.mp hfound
  exact ⟨p, by rw [getCoapEapSession, hp]⟩

/-- An answer does not fail a session that it is not said to. -/
theorem Opened.answer_running (hs : Opened s) (hreach : Reachable digests s) {msg : RadiusMsg}
    (hreaches : reachesOwn digests s msg p = true) (hfails : failsOn digests s msg p = false)
    (call : Call) :
    (machineAfter digests s msg p call).eapFail = false := by
  cases hsent : (s.heap p).lastSentMessage with
  | some pdu =>
    have hrest : AtRest (s.heap p).eapCtx.eap :=
      (rested hreach p).atRest (.inl (by rw [hsent]; rfl))
    rw [machineAfter_eapFail hrest]
    exact hfails
  | none =>
    have hbefore := (hs.unopened p hsent).eapFail
    unfold machineAfter
    cases hmatch : matching s.radius msg.identifier with
    | none => exact hbefore
    | some entry =>
      cases haccepted : acceptsAnswer digests msg entry.msg with
      | false => simpa [haccepted] using hbefore
      | true =>
        have hasked := (hs.asked hmatch haccepted hreaches).2
        rw [hsent] at hasked
        cases hasked

/-- An answer that reaches its session is taken in and followed up. -/
theorem Opened.answer_total (hs : Opened s) (hreach : Reachable digests s) {msg : RadiusMsg}
    (hreaches : reachesOwn digests s msg p = true) (hfails : failsOn digests s msg p = false)
    (call : Call) :
    ∃ r, processReceiveRadiusMsg digests s msg p call = .ok r := by
  have hrunning : (machineAfter digests s msg p call).eapFail = false :=
    hs.answer_running hreach hreaches hfails call
  obtain ⟨u, hu, -, hmachine⟩ := radiusClientReceive_total hreaches (hs.machines p) call
  have hchange : u.heap p = s.heap p ∨ SessionChange digests (s.heap p) (u.heap p) :=
    radiusClientReceive_change hu p
  have hkeyed : Keyed (u.heap p) := by
    rcases hchange with hsame | hchange
    · rw [hsame]
      exact keyed hreach p
    · exact (keyed hreach p).change hchange
  apply processReceiveRadiusMsg_total hreaches (hs.machines p) hrunning
  · rw [← hmachine]
    cases hsent : (s.heap p).lastSentMessage with
    | none =>
      left
      rcases radiusClientReceive_ok hu with ⟨-, rfl⟩ | ⟨entry, hmatch, ⟨-, rfl⟩ | ⟨haccepted, -⟩⟩
      · exact hs.unopened p hsent
      · exact hs.unopened p hsent
      · have hasked := (hs.asked hmatch haccepted hreaches).2
        rw [hsent] at hasked
        cases hasked
    | some pdu =>
      have hlocated := hs.located p (by rw [hsent]; rfl)
      have hran : Unstarted (u.heap p).eapCtx.eap ∨ Asking (u.heap p).eapCtx.eap := by
        rcases hchange with hsame | hchange
        · rw [hsame]
          exact unstarted_or_asking hreach p
        · rcases hchange.eapChange with hsame | hran
          · rw [hsame]
            exact unstarted_or_asking hreach p
          · exact .inr (hran.asking (unstarted_or_asking hreach p))
      exact hran.imp_right fun hasking => ⟨hasking, hlocated⟩
  · rw [← hmachine]
    exact hkeyed.keyHeld

/-- Every handler that spares the others returns. -/
theorem Opened.handle_total (hs : Opened s) (hreach : Reachable digests s)
    (hbuffers : BuffersValid s) {worker : Worker} {result : Except Halt Controller}
    (hworker : s.workers[i]? = some worker)
    (hmet : sparesOthers digests s i call worker = true)
    (hresult : handleStep digests s i worker call = some result) :
    ∃ u, result = .ok u ∧ u.halted = s.halted := by
  have hmem := mem_activities_of_worker hworker
  cases worker with
  | took task => simp [handleStep] at hresult
  | retrId origin id => simp [handleStep] at hresult
  | coapMsg task p =>
    simp only [handleStep, Option.ite_none_left_eq_some, Option.some.injEq] at hresult
    simp only [sparesOthers, opensOwn, Bool.and_eq_true, Option.isNone_iff_eq_none] at hmet
    have hnew := hs.unopened p hmet.1.1.1.1
    obtain ⟨u, hu⟩ := processCoapMsg_total (hbuffers.requests _ hmem task.buf rfl) (hs.machines p)
      hnew.identity (.inl hnew) call
    obtain ⟨-, rfl⟩ := hresult
    rw [hu]
    exact ⟨_, rfl, (touches_processCoapMsg hu).halted⟩
  | acknowledgment task post p =>
    simp only [handleStep, Option.ite_none_left_eq_some, Option.some.injEq] at hresult
    simp only [sparesOthers, Bool.and_eq_true] at hmet
    have hauth : (s.heap p).currentState = 2 → ∀ request, validate task.buf = some request →
        hasOption task.buf request optionAuth = false := by
      intro hstate request hrequest
      simpa [hstate, hrequest] using hmet.2
    obtain ⟨u, hu⟩ := processAcknowledgment_total post
      (hbuffers.acknowledgments _ hmem task post rfl) (hs.machines p) hauth call
    obtain ⟨-, rfl⟩ := hresult
    rw [hu]
    exact ⟨_, rfl, (touches_processAcknowledgment hu).halted⟩
  | receiveRadiusMsg msg p =>
    simp only [handleStep, Option.ite_none_left_eq_some, Option.some.injEq] at hresult
    simp only [sparesOthers, Bool.and_eq_true, Bool.not_eq_true'] at hmet
    obtain ⟨⟨u, identity⟩, hu⟩ := hs.answer_total hreach hmet.1.1.1 hmet.1.1.2 call
    obtain ⟨-, rfl⟩ := hresult
    have hkept := (touches_processReceiveRadiusMsg hu).halted
    rw [hu]
    cases identity with
    | true => exact ⟨_, rfl, hkept⟩
    | false => exact ⟨_, rfl, hkept⟩
  | radiusIdentity p =>
    simp only [handleStep, Option.some.injEq] at hresult
    obtain ⟨u, hu⟩ := identityHandOver_total (hs.machines p) call
    subst hresult
    rw [hu]
    exact ⟨_, rfl, (touches_identityHandOver hu).halted⟩
  | retrCoapEap origin id p =>
    simp only [handleStep, Option.ite_none_left_eq_some, Option.some.injEq] at hresult
    obtain ⟨u, hu⟩ := processRetrCoapEap_total id call (storesPosts hreach p)
    obtain ⟨-, rfl⟩ := hresult
    rw [hu]
    exact ⟨_, rfl, (touches_processRetrCoapEap hu).halted⟩

/-- A task of a session that is listed finds one. -/
theorem lookup_total (hbuffers : BuffersValid s) {worker : Worker} {stack : Bytes}
    {result : Except Halt Controller} (hworker : s.workers[i]? = some worker)
    (hmet : spares digests s (.lookup i stack) = true)
    (hresult : lookupStep s i worker stack = some result) :
    ∃ u, result = .ok u ∧ u.halted = s.halted := by
  have hmem := mem_activities_of_worker hworker
  simp only [spares, hworker] at hmet
  cases worker with
  | took task =>
    cases task with
    | processCoapMsg task =>
      have hvalid : (validate task.buf).isNone = false := by
        simpa using hbuffers.requests _ hmem task.buf rfl
      obtain ⟨p, hp⟩ := getCoapEapSession_total hmet
      simp only [lookupStep, hvalid, hp, Bool.false_eq_true, if_false, Option.some.injEq] at hresult
      subst hresult
      exact ⟨_, rfl, rfl⟩
    | processAcknowledgment task post =>
      have hvalid : (validate task.buf).isNone = false := by
        simpa using hbuffers.acknowledgments _ hmem task post rfl
      obtain ⟨p, hp⟩ := getCoapEapSession_total hmet
      simp only [lookupStep, hvalid, hp, Bool.false_eq_true, if_false, Option.some.injEq] at hresult
      subst hresult
      exact ⟨_, rfl, rfl⟩
    | processReceiveRadiusMsg msg =>
      simp only [lookupStep, Option.some.injEq] at hresult
      subst hresult
      cases searchEapCtxRadClient s msg.identifier with
      | none => exact ⟨_, rfl, rfl⟩
      | some p => exact ⟨_, rfl, rfl⟩
    | processRetrCoapEap origin =>
      simp only [lookupStep, Option.some.injEq] at hresult
      subst hresult
      exact ⟨_, rfl, rfl⟩
  | retrId origin id =>
    simp only [lookupStep, Option.some.injEq] at hresult
    subst hresult
    exact ⟨_, rfl, rfl⟩
  | coapMsg task p => simp [lookupStep] at hresult
  | acknowledgment task post p => simp [lookupStep] at hresult
  | receiveRadiusMsg msg p => simp [lookupStep] at hresult
  | radiusIdentity p => simp [lookupStep] at hresult
  | retrCoapEap origin id p => simp [lookupStep] at hresult

/-- The alarm thread ends nothing. -/
theorem alarmThread_halted (h : alarmThreadStep s = some t) : t.halted = s.halted := by
  unfold alarmThreadStep at h
  split at h
  · cases h
  · split at h
    · cases h
      rfl
    · cases h
      rfl
  · cases h
    rfl
  · cases h
    rfl
  · split at h
    · cases h
      rfl
    · cases h
      rfl
  · cases h
    rfl

/-- No step of a sparing run ends the process. -/
theorem step_running (h : Sparing digests s) (hmet : spares digests s e = true)
    (hstep : step digests s e = some t) : t.halted = none := by
  have hreach := h.reachable
  have hbuffers : BuffersValid s := buffersValid hreach
  obtain ⟨hrunning, -⟩ := step_move hstep
  have hnot : s.halted.isSome = false := by
    rw [hrunning]
    rfl
  cases e with
  | recvCoap datagram source arrival =>
    simp only [step, hnot, Bool.false_eq_true, if_false] at hstep
    cases hthread : s.networkThread with
    | acknowledgment task p => simp [hthread] at hstep
    | waiting =>
      simp only [hthread] at hstep
      split at hstep
      · cases hstep
        exact hrunning
      · rename_i hvalid
        split at hstep
        · cases hstep
          exact hrunning
        · rename_i htype
          have hnames : namesSession s
              (tokenSessionId (datagram.take (maxBufLen - 1)) arrival.stack) = true := by
            simpa [spares, hvalid, htype] using hmet
          obtain ⟨p, hp⟩ := getCoapEapSession_total hnames
          simp only [hp, Except.map, conclude, Option.some.injEq] at hstep
          rw [← hstep]
          exact hrunning
  | lockAcknowledgment =>
    simp only [step, hnot, Bool.false_eq_true, if_false] at hstep
    cases hthread : s.networkThread with
    | waiting => simp [hthread] at hstep
    | acknowledgment task p =>
      simp only [hthread, Option.ite_none_left_eq_some, Option.some.injEq] at hstep
      have hsent : (s.heap p).lastSentMessage.isSome ∨ (s.heap p).lastSentMessageLen < 4 := by
        simpa [spares, hthread] using hmet
      obtain ⟨u, hu⟩ := checkAcknowledgment_total task (received_isSome hreach p) hsent
      rw [hu] at hstep
      obtain ⟨-, rfl⟩ := hstep
      rcases checkAcknowledgment_ok hu with rfl | ⟨lastSent, -, -, rfl⟩
      · exact hrunning
      · exact hrunning
  | recvRadius datagram =>
    simp only [step, hnot, Bool.false_eq_true, if_false] at hstep
    cases hthread : s.networkThread with
    | acknowledgment task p => simp [hthread] at hstep
    | waiting =>
      simp only [hthread] at hstep
      split at hstep
      · cases hstep
        exact hrunning
      · rename_i hlength
        have hparsed : (radiusMsgParse (datagram.take maxDataLen)).isSome := by
          rcases Bool.or_eq_true_iff.mp hmet with hempty | hparsed
          · exact absurd (by rw [List.isEmpty_iff.mp hempty]; rfl) hlength
          · exact hparsed
        obtain ⟨msg, hmsg⟩ := Option.isSome_iff_exists.mp hparsed
        simp only [hmsg, conclude, Option.some.injEq] at hstep
        rw [← hstep]
        exact hrunning
  | getTask =>
    simp only [step, hnot, Bool.false_eq_true, if_false] at hstep
    split at hstep
    · cases hstep
    · cases hstep
      exact hrunning
  | lookup i stack =>
    simp only [step, hnot, Bool.false_eq_true, if_false, Option.bind_eq_some_iff,
      Option.map_eq_some_iff] at hstep
    obtain ⟨worker, hworker, result, hresult, rfl⟩ := hstep
    obtain ⟨u, rfl, hkept⟩ := lookup_total hbuffers hworker hmet hresult
    exact hkept.trans hrunning
  | handle i call =>
    simp only [step, hnot, Bool.false_eq_true, if_false, Option.bind_eq_some_iff,
      Option.map_eq_some_iff] at hstep
    obtain ⟨worker, hworker, result, hresult, rfl⟩ := hstep
    obtain ⟨u, rfl, hkept⟩ := (opened h).handle_total hreach hbuffers hworker
      (sparesOthers_of_worker hmet hworker) hresult
    exact hkept.trans hrunning
  | wake time =>
    simp only [step, hnot, Bool.false_eq_true, if_false, Option.ite_none_right_eq_some,
      Option.some.injEq] at hstep
    obtain ⟨-, rfl⟩ := hstep
    exact hrunning
  | alarmStep =>
    simp only [step, hnot, Bool.false_eq_true, if_false] at hstep
    exact (alarmThread_halted hstep).trans hrunning

end CoapEap.Mainserver
