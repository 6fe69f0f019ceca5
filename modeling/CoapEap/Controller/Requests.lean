import CoapEap.Controller.Forwarding
import CoapEap.Controller.RadiusMessage
import CoapEap.Library.FirstMatch
import Mathlib.Algebra.GroupWithZero.Nat

/-!
The Access-Requests of the controller over whole runs. Only a step of a session's EAP
layer sends one, and what it carries is the response that the session's machine hands
over. The requests that wait for an answer are kept apart by their identifiers, are no
more than the client counts, and are small enough for a RADIUS message.
-/

namespace CoapEap.Mainserver

open Cantcoap EapServer Lalarm Radius Library.Runs Library.Records
  Library.FirstMatch

/-- The longest response that the handlers read out of an acknowledgment. -/
def maxEapResponse : Nat := 2805

/-- The Access-Requests in a log. -/
def Occurrence.request : Occurrence → Option (Ptr × UInt8)
  | .accessRequest p identifier => some (p, identifier)
  | _ => none

def requestsOf (log : List Occurrence) : List (Ptr × UInt8) := log.filterMap Occurrence.request

/-- The answer of the RADIUS server that a worker has in hand. -/
def Worker.answer : Worker → Option RadiusMsg
  | .took (.processReceiveRadiusMsg msg) => some msg
  | .receiveRadiusMsg msg _ => some msg
  | _ => none

variable {digests : Digests} {s t u : Controller} {e : Event} {p q : Ptr} {call : Call}
variable {ctx : EapAuthCtx} {r : EapStep} {x y : Session} {eap : EapSm}

/-- No response in the machine is longer than the handlers read. -/
structure ShortResponses (sm : EapSm) : Prop where
  portEnabled : sm.portEnabled = true
  eapRespData : ∀ data, sm.eapRespData = some data → data.length ≤ maxEapResponse
  aaaEapRespData : ∀ data, sm.aaaEapRespData = some data → data.length ≤ maxEapResponse

theorem ShortResponses.entry {sm before : EapSm} {rand : Nat} {state : EapState} {changed : Bool}
    (h : ShortResponses sm) (hentering : Entering sm state before) :
    ShortResponses (onEntry { before with changed, eapState := state } rand state) := by
  have hbefore : ShortResponses { before with changed, eapState := state } := by
    cases hentering with
    | restarted | exhausted | next => exact ⟨h.portEnabled, h.eapRespData, h.aaaEapRespData⟩
  have hkept := onEntry_responseKept { before with changed, eapState := state } rand state
  refine ⟨hkept.portEnabled.trans hbefore.portEnabled, ?_, ?_⟩
  · rw [hkept.eapRespData]
    exact hbefore.eapRespData
  · by_cases hnew : state = .initializePassthrough
    · subst hnew
      intro data hdata
      cases hdata
    · by_cases hcopied : state = .aaaRequest
      · subst hcopied
        intro data hdata
        rcases Option.or_eq_some_iff.mp hdata with hresponse | ⟨-, hold⟩
        · exact hbefore.eapRespData data hresponse
        · exact hbefore.aaaEapRespData data hold
      · rw [hkept.aaaEapRespData hnew hcopied]
        exact hbefore.aaaEapRespData

theorem shortResponses_initialSm : ShortResponses initialSm where
  portEnabled := rfl
  eapRespData := by simp [initialSm]
  aaaEapRespData := by simp [initialSm]

theorem ShortResponses.run (h : ShortResponses eap) (rand : Nat) :
    ShortResponses (eapServerSmStep eap rand) :=
  smLoop_keeps (fun _ h => h.portEnabled)
    (fun _ _ h => ⟨h.portEnabled, h.eapRespData, h.aaaEapRespData⟩)
    (fun _ _ _ _ h hin => h.entry hin) 32 h

/-- The machine of a session between two handlers. -/
structure Conversing (sm : EapSm) : Prop where
  asking : Unstarted sm ∨ Asking sm
  bound : Bound sm
  running : sm.eapState ≠ .initializeState
  pending : sm.eapState = .disabled ∨ sm.eapRestart = false
  between : Between sm
  outstanding : Outstanding sm

theorem conversing_initialSm : Conversing initialSm where
  asking := .inl unstarted_initialSm
  bound := ⟨⟨rfl, .inl (Nat.zero_le _)⟩, EapState.noConfusion, fun _ => EapState.noConfusion⟩
  running := EapState.noConfusion
  pending := .inl rfl
  between := ⟨rfl, rfl, rfl, .inl rfl⟩
  outstanding := ⟨by decide, fun hnot => Bool.noConfusion hnot, fun hnot => Bool.noConfusion hnot,
    fun _ => rfl⟩

theorem outstanding_responseTaken (h : Outstanding eap) : Outstanding (responseTaken eap) := by
  unfold Mainserver.responseTaken
  split
  · exact ⟨h.range, h.request, h.lastReqData, h.nothing⟩
  · exact h

/-- What the controller leaves alone when it writes the interface of a machine. -/
structure Addressed (sm written : EapSm) : Prop where
  eapState : written.eapState = sm.eapState
  portEnabled : written.portEnabled = sm.portEnabled
  aaaTimeout : written.aaaTimeout = sm.aaaTimeout
  aaaEapResp : written.aaaEapResp = sm.aaaEapResp
  currentId : written.currentId = sm.currentId
  eapReqData : written.eapReqData = sm.eapReqData
  lastReqData : written.lastReqData = sm.lastReqData

theorem addressed_restarted (eap : EapSm) : Addressed eap { eap with eapRestart := true } :=
  ⟨rfl, rfl, rfl, rfl, rfl, rfl, rfl⟩

theorem addressed_responded (eap : EapSm) (data : Bytes) :
    Addressed eap { eap with eapResp := true, eapRespData := some data } :=
  ⟨rfl, rfl, rfl, rfl, rfl, rfl, rfl⟩

theorem addressed_answered (eap : EapSm) (msg : RadiusMsg) (req : AccessRequest) :
    Addressed eap (answerEap digests msg req eap) := by
  obtain ⟨aaaSuccess, aaaFail, aaaEapReq, aaaEapReqData, keyData, keyAvailable, hwritten⟩ :=
    answerEap_eq digests msg req eap
  rw [hwritten]
  exact ⟨rfl, rfl, rfl, rfl, rfl, rfl, rfl⟩

/-- A run after the interface was written. -/
theorem Conversing.forwards (h : Conversing eap) {written : EapSm}
    (haddressed : Addressed eap written) (rand : Nat) : Forwards (eapServerSmStep written rand) ∧
      Outstanding (eapServerSmStep written rand) := by
  have hforwards : Forwards written :=
    h.between.forwards haddressed.eapState haddressed.portEnabled haddressed.aaaTimeout
      haddressed.aaaEapResp
  have houtstanding : Outstanding written :=
    h.outstanding.left haddressed.eapState haddressed.currentId haddressed.eapReqData
      haddressed.lastReqData id id
  exact ⟨hforwards.run rand, houtstanding.run hforwards.portEnabled rand⟩

theorem responseTaken_handed (h : Forwards eap) :
    (responseTaken eap).aaaTimeout = false ∧ (responseTaken eap).aaaEapResp = false := by
  unfold responseTaken
  split
  · exact ⟨h.aaaTimeout, rfl⟩
  · rename_i hnothing
    exact ⟨h.aaaTimeout, by simpa using hnothing⟩

/-- A machine that waits for an answer has nothing more to hand over. -/
theorem Conversing.silent (h : Conversing eap) (msg : RadiusMsg) (req : AccessRequest) :
    Silent (answerEap digests msg req eap) := by
  have hnew : eap.eapState = .disabled → eap.identity = none := by
    intro hdisabled
    rcases h.asking with hunstarted | hasking
    · exact hunstarted.identity
    · exact absurd hdisabled hasking.eapState
  obtain ⟨aaaSuccess, aaaFail, aaaEapReq, aaaEapReqData, keyData, keyAvailable, hwritten⟩ :=
    answerEap_eq digests msg req eap
  rw [hwritten]
  refine ⟨h.between.portEnabled, ?_, h.between.aaaEapResp, ?_⟩
  · intro hset
    have hrestart : eap.eapRestart = true := hset
    rcases h.pending with hdisabled | hnot
    · exact hnew hdisabled
    · rw [hnot] at hrestart
      cases hrestart
  · rcases h.between.place with hdisabled | hquiet
    · simp only [hdisabled]
      exact hnew hdisabled
    · cases hplace : eap.eapState with
      | idle | idle2 =>
        refine Bool.eq_false_iff.mpr ?_
        intro hresp
        have hset : eap.eapResp = true := hresp
        simp only [nextState, hplace, hset, if_true] at hquiet
        repeat' split at hquiet
        all_goals cases hquiet
      | disabled => exact hnew hplace
      | aaaIdle | success | failure | timeoutFailure | success2 | failure2 | timeoutFailure2 =>
        trivial
      | _ =>
        simp only [nextState, hplace] at hquiet
        repeat' split at hquiet
        all_goals simp at hquiet

/-- However a machine is run, what it hands over is taken before the next run. -/
theorem EapChange.conversing {a b : EapSm} (h : EapChange digests a b) (ha : Conversing a) :
    Conversing b := by
  have hasking := h.asking ha.asking
  obtain ⟨hbound, hrest⟩ := h.atRest ha.bound ha.running
  have hplace : b.eapState = .disabled ∨ nextState b = none := .inr hrest.quiet
  have hhanded : (b.aaaTimeout = false ∧ b.aaaEapResp = false) ∧ Outstanding b := by
    cases h with
    | opened rand =>
      have hran := ha.forwards (addressed_restarted a) rand
      exact ⟨responseTaken_handed hran.1, outstanding_responseTaken hran.2⟩
    | responded data rand =>
      have hran := ha.forwards (addressed_responded a data) rand
      exact ⟨responseTaken_handed hran.1, outstanding_responseTaken hran.2⟩
    | answered msg req rand =>
      have haddressed : Addressed a (answerEap digests msg req a) := addressed_answered a msg req
      have hran := ha.forwards haddressed rand
      exact ⟨⟨hran.1.aaaTimeout, (ha.silent msg req).run rand⟩, hran.2⟩
  exact ⟨.inr hasking, hbound, hrest.running, .inr hrest.eapRestart,
    ⟨hrest.portEnabled, hhanded.1.1, hhanded.1.2, hplace⟩, hhanded.2⟩

theorem conversing {guard : Controller → Event → Prop}
    (h : ReachableUnder (step digests) guard initialController s) (p : Ptr) :
    Conversing (s.heap p).eapCtx.eap :=
  eap_invariant conversing_initialSm (fun _ _ hchange hx => hchange.conversing hx) h p

/-- The State attributes that go back to the server: those of an Access-Challenge. -/
def stateFor (last : Option RadiusMsg) : List Bytes :=
  match last with
  | some msg => if msg.code = accessChallenge then attrValues msg attrState else []
  | none => []

/-- The request that a step of the EAP layer puts before those that wait. -/
structure Sent (ctx : EapAuthCtx) (radius : RadiusClient) (p : Ptr) (rand : Nat) (r : EapStep)
    (entry : RadiusMsgList) : Prop where
  identifier : entry.msg.identifier = radius.nextRadiusIdentifier
  request : r.request = some entry.msg.identifier
  current : r.ctx.radiusIdentifier = entry.msg.identifier
  session : entry.session = p
  userName : entry.msg.userName = (learnedIdentity entry.msg.eapMessage).or ctx.eapIdentity
  short : (entry.msg.userName.getD []).length ≤ radiusMaxAttrLen
  machine : r.ctx.eap = { eapServerSmStep ctx.eap rand with aaaEapResp := false }
  handed : (eapServerSmStep ctx.eap rand).aaaEapResp = true
  eapMessage : (eapServerSmStep ctx.eap rand).aaaEapRespData = some entry.msg.eapMessage
  state : entry.msg.state = stateFor ctx.lastRecvRadius
  waiting : r.radius = radiusClientListAdd (radiusClientGetId radius).2 entry

/-- A step of the EAP layer leaves the client alone, only takes an identifier (when the
user name is too long), or sends a request with what the machine hands over. -/
theorem eapAuthStep_client {radius : RadiusClient} (h : eapAuthStep ctx radius p call = .ok r) :
    r.ctx.lastRecvRadius = ctx.lastRecvRadius ∧
      ((r.request = none ∧ (r.radius = radius ∨ r.radius = (radiusClientGetId radius).2)) ∨
        ∃ entry, Sent ctx radius p call.rand r entry) := by
  simp only [eapAuthStep] at h
  split at h
  · cases h
  · split at h
    · rename_i hresp
      cases hdata : (eapServerSmStep ctx.eap call.rand).aaaEapRespData with
      | none =>
        simp only [hdata] at h
        cases h
      | some data =>
        simp only [hdata, Except.ok.injEq] at h
        subst h
        unfold eapAuthEncapsulateRadius
        simp only
        split
        · exact ⟨rfl, .inl ⟨rfl, .inr rfl⟩⟩
        · rename_i hshort
          refine ⟨rfl, .inr ⟨_, rfl, rfl, rfl, rfl, rfl, Nat.le_of_not_lt hshort, ?_, hresp, hdata,
            ?_, rfl⟩⟩
          · simp only [hdata]
          · unfold stateFor
            cases ctx.lastRecvRadius with
            | none => rfl
            | some msg => rfl
    · simp only [Except.ok.injEq] at h
      subst h
      exact ⟨rfl, .inl ⟨rfl, .inl rfl⟩⟩

/-- How a handler gives the EAP layer of a session something to do. -/
inductive Feeds (s : Controller) (e : Event) (p : Ptr) : EapAuthCtx → Prop
  | opened (i : Nat) (call : Call) (task : NetworkTask) (event : e = .handle i call)
      (worker : s.workers[i]? = some (.coapMsg task p)) :
      Feeds s e p { (s.heap p).eapCtx with
        eap := { (s.heap p).eapCtx.eap with eapRestart := true } }
  | responded (data : Bytes) (short : data.length ≤ maxEapResponse) :
      Feeds s e p (setEapResponse (s.heap p).eapCtx data)

theorem Feeds.addressed (h : Feeds s e p ctx) : Addressed (s.heap p).eapCtx.eap ctx.eap := by
  cases h with
  | opened => exact addressed_restarted _
  | responded data => exact addressed_responded _ data

theorem Feeds.lastRecvRadius (h : Feeds s e p ctx) :
    ctx.lastRecvRadius = (s.heap p).eapCtx.lastRecvRadius := by
  cases h with
  | opened => rfl
  | responded data => rfl

theorem Feeds.eapIdentity (h : Feeds s e p ctx) :
    ctx.eapIdentity = (s.heap p).eapCtx.eapIdentity := by
  cases h with
  | opened => rfl
  | responded data => rfl

theorem Feeds.short (h : Feeds s e p ctx) (hx : ShortResponses (s.heap p).eapCtx.eap) :
    ShortResponses ctx.eap := by
  cases h with
  | opened => exact ⟨hx.portEnabled, hx.eapRespData, hx.aaaEapRespData⟩
  | responded data hshort =>
    refine ⟨hx.portEnabled, ?_, hx.aaaEapRespData⟩
    intro other hother
    obtain rfl := Option.some.inj hother
    exact hshort

/-- Nothing was asked of the RADIUS server. -/
structure Unasked (s t : Controller) : Prop where
  radius : t.radius = s.radius
  eapCtx : ∀ q, (t.heap q).eapCtx = (s.heap q).eapCtx
  requests : requestsOf t.log = requestsOf s.log

theorem Unasked.trans (h₁ : Unasked s t) (h₂ : Unasked t u) : Unasked s u where
  radius := h₂.radius.trans h₁.radius
  eapCtx := fun q => (h₂.eapCtx q).trans (h₁.eapCtx q)
  requests := h₂.requests.trans h₁.requests

/-- The EAP layer of a session took a step. -/
structure Asks (s t : Controller) (p : Ptr) (ctx : EapAuthCtx) (call : Call) (r : EapStep) :
    Prop where
  step : eapAuthStep ctx s.radius p call = .ok r
  radius : t.radius = r.radius
  eapCtx : (t.heap p).eapCtx = r.ctx
  others : ∀ q ≠ p, (t.heap q).eapCtx = (s.heap q).eapCtx
  requests : requestsOf t.log = requestsOf s.log ++ r.request.toList.map (p, ·)

theorem Unasked.asks (h₁ : Unasked s t) (h₂ : Asks t u p ctx call r) : Asks s u p ctx call r where
  step := h₁.radius ▸ h₂.step
  radius := h₂.radius
  eapCtx := h₂.eapCtx
  others := fun q hq => (h₂.others q hq).trans (h₁.eapCtx q)
  requests := h₁.requests ▸ h₂.requests

theorem Asks.unasked (h₁ : Asks s t p ctx call r) (h₂ : Unasked t u) : Asks s u p ctx call r where
  step := h₁.step
  radius := h₂.radius.trans h₁.radius
  eapCtx := (h₂.eapCtx p).trans h₁.eapCtx
  others := fun q hq => (h₂.eapCtx q).trans (h₁.others q hq)
  requests := h₂.requests.trans h₁.requests

/-- The EAP context of a session after an answer of the RADIUS server, if it was for it. -/
def AnswerTaken (digests : Digests) (msg : RadiusMsg) (ctx ctx' : EapAuthCtx) : Prop :=
  ctx' = ctx ∨ ctx.radiusIdentifier = msg.identifier ∧ ∃ req rand, ctx' = { ctx with
    eap := eapServerSmStep (answerEap digests msg req ctx.eap) rand, lastRecvRadius := some msg }

/-- What an answer does to the RADIUS client and to the EAP contexts of the sessions. -/
def AnswerMove (digests : Digests) (msg : RadiusMsg) (s t : Controller) : Prop :=
  (t.radius = s.radius ∧ ∀ q, (t.heap q).eapCtx = (s.heap q).eapCtx) ∨
    ((matching s.radius msg.identifier).isSome ∧
      t.radius = removeMatching s.radius msg.identifier ∧
      ∀ q, AnswerTaken digests msg (s.heap q).eapCtx (t.heap q).eapCtx)

/-- What a step does to the RADIUS client, to the EAP contexts of the sessions and to the
Access-Requests in the log. -/
inductive ClientMove (digests : Digests) (s : Controller) (e : Event) (t : Controller) : Prop
  | unasked (same : Unasked s t)
  | created (radius : t.radius = s.radius) (nextPtr : t.nextPtr = s.nextPtr + 1)
      (eapCtx : (t.heap s.nextPtr).eapCtx = {})
      (others : ∀ q ≠ s.nextPtr, (t.heap q).eapCtx = (s.heap q).eapCtx)
      (requests : requestsOf t.log = requestsOf s.log)
  | answered (i : Nat) (msg : RadiusMsg) (p : Ptr)
      (worker : s.workers[i]? = some (.receiveRadiusMsg msg p))
      (taken : AnswerMove digests msg s t) (requests : requestsOf t.log = requestsOf s.log)
  | asks (p : Ptr) (ctx : EapAuthCtx) (call : Call) (r : EapStep) (made : p < s.nextPtr)
      (feeds : Feeds s e p ctx) (asked : Asks s t p ctx call r)

theorem unasked_record {new : List Occurrence} (h : ∀ o ∈ new, o.request = none) :
    Unasked s (s.record new) := by
  refine ⟨rfl, fun _ => rfl, ?_⟩
  rw [Controller.record_log, requestsOf, List.filterMap_append, List.filterMap_eq_nil_iff.mpr h,
    List.append_nil, requestsOf]

theorem Unasked.record {new : List Occurrence} (h : Unasked s t)
    (hnew : ∀ o ∈ new, o.request = none) : Unasked s (t.record new) :=
  h.trans (unasked_record hnew)

theorem unasked_setSession {session : Session} (h : session.eapCtx = (s.heap p).eapCtx) :
    Unasked s (s.setSession p session) := by
  refine ⟨rfl, fun q => ?_, rfl⟩
  rw [Controller.setSession_heap]
  split
  · rename_i hq
    rw [hq, h]
  · rfl

theorem unasked_armPost {session : Session} {pdu : Bytes} {now : Rat} {post : Nat}
    (h : session.eapCtx = (s.heap p).eapCtx) :
    Unasked s ((armPost s p session pdu now).record [.sentPost p post]) := by
  have hstored : Unasked s (s.setSession p (storePost session pdu)) := unasked_setSession h
  have harmed : Unasked s (armPost s p session pdu now) :=
    hstored.trans ⟨rfl, fun _ => rfl, rfl⟩
  exact harmed.record (by simp [Occurrence.request])

theorem stepSession_asks {session : Session} (h : stepSession s p session call = .ok t) :
    ∃ r, Asks s t p session.eapCtx call r := by
  obtain ⟨r, hr, rfl⟩ := stepSession_ok h
  refine ⟨r, hr, rfl, by simp [Controller.setSession], fun q hq => ?_, ?_⟩
  · simp [Controller.setSession, hq]
  · have hnew : (r.request.toList.map (Occurrence.accessRequest p)).filterMap Occurrence.request =
        r.request.toList.map (p, ·) := by
      cases r.request with
      | none => rfl
      | some identifier => rfl
    simp only [Controller.record_log, requestsOf, List.filterMap_append, hnew]
    rfl

theorem processCoapMsg_client {task : NetworkTask} (h : processCoapMsg s task p call = .ok t) :
    ∃ r, Asks s t p { (s.heap p).eapCtx with
      eap := { (s.heap p).eapCtx.eap with eapRestart := true } } call r := by
  obtain ⟨u, session, packet, -, ⟨request, -, hstep⟩, hsession, -, rfl⟩ := processCoapMsg_ok h
  obtain ⟨r, hasked⟩ := stepSession_asks hstep
  refine ⟨r, hasked.unasked (unasked_armPost ?_)⟩
  rw [hsession]

theorem processAcknowledgment_client {task : NetworkTask} {post : Ptr × Nat}
    (h : processAcknowledgment s task post p call = .ok t) :
    Unasked s t ∨ ∃ data r, data.length ≤ maxEapResponse ∧
      Asks s t p (setEapResponse (s.heap p).eapCtx data) call r := by
  obtain ⟨request, u, -, hu, hcase⟩ := processAcknowledgment_ok h
  have hlocated : Unasked s u := by
    rw [hu]
    refine (unasked_setSession ?_).trans (unasked_record ?_)
    · rfl
    · intro o ho
      split at ho
      · rw [List.mem_singleton.mp ho]
        rfl
      · cases ho
  rcases hcase with ⟨-, -, hstep⟩ | ⟨-, rfl⟩ | ⟨-, -, rfl⟩
  · obtain ⟨r, hasked⟩ := stepSession_asks hstep
    have hfed : Unasked u (u.record [.fed p post]) := unasked_record (by simp [Occurrence.request])
    have hshort : (acknowledgedEap request.payload call.behind).length ≤ maxEapResponse := by
      have hhigh := byteAt_lt request.payload 2
      have hlow := byteAt_lt request.payload 3
      simp only [acknowledgedEap, readBehind_length, maxEapResponse]
      omega
    have hctx : (u.heap p).eapCtx = (s.heap p).eapCtx := hlocated.eapCtx p
    refine .inr ⟨_, r, hshort, ?_⟩
    rw [← hctx]
    exact hlocated.asks (hfed.asks hasked)
  · refine .inl (Unasked.record ?_ (by simp [Occurrence.request]))
    exact hlocated.trans ⟨rfl, fun _ => rfl, rfl⟩
  · exact .inl hlocated

theorem identityHandOver_client (hshort : (s.heap p).userId.length ≤ alphaUserId.length)
    (h : identityHandOver s p call = .ok t) :
    ∃ data r, data.length ≤ maxEapResponse ∧
      Asks s t p (setEapResponse (s.heap p).eapCtx data) call r := by
  obtain ⟨r, hasked⟩ := stepSession_asks h
  refine ⟨_, r, ?_, hasked⟩
  simp only [alphaUserId, List.length_cons, List.length_nil, maxEapResponse] at hshort ⊢
  rw [List.length_take]
  omega

theorem processRetrCoapEap_client {id : Nat} (h : processRetrCoapEap s id p call = .ok t) :
    Unasked s t := by
  rcases processRetrCoapEap_ok h with ⟨-, rfl⟩ | ⟨-, session, u, rfl, rfl, hcase⟩
  · exact ⟨rfl, fun _ => rfl, rfl⟩
  · have hcounted : Unasked s ((cancelPostAlarm s (s.heap p).sessionId).setSession p
        { s.heap p with rtxCounter := (s.heap p).rtxCounter + 1 }) :=
      Unasked.trans (t := cancelPostAlarm s (s.heap p).sessionId) ⟨rfl, fun _ => rfl, rfl⟩
        (unasked_setSession rfl)
    rcases hcase with ⟨-, -, rfl⟩ | ⟨-, pdu, -, -, rfl⟩ | ⟨-, rfl⟩
    · exact hcounted
    · refine Unasked.record (hcounted.trans ?_) (by simp [Occurrence.request])
      refine Unasked.trans (unasked_setSession (p := p) ?_) ⟨rfl, fun _ => rfl, rfl⟩
      simp
    · refine Unasked.record (hcounted.trans ?_) (by simp [Occurrence.request])
      exact ⟨rfl, fun _ => rfl, rfl⟩

theorem AnswerMove.unasked {msg : RadiusMsg} (h₁ : AnswerMove digests msg s t)
    (h₂ : Unasked t u) : AnswerMove digests msg s u := by
  rcases h₁ with ⟨hradius, hctx⟩ | ⟨hwaits, hradius, hctx⟩
  · exact .inl ⟨h₂.radius.trans hradius, fun q => (h₂.eapCtx q).trans (hctx q)⟩
  · exact .inr ⟨hwaits, h₂.radius.trans hradius, fun q => h₂.eapCtx q ▸ hctx q⟩

theorem radiusClientReceive_client {msg : RadiusMsg}
    (h : radiusClientReceive digests s msg call = .ok t) :
    AnswerMove digests msg s t ∧ requestsOf t.log = requestsOf s.log := by
  rcases radiusClientReceive_ok h with ⟨-, rfl⟩ | ⟨entry, hfound, ⟨-, rfl⟩ |
    ⟨-, q', eap, hsearch, rfl, -, rfl⟩⟩
  · exact ⟨.inl ⟨rfl, fun _ => rfl⟩, rfl⟩
  · exact ⟨.inr ⟨by simp [hfound], rfl, fun _ => .inl rfl⟩, rfl⟩
  · refine ⟨.inr ⟨by simp [hfound], rfl, fun q => ?_⟩, rfl⟩
    rw [Controller.setSession_heap]
    split
    · rename_i hq
      subst hq
      exact .inr ⟨(searchEapCtx_mem hsearch).2, entry.msg, call.rand, rfl⟩
    · exact .inl rfl

theorem processReceiveRadiusMsg_client {msg : RadiusMsg} {identity : Bool}
    (h : processReceiveRadiusMsg digests s msg p call = .ok (t, identity)) :
    AnswerMove digests msg s t ∧ requestsOf t.log = requestsOf s.log := by
  obtain ⟨u, hu, -, hcase⟩ := processReceiveRadiusMsg_ok h
  obtain ⟨htaken, hrequests⟩ := radiusClientReceive_client hu
  have hposted : Unasked u t := by
    rcases hcase with ⟨-, -, rfl, -⟩ | ⟨packet, -, ⟨-, rfl, -⟩ | ⟨-, hsend, -⟩⟩
    · exact ⟨rfl, fun _ => rfl, rfl⟩
    · have hwritten : Unasked (cancelPostAlarm u (u.heap p).sessionId)
          ((cancelPostAlarm u (u.heap p).sessionId).setSession p { u.heap p with
            eapWorkarround := (u.heap p).eapWorkarround + 1, userId := alphaUserId
            mutex := true }) := unasked_setSession rfl
      exact ⟨hwritten.radius, hwritten.eapCtx, hwritten.requests⟩
    · rcases (sendRadiusPost_ok hsend).2 with ⟨-, rfl⟩ | ⟨-, rfl⟩
      · exact unasked_armPost rfl
      · exact unasked_setSession rfl
  exact ⟨htaken.unasked hposted, hposted.requests.trans hrequests⟩

/-- Only the identity of the controller is ever a session's. -/
theorem userId_short {guard : Controller → Event → Prop}
    (h : ReachableUnder (step digests) guard initialController s) (p : Ptr) :
    (s.heap p).userId.length ≤ alphaUserId.length := by
  have hkeeps : ∀ x y, SessionChange digests x y → x.userId.length ≤ alphaUserId.length →
      y.userId.length ≤ alphaUserId.length := by
    intro x y hchange hx
    cases hchange with
    | wroteIdentity => exact Nat.le_refl _
    | _ => exact hx
  exact session_invariant (P := fun x => x.userId.length ≤ alphaUserId.length)
    (fun _ _ _ => Nat.zero_le _) hkeeps h p

theorem Asks.endWorker {i : Nat} (h : Asks s t p ctx call r) :
    Asks s (endWorker t i) p ctx call r :=
  h.unasked ⟨rfl, fun _ => rfl, rfl⟩

theorem step_client {guard : Controller → Event → Prop}
    (hreach : ReachableUnder (step digests) guard initialController s)
    (h : step digests s e = some t) : ClientMove digests s e t := by
  have hmade := (wellFormed hreach).activities
  obtain ⟨-, hmove⟩ := step_move h
  cases hmove with
  | created datagram source arrival =>
    refine .created rfl rfl ?_ (fun q hq => ?_) rfl
    · rw [newSession_heap_self]
      rfl
    · rw [newSession_heap_ne _ _ _ hq]
  | queued task p =>
    have hreceived : Unasked s
        (s.setSession p { s.heap p with lastReceivedMessage := some task.buf }) :=
      unasked_setSession rfl
    have hnoted : requestsOf (s.log ++ [.ackQueued (p, (s.heap p).posts)]) = requestsOf s.log := by
      simp [requestsOf, Occurrence.request]
    exact .unasked ⟨rfl, hreceived.eapCtx, hnoted⟩
  | readSession i stack origin id =>
    refine .unasked ⟨rfl, fun _ => rfl, ?_⟩
    simp [requestsOf, Occurrence.request, setWorker]
  | popped time alarm =>
    refine .unasked ⟨rfl, fun _ => rfl, ?_⟩
    simp [requestsOf, Occurrence.request]
  | handledCoap i call task p u hworker _ hresult =>
    obtain ⟨r, hasked⟩ := processCoapMsg_client hresult
    have hp := hmade _ (mem_activities_of_worker hworker) p (by simp [Worker.pointers])
    exact .asks p _ call r hp (.opened i call task rfl hworker) hasked.endWorker
  | handledAcknowledgment i call task post p u hworker _ hresult =>
    rcases processAcknowledgment_client hresult with hsame | ⟨data, r, hshort, hasked⟩
    · exact .unasked (hsame.trans ⟨rfl, fun _ => rfl, rfl⟩)
    · have hp := hmade _ (mem_activities_of_worker hworker) p (by simp [Worker.pointers])
      exact .asks p _ call r hp (.responded data hshort) hasked.endWorker
  | handledRadius i call msg p u hworker _ hresult =>
    obtain ⟨htaken, hrequests⟩ := processReceiveRadiusMsg_client hresult
    exact .answered i msg p hworker htaken hrequests
  | wroteIdentity i call msg p u hworker _ hresult =>
    obtain ⟨htaken, hrequests⟩ := processReceiveRadiusMsg_client hresult
    exact .answered i msg p hworker htaken hrequests
  | handedIdentity i call p u hworker hresult =>
    obtain ⟨data, r, hshort, hasked⟩ := identityHandOver_client (userId_short hreach p) hresult
    have hp := hmade _ (mem_activities_of_worker hworker) p (by simp [Worker.pointers])
    exact .asks p _ call r hp (.responded data hshort) hasked.endWorker
  | handledRetr i call origin id p u _ _ hresult =>
    exact .unasked ((processRetrCoapEap_client hresult).trans ⟨rfl, fun _ => rfl, rfl⟩)
  | _ => exact .unasked ⟨rfl, fun _ => rfl, rfl⟩

/-- A message that came in a datagram. -/
def Arrived (msg : RadiusMsg) : Prop :=
  ∃ datagram : Bytes, radiusMsgParse (datagram.take maxDataLen) = some msg

/-- The answers in hand and those that sessions keep came from the network. -/
structure AnswersArrived (s : Controller) : Prop where
  inHand : ∀ w ∈ s.activities, ∀ msg, w.answer = some msg → Arrived msg
  kept : ∀ p msg, (s.heap p).eapCtx.lastRecvRadius = some msg → Arrived msg

theorem AnswersArrived.inHand_step (hs : AnswersArrived s) (h : step digests s e = some t) :
    ∀ w ∈ t.activities, ∀ msg, w.answer = some msg → Arrived msg := by
  intro w hw msg hanswer
  rcases step_activities h w hw with hold | harises
  · exact hs.inHand w hold msg hanswer
  · cases harises with
    | arrived datagram msg' hparsed =>
      obtain rfl := Option.some.inj hanswer
      exact ⟨datagram, hparsed⟩
    | foundContext i stack msg' p hworker =>
      obtain rfl := Option.some.inj hanswer
      exact hs.inHand _ (mem_activities_of_worker hworker) _ rfl
    | _ => cases hanswer

theorem AnswersArrived.step (hs : AnswersArrived s) (hmove : ClientMove digests s e t)
    (h : step digests s e = some t) : AnswersArrived t := by
  refine ⟨hs.inHand_step h, fun q msg hmsg => ?_⟩
  cases hmove with
  | unasked hsame => exact hs.kept q msg (hsame.eapCtx q ▸ hmsg)
  | created _ _ hnew hothers =>
    by_cases hq : q = s.nextPtr
    · rw [hq, hnew] at hmsg
      cases hmsg
    · exact hs.kept q msg (hothers q hq ▸ hmsg)
  | answered i msg' p hworker htaken =>
    rcases htaken with ⟨-, hsame⟩ | ⟨-, -, hctx⟩
    · exact hs.kept q msg (hsame q ▸ hmsg)
    · rcases hctx q with hsame | ⟨-, req, rand, hnew⟩
      · exact hs.kept q msg (hsame ▸ hmsg)
      · rw [hnew, Option.some.injEq] at hmsg
        exact hmsg ▸ hs.inHand _ (mem_activities_of_worker hworker) msg' rfl
  | asks p ctx call r _ hfeeds hasked =>
    by_cases hq : q = p
    · subst hq
      rw [hasked.eapCtx, (eapAuthStep_client hasked.step).1, hfeeds.lastRecvRadius] at hmsg
      exact hs.kept q msg hmsg
    · exact hs.kept q msg (hasked.others q hq ▸ hmsg)

theorem answersArrived {guard : Controller → Event → Prop}
    (h : ReachableUnder (step digests) guard initialController s) : AnswersArrived s := by
  refine h.invariant ?_ fun s e t hbefore hs _ hstep => ?_
  · refine ⟨?_, ?_⟩
    · intro w hw
      cases hw
    · intro p msg hmsg
      cases hmsg
  · exact hs.step (step_client hbefore hstep) hstep

/-- What the State attributes of a message that arrived take up. -/
theorem Arrived.state {msg : RadiusMsg} (h : Arrived msg) (type : Nat) :
    (∀ value ∈ attrValues msg type, value.length ≤ radiusMaxAttrLen) ∧
      ((attrValues msg type).map fun value => 2 + value.length).sum ≤
        maxDataLen - radiusHdrLen := by
  obtain ⟨datagram, hparsed⟩ := h
  obtain ⟨hfits, -, hprefix⟩ := radiusMsgParse_some hparsed
  constructor
  · intro value hvalue
    obtain ⟨attr, hattr, rfl⟩ := List.mem_map.mp hvalue
    exact (hfits.attrs attr (List.mem_of_mem_filter hattr)).2
  · have hlength := hprefix.length_le
    rw [encodeMsg_length hfits, List.length_take, msgLength] at hlength
    have hall : ∀ attrs : List (Nat × Bytes),
        (((attrs.filter fun attr => attr.1 = type).map Prod.snd).map
          fun value => 2 + value.length).sum ≤ (writeAll writeAttr attrs).length := by
      intro attrs
      induction attrs with
      | nil => exact Nat.le_refl _
      | cons attr attrs ih =>
        rw [writeAll_cons, List.length_append, writeAttr_length, List.filter_cons]
        split
        · simp only [List.map_cons, List.sum_cons]
          omega
        · omega
    have hstate := hall msg.attrs
    rw [attrBytes] at hlength
    rw [attrValues]
    omega

/-- A request that fits a RADIUS message, with a whole EAP response. -/
structure PendingRequest (req : AccessRequest) : Prop where
  eapMessage : ∃ id, IsResponse id req.eapMessage
  short : req.eapMessage.length ≤ maxEapResponse
  userName : (req.userName.getD []).length ≤ radiusMaxAttrLen
  state : (∀ value ∈ req.state, value.length ≤ radiusMaxAttrLen) ∧
    (req.state.map fun value => 2 + value.length).sum ≤ maxDataLen - radiusHdrLen

/-- The requests that wait are counted, bounded and told apart by their identifiers. -/
structure PendingRequests (radius : RadiusClient) : Prop where
  counted : radius.msgs.length ≤ radius.numMsgs
  bounded : radius.numMsgs ≤ radiusClientMaxEntries
  distinct : (radius.msgs.map fun entry => entry.msg.identifier).Nodup
  requests : ∀ entry ∈ radius.msgs, PendingRequest entry.msg

variable {radius : RadiusClient} {entry : RadiusMsgList}

theorem PendingRequests.getId (h : PendingRequests radius) :
    PendingRequests (radiusClientGetId radius).2 ∧
      ∀ entry ∈ (radiusClientGetId radius).2.msgs,
        entry.msg.identifier ≠ radius.nextRadiusIdentifier := by
  have hsub : List.Sublist (radiusClientGetId radius).2.msgs radius.msgs := List.filter_sublist
  refine ⟨⟨Nat.le_trans hsub.length_le h.counted, h.bounded, h.distinct.sublist (hsub.map _),
    fun entry hentry => h.requests entry (hsub.subset hentry)⟩, ?_⟩
  intro entry hentry
  simpa [radiusClientGetId] using (List.mem_filter.mp hentry).2

theorem PendingRequests.listAdd (h : PendingRequests radius) (hentry : PendingRequest entry.msg)
    (hnew : ∀ old ∈ radius.msgs, old.msg.identifier ≠ entry.msg.identifier) :
    PendingRequests (radiusClientListAdd radius entry) := by
  have hcounted := h.counted
  have hbounded := h.bounded
  have hadd : ∀ msgs, List.Sublist msgs radius.msgs →
      ((entry :: msgs).map fun entry => entry.msg.identifier).Nodup ∧
        ∀ other ∈ entry :: msgs, PendingRequest other.msg := by
    intro msgs hsub
    refine ⟨?_, ?_⟩
    · rw [List.map_cons, List.nodup_cons]
      refine ⟨?_, h.distinct.sublist (hsub.map _)⟩
      intro hold
      obtain ⟨old, hmem, hsame⟩ := List.mem_map.mp hold
      exact hnew old (hsub.subset hmem) hsame
    · rw [List.forall_mem_cons]
      exact ⟨hentry, fun other hother => h.requests other (hsub.subset hother)⟩
  unfold radiusClientListAdd
  split
  · rename_i hfull
    obtain ⟨hdistinct, hrequests⟩ := hadd _ (List.dropLast_sublist radius.msgs)
    have hlength : (entry :: radius.msgs.dropLast).length ≤ radius.numMsgs := by
      simp only [List.length_cons, List.length_dropLast, radiusClientMaxEntries] at hfull ⊢
      omega
    exact ⟨hlength, hbounded, hdistinct, hrequests⟩
  · rename_i hroom
    obtain ⟨hdistinct, hrequests⟩ := hadd _ (List.Sublist.refl radius.msgs)
    have hlength : (entry :: radius.msgs).length ≤ radius.numMsgs + 1 := by
      rw [List.length_cons]
      omega
    exact ⟨hlength, Nat.lt_of_not_le hroom, hdistinct, hrequests⟩

theorem PendingRequests.removed (h : PendingRequests radius) {identifier : UInt8}
    (hwaits : (matching radius identifier).isSome) :
    PendingRequests (removeMatching radius identifier) := by
  have hsub : List.Sublist (removeMatching radius identifier).msgs radius.msgs :=
    List.eraseP_sublist
  obtain ⟨entry, hfound⟩ := Option.isSome_iff_exists.mp hwaits
  have hmem : entry ∈ radius.msgs := List.mem_of_find?_eq_some hfound
  have hid := List.find?_some hfound
  have hlength : (removeMatching radius identifier).msgs.length = radius.msgs.length - 1 :=
    List.length_eraseP_of_mem hmem hid
  have hcounted := h.counted
  have hbounded := h.bounded
  refine ⟨?_, ?_, h.distinct.sublist (hsub.map _), fun entry hentry =>
    h.requests entry (hsub.subset hentry)⟩
  · rw [hlength]
    exact Nat.sub_le_sub_right hcounted 1
  · exact Nat.le_trans (Nat.sub_le ..) hbounded

theorem shortResponses_responseTaken (h : ShortResponses eap) :
    ShortResponses (responseTaken eap) := by
  unfold responseTaken
  split
  · exact ⟨h.portEnabled, h.eapRespData, h.aaaEapRespData⟩
  · exact h

theorem ShortResponses.step (hs : ∀ p, ShortResponses (s.heap p).eapCtx.eap)
    (hmove : ClientMove digests s e t) (q : Ptr) : ShortResponses (t.heap q).eapCtx.eap := by
  cases hmove with
  | unasked hsame => exact hsame.eapCtx q ▸ hs q
  | created _ _ hnew hothers =>
    by_cases hq : q = s.nextPtr
    · rw [hq, hnew]
      exact shortResponses_initialSm
    · exact hothers q hq ▸ hs q
  | answered i msg p _ htaken =>
    rcases htaken with ⟨-, hsame⟩ | ⟨-, -, hctx⟩
    · exact hsame q ▸ hs q
    · rcases hctx q with hsame | ⟨-, req, rand, hnew⟩
      · exact hsame ▸ hs q
      · obtain ⟨aaaSuccess, aaaFail, aaaEapReq, aaaEapReqData, keyData, keyAvailable, hwritten⟩ :=
          answerEap_eq digests msg req (s.heap q).eapCtx.eap
        have hready : ShortResponses (answerEap digests msg req (s.heap q).eapCtx.eap) := by
          rw [hwritten]
          exact ⟨(hs q).portEnabled, (hs q).eapRespData, (hs q).aaaEapRespData⟩
        rw [hnew]
        exact hready.run rand
  | asks p ctx call r _ hfeeds hasked =>
    by_cases hq : q = p
    · subst hq
      rw [hasked.eapCtx, (eapAuthStep_ok hasked.step).2]
      exact shortResponses_responseTaken ((hfeeds.short (hs q)).run call.rand)
    · exact hasked.others q hq ▸ hs q

theorem shortResponses {guard : Controller → Event → Prop}
    (h : ReachableUnder (step digests) guard initialController s) (p : Ptr) :
    ShortResponses (s.heap p).eapCtx.eap := by
  have hall : ∀ p, ShortResponses (s.heap p).eapCtx.eap := by
    induction h with
    | start => exact fun _ => shortResponses_initialSm
    | step hbefore _ htaken ih => exact ShortResponses.step ih (step_client hbefore htaken)
  exact hall p

/-- What is handed over in a run of the machine of a session. -/
theorem Feeds.handed (h : Feeds s e p ctx) (hx : Conversing (s.heap p).eapCtx.eap) {rand : Nat}
    {data : Bytes}
    (hhanded : (eapServerSmStep ctx.eap rand).aaaEapResp = true)
    (hdata : (eapServerSmStep ctx.eap rand).aaaEapRespData = some data) :
    ∃ request, (eapServerSmStep ctx.eap rand).eapReqData = some request ∧
      4 ≤ request.length ∧ IsResponse (byteAt request 1) data := by
  obtain ⟨hforwards, houtstanding⟩ := hx.forwards h.addressed rand
  have hresponse := hforwards.forwarded hhanded data hdata
  have hcurrent := hresponse.identifier
  have hid := (houtstanding.request (hforwards.handed hhanded).2.2).resolve_left (by omega)
  cases hreq : (eapServerSmStep ctx.eap rand).eapReqData with
  | none =>
    rw [hreq] at hid
    simp only [getId] at hid
    omega
  | some request =>
    rw [hreq] at hid
    simp only [getId] at hid
    split at hid
    · omega
    · rename_i hlong
      exact ⟨request, rfl, Nat.le_of_not_lt hlong, hid ▸ hresponse⟩

theorem Sent.pending {rand : Nat} (h : Sent ctx radius p rand r entry)
    (hfeeds : Feeds s e p ctx) (hx : Conversing (s.heap p).eapCtx.eap)
    (hshort : ShortResponses (s.heap p).eapCtx.eap)
    (hlast : ∀ msg, (s.heap p).eapCtx.lastRecvRadius = some msg → Arrived msg) :
    PendingRequest entry.msg := by
  obtain ⟨request, -, -, hresponse⟩ := hfeeds.handed hx h.handed h.eapMessage
  refine ⟨⟨_, hresponse⟩, ?_, h.short, ?_⟩
  · exact ((hfeeds.short hshort).run rand).aaaEapRespData _ h.eapMessage
  · rw [h.state, hfeeds.lastRecvRadius]
    unfold stateFor
    cases hmsg : (s.heap p).eapCtx.lastRecvRadius with
    | none => simp
    | some msg =>
      simp only
      split
      · exact (hlast msg hmsg).state attrState
      · simp

theorem PendingRequests.step (hs : PendingRequests s.radius) (hreach : Reachable digests s)
    (hmove : ClientMove digests s e t) : PendingRequests t.radius := by
  cases hmove with
  | unasked hsame => exact hsame.radius ▸ hs
  | created hradius => exact hradius ▸ hs
  | answered i msg p _ htaken =>
    rcases htaken with ⟨hsame, -⟩ | ⟨hwaits, hremoved, -⟩
    · exact hsame ▸ hs
    · exact hremoved ▸ hs.removed hwaits
  | asks p ctx call r _ hfeeds hasked =>
    rw [hasked.radius]
    rcases (eapAuthStep_client hasked.step).2 with ⟨-, hsame | htaken⟩ | ⟨entry, hsent⟩
    · exact hsame ▸ hs
    · exact htaken ▸ hs.getId.1
    · rw [hsent.waiting]
      have hpending : PendingRequest entry.msg :=
        hsent.pending hfeeds (conversing hreach p) (shortResponses hreach p)
          ((answersArrived hreach).kept p)
      refine hs.getId.1.listAdd hpending fun old hold => ?_
      rw [hsent.identifier]
      exact hs.getId.2 old hold

theorem pendingRequests (h : Reachable digests s) : PendingRequests s.radius := by
  induction h with
  | start =>
    exact ⟨Nat.le_refl _, Nat.zero_le _, List.nodup_nil, fun entry hentry => by cases hentry⟩
  | step hbefore _ htaken ih =>
    exact ih.step hbefore (step_client hbefore htaken)

theorem PendingRequests.apart (h : PendingRequests radius) :
    radius.msgs.Pairwise fun a b => a.msg.identifier ≠ b.msg.identifier :=
  List.pairwise_map.mp h.distinct

theorem PendingRequests.matching_eq (h : PendingRequests radius) (hentry : entry ∈ radius.msgs) :
    matching radius entry.msg.identifier = some entry := by
  cases hfound : matching radius entry.msg.identifier with
  | none =>
    have hnone := List.find?_eq_none.mp hfound entry hentry
    simp at hnone
  | some other =>
    have hid : other.msg.identifier = entry.msg.identifier := by
      simpa using List.find?_some hfound
    rcases find_first h.apart hfound hentry (by simp) with rfl | hne
    · rfl
    · exact absurd hid hne

theorem PendingRequests.removed_msgs (h : PendingRequests radius) (identifier : UInt8) :
    (removeMatching radius identifier).msgs =
      radius.msgs.filter fun entry => entry.msg.identifier ≠ identifier := by
  have hone : radius.msgs.Pairwise fun a b =>
      decide (a.msg.identifier = identifier) = true →
        decide (b.msg.identifier = identifier) = false := by
    refine h.apart.imp fun {a b} hne ha => ?_
    rw [of_decide_eq_true ha] at hne
    exact decide_eq_false fun hb => hne hb.symm
  rw [removeMatching, eraseP_eq_filter hone]
  simp

/-- In every reachable state at most 30 Access-Requests wait. An identifier finds the one
request that was sent with it, an answer takes this one off the list and no other, and
after that the identifier finds nothing: no request is answered twice, and no answer is
checked against the wrong request. The runs are those in which an answer and a request are
not in the list together (`reachable_iff_alone`), although the two mutexes allow it. -/
theorem waiting_requests_told_apart (digests : Digests) (s : Controller)
    (hreach : Reachable digests s) :
    s.radius.msgs.length ≤ s.radius.numMsgs ∧ s.radius.numMsgs ≤ radiusClientMaxEntries ∧
      ∀ entry ∈ s.radius.msgs,
        matching s.radius entry.msg.identifier = some entry ∧
        matching (removeMatching s.radius entry.msg.identifier) entry.msg.identifier = none ∧
        ∀ other ∈ s.radius.msgs, other ≠ entry →
          other ∈ (removeMatching s.radius entry.msg.identifier).msgs := by
  have hpending := pendingRequests hreach
  refine ⟨hpending.counted, hpending.bounded, fun entry hentry => ?_⟩
  have hrest := hpending.removed_msgs entry.msg.identifier
  refine ⟨hpending.matching_eq hentry, ?_, ?_⟩
  · rw [matching, List.find?_eq_none, hrest]
    intro other hother
    simpa using (List.mem_filter.mp hother).2
  · intro other hother hne
    rw [hrest, List.mem_filter]
    refine ⟨hother, ?_⟩
    simp only [ne_eq, decide_not, Bool.not_eq_true', decide_eq_false_iff_not]
    intro hid
    have hsame := hpending.matching_eq hother
    rw [hid, hpending.matching_eq hentry, Option.some.injEq] at hsame
    exact hne hsame.symm

/-- The identity response of a device is passed on, and the request waits. -/
theorem identity_request_waits : ∃ s, Reachable noAnswers s ∧ s.radius.numMsgs = 1 ∧
    ∃ entry ∈ s.radius.msgs, matching s.radius entry.msg.identifier = some entry := by
  have hrun : (run (step noAnswers) initialController (comesIn 1 ++ acknowledges 1 1)).any
      (fun s => s.radius.numMsgs = 1 && !s.radius.msgs.isEmpty) = true := by
    decide +kernel
  obtain ⟨s, hs, hcheck⟩ := exists_of_run hrun
  simp only [Bool.and_eq_true, decide_eq_true_eq, Bool.not_eq_true',
    List.isEmpty_eq_false_iff] at hcheck
  have hreach := reachable_of_run hs
  obtain ⟨entry, hentry⟩ := List.exists_mem_of_ne_nil _ hcheck.2
  have hapart := waiting_requests_told_apart noAnswers s hreach
  exact ⟨s, hreach, hcheck.1, entry, hentry, (hapart.2.2 entry hentry).1⟩

/-- A request in the log of a step was sent by the EAP layer of its session, and stands in
front of those that wait. -/
theorem request_of_step (hreach : Reachable digests s) (hstep : step digests s e = some t)
    {identifier : UInt8}
    (hsent : (p, identifier) ∈ (requestsOf t.log).drop (requestsOf s.log).length) :
    requestsOf t.log = requestsOf s.log ++ [(p, identifier)] ∧
      ∃ ctx call r entry rest, Feeds s e p ctx ∧ Asks s t p ctx call r ∧
        Sent ctx s.radius p call.rand r entry ∧ entry.msg.identifier = identifier ∧
        t.radius.msgs = entry :: rest ∧ ∀ other ∈ rest, other ∈ s.radius.msgs := by
  have hnothing : requestsOf t.log = requestsOf s.log → False := by
    intro hsame
    rw [hsame, List.drop_length] at hsent
    cases hsent
  cases step_client hreach hstep with
  | unasked hsame => exact (hnothing hsame.requests).elim
  | created _ _ _ _ hsame => exact (hnothing hsame).elim
  | answered _ _ _ _ _ hsame => exact (hnothing hsame).elim
  | asks q ctx call r _ hfeeds hasked =>
    rcases (eapAuthStep_client hasked.step).2 with ⟨hnone, -⟩ | ⟨entry, hentry⟩
    · have hsame := hasked.requests
      rw [hnone] at hsame
      exact (hnothing (by simpa using hsame)).elim
    · have hone := hasked.requests
      rw [hentry.request] at hone
      have hpair : (p, identifier) = (q, entry.msg.identifier) := by
        rw [hone, List.drop_left] at hsent
        simpa using hsent
      obtain ⟨rfl, rfl⟩ := Prod.mk.inj hpair
      have hwaiting : ∃ rest, t.radius.msgs = entry :: rest ∧
          ∀ other ∈ rest, other ∈ s.radius.msgs := by
        have hbefore : ∀ other ∈ (radiusClientGetId s.radius).2.msgs, other ∈ s.radius.msgs :=
          fun other hother => List.mem_of_mem_filter hother
        rw [hasked.radius, hentry.waiting]
        unfold radiusClientListAdd
        split
        · exact ⟨_, rfl, fun other hother =>
            hbefore other ((List.dropLast_sublist _).subset hother)⟩
        · exact ⟨_, rfl, hbefore⟩
      obtain ⟨rest, hmsgs, hrest⟩ := hwaiting
      exact ⟨by simpa using hone, ctx, call, r, entry, rest, hfeeds, hasked, hentry, rfl, hmsgs,
        hrest⟩

/-- Every Access-Request that the controller sends carries a whole EAP response, which has
the identifier of the EAP request that the session handed out last, and the State of the
Access-Challenge that the session was answered with last. It is put in front of the
requests that wait, under the identifier that the session is known by from then on. -/
theorem sent_request_answers (digests : Digests) (s t : Controller) (e : Event)
    (hreach : Reachable digests s) (hstep : step digests s e = some t) (p : Ptr)
    (identifier : UInt8)
    (hsent : (p, identifier) ∈ (requestsOf t.log).drop (requestsOf s.log).length) :
    requestsOf t.log = requestsOf s.log ++ [(p, identifier)] ∧
      ∃ entry rest request, t.radius.msgs = entry :: rest ∧
        (∀ other ∈ rest, other ∈ s.radius.msgs) ∧
        entry.session = p ∧ entry.msg.identifier = identifier ∧
        (t.heap p).eapCtx.radiusIdentifier = identifier ∧
        (t.heap p).eapCtx.eap.eapReqData = some request ∧ 4 ≤ request.length ∧
        IsResponse (byteAt request 1) entry.msg.eapMessage ∧
        entry.msg.state = stateFor (s.heap p).eapCtx.lastRecvRadius := by
  obtain ⟨hone, ctx, call, r, entry, rest, hfeeds, hasked, hentry, rfl, hmsgs, hrest⟩ :=
    request_of_step hreach hstep hsent
  obtain ⟨request, hrequest, hlong, hresponse⟩ :=
    hfeeds.handed (conversing hreach p) hentry.handed hentry.eapMessage
  refine ⟨hone, entry, rest, request, hmsgs, hrest, hentry.session, rfl, ?_, ?_, hlong, hresponse,
    ?_⟩
  · rw [hasked.eapCtx, hentry.current]
  · rw [hasked.eapCtx, hentry.machine]
    exact hrequest
  · rw [hentry.state, hfeeds.lastRecvRadius]

/-- The device's identity answers the identity request. -/
theorem identity_passed_on : ∃ s t, Reachable noAnswers s ∧
    step noAnswers s (.handle 0 {}) = some t ∧
    ∃ entry rest request, t.radius.msgs = entry :: rest ∧
      (t.heap 0).eapCtx.eap.eapReqData = some request ∧
      IsResponse (byteAt request 1) entry.msg.eapMessage := by
  have hrun : (run (step noAnswers) initialController ((comesIn 1 ++ acknowledges 1 1).take 8)).any
      (fun s => (step noAnswers s (.handle 0 {})).any fun t =>
        (requestsOf s.log, requestsOf t.log) = ([], [(0, 0)])) = true := by
    decide +kernel
  obtain ⟨s, hs, hcheck⟩ := exists_of_run hrun
  obtain ⟨t, hstep, hlogs⟩ := (Option.any_eq_true ..).mp hcheck
  obtain ⟨hbefore, hafter⟩ := Prod.mk.inj (of_decide_eq_true hlogs)
  have hreach := reachable_of_run hs
  obtain ⟨-, entry, rest, request, hmsgs, -, -, -, -, hrequest, -, hresponse, -⟩ :=
    sent_request_answers noAnswers s t (.handle 0 {}) hreach hstep 0 0
      (by simp [hbefore, hafter])
  exact ⟨s, t, hreach, hstep, entry, rest, request, hmsgs, hrequest, hresponse⟩

end CoapEap.Mainserver
