import CoapEap.Controller.Interleaving
import CoapEap.Controller.RadiusList
import CoapEap.Controller.Requests
import CoapEap.Controller.Routing

/-!
The controller with the list of the RADIUS client in memory. A handler that works on the
list enters it, takes one statement at a time, and makes the rest of its way in one move.
`mutex_radius` keeps a second answer out of the list and `radmutex` a second request, but
an answer and a request may be in it together. The mutex of its session keeps the other
handlers of that session out from the first statement to the end.

What the controller state says of the RADIUS client is taken from the memory.
-/

namespace CoapEap.Mainserver

open Cantcoap EapServer Lalarm Radius Library.Runs Relation

/-- `radius_client_receive` inside `mutex_radius`. -/
structure Receiving where
  msg : RadiusMsg
  p : Ptr
  call : Call
  stage : ReceiveStage
  deriving Repr

/-- `eap_auth_step` inside `radmutex`, with the request it is going to list, if the user
name lets it be completed, and the client and `eap_req_id` as they were when it came. -/
structure Requesting where
  worker : Worker
  p : Ptr
  call : Call
  before : RadiusClient
  eapReqId : Bytes
  request : Option RadiusMsgList
  stage : RequestStage
  deriving Repr

/-- The controller and the list in memory, with the threads that are in it. -/
structure Overlapping where
  controller : Controller
  client : RadiusNodes
  receiving : Option Receiving := none
  requesting : Option Requesting := none
  followedFreed : Bool := false

inductive ListTurn
  | move (e : Event)
  | enter (i : Nat) (call : Call)
  | receive
  | request
  | received (i : Nat)
  | requested (i : Nat)
  deriving Repr

/-- The Access-Request of `eap_auth_encapsulate_radius`. -/
def builtRequest (ctx : EapAuthCtx) (identifier : UInt8) (eap authenticator : Bytes) :
    AccessRequest :=
  { identifier, authenticator, userName := (learnedIdentity eap).or ctx.eapIdentity
    eapMessage := eap, state := stateFor ctx.lastRecvRadius }

/-- The request of a handler whose EAP step ends with a response, which takes an identifier
also when a user name that is too long then stops it. -/
def takesIdentifier (s : Controller) (e : Event) : Option (Option RadiusMsgList) :=
  (eapRun s e).bind fun run =>
    (handedResponse run.2.1 run.2.2).map fun data =>
      if userNameFits run.2.1 data then
        some ⟨builtRequest run.2.1 s.radius.nextRadiusIdentifier data run.2.2.authenticator, run.1⟩
      else none

/-- The handler works on the list of the RADIUS client. One that takes an identifier and
then ends the process is left out. -/
def worksOnList (digests : Digests) (s : Controller) : Event → Bool
  | .handle i call =>
    match s.workers[i]? with
    | some (.receiveRadiusMsg _ _) => true
    | _ =>
      (takesIdentifier s (.handle i call)).isSome &&
        (step digests s (.handle i call)).any fun t => t.halted.isNone
  | _ => false

namespace Overlapping

/-- The controller with what the memory holds of its RADIUS client. -/
def view (here : Overlapping) : Controller :=
  { here.controller with radius := here.client.client }

/-- The mutex of the session is held by a handler that is in the list. -/
def holds (here : Overlapping) (p : Ptr) : Bool :=
  here.receiving.any (fun work => work.p = p) || here.requesting.any fun work => work.p = p

def stopped (here : Overlapping) : Bool := here.followedFreed || here.controller.halted.isSome

end Overlapping

/-- An answer comes to the list with `mutex_radius`. -/
def enterReceive (here : Overlapping) (msg : RadiusMsg) (p : Ptr) (call : Call) :
    Option Overlapping :=
  if here.receiving.isSome ∨ here.holds p ∨ (here.controller.heap p).mutex then none
  else some { here with receiving := some ⟨msg, p, call, .searching none here.client.msgs⟩ }

/-- A request comes to the list with `radmutex` and takes the next identifier. -/
def enterRequest (digests : Digests) (here : Overlapping) (worker : Worker) (i : Nat)
    (call : Call) : Option Overlapping :=
  let s := here.view
  if here.requesting.isSome ∨ worksOnList digests s (.handle i call) = false then none
  else
    match worker.session, takesIdentifier s (.handle i call) with
    | some p, some request =>
      if here.holds p then none
      else
        some { here with
          client := { here.client with
            nextRadiusIdentifier := here.client.nextRadiusIdentifier + 1 }
          requesting := some ⟨worker, p, call, s.radius, s.eapReqId, request,
            .removing none here.client.msgs⟩ }
    | _, _ => none

def enterList (digests : Digests) (here : Overlapping) (i : Nat) (call : Call) :
    Option Overlapping :=
  match here.controller.workers[i]? with
  | some (.receiveRadiusMsg msg p) => enterReceive here msg p call
  | some worker => enterRequest digests here worker i call
  | none => none

/-- What the rest of `process_receive_radius_msg` sees of the RADIUS client: the request
that was found, ahead of those in the list, or none under the identifier of the answer. -/
def answeredClient (c : RadiusNodes) (identifier : UInt8) (req : Option Nat) :
    Option RadiusClient :=
  match req with
  | none =>
    some { c.client with msgs := c.listed.filter fun entry => entry.msg.identifier ≠ identifier }
  | some node => (c.entryAt node).map fun entry =>
      { c.client with msgs := entry :: c.listed, numMsgs := c.numMsgs.toNat + 1 }

/-- The memory after the request that was found is freed. -/
def releasedClient (c : RadiusNodes) (req : Option Nat) : RadiusNodes :=
  match req with
  | none => c
  | some node => c.free node

/-- `process_receive_radius_msg` from the handler of the answer on, which takes
`radmutex`. -/
def receivedStep (digests : Digests) (here : Overlapping) (work : Receiving) (i : Nat) :
    Option Overlapping :=
  match work.stage with
  | .found req =>
    if here.controller.workers[i]? ≠ some (.receiveRadiusMsg work.msg work.p) ∨
        (req.isSome ∧ here.requesting.isSome) then none
    else
      match answeredClient here.client work.msg.identifier req with
      | none => some { here with followedFreed := true }
      | some radius =>
        (step digests { here.controller with radius } (.handle i work.call)).map fun t =>
          { here with
            controller := t, client := releasedClient here.client req, receiving := none }
  | _ => none

/-- A handler from the end of `radius_client_list_add` on. -/
def requestedStep (digests : Digests) (here : Overlapping) (work : Requesting) (i : Nat) :
    Option Overlapping :=
  if here.controller.workers[i]? ≠ some work.worker ∨ work.stage ≠ .added then none
  else
    (step digests { here.controller with radius := work.before, eapReqId := work.eapReqId }
      (.handle i work.call)).map fun t =>
        { here with
          controller := { t with eapReqId := here.controller.eapReqId }, requesting := none }

def overlappingStep (digests : Digests) (here : Overlapping) (turn : ListTurn) :
    Option Overlapping :=
  if here.stopped then none
  else
    match turn with
    | .move e =>
      if (takesMutex here.view e).any here.holds ∨ worksOnList digests here.view e then none
      else (step digests here.view e).map fun t => { here with controller := t }
    | .enter i call => enterList digests here i call
    | .receive =>
      here.receiving.bind fun work =>
        if work.stage.atEnd then none
        else
          match receiveStatement work.msg.identifier here.client work.stage with
          | none => some { here with followedFreed := true }
          | some (client, stage) =>
            some { here with client, receiving := some { work with stage } }
    | .request =>
      here.requesting.bind fun work =>
        if work.stage.atEnd then none
        else
          match requestStatement work.before.nextRadiusIdentifier work.request here.client
            work.stage with
          | none => some { here with followedFreed := true }
          | some (client, stage) =>
            some { here with client, requesting := some { work with stage } }
    | .received i => here.receiving.bind fun work => receivedStep digests here work i
    | .requested i => here.requesting.bind fun work => requestedStep digests here work i

def initialOverlapping : Overlapping := ⟨initialController, {}, none, none, false⟩

/-- The turn brings nobody to the list while another is in it. -/
def alone (here : Overlapping) : ListTurn → Bool
  | .enter _ _ => here.receiving.isNone && here.requesting.isNone
  | _ => true

/-- The states of the runs in which nobody comes to the list while another is in it. -/
abbrev ReachableAlone (digests : Digests) (start : Overlapping) : Overlapping → Prop :=
  ReachableUnder (overlappingStep digests) (fun here turn => alone here turn = true) start

/-- What the turns do. -/
inductive Taken (digests : Digests) (here : Overlapping) : ListTurn → Overlapping → Prop
  | moved (e : Event) (t : Controller)
      (hfree : (takesMutex here.view e).any here.holds = false)
      (hother : worksOnList digests here.view e = false)
      (h : step digests here.view e = some t) :
    Taken digests here (.move e) { here with controller := t }
  | answerEntered (i : Nat) (call : Call) (msg : RadiusMsg) (p : Ptr) :
    Taken digests here (.enter i call)
      { here with receiving := some ⟨msg, p, call, .searching none here.client.msgs⟩ }
  | requestEntered (i : Nat) (call : Call) (worker : Worker) (p : Ptr)
      (request : Option RadiusMsgList) (hworker : here.controller.workers[i]? = some worker)
      (hother : ∀ msg q, worker ≠ .receiveRadiusMsg msg q) (hsession : worker.session = some p)
      (htakes : takesIdentifier here.view (.handle i call) = some request) :
    Taken digests here (.enter i call)
      { here with
        client := { here.client with
          nextRadiusIdentifier := here.client.nextRadiusIdentifier + 1 }
        requesting := some ⟨worker, p, call, here.view.radius, here.view.eapReqId, request,
          .removing none here.client.msgs⟩ }
  | receiving (work : Receiving) (client : RadiusNodes) (stage : ReceiveStage)
      (hwork : here.receiving = some work)
      (h : receiveStatement work.msg.identifier here.client work.stage = some (client, stage)) :
    Taken digests here .receive { here with client, receiving := some { work with stage } }
  | receiveFollowedFreed (work : Receiving) (hwork : here.receiving = some work)
      (h : receiveStatement work.msg.identifier here.client work.stage = none) :
    Taken digests here .receive { here with followedFreed := true }
  | requesting (work : Requesting) (client : RadiusNodes) (stage : RequestStage)
      (hwork : here.requesting = some work)
      (h : requestStatement work.before.nextRadiusIdentifier work.request here.client
        work.stage = some (client, stage)) :
    Taken digests here .request { here with client, requesting := some { work with stage } }
  | requestFollowedFreed (work : Requesting) (hwork : here.requesting = some work)
      (h : requestStatement work.before.nextRadiusIdentifier work.request here.client
        work.stage = none) :
    Taken digests here .request { here with followedFreed := true }
  | received (i : Nat) (work : Receiving) (req : Option Nat) (radius : RadiusClient)
      (t : Controller) (hwork : here.receiving = some work) (hstage : work.stage = .found req)
      (hworker : here.controller.workers[i]? = some (.receiveRadiusMsg work.msg work.p))
      (hanswered : answeredClient here.client work.msg.identifier req = some radius)
      (h : step digests { here.controller with radius } (.handle i work.call) = some t) :
    Taken digests here (.received i)
      { here with controller := t, client := releasedClient here.client req, receiving := none }
  | answerFollowedFreed (i : Nat) (work : Receiving) (req : Option Nat)
      (hwork : here.receiving = some work) (hstage : work.stage = .found req)
      (hworker : here.controller.workers[i]? = some (.receiveRadiusMsg work.msg work.p))
      (hanswered : answeredClient here.client work.msg.identifier req = none) :
    Taken digests here (.received i) { here with followedFreed := true }
  | requested (i : Nat) (work : Requesting) (t : Controller) (hwork : here.requesting = some work)
      (hstage : work.stage = .added) (hworker : here.controller.workers[i]? = some work.worker)
      (h : step digests
        { here.controller with radius := work.before, eapReqId := work.eapReqId }
        (.handle i work.call) = some t) :
    Taken digests here (.requested i)
      { here with
        controller := { t with eapReqId := here.controller.eapReqId }, requesting := none }

variable {digests : Digests} {s t : Controller} {e : Event} {i : Nat} {call : Call} {p : Ptr}
variable {ctx : EapAuthCtx} {radius : RadiusClient} {r : EapStep} {msg : RadiusMsg}
variable {here after : Overlapping} {c c' : RadiusNodes} {node : Nat}

theorem enterList_taken (h : enterList digests here i call = some after) :
    Taken digests here (.enter i call) after := by
  have hrequest : ∀ worker, here.controller.workers[i]? = some worker →
      (∀ msg q, worker ≠ .receiveRadiusMsg msg q) →
      enterRequest digests here worker i call = some after →
        Taken digests here (.enter i call) after := by
    intro worker hworker hother hentered
    simp only [enterRequest, Option.ite_none_left_eq_some] at hentered
    cases hsession : worker.session with
    | none => simp [hsession] at hentered
    | some p =>
      cases htakes : takesIdentifier here.view (.handle i call) with
      | none => simp [hsession, htakes] at hentered
      | some request =>
        simp only [hsession, htakes, Option.ite_none_left_eq_some, Option.some.injEq] at hentered
        obtain ⟨-, -, rfl⟩ := hentered
        exact .requestEntered i call worker p request hworker hother hsession htakes
  cases hworker : here.controller.workers[i]? with
  | none => simp [enterList, hworker] at h
  | some worker =>
    cases worker with
    | receiveRadiusMsg msg p =>
      simp only [enterList, hworker, enterReceive, Option.ite_none_left_eq_some,
        Option.some.injEq] at h
      obtain ⟨-, rfl⟩ := h
      exact .answerEntered i call msg p
    | _ =>
      simp only [enterList, hworker] at h
      exact hrequest _ hworker (by simp) h

theorem overlappingStep_taken {turn : ListTurn}
    (h : overlappingStep digests here turn = some after) : Taken digests here turn after := by
  simp only [overlappingStep, Option.ite_none_left_eq_some] at h
  obtain ⟨-, h⟩ := h
  cases turn with
  | move e =>
    simp only [Option.ite_none_left_eq_some, Option.map_eq_some_iff, not_or,
      Bool.not_eq_true] at h
    obtain ⟨⟨hfree, hother⟩, t, ht, rfl⟩ := h
    exact .moved e t hfree hother ht
  | enter i call => exact enterList_taken h
  | receive =>
    simp only [Option.bind_eq_some_iff, Option.ite_none_left_eq_some] at h
    obtain ⟨work, hwork, -, h⟩ := h
    cases hnext : receiveStatement work.msg.identifier here.client work.stage with
    | none =>
      simp only [hnext, Option.some.injEq] at h
      exact h ▸ .receiveFollowedFreed work hwork hnext
    | some next =>
      simp only [hnext, Option.some.injEq] at h
      exact h ▸ .receiving work next.1 next.2 hwork hnext
  | request =>
    simp only [Option.bind_eq_some_iff, Option.ite_none_left_eq_some] at h
    obtain ⟨work, hwork, -, h⟩ := h
    cases hnext : requestStatement work.before.nextRadiusIdentifier work.request here.client
        work.stage with
    | none =>
      simp only [hnext, Option.some.injEq] at h
      exact h ▸ .requestFollowedFreed work hwork hnext
    | some next =>
      simp only [hnext, Option.some.injEq] at h
      exact h ▸ .requesting work next.1 next.2 hwork hnext
  | received i =>
    simp only [Option.bind_eq_some_iff, receivedStep] at h
    obtain ⟨work, hwork, h⟩ := h
    cases hstage : work.stage with
    | found req =>
      simp only [hstage, Option.ite_none_left_eq_some, not_or, Decidable.not_not] at h
      obtain ⟨⟨hworker, -⟩, h⟩ := h
      cases hanswered : answeredClient here.client work.msg.identifier req with
      | none =>
        simp only [hanswered, Option.some.injEq] at h
        exact h ▸ .answerFollowedFreed i work req hwork hstage hworker hanswered
      | some radius =>
        simp only [hanswered, Option.map_eq_some_iff] at h
        obtain ⟨t, ht, rfl⟩ := h
        exact .received i work req radius t hwork hstage hworker hanswered ht
    | _ => simp [hstage] at h
  | requested i =>
    simp only [Option.bind_eq_some_iff, requestedStep, Option.ite_none_left_eq_some,
      Option.map_eq_some_iff, not_or, Decidable.not_not] at h
    obtain ⟨work, hwork, ⟨hworker, hstage⟩, t, ht, rfl⟩ := h
    exact .requested i work t hwork hstage hworker ht

/-- The client after a handler that is no answer. -/
def clientAfter (radius : RadiusClient) : Option (Option RadiusMsgList) → RadiusClient
  | none => radius
  | some request => takeIdentifier radius request

theorem eapAuthStep_clientAfter (h : eapAuthStep ctx radius p call = .ok r) :
    r.radius = clientAfter radius ((handedResponse ctx call).map fun data =>
      if userNameFits ctx data then
        some ⟨builtRequest ctx radius.nextRadiusIdentifier data call.authenticator, p⟩
      else none) := by
  simp only [eapAuthStep] at h
  split at h
  · cases h
  · split at h
    · rename_i hresp
      cases hdata : (eapServerSmStep ctx.eap call.rand).aaaEapRespData with
      | none => simp [hdata] at h
      | some data =>
        simp only [hdata, Except.ok.injEq] at h
        subst h
        have hhanded : handedResponse ctx call = some data := by
          simp [handedResponse, hresp, hdata]
        simp only [hhanded, Option.map_some, eapAuthEncapsulateRadius]
        split
        · rename_i hlong
          have hfits : userNameFits ctx data = false := by
            simpa [userNameFits] using hlong
          simp only [hfits, Bool.false_eq_true, if_false]
          rfl
        · rename_i hshort
          have hfits : userNameFits ctx data = true := by
            simpa [userNameFits] using hshort
          simp only [hfits, if_true]
          cases hlast : ctx.lastRecvRadius with
          | none =>
            simp [clientAfter, takeIdentifier, radiusClientGetId, builtRequest, stateFor, hlast]
          | some msg =>
            simp [clientAfter, takeIdentifier, radiusClientGetId, builtRequest, stateFor, hlast]
    · rename_i hresp
      simp only [Except.ok.injEq] at h
      subst h
      have hnone : handedResponse ctx call = none := by
        simp [handedResponse, hresp]
      rw [hnone]
      rfl

theorem processAcknowledgment_clientAfter {task : NetworkTask} {post : Ptr × Nat}
    (hworker : s.workers[i]? = some (.acknowledgment task post p))
    (h : processAcknowledgment s task post p call = .ok t) :
    t.radius = clientAfter s.radius (takesIdentifier s (.handle i call)) ∧
      t.eapReqId = s.eapReqId := by
  obtain ⟨request, u, hvalid, rfl, ⟨hstate, -, hstep⟩ | ⟨hstate, rfl⟩ | ⟨hnot, -, rfl⟩⟩ :=
    processAcknowledgment_ok h
  · obtain ⟨r, hr, rfl⟩ := stepSession_ok hstep
    have hrun : eapRun s (.handle i call) = some (p, setEapResponse (s.heap p).eapCtx
        (acknowledgedEap request.payload call.behind), call) := by
      simp [eapRun, hworker, hstate, hvalid]
    rw [takesIdentifier, hrun, Option.bind_some]
    have hctx : setEapResponse ((s.setSession p { s.heap p with
        location := some (getLocation task.buf request 30) }).heap p).eapCtx
          (acknowledgedEap request.payload call.behind) =
        setEapResponse (s.heap p).eapCtx (acknowledgedEap request.payload call.behind) := by
      rw [Controller.setSession_heap_self]
    simp only [Controller.record_heap, hctx] at hr
    exact ⟨eapAuthStep_clientAfter hr, rfl⟩
  · have hrun : eapRun s (.handle i call) = none := by
      simp [eapRun, hworker, hstate]
    rw [takesIdentifier, hrun]
    exact ⟨rfl, rfl⟩
  · have hrun : eapRun s (.handle i call) = none := by
      simp [eapRun, hworker, hnot]
    rw [takesIdentifier, hrun]
    exact ⟨rfl, rfl⟩

/-- A handler that does not end the process ran to its end. -/
theorem handle_ok (h : step digests s (.handle i call) = some t) (hrunning : t.halted = none) :
    s.halted = none ∧ ∃ worker, s.workers[i]? = some worker ∧
      handleStep digests s i worker call = some (.ok t) := by
  have hbefore := (step_move h).1
  simp only [step, hbefore, Option.isSome_none, Bool.false_eq_true, if_false,
    Option.bind_eq_some_iff, Option.map_eq_some_iff] at h
  obtain ⟨worker, hworker, result, hresult, hconclude⟩ := h
  rcases conclude_cases hconclude with rfl | ⟨reason, rfl⟩
  · exact ⟨hbefore, worker, hworker, hresult⟩
  · simp at hrunning

theorem step_of_handleStep {worker : Worker} (hrunning : s.halted = none)
    (hworker : s.workers[i]? = some worker)
    (hresult : handleStep digests s i worker call = some (.ok t)) :
    step digests s (.handle i call) = some t := by
  simp only [step, hrunning, Option.isSome_none, Bool.false_eq_true, if_false, hworker,
    Option.bind_some, hresult, Option.map_some, conclude]

/-- What a handler that runs to its end leaves of the RADIUS client and of `eap_req_id`,
unless it took in an answer. -/
theorem handle_clientAfter (h : step digests s (.handle i call) = some t)
    (hrunning : t.halted = none)
    (hother : ∀ msg p, s.workers[i]? ≠ some (.receiveRadiusMsg msg p)) :
    t.radius = clientAfter s.radius (takesIdentifier s (.handle i call)) ∧
      t.eapReqId = s.eapReqId := by
  obtain ⟨-, worker, hworker, hresult⟩ := handle_ok h hrunning
  cases worker with
  | took task => simp [handleStep] at hresult
  | retrId origin id => simp [handleStep] at hresult
  | receiveRadiusMsg msg p => exact absurd hworker (hother msg p)
  | coapMsg task p =>
    simp only [handleStep, Option.ite_none_left_eq_some, Option.some.injEq] at hresult
    obtain ⟨u, hu, rfl⟩ := except_map_ok hresult.2
    obtain ⟨v, session, packet, -, ⟨request, -, hstep⟩, -, -, rfl⟩ := processCoapMsg_ok hu
    obtain ⟨r, hr, rfl⟩ := stepSession_ok hstep
    have hrun : eapRun s (.handle i call) = some (p, { (s.heap p).eapCtx with
        eap := { (s.heap p).eapCtx.eap with eapRestart := true } }, call) := by
      simp [eapRun, hworker]
    rw [takesIdentifier, hrun, Option.bind_some]
    exact ⟨eapAuthStep_clientAfter hr, rfl⟩
  | acknowledgment task post p =>
    simp only [handleStep, Option.ite_none_left_eq_some, Option.some.injEq] at hresult
    obtain ⟨u, hu, rfl⟩ := except_map_ok hresult.2
    have hleft := processAcknowledgment_clientAfter hworker hu
    exact hleft
  | radiusIdentity p =>
    simp only [handleStep, Option.some.injEq] at hresult
    obtain ⟨u, hu, rfl⟩ := except_map_ok hresult
    obtain ⟨r, hr, rfl⟩ := stepSession_ok hu
    have hrun : eapRun s (.handle i call) = some (p, setEapResponse (s.heap p).eapCtx
        (s.eapReqId.take (5 + (s.heap p).userId.length)), call) := by
      simp [eapRun, hworker]
    rw [takesIdentifier, hrun, Option.bind_some]
    exact ⟨eapAuthStep_clientAfter hr, rfl⟩
  | retrCoapEap origin id p =>
    simp only [handleStep, Option.ite_none_left_eq_some, Option.some.injEq] at hresult
    obtain ⟨u, hu, rfl⟩ := except_map_ok hresult.2
    have hrun : eapRun s (.handle i call) = none := by
      simp [eapRun, hworker]
    rw [takesIdentifier, hrun]
    refine ⟨(processRetrCoapEap_client hu).radius, ?_⟩
    rcases processRetrCoapEap_ok hu with ⟨-, rfl⟩ | ⟨-, session, v, rfl, rfl,
      ⟨-, -, rfl⟩ | ⟨-, pdu, -, -, rfl⟩ | ⟨-, rfl⟩⟩ <;> rfl

/-- What an answer leaves of the RADIUS client. -/
theorem processReceiveRadiusMsg_radius {identity : Bool}
    (h : processReceiveRadiusMsg digests s msg p call = .ok (t, identity)) :
    t.radius = if (matching s.radius msg.identifier).isSome then
      removeMatching s.radius msg.identifier else s.radius := by
  obtain ⟨u, hu, -, hcase⟩ := processReceiveRadiusMsg_ok h
  have hreceived : u.radius = if (matching s.radius msg.identifier).isSome then
      removeMatching s.radius msg.identifier else s.radius := by
    rcases radiusClientReceive_ok hu with ⟨hnone, rfl⟩ | ⟨entry, hsome, ⟨-, rfl⟩ |
      ⟨-, q, eap, -, -, -, rfl⟩⟩
    · simp [hnone]
    · simp [hsome]
    · simp [hsome]
  rw [← hreceived]
  rcases hcase with ⟨-, -, rfl, -⟩ | ⟨packet, -, ⟨-, rfl, -⟩ | ⟨-, hsend, -⟩⟩
  · rfl
  · rfl
  · rcases (sendRadiusPost_ok hsend).2 with ⟨-, rfl⟩ | ⟨-, rfl⟩
    · rfl
    · rfl

/-- The handler of an answer comes to a free mutex. What it leaves of the RADIUS client. -/
theorem handle_answer (hworker : s.workers[i]? = some (.receiveRadiusMsg msg p))
    (h : step digests s (.handle i call) = some t) (hrunning : t.halted = none) :
    (s.heap p).mutex = false ∧
      t.radius = if (matching s.radius msg.identifier).isSome then
        removeMatching s.radius msg.identifier else s.radius := by
  obtain ⟨-, worker, hfound, hresult⟩ := handle_ok h hrunning
  obtain rfl : worker = .receiveRadiusMsg msg p := Option.some.inj (hfound.symm.trans hworker)
  simp only [handleStep, Option.ite_none_left_eq_some, Option.some.injEq,
    Bool.not_eq_true] at hresult
  obtain ⟨hfree, hresult⟩ := hresult
  obtain ⟨⟨u, identity⟩, hu, hafter⟩ := except_map_ok hresult
  have hradius : t.radius = u.radius := by
    rw [← hafter]
    split <;> rfl
  rw [hradius, processReceiveRadiusMsg_radius hu]
  exact ⟨hfree, rfl⟩

/-- The handler of an answer sees of the client only which request waits under its
identifier, and what is left without it. -/
theorem handle_answered (hworker : s.workers[i]? = some (.receiveRadiusMsg msg p))
    (hsome : matching s.radius msg.identifier ≠ none)
    (hsame : matching radius msg.identifier = matching s.radius msg.identifier)
    (hleft : removeMatching radius msg.identifier = removeMatching s.radius msg.identifier)
    (h : step digests s (.handle i call) = some t) (hrunning : t.halted = none) :
    step digests { s with radius } (.handle i call) = some t := by
  have hreceive : radiusClientReceive digests { s with radius } msg call =
      radiusClientReceive digests s msg call := by
    obtain ⟨entry, hentry⟩ := Option.ne_none_iff_exists'.mp hsome
    simp only [radiusClientReceive, hsame, hentry, hleft]
  have hprocess : processReceiveRadiusMsg digests { s with radius } msg p call =
      processReceiveRadiusMsg digests s msg p call := by
    rw [processReceiveRadiusMsg, hreceive]
    rfl
  obtain ⟨hbefore, worker, hfound, hresult⟩ := handle_ok h hrunning
  obtain rfl : worker = .receiveRadiusMsg msg p := Option.some.inj (hfound.symm.trans hworker)
  have hthere : handleStep digests { s with radius } i (.receiveRadiusMsg msg p) call =
      some (.ok t) := by
    simp only [handleStep, hprocess] at hresult ⊢
    exact hresult
  exact step_of_handleStep hbefore hworker hthere

/-- The event is not the handler of an answer. -/
def NoAnswer (s : Controller) (e : Event) : Prop :=
  ∀ i call msg p, e = .handle i call → s.workers[i]? ≠ some (.receiveRadiusMsg msg p)

/-- An event that has no work on the list takes in no answer and takes no identifier. -/
theorem step_apart (h : step digests s e = some t) (hrunning : t.halted = none)
    (hother : worksOnList digests s e = false) : NoAnswer s e ∧ takesIdentifier s e = none := by
  cases e with
  | handle i call =>
    have hnone : ∀ msg p, s.workers[i]? ≠ some (.receiveRadiusMsg msg p) := by
      intro msg p hworker
      simp [worksOnList, hworker] at hother
    refine ⟨fun j call' msg p heq => ?_, ?_⟩
    · obtain ⟨rfl, rfl⟩ := Event.handle.inj heq
      exact hnone msg p
    · simp only [worksOnList] at hother
      simpa [h, hrunning] using hother
  | _ => exact ⟨fun _ _ _ _ heq => (nomatch heq), rfl⟩

/-- An event that has no work on the list leaves the client alone. -/
theorem step_client_same (h : step digests s e = some t) (hrunning : t.halted = none)
    (hother : worksOnList digests s e = false) : t.radius = s.radius := by
  obtain ⟨hanswer, htakes⟩ := step_apart h hrunning hother
  cases e with
  | handle i call =>
    rw [(handle_clientAfter h hrunning fun msg p => hanswer i call msg p rfl).1, htakes]
    rfl
  | _ =>
    obtain ⟨-, hmove⟩ := step_move h
    cases hmove <;> rfl

/-- A run of statements on the list is a run of the controller. -/
theorem receive_runs {start : ReceiveStage} {last : RadiusNodes × ReceiveStage}
    (hrunning : s.halted = none) (h : ReceiveRun msg.identifier (c, start) last) :
    ReachableAlone digests ⟨s, c, some ⟨msg, p, call, start⟩, none, false⟩
      ⟨s, last.1, some ⟨msg, p, call, last.2⟩, none, false⟩ := by
  induction h with
  | refl => exact .start
  | @tail before after _ hstatement ih =>
    cases hend : before.2.atEnd with
    | true =>
      have hsame : after = before := by
        cases hstage : before.2 with
        | found req =>
          rw [hstage] at hstatement
          rw [← Option.some.inj hstatement, ← hstage]
        | _ => simp [hstage, ReceiveStage.atEnd] at hend
      exact hsame ▸ ih
    | false =>
      refine ih.step (e := .receive) rfl ?_
      simp [overlappingStep, Overlapping.stopped, hrunning, hend, hstatement]

theorem request_runs {work : Requesting} {start : RequestStage}
    {last : RadiusNodes × RequestStage} (hrunning : s.halted = none)
    (h : RequestRun work.before.nextRadiusIdentifier work.request (c, start) last) :
    ReachableAlone digests ⟨s, c, none, some { work with stage := start }, false⟩
      ⟨s, last.1, none, some { work with stage := last.2 }, false⟩ := by
  induction h with
  | refl => exact .start
  | @tail before after _ hstatement ih =>
    cases hend : before.2.atEnd with
    | true =>
      have hsame : after = before := by
        cases hstage : before.2 with
        | added =>
          rw [hstage] at hstatement
          rw [← Option.some.inj hstatement, ← hstage]
        | _ => simp [hstage, RequestStage.atEnd] at hend
      exact hsame ▸ ih
    | false =>
      refine ih.step (e := .request) rfl ?_
      simp [overlappingStep, Overlapping.stopped, hrunning, hend, hstatement]

theorem Overlapping.not_stopped {receiving : Option Receiving}
    {requesting : Option Requesting} (hrunning : s.halted = none) :
    (Overlapping.mk s c receiving requesting false).stopped = false := by
  simp [stopped, hrunning]

theorem Overlapping.view_eq {receiving : Option Receiving} {requesting : Option Requesting}
    {followedFreed : Bool} (h : c.Represents s.radius) :
    (Overlapping.mk s c receiving requesting followedFreed).view = s := by
  rw [Overlapping.view, h.client_eq]

theorem answeredClient_none {identifier : UInt8} (hclient : c.Represents radius)
    (hnone : matching radius identifier = none) :
    answeredClient c identifier none = some radius := by
  have hall : radius.msgs.filter (fun entry => entry.msg.identifier ≠ identifier) =
      radius.msgs := by
    rw [List.filter_eq_self]
    simpa [matching] using hnone
  obtain ⟨places, hlists⟩ := hclient.msgs
  rw [answeredClient, hclient.client_eq, hlists.listed_eq, hall]

/-- The request that was taken off, put back in front, is taken off again. -/
theorem answeredClient_some {identifier : UInt8} {entry : RadiusMsgList}
    (hsome : matching radius identifier = some entry) (hentry : c.entryAt node = some entry)
    (hlisted : c.listed = (removeMatching radius identifier).msgs)
    (hclient : (c.free node).Represents (removeMatching radius identifier)) :
    ∃ answered, answeredClient c identifier (some node) = some answered ∧
      matching answered identifier = some entry ∧
      removeMatching answered identifier = removeMatching radius identifier := by
  have hmatch : entry.msg.identifier = identifier := by
    simpa using List.find?_some hsome
  refine ⟨{ c.client with msgs := entry :: c.listed, numMsgs := c.numMsgs.toNat + 1 }, ?_, ?_,
    ?_⟩
  · rw [answeredClient, hentry, Option.map_some]
  · simp [matching, hmatch]
  · have hcount : c.numMsgs.toNat = radius.numMsgs - 1 := hclient.numMsgs
    have hnext : c.nextRadiusIdentifier = radius.nextRadiusIdentifier :=
      hclient.nextRadiusIdentifier
    simp only [removeMatching] at hlisted ⊢
    rw [List.eraseP_cons_of_pos (by simpa using hmatch), hlisted, hcount, Nat.add_sub_cancel]
    simp only [RadiusNodes.client, hnext]

/-- An answer comes to the list, takes its request off, and its handler goes on. -/
theorem received_runs (hworker : s.workers[i]? = some (.receiveRadiusMsg msg p))
    (hclient : c.Represents s.radius) (hcounted : CountHolds s.radius)
    (h : step digests s (.handle i call) = some t) (hrunning : t.halted = none) :
    CountHolds t.radius ∧ ∃ c', ReachableAlone digests ⟨s, c, none, none, false⟩
      ⟨t, c', none, none, false⟩ ∧ c'.Represents t.radius := by
  have hbefore := (handle_ok h hrunning).1
  obtain ⟨hfree, hradius⟩ := handle_answer hworker h hrunning
  have henter : overlappingStep digests ⟨s, c, none, none, false⟩ (.enter i call) =
      some ⟨s, c, some ⟨msg, p, call, .searching none c.msgs⟩, none, false⟩ := by
    simp [overlappingStep, Overlapping.not_stopped hbefore, enterList, enterReceive, hworker,
      Overlapping.holds, hfree]
  have hentered : ReachableAlone digests ⟨s, c, none, none, false⟩
      ⟨s, c, some ⟨msg, p, call, .searching none c.msgs⟩, none, false⟩ :=
    ReachableUnder.start.step rfl henter
  rcases answer_taken_off hclient hcounted msg.identifier with ⟨hnone, hrun⟩ |
    ⟨c', node, entry, hsome, hrun, hentry, hlisted, hrepresents⟩
  · rw [hnone, Option.isSome_none, if_neg Bool.false_ne_true] at hradius
    rw [hradius]
    refine ⟨hcounted, c, (hentered.trans (receive_runs hbefore hrun)).step (e := .received i)
      rfl ?_, hclient⟩
    simp [overlappingStep, Overlapping.not_stopped hbefore, receivedStep, hworker,
      answeredClient_none hclient hnone, h, releasedClient]
  · rw [hsome, Option.isSome_some, if_pos rfl] at hradius
    rw [hradius]
    refine ⟨hcounted.removeMatching hsome, c'.free node,
      (hentered.trans (receive_runs hbefore hrun)).step (e := .received i) rfl ?_,
      hrepresents⟩
    obtain ⟨answered, hanswered, hsame, hleft⟩ :=
      answeredClient_some hsome hentry hlisted hrepresents
    have hhandled : step digests { s with radius := answered } (.handle i call) = some t :=
      handle_answered hworker (by simp [hsome]) (hsame.trans hsome.symm) hleft h hrunning
    simp [overlappingStep, Overlapping.not_stopped hbefore, receivedStep, hworker, hanswered,
      hhandled, releasedClient]

/-- A request comes to the list, takes its identifier and its place, and its handler goes
on. -/
theorem requested_runs {request : Option RadiusMsgList}
    (hother : ∀ msg p, s.workers[i]? ≠ some (.receiveRadiusMsg msg p))
    (htakes : takesIdentifier s (.handle i call) = some request)
    (hclient : c.Represents s.radius) (hcounted : CountHolds s.radius)
    (h : step digests s (.handle i call) = some t) (hrunning : t.halted = none) :
    CountHolds t.radius ∧ ∃ c', ReachableAlone digests ⟨s, c, none, none, false⟩
      ⟨t, c', none, none, false⟩ ∧ c'.Represents t.radius := by
  obtain ⟨hbefore, worker, hworker, hresult⟩ := handle_ok h hrunning
  obtain ⟨hradius, hbuffer⟩ := handle_clientAfter h hrunning hother
  rw [htakes] at hradius
  obtain ⟨p, hp⟩ : ∃ p, worker.session = some p := by
    cases worker with
    | took task => simp [handleStep] at hresult
    | retrId origin id => simp [handleStep] at hresult
    | _ => exact ⟨_, rfl⟩
  obtain ⟨c', hrun, hrepresents⟩ := request_listed hclient hcounted request
  let work : Requesting :=
    ⟨worker, p, call, s.radius, s.eapReqId, request, .removing none c.msgs⟩
  have henter : overlappingStep digests ⟨s, c, none, none, false⟩ (.enter i call) =
      some ⟨s, { c with nextRadiusIdentifier := c.nextRadiusIdentifier + 1 }, none, some work,
        false⟩ := by
    have hworks : worksOnList digests s (.handle i call) = true := by
      simp [worksOnList, htakes, h, hrunning]
    have hentered : enterList digests ⟨s, c, none, none, false⟩ i call =
        enterRequest digests ⟨s, c, none, none, false⟩ worker i call := by
      cases worker with
      | receiveRadiusMsg msg q => exact absurd hworker (hother msg q)
      | _ => simp only [enterList, hworker]
    simp [overlappingStep, Overlapping.not_stopped hbefore, hentered, enterRequest,
      Overlapping.view_eq hclient, hworks, htakes, hp, Overlapping.holds, work]
  have hentered : ReachableAlone digests ⟨s, c, none, none, false⟩ _ :=
    ReachableUnder.start.step rfl henter
  have hlisted : ReachableAlone digests ⟨s, c, none, none, false⟩
      ⟨s, c', none, some { work with stage := .added }, false⟩ :=
    hentered.trans (@request_runs _ _ _ work _ _ hbefore hrun)
  have hdone : requestedStep digests ⟨s, c', none, some { work with stage := .added }, false⟩
      { work with stage := .added } i = some ⟨t, c', none, none, false⟩ := by
    have hkept : { t with eapReqId := s.eapReqId } = t := by
      rw [← hbuffer]
    simp [requestedStep, hworker, work, h, hkept]
  rw [hradius]
  refine ⟨hcounted.takeIdentifier request, c', hlisted.step (e := .requested i) rfl ?_,
    hrepresents⟩
  simp [overlappingStep, Overlapping.not_stopped hbefore, hdone]

/-- Every state of the controller whose handlers run in one move is a state of the one with
the list in memory, with nobody in the list. -/
theorem overlapping_of_reachable (h : Reachable digests s) (hrunning : s.halted = none) :
    CountHolds s.radius ∧ ∃ c,
      ReachableAlone digests initialOverlapping ⟨s, c, none, none, false⟩ ∧
        c.Represents s.radius := by
  induction h with
  | start =>
    refine ⟨⟨Nat.le_refl _, by decide⟩, {}, .start, ⟨[], rfl, List.nodup_nil, ?_, rfl⟩, rfl, rfl⟩
    simp
  | @step s t e hreach _ htaken ih =>
    obtain ⟨hcounted, c, hruns, hclient⟩ := ih (step_move htaken).1
    cases hworks : worksOnList digests s e with
    | false =>
      have hradius := step_client_same htaken hrunning hworks
      rw [hradius]
      have hnobody : (takesMutex s e).any (Overlapping.mk s c none none false).holds = false := by
        cases takesMutex s e <;> rfl
      refine ⟨hcounted, c, hruns.step (e := .move e) rfl ?_, hclient⟩
      simp [overlappingStep, Overlapping.not_stopped (step_move htaken).1,
        Overlapping.view_eq hclient, hworks, htaken, hnobody]
    | true =>
      cases e with
      | handle i call =>
        by_cases hanswer : ∃ msg p, s.workers[i]? = some (.receiveRadiusMsg msg p)
        · obtain ⟨msg, p, hworker⟩ := hanswer
          obtain ⟨hcount, c', hmore, hafter⟩ :=
            received_runs hworker hclient hcounted htaken hrunning
          exact ⟨hcount, c', hruns.trans hmore, hafter⟩
        · have hother : ∀ msg p, s.workers[i]? ≠ some (.receiveRadiusMsg msg p) :=
            fun msg p hworker => hanswer ⟨msg, p, hworker⟩
          have htakes : (takesIdentifier s (.handle i call)).isSome = true := by
            simp only [worksOnList] at hworks
            exact (Bool.and_eq_true_iff.mp hworks).1
          obtain ⟨request, hrequest⟩ := Option.isSome_iff_exists.mp htakes
          obtain ⟨hcount, c', hmore, hafter⟩ :=
            requested_runs hother hrequest hclient hcounted htaken hrunning
          exact ⟨hcount, c', hruns.trans hmore, hafter⟩
      | _ => simp [worksOnList] at hworks

end CoapEap.Mainserver
