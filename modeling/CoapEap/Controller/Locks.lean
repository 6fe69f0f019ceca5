import CoapEap.Controller.Stranding
import CoapEap.Library.Locking

/-!
The mutexes that the handlers and the network thread take and give back on their
way, in the order of the source. An early return is a branch of its own, with the
operations that stand on it.

A run of the system is followed execution by execution: what a handler or the
network thread's work on one datagram holds, from its start on, until it returns.
-/

namespace CoapEap.Mainserver

open Cantcoap EapServer Lalarm Radius Library.Runs Library.Locking

/-- `coap_eap_ctx.mutex`, `list_sessions_mutex`, `list_tasks_mutex`, `mutex` of
`lalarm.c`, `radmutex`, `radmutex_list` and `mutex_radius`. -/
inductive Mutex
  | session (p : Ptr)
  | listSessions
  | listTasks
  | alarms
  | radmutex
  | radmutexList
  | mutexRadius
  deriving DecidableEq, Repr

/-- `get_coap_eap_session`. It gives the mutex back before it ends the process. -/
def getCoapEapSessionLocks : List (LockOp Mutex) := [.lock .listSessions, .unlock .listSessions]

def addCoapEapSessionLocks : List (LockOp Mutex) := [.lock .listSessions, .unlock .listSessions]

/-- `remove_coap_eap_session`, which returns early when it removes the first
entry. -/
def removeCoapEapSessionLocks (s : Controller) (id : UInt32) : List (LockOp Mutex) :=
  .lock .listSessions ::
    if s.sessions.head?.any (fun p => s.sessionId p = id) then [.unlock .listSessions]
    else [.unlock .listSessions]

def addTaskLocks : List (LockOp Mutex) := [.lock .listTasks, .unlock .listTasks]

/-- `get_alarm_coap_eap_session`, which returns early when it finds no alarm. -/
def getAlarmCoapEapSessionLocks (s : Controller) (id : UInt32) : List (LockOp Mutex) :=
  .lock .alarms ::
    if (findAlarmCoapEapSession s.sessionId s.alarms id postAlarm).isNone then [.unlock .alarms]
    else [.unlock .alarms]

def addAlarmCoapEapLocks : List (LockOp Mutex) := [.lock .alarms, .unlock .alarms]

def searchEapCtxRadClientLocks : List (LockOp Mutex) :=
  [.lock .radmutexList, .unlock .radmutexList]

def eapAuthInitLocks : List (LockOp Mutex) := [.lock .radmutex, .unlock .radmutex]

def eapAuthStepLocks : List (LockOp Mutex) := [.lock .radmutex, .unlock .radmutex]

/-- `eap_auth_receive_radius`, with its two early returns. -/
def eapAuthReceiveRadiusLocks (digests : Digests) (msg : RadiusMsg) (req : AccessRequest) :
    List (LockOp Mutex) :=
  let bareReject : Bool := msg.code = accessReject &&
    attrValues msg attrMessageAuthenticator = [] && attrValues msg attrEapMessage = []
  .lock .radmutex :: searchEapCtxRadClientLocks ++
    if !bareReject && !radiusMsgVerify digests msg req then [.unlock .radmutex]
    else if msg.code ≠ accessAccept ∧ msg.code ≠ accessReject ∧ msg.code ≠ accessChallenge then
      [.unlock .radmutex]
    else [.unlock .radmutex]

/-- `radius_client_receive`: without a matching request it goes to its end at once,
after an answer that was taken in it returns from its loop. -/
def radiusClientReceiveLocks (digests : Digests) (s : Controller) (msg : RadiusMsg) :
    List (LockOp Mutex) :=
  .lock .mutexRadius ::
    match matching s.radius msg.identifier with
    | none => [.unlock .mutexRadius]
    | some entry =>
      eapAuthReceiveRadiusLocks digests msg entry.msg ++
        if acceptsAnswer digests msg entry.msg then [.unlock .mutexRadius]
        else [.unlock .mutexRadius]

def processCoapMsgLocks (s : Controller) (p : Ptr) : List (LockOp Mutex) :=
  .lock (.session p) ::
    (eapAuthStepLocks ++ getAlarmCoapEapSessionLocks s (s.sessionId p) ++ addAlarmCoapEapLocks) ++
      [.unlock (.session p)]

def processAcknowledgmentLocks (s : Controller) (p : Ptr) : List (LockOp Mutex) :=
  let id := s.sessionId p
  .lock (.session p) ::
    (match (s.heap p).currentState with
    | 2 => eapAuthStepLocks
    | 3 =>
      getAlarmCoapEapSessionLocks s id ++ getAlarmCoapEapSessionLocks (cancelPostAlarm s id) id ++
        removeCoapEapSessionLocks s id ++
          removeCoapEapSessionLocks (removeCoapEapSession s id) id
    | _ => []) ++ [.unlock (.session p)]

/-- `process_receive_radius_msg` up to its return, or to the hand-over of the
identity. When `sendto` fails it returns at once. -/
def processReceiveRadiusMsgLocks (digests : Digests) (s : Controller) (msg : RadiusMsg) (p : Ptr)
    (call : Call) : List (LockOp Mutex) :=
  .lock (.session p) :: radiusClientReceiveLocks digests s msg ++
    match radiusClientReceive digests s msg call with
    | .error _ => []
    | .ok u =>
      let session := u.heap p
      let eap := session.eapCtx.eap
      if eap.eapReq ∨ eap.eapSuccess then
        if session.eapWorkarround = 0 then getAlarmCoapEapSessionLocks u session.sessionId
        else if call.sent then
          getAlarmCoapEapSessionLocks u session.sessionId ++ addAlarmCoapEapLocks ++
            [.unlock (.session p)]
        else []
      else [.unlock (.session p)]

def identityHandOverLocks (p : Ptr) : List (LockOp Mutex) :=
  eapAuthStepLocks ++ [.unlock (.session p)]

def coapRetransmitLastSentMessageLocks (s : Controller) (id : UInt32) : List (LockOp Mutex) :=
  getAlarmCoapEapSessionLocks s id ++ addAlarmCoapEapLocks

def processRetrCoapEapLocks (s : Controller) (kind : Nat) (p : Ptr) : List (LockOp Mutex) :=
  let id := s.sessionId p
  .lock (.session p) ::
    (if kind = postAlarm then
      getAlarmCoapEapSessionLocks s id ++
        if (s.heap p).rtxCounter + 1 < maxRetransmit then
          match (s.heap p).lastSentMessage with
          | some _ => coapRetransmitLastSentMessageLocks (cancelPostAlarm s id) id
          | none => []
        else
          removeCoapEapSessionLocks s id ++
            removeCoapEapSessionLocks (removeCoapEapSession s id) id
    else []) ++ [.unlock (.session p)]

/-- The body of `handle_network_management` for a CoAP datagram. An acknowledgment
stands before the mutex of its session at the end. -/
def recvCoapLocks (s : Controller) (buf : Bytes) : List (LockOp Mutex) :=
  if (validate buf).isNone then []
  else if getType buf ≠ .acknowledgement then
    eapAuthInitLocks ++
      (.lock (.session s.nextPtr) :: addCoapEapSessionLocks ++ [.unlock (.session s.nextPtr)]) ++
        addTaskLocks
  else getCoapEapSessionLocks

/-- The rest of the body for an acknowledgment. -/
def checkAcknowledgmentLocks (s : Controller) (task : NetworkTask) (p : Ptr) :
    List (LockOp Mutex) :=
  let session := s.heap p
  let lastSent := session.lastSentMessage.getD []
  let malformed : Bool := session.lastReceivedMessage.all (fun last => (validate last).isNone) ||
    (validate lastSent).isNone
  if malformed then [.lock (.session p), .unlock (.session p)]
  else
    .lock (.session p) ::
      (if getMessageId task.buf ≠ getMessageId lastSent then [] else addTaskLocks) ++
        [.unlock (.session p)]

/-- The body for a RADIUS datagram. -/
def recvRadiusLocks (packet : Bytes) : List (LockOp Mutex) :=
  if packet.length = 0 then [] else addTaskLocks

def lookupLocks : Worker → List (LockOp Mutex)
  | .took (.processCoapMsg _) => getCoapEapSessionLocks
  | .took (.processAcknowledgment _ _) => getCoapEapSessionLocks
  | .took (.processReceiveRadiusMsg _) => searchEapCtxRadClientLocks
  | _ => []

def handleLocks (digests : Digests) (s : Controller) (call : Call) : Worker → List (LockOp Mutex)
  | .coapMsg _ p => processCoapMsgLocks s p
  | .acknowledgment _ _ p => processAcknowledgmentLocks s p
  | .receiveRadiusMsg msg p => processReceiveRadiusMsgLocks digests s msg p call
  | .radiusIdentity p => identityHandOverLocks p
  | .retrCoapEap _ id p => processRetrCoapEapLocks s id p
  | _ => []

/-- The lock operations of a step of the network thread. -/
def networkLocks (s : Controller) : Event → List (LockOp Mutex)
  | .recvCoap datagram _ _ => recvCoapLocks s (datagram.take (maxBufLen - 1))
  | .lockAcknowledgment =>
    match s.networkThread with
    | .acknowledgment task p => checkAcknowledgmentLocks s task p
    | .waiting => []
  | .recvRadius datagram => recvRadiusLocks (datagram.take maxDataLen)
  | _ => []

/-- The lock operations of a step of a worker. -/
def workerLocks (digests : Digests) (s : Controller) : Event → List (LockOp Mutex)
  | .lookup i _ => (s.workers[i]?).elim [] lookupLocks
  | .handle i call => (s.workers[i]?).elim [] (handleLocks digests s call)
  | _ => []

/-- The controller with what the executions under way hold, by worker and in the
network thread, and what those that returned still held. There is nothing where
the operations themselves went wrong. -/
structure Locking where
  controller : Controller
  workers : List (Option (List Mutex))
  network : Option (List Mutex)
  returned : List (Option (List Mutex))

/-- The step of worker `i` to `t`: its execution goes on or returns. -/
def Locking.worked (here : Locking) (t : Controller) (i : Nat) (ops : List (LockOp Mutex)) :
    Locking :=
  let held := (here.workers.getD i none).bind (performs ops)
  if t.workers.length < here.controller.workers.length then
    { here with
      controller := t, workers := here.workers.eraseIdx i, returned := here.returned ++ [held] }
  else { here with controller := t, workers := here.workers.set i held }

/-- The step of the network thread to `t`: it is through with the datagram or stands
before the mutex of a session. -/
def Locking.received (here : Locking) (t : Controller) (ops : List (LockOp Mutex)) : Locking :=
  let held := here.network.bind (performs ops)
  match t.networkThread with
  | .waiting =>
    { here with controller := t, network := some [], returned := here.returned ++ [held] }
  | .acknowledgment _ _ => { here with controller := t, network := held }

/-- A step of the controller with its lock operations. No execution returns from a
step that ends the process. -/
def lockedStep (digests : Digests) (here : Locking) (e : Event) : Option Locking :=
  (step digests here.controller e).map fun t =>
    if t.halted.isSome then { here with controller := t }
    else
      match e with
      | .getTask => { here with controller := t, workers := here.workers ++ [some []] }
      | .lookup i _ => here.worked t i (workerLocks digests here.controller e)
      | .handle i _ => here.worked t i (workerLocks digests here.controller e)
      | .wake _ => { here with controller := t }
      | .alarmStep => { here with controller := t }
      | _ => here.received t (networkLocks here.controller e)

def initialLocking : Locking := ⟨initialController, [], some [], []⟩

/-- `process_receive_radius_msg` gets as far as `sendto` for the next POST of its
session, and `sendto` fails. -/
def postLost (digests : Digests) (s : Controller) (msg : RadiusMsg) (p : Ptr) (call : Call) :
    Bool :=
  match radiusClientReceive digests s msg call with
  | .error _ => false
  | .ok u =>
    let session := u.heap p
    let eap := session.eapCtx.eap
    !eap.eapFail && (eap.eapReq || eap.eapSuccess) && eap.eapReqData.isSome &&
      session.eapWorkarround ≠ 0 && session.location.isSome &&
        (!eap.eapKeyAvailable || eap.eapKeyData.isSome) && !call.sent

def losesPost (digests : Digests) (s : Controller) : Event → Bool
  | .handle i call =>
    match s.workers[i]? with
    | some (.receiveRadiusMsg msg p) => postLost digests s msg p call
    | _ => false
  | _ => false

variable {s t : Controller} {p : Ptr} {i : Nat} {call : Call} {e : Event} {digests : Digests}
variable {msg : RadiusMsg}

/-- A stretch that leaves what is held as it was and no session's mutex in it. -/
structure Neutral (ops : List (LockOp Mutex)) : Prop where
  restores : Restores ops
  shared : ∀ m ∈ ops.map LockOp.mutex, ∀ p, m ≠ .session p

variable {ops first second : List (LockOp Mutex)}

theorem neutral_nil : Neutral [] := ⟨restores_nil, by simp⟩

theorem Neutral.append (hfirst : Neutral first) (hsecond : Neutral second) :
    Neutral (first ++ second) := by
  refine ⟨hfirst.restores.append hsecond.restores, ?_⟩
  intro m hm
  rw [List.map_append] at hm
  rcases List.mem_append.mp hm with hleft | hright
  · exact hfirst.shared m hleft
  · exact hsecond.shared m hright

theorem Neutral.inside (h : Neutral ops) {m : Mutex} (hother : m ∉ ops.map LockOp.mutex)
    (hshared : ∀ p, m ≠ .session p) : Neutral (.lock m :: ops ++ [.unlock m]) := by
  refine ⟨h.restores.inside hother, ?_⟩
  intro m' hm'
  simp only [List.cons_append, List.map_cons, List.map_append, List.map_nil, List.mem_cons,
    List.mem_append, LockOp.mutex, List.not_mem_nil, or_false] at hm'
  rcases hm' with rfl | hinside | rfl
  · exact hshared
  · exact h.shared m' hinside
  · exact hshared

theorem neutral_pair {m : Mutex} (hshared : ∀ p, m ≠ .session p) :
    Neutral [.lock m, .unlock m] :=
  neutral_nil.inside (by simp) hshared

theorem neutral_getCoapEapSession : Neutral getCoapEapSessionLocks :=
  neutral_pair (by simp)

theorem neutral_addCoapEapSession : Neutral addCoapEapSessionLocks :=
  neutral_pair (by simp)

theorem neutral_removeCoapEapSession (s : Controller) (id : UInt32) :
    Neutral (removeCoapEapSessionLocks s id) := by
  have hboth : removeCoapEapSessionLocks s id = [.lock .listSessions, .unlock .listSessions] := by
    simp [removeCoapEapSessionLocks]
  rw [hboth]
  exact neutral_pair (by simp)

theorem neutral_addTask : Neutral addTaskLocks :=
  neutral_pair (by simp)

theorem neutral_getAlarmCoapEapSession (s : Controller) (id : UInt32) :
    Neutral (getAlarmCoapEapSessionLocks s id) := by
  have hboth : getAlarmCoapEapSessionLocks s id = [.lock .alarms, .unlock .alarms] := by
    simp [getAlarmCoapEapSessionLocks]
  rw [hboth]
  exact neutral_pair (by simp)

theorem neutral_addAlarmCoapEap : Neutral addAlarmCoapEapLocks :=
  neutral_pair (by simp)

theorem neutral_searchEapCtxRadClient : Neutral searchEapCtxRadClientLocks :=
  neutral_pair (by simp)

theorem neutral_eapAuthInit : Neutral eapAuthInitLocks :=
  neutral_pair (by simp)

theorem neutral_eapAuthStep : Neutral eapAuthStepLocks :=
  neutral_pair (by simp)

/-- Each of the three ways out of `eap_auth_receive_radius` gives `radmutex` back. -/
theorem neutral_eapAuthReceiveRadius (digests : Digests) (msg : RadiusMsg) (req : AccessRequest) :
    Neutral (eapAuthReceiveRadiusLocks digests msg req) := by
  have hways : eapAuthReceiveRadiusLocks digests msg req =
      .lock .radmutex :: searchEapCtxRadClientLocks ++ [.unlock .radmutex] := by
    simp [eapAuthReceiveRadiusLocks]
  rw [hways]
  exact neutral_searchEapCtxRadClient.inside
    (by simp [searchEapCtxRadClientLocks, LockOp.mutex]) (by simp)

theorem neutral_radiusClientReceive (digests : Digests) (s : Controller) (msg : RadiusMsg) :
    Neutral (radiusClientReceiveLocks digests s msg) := by
  unfold radiusClientReceiveLocks
  cases matching s.radius msg.identifier with
  | none => exact neutral_pair (by simp)
  | some entry =>
    have hinside := (neutral_eapAuthReceiveRadius digests msg entry.msg).inside (m := .mutexRadius)
      (by simp [eapAuthReceiveRadiusLocks, searchEapCtxRadClientLocks, LockOp.mutex]) (by simp)
    simpa using hinside

/-- A handler that holds the mutex of its session on its whole way. -/
theorem Neutral.handler (h : Neutral ops) (p : Ptr) :
    performs (.lock (.session p) :: ops ++ [.unlock (.session p)]) [] = some [] := by
  apply h.restores.inside
  · exact fun hmem => h.shared _ hmem p rfl
  · simp

/-- A handler that leaves with the mutex of its session. -/
theorem Neutral.leaves (h : Neutral ops) (p : Ptr) :
    performs (.lock (.session p) :: ops) [] = some [.session p] := by
  apply h.restores.locked
  · exact fun hmem => h.shared _ hmem p rfl
  · simp
  · simp

theorem processCoapMsg_performs (s : Controller) (p : Ptr) :
    performs (processCoapMsgLocks s p) [] = some [] := by
  apply Neutral.handler
  exact (neutral_eapAuthStep.append (neutral_getAlarmCoapEapSession ..)).append
    neutral_addAlarmCoapEap

theorem processAcknowledgment_performs (s : Controller) (p : Ptr) :
    performs (processAcknowledgmentLocks s p) [] = some [] := by
  apply Neutral.handler
  split
  · exact neutral_eapAuthStep
  · have hcancels := (neutral_getAlarmCoapEapSession s (s.sessionId p)).append
      (neutral_getAlarmCoapEapSession (cancelPostAlarm s (s.sessionId p)) (s.sessionId p))
    exact (hcancels.append (neutral_removeCoapEapSession ..)).append
      (neutral_removeCoapEapSession ..)
  · exact neutral_nil

theorem identityHandOver_performs (p : Ptr) :
    performs (identityHandOverLocks p) [.session p] = some [] := by
  apply neutral_eapAuthStep.restores.unlocked
  · exact fun hmem => neutral_eapAuthStep.shared _ hmem p rfl
  · simp

theorem processRetrCoapEap_performs (s : Controller) (kind : Nat) (p : Ptr) :
    performs (processRetrCoapEapLocks s kind p) [] = some [] := by
  apply Neutral.handler
  split
  · apply (neutral_getAlarmCoapEapSession ..).append
    split
    · split
      · exact (neutral_getAlarmCoapEapSession ..).append neutral_addAlarmCoapEap
      · exact neutral_nil
    · exact (neutral_removeCoapEapSession ..).append (neutral_removeCoapEapSession ..)
  · exact neutral_nil

/-- The handler of a RADIUS answer leaves with the mutex of its session when it gives
way in the identity workaround, and when its POST is lost. -/
theorem processReceiveRadiusMsg_performs {identity : Bool}
    (h : processReceiveRadiusMsg digests s msg p call = .ok (t, identity)) :
    performs (processReceiveRadiusMsgLocks digests s msg p call) [] =
        some (if identity || postLost digests s msg p call then [.session p] else []) ∧
      (identity && postLost digests s msg p call) = false := by
  have hreceives := neutral_radiusClientReceive digests s msg
  obtain ⟨u, hu, hfail, hcase⟩ := processReceiveRadiusMsg_ok h
  simp only [processReceiveRadiusMsgLocks, postLost, hu]
  by_cases hnext : (u.heap p).eapCtx.eap.eapReq = true ∨ (u.heap p).eapCtx.eap.eapSuccess = true
  · rw [if_pos hnext]
    rcases hcase with ⟨hreq, hsuccess, -⟩ | ⟨packet, hpacket, ⟨hfirst, -, rfl⟩ |
      ⟨hlater, hsend, rfl⟩⟩
    · simp [hreq, hsuccess] at hnext
    · rw [if_pos hfirst]
      refine ⟨?_, by simp [hfirst]⟩
      simpa using (hreceives.append (neutral_getAlarmCoapEapSession ..)).leaves p
    · rw [if_neg hlater]
      refine ⟨?_, rfl⟩
      have hdue : ((u.heap p).eapCtx.eap.eapReq || (u.heap p).eapCtx.eap.eapSuccess) = true := by
        simpa using hnext
      obtain ⟨⟨hlocation, hkey⟩, ⟨hsent, -⟩ | ⟨hsent, -⟩⟩ := sendRadiusPost_ok hsend
      · rw [if_pos hsent]
        have hall := (hreceives.append
          (neutral_getAlarmCoapEapSession u (u.heap p).sessionId)).append neutral_addAlarmCoapEap
        simpa [hsent] using hall.handler p
      · have hheld : ((!(u.heap p).eapCtx.eap.eapKeyAvailable) ||
            (u.heap p).eapCtx.eap.eapKeyData.isSome) = true := by
          cases havailable : (u.heap p).eapCtx.eap.eapKeyAvailable with
          | false => rfl
          | true => simpa [Option.isSome_iff_ne_none] using hkey havailable
        have hplaced : (u.heap p).location.isSome = true := Option.isSome_iff_ne_none.mpr hlocation
        simpa [hsent, hfail, hdue, hpacket, hlater, hheld, hplaced] using hreceives.leaves p
  · have hidle : hasNext digests s msg p call = false := by
      simpa [hasNext, hu] using hnext
    obtain ⟨-, rfl⟩ := processReceiveRadiusMsg_idle_ok hidle h
    have hdue : ((u.heap p).eapCtx.eap.eapReq || (u.heap p).eapCtx.eap.eapSuccess) = false := by
      simpa using hnext
    rw [if_neg hnext]
    refine ⟨?_, rfl⟩
    simpa [hdue] using hreceives.handler p

/-- A post that was lost did not end the process. -/
theorem postLost_of_error {reason : Halt}
    (h : processReceiveRadiusMsg digests s msg p call = .error reason) :
    postLost digests s msg p call = false := by
  by_contra hlost
  rw [Bool.not_eq_false] at hlost
  unfold postLost at hlost
  cases hu : radiusClientReceive digests s msg call with
  | error reason => simp [hu] at hlost
  | ok u =>
    simp only [hu, Bool.and_eq_true, Bool.or_eq_true, Bool.not_eq_true', decide_eq_true_eq,
      Option.isSome_iff_ne_none, ne_eq] at hlost
    obtain ⟨⟨⟨⟨⟨⟨hfail, hdue⟩, hpacket⟩, hlater⟩, hplaced⟩, hheld⟩, hsent⟩ := hlost
    obtain ⟨packet, hpacket⟩ := Option.ne_none_iff_exists'.mp hpacket
    have hkey : ¬ ((u.heap p).eapCtx.eap.eapKeyAvailable = true ∧
        (u.heap p).eapCtx.eap.eapKeyData = none) := by
      rintro ⟨havailable, hnone⟩
      simp [havailable, hnone] at hheld
    simp [processReceiveRadiusMsg, hu, bind, Except.bind, hfail, hdue, hpacket, hlater,
      sendRadiusPost, hplaced, hkey, hsent] at h

/-- The mutexes that a worker holds between two steps. -/
def Worker.holds : Worker → List Mutex
  | .radiusIdentity p => [.session p]
  | _ => []

/-- The step of a worker: its execution returns, with nothing held exactly when no
POST was lost, or it goes on with what its next place holds. -/
inductive Works (digests : Digests) (s t : Controller) (e : Event) (i : Nat) : Prop
  | returns (worker : Worker) (held : List Mutex) (working : s.workers[i]? = some worker)
      (workers : t.workers = s.workers.eraseIdx i)
      (holds : performs (workerLocks digests s e) worker.holds = some held)
      (released : held = [] ↔ losesPost digests s e = false)
  | goesOn (worker worker' : Worker) (working : s.workers[i]? = some worker)
      (workers : t.workers = s.workers.set i worker')
      (holds : performs (workerLocks digests s e) worker.holds = some worker'.holds)
      (kept : losesPost digests s e = false)

theorem works_lookup {stack : Bytes} (h : step digests s (.lookup i stack) = some t)
    (hrunning : t.halted = none) : Works digests s t (.lookup i stack) i := by
  have hbefore := (step_move h).1
  simp only [step, hbefore, Option.isSome_none, Bool.false_eq_true, if_false,
    Option.bind_eq_some_iff, Option.map_eq_some_iff] at h
  obtain ⟨worker, hworker, result, hresult, hconclude⟩ := h
  rcases conclude_cases hconclude with rfl | ⟨reason, rfl⟩
  · have hnone : performs (workerLocks digests s (.lookup i stack)) [] = some [] := by
      have hneutral : Neutral (lookupLocks worker) := by
        unfold lookupLocks
        split
        · exact neutral_getCoapEapSession
        · exact neutral_getCoapEapSession
        · exact neutral_searchEapCtxRadClient
        · exact neutral_nil
      simp only [workerLocks, hworker, Option.elim_some]
      exact hneutral.restores [] (by simp)
    cases worker with
    | took task =>
      cases task with
      | processCoapMsg task =>
        simp only [lookupStep, Option.some.injEq] at hresult
        split at hresult
        · simp at hresult
        · obtain ⟨p, -, rfl⟩ := except_map_ok hresult
          exact .goesOn _ (.coapMsg task p) hworker rfl hnone rfl
      | processAcknowledgment task post =>
        simp only [lookupStep, Option.some.injEq] at hresult
        split at hresult
        · simp at hresult
        · obtain ⟨p, -, rfl⟩ := except_map_ok hresult
          exact .goesOn _ (.acknowledgment task post p) hworker rfl hnone rfl
      | processReceiveRadiusMsg msg =>
        simp only [lookupStep, Option.some.injEq, Except.ok.injEq] at hresult
        split at hresult
        · subst hresult
          exact .returns _ [] hworker rfl hnone (by simp [losesPost])
        · rename_i p hfound
          subst hresult
          exact .goesOn _ (.receiveRadiusMsg msg p) hworker rfl hnone rfl
      | processRetrCoapEap origin =>
        simp only [lookupStep, Option.some.injEq, Except.ok.injEq] at hresult
        subst hresult
        exact .goesOn _ (.retrId origin s.retransParams.id) hworker rfl hnone rfl
    | retrId origin id =>
      simp only [lookupStep, Option.some.injEq, Except.ok.injEq] at hresult
      subst hresult
      exact .goesOn _ (.retrCoapEap origin id s.retransParams.session) hworker rfl hnone rfl
    | coapMsg task p => simp [lookupStep] at hresult
    | acknowledgment task post p => simp [lookupStep] at hresult
    | receiveRadiusMsg msg p => simp [lookupStep] at hresult
    | radiusIdentity p => simp [lookupStep] at hresult
    | retrCoapEap origin id p => simp [lookupStep] at hresult
  · simp at hrunning

theorem works_handle (h : step digests s (.handle i call) = some t) (hrunning : t.halted = none) :
    Works digests s t (.handle i call) i := by
  have hbefore := (step_move h).1
  simp only [step, hbefore, Option.isSome_none, Bool.false_eq_true, if_false,
    Option.bind_eq_some_iff, Option.map_eq_some_iff] at h
  obtain ⟨worker, hworker, result, hresult, hconclude⟩ := h
  rcases conclude_cases hconclude with rfl | ⟨reason, rfl⟩
  · have hlocks : workerLocks digests s (.handle i call) = handleLocks digests s call worker := by
      simp [workerLocks, hworker]
    cases worker with
    | took task => simp [handleStep] at hresult
    | retrId origin id => simp [handleStep] at hresult
    | coapMsg task p =>
      simp only [handleStep, Option.ite_none_left_eq_some, Option.some.injEq] at hresult
      obtain ⟨u, hu, rfl⟩ := except_map_ok hresult.2
      have hworkers : (endWorker u i).workers = s.workers.eraseIdx i :=
        congrArg (List.eraseIdx · i) (touches_processCoapMsg hu).workers
      exact .returns _ [] hworker hworkers (hlocks ▸ processCoapMsg_performs s p)
        (by simp [losesPost, hworker])
    | acknowledgment task post p =>
      simp only [handleStep, Option.ite_none_left_eq_some, Option.some.injEq] at hresult
      obtain ⟨u, hu, rfl⟩ := except_map_ok hresult.2
      have hworkers : (endWorker u i).workers = s.workers.eraseIdx i :=
        congrArg (List.eraseIdx · i) (touches_processAcknowledgment hu).workers
      exact .returns _ [] hworker hworkers (hlocks ▸ processAcknowledgment_performs s p)
        (by simp [losesPost, hworker])
    | receiveRadiusMsg msg p =>
      simp only [handleStep, Option.ite_none_left_eq_some, Option.some.injEq] at hresult
      obtain ⟨⟨u, identity⟩, hu, rfl⟩ := except_map_ok hresult.2
      have hworkers := (touches_processReceiveRadiusMsg hu).workers
      obtain ⟨hperforms, hkept⟩ := processReceiveRadiusMsg_performs hu
      have hloses : losesPost digests s (.handle i call) = postLost digests s msg p call := by
        simp [losesPost, hworker]
      rw [← hloses] at hperforms hkept
      rw [show processReceiveRadiusMsgLocks digests s msg p call =
        workerLocks digests s (.handle i call) from hlocks.symm] at hperforms
      cases identity with
      | true =>
        rw [Bool.true_and] at hkept
        rw [Bool.true_or, if_pos rfl] at hperforms
        exact .goesOn _ (.radiusIdentity p) hworker (congrArg (List.set · i _) hworkers) hperforms
          hkept
      | false =>
        rw [Bool.false_or] at hperforms
        refine .returns _ _ hworker (congrArg (List.eraseIdx · i) hworkers) hperforms ?_
        cases losesPost digests s (.handle i call) <;> simp
    | radiusIdentity p =>
      simp only [handleStep, Option.some.injEq] at hresult
      obtain ⟨u, hu, rfl⟩ := except_map_ok hresult
      have hworkers : (endWorker u i).workers = s.workers.eraseIdx i :=
        congrArg (List.eraseIdx · i) (touches_identityHandOver hu).workers
      exact .returns _ [] hworker hworkers (hlocks ▸ identityHandOver_performs p)
        (by simp [losesPost, hworker])
    | retrCoapEap origin id p =>
      simp only [handleStep, Option.ite_none_left_eq_some, Option.some.injEq] at hresult
      obtain ⟨u, hu, rfl⟩ := except_map_ok hresult.2
      have hworkers : (endWorker u i).workers = s.workers.eraseIdx i :=
        congrArg (List.eraseIdx · i) (touches_processRetrCoapEap hu).workers
      exact .returns _ [] hworker hworkers (hlocks ▸ processRetrCoapEap_performs s id p)
        (by simp [losesPost, hworker])
  · simp at hrunning

/-- A step that ends the process lost no POST. -/
theorem losesPost_of_halted (h : step digests s e = some t) (hhalted : t.halted ≠ none) :
    losesPost digests s e = false := by
  cases e with
  | handle i call =>
    have hbefore := (step_move h).1
    simp only [step, hbefore, Option.isSome_none, Bool.false_eq_true, if_false,
      Option.bind_eq_some_iff, Option.map_eq_some_iff] at h
    obtain ⟨worker, hworker, result, hresult, hconclude⟩ := h
    simp only [losesPost, hworker]
    cases worker with
    | receiveRadiusMsg msg p =>
      simp only [handleStep, Option.ite_none_left_eq_some, Option.some.injEq] at hresult
      cases hran : processReceiveRadiusMsg digests s msg p call with
      | error reason => exact postLost_of_error hran
      | ok result' =>
        obtain ⟨u, identity⟩ := result'
        have hgoes : u.halted = none := (touches_processReceiveRadiusMsg hran).halted.trans hbefore
        rw [hran] at hresult
        cases identity <;> simp [← hresult.2, ← hconclude, Except.map, conclude, hgoes, setWorker,
          endWorker] at hhalted
    | _ => rfl
  | _ => rfl

/-- The network thread gives back what it takes on every way through its body. -/
theorem networkLocks_performs (s : Controller) (e : Event) :
    performs (networkLocks s e) [] = some [] := by
  have hrestores : Restores (networkLocks s e) := by
    cases e with
    | recvCoap datagram source arrival =>
      simp only [networkLocks, recvCoapLocks]
      split
      · exact restores_nil
      · split
        · have hadds := neutral_addCoapEapSession
          have hnew := hadds.restores.inside (m := .session s.nextPtr)
            fun hmem => hadds.shared _ hmem _ rfl
          exact (neutral_eapAuthInit.restores.append hnew).append neutral_addTask.restores
        · exact neutral_getCoapEapSession.restores
    | lockAcknowledgment =>
      simp only [networkLocks]
      cases s.networkThread with
      | waiting => exact restores_nil
      | acknowledgment task p =>
        simp only [checkAcknowledgmentLocks]
        split
        · exact restores_nil.inside (by simp)
        · split
          · exact restores_nil.inside (by simp)
          · exact neutral_addTask.restores.inside fun hmem => neutral_addTask.shared _ hmem p rfl
    | recvRadius datagram =>
      simp only [networkLocks, recvRadiusLocks]
      split
      · exact restores_nil
      · exact neutral_addTask.restores
    | _ => exact restores_nil
  exact hrestores [] (by simp)

/-- What is held between two steps is what the places of the threads say. -/
structure Tracked (here : Locking) : Prop where
  workers : here.workers = here.controller.workers.map fun worker => some worker.holds
  network : here.network = some []

/-- The executions that return in a step hold nothing exactly when it loses no
POST. -/
def Returns (digests : Digests) (e : Event) (here after : Locking) : Prop :=
  ∃ new, after.returned = here.returned ++ new ∧
    ((∀ held ∈ new, held = some []) ↔ losesPost digests here.controller e = false)

variable {here after : Locking}

theorem Tracked.worked (hs : Tracked here) (h : Works digests here.controller t e i) :
    Tracked (here.worked t i (workerLocks digests here.controller e)) ∧
      Returns digests e here (here.worked t i (workerLocks digests here.controller e)) := by
  have hholds : ∀ {worker : Worker}, here.controller.workers[i]? = some worker →
      here.workers.getD i none = some worker.holds := by
    intro worker hworker
    rw [List.getD_eq_getElem?_getD, hs.workers, List.getElem?_map, hworker]
    rfl
  cases h with
  | returns worker held hworker hworkers hperforms hreleased =>
    have hlength : t.workers.length < here.controller.workers.length := by
      obtain ⟨hi, -⟩ := List.getElem?_eq_some_iff.mp hworker
      rw [hworkers, List.length_eraseIdx_of_lt hi]
      omega
    simp only [Locking.worked, if_pos hlength, hholds hworker, Option.bind_some, hperforms]
    refine ⟨⟨?_, hs.network⟩, [some held], rfl, ?_⟩
    · simp only [hworkers, hs.workers, List.eraseIdx_map]
    · simpa using hreleased
  | goesOn worker worker' hworker hworkers hperforms hkept =>
    have hlength : ¬ t.workers.length < here.controller.workers.length := by
      rw [hworkers, List.length_set]
      exact Nat.lt_irrefl _
    simp only [Locking.worked, if_neg hlength, hholds hworker, Option.bind_some, hperforms]
    refine ⟨⟨?_, hs.network⟩, [], by simp, ?_⟩
    · simp only [hworkers, hs.workers, List.map_set]
    · simp [hkept]

theorem Tracked.received (hs : Tracked here) (hworkers : t.workers = here.controller.workers)
    (hkept : losesPost digests here.controller e = false) :
    Tracked (here.received t (networkLocks here.controller e)) ∧
      Returns digests e here (here.received t (networkLocks here.controller e)) := by
  have hheld : here.network.bind (performs (networkLocks here.controller e)) = some [] := by
    rw [hs.network]
    exact networkLocks_performs here.controller e
  simp only [Locking.received, hheld]
  cases t.networkThread with
  | waiting => exact ⟨⟨by simp only [hworkers, hs.workers], rfl⟩, [some []], rfl, by simp [hkept]⟩
  | acknowledgment task p =>
    exact ⟨⟨by simp only [hworkers, hs.workers], rfl⟩, [], by simp, by simp [hkept]⟩

/-- The process ends without a worker that moves on. -/
theorem workers_of_halted (h : step digests s e = some t) (hhalted : t.halted ≠ none) :
    t.workers = s.workers := by
  obtain ⟨hrunning, hmove⟩ := step_move h
  cases hmove with
  | ended | ignored => rfl
  | handledCoap | handledAcknowledgment | handledRadius | wroteIdentity | handedIdentity
  | handledRetr =>
    rcases handle_move_kind (step_move h).2 with heq | ⟨reason, heq⟩ | ⟨w, p, u, new, hhandler⟩
    · rw [heq]
    · rw [heq]
    · have hgoes := hhandler.touches.halted.trans hrunning
      rcases hhandler.after with heq | ⟨heq, -⟩
      · exact absurd (heq ▸ hgoes) hhalted
      · exact absurd (heq ▸ hgoes) hhalted
  | _ => exact absurd hrunning hhalted

/-- The network thread and the alarm thread leave the workers alone. -/
theorem workers_of_network (h : step digests s e = some t) (htask : e ≠ .getTask)
    (hlookup : ∀ i stack, e ≠ .lookup i stack) (hhandle : ∀ i call, e ≠ .handle i call) :
    t.workers = s.workers := by
  obtain ⟨-, hmove⟩ := step_move h
  cases hmove with
  | taken => exact absurd rfl htask
  | foundCoap i stack | foundAcknowledgment i stack | foundContext i stack | noContext i stack
  | readId i stack | readSession i stack => exact absurd rfl (hlookup i stack)
  | handledCoap i call | handledAcknowledgment i call | handledRadius i call
  | wroteIdentity i call | handedIdentity i call | handledRetr i call =>
    exact absurd rfl (hhandle i call)
  | _ => rfl

theorem getTask_workers (h : step digests s .getTask = some t) :
    ∃ task, t.workers = s.workers ++ [.took task] := by
  have hrunning := (step_move h).1
  simp only [step, hrunning, Option.isSome_none, Bool.false_eq_true, if_false] at h
  cases hqueue : s.tasks with
  | nil => simp [hqueue] at h
  | cons task rest =>
    simp only [hqueue, Option.some.injEq] at h
    exact ⟨task, by rw [← h]⟩

theorem Tracked.step (hs : Tracked here) (h : lockedStep digests here e = some after) :
    Tracked after ∧ Returns digests e here after := by
  obtain ⟨t, ht, rfl⟩ := Option.map_eq_some_iff.mp h
  split
  · rename_i hhalted
    rw [Option.isSome_iff_ne_none] at hhalted
    have hkept := losesPost_of_halted ht hhalted
    exact ⟨⟨by simp only [hs.workers, workers_of_halted ht hhalted], hs.network⟩, [], by simp,
      by simp [hkept]⟩
  · rename_i hrunning
    have hgoes : t.halted = none := by simpa using hrunning
    cases e with
    | getTask =>
      obtain ⟨task, hworkers⟩ := getTask_workers ht
      refine ⟨⟨?_, hs.network⟩, [], by simp, by simp [losesPost]⟩
      simp [hworkers, hs.workers, Worker.holds]
    | lookup i stack => exact hs.worked (works_lookup ht hgoes)
    | handle i call => exact hs.worked (works_handle ht hgoes)
    | wake time =>
      have hworkers := workers_of_network ht (by simp) (by simp) (by simp)
      exact ⟨⟨by simp only [hworkers, hs.workers], hs.network⟩, [], by simp, by simp [losesPost]⟩
    | alarmStep =>
      have hworkers := workers_of_network ht (by simp) (by simp) (by simp)
      exact ⟨⟨by simp only [hworkers, hs.workers], hs.network⟩, [], by simp, by simp [losesPost]⟩
    | recvCoap datagram source arrival =>
      exact hs.received (workers_of_network ht (by simp) (by simp) (by simp)) rfl
    | lockAcknowledgment =>
      exact hs.received (workers_of_network ht (by simp) (by simp) (by simp)) rfl
    | recvRadius datagram =>
      exact hs.received (workers_of_network ht (by simp) (by simp) (by simp)) rfl

/-- The executions that returned in a run hold nothing exactly when those that had
returned before it do and no step of the run loses a POST. -/
theorem Tracked.run (hs : Tracked here) {es : List Event}
    (h : Library.Runs.run (lockedStep digests) here es = some after) :
    (∀ held ∈ after.returned, held = some []) ↔
      (∀ held ∈ here.returned, held = some []) ∧
        ∀ move ∈ transitions (lockedStep digests) here es,
          losesPost digests move.1.controller move.2.1 = false := by
  induction es generalizing here with
  | nil =>
    simp only [run_nil, Option.some.injEq] at h
    simp [transitions, h]
  | cons e es ih =>
    simp only [run_cons, Option.bind_eq_some_iff] at h
    obtain ⟨next, hnext, hrest⟩ := h
    obtain ⟨htracked, new, hreturned, hnew⟩ := hs.step hnext
    rw [ih htracked hrest, hreturned, List.forall_mem_append, hnew]
    simp only [transitions, hnext, List.forall_mem_cons]
    exact and_assoc

theorem tracked_initial : Tracked initialLocking := ⟨rfl, rfl⟩

/-- In a run of the controller every execution that returns has given back what it
took exactly when no POST of `process_receive_radius_msg` is lost in `sendto`. -/
theorem executions_release_iff {es : List Event}
    (h : Library.Runs.run (lockedStep digests) initialLocking es = some after) :
    (∀ held ∈ after.returned, held = some []) ↔
      ∀ move ∈ transitions (lockedStep digests) initialLocking es,
        losesPost digests move.1.controller move.2.1 = false := by
  rw [tracked_initial.run h]
  simp [initialLocking]

/-- Following the locks stops no run of the controller. -/
theorem run_lockedStep (digests : Digests) (here : Locking) (es : List Event) :
    (Library.Runs.run (lockedStep digests) here es).map Locking.controller =
      Library.Runs.run (step digests) here.controller es := by
  induction es generalizing here with
  | nil => rfl
  | cons e es ih =>
    simp only [run_cons]
    cases hstep : step digests here.controller e with
    | none => simp [lockedStep, hstep]
    | some t =>
      have hsame : ∃ next, lockedStep digests here e = some next ∧ next.controller = t := by
        refine ⟨_, by rw [lockedStep, hstep, Option.map_some], ?_⟩
        split
        · rfl
        · cases e with
          | lookup | handle =>
            simp only [Locking.worked]
            split <;> rfl
          | recvCoap | lockAcknowledgment | recvRadius =>
            simp only [Locking.received]
            split <;> rfl
          | _ => rfl
      obtain ⟨next, hnext, rfl⟩ := hsame
      simp only [hnext, Option.bind_some]
      exact ih next

/-- A session whose POSTs all leave: its handlers, and the network thread's work on
each datagram, return with nothing held. -/
theorem challenged_session_releases : ∃ after,
    Library.Runs.run (lockedStep challengeDigests) initialLocking (challengedTwice true) =
        some after ∧
      after.returned.length = 8 ∧ ∀ held ∈ after.returned, held = some [] := by
  have hrun : (Library.Runs.run (lockedStep challengeDigests) initialLocking
      (challengedTwice true)).any (fun after => after.returned.length = 8) = true := by
    decide +kernel
  obtain ⟨after, hafter, hcheck⟩ := exists_of_run hrun
  have hkept : ∀ move ∈ transitions (lockedStep challengeDigests) initialLocking
      (challengedTwice true), losesPost challengeDigests move.1.controller move.2.1 = false := by
    decide +kernel
  exact ⟨after, hafter, by simpa using hcheck, (executions_release_iff hafter).mpr hkept⟩

/-- When `sendto` fails for the second POST, its handler returns with the mutex of the
session. -/
theorem failed_send_keeps_mutex :
    ¬ ∀ digests es after, Library.Runs.run (lockedStep digests) initialLocking es = some after →
      ∀ held ∈ after.returned, held = some [] := by
  intro hstated
  have hrun : (Library.Runs.run (lockedStep challengeDigests) initialLocking
      (challengedTwice false)).any
        (fun after => after.returned.contains (some [.session 0])) = true := by
    decide +kernel
  obtain ⟨after, hafter, hcheck⟩ := exists_of_run hrun
  have hheld := hstated challengeDigests (challengedTwice false) after hafter (some [.session 0])
    (by simpa using hcheck)
  simp at hheld

end CoapEap.Mainserver
