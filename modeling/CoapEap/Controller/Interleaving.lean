import CoapEap.Controller.References
import CoapEap.Controller.StaleExpiry
import Mathlib.Logic.Function.Basic

/-!
The alarm list has a mutex of its own, which a handler takes anew for each of its
calls. Here these calls are moves of their own: between a cancellation and the
alarm armed after it, the alarm thread may pop alarms and the handlers of other
sessions may change the list. The rest of a handler stays one move, ahead of its
calls on the alarm list, and the mutex of its session keeps every other handler
of that session out until the last of these calls returned.
-/

namespace CoapEap.Mainserver

open Cantcoap EapServer Lalarm Radius Library.Runs

/-- A call on the alarm list, with its arguments. -/
inductive AlarmCall
  | getAlarmCoapEapSession (id : UInt32)
  | addAlarmCoapEap (alarm : Alarm)
  deriving DecidableEq, Repr

def AlarmCall.run (sessionId : Ptr → UInt32) (alarms : List Alarm) : AlarmCall → List Alarm
  | .getAlarmCoapEapSession id => Lalarm.getAlarmCoapEapSession sessionId alarms id postAlarm
  | .addAlarmCoapEap alarm => Lalarm.addAlarmCoapEap alarms alarm

/-- The call that arms an alarm for the POST outstanding in a session. -/
def armCall (s : Controller) (p : Ptr) (now : Rat) : AlarmCall :=
  .addAlarmCoapEap
    { session := p, tmp := now + (s.heap p).rt, id := postAlarm, post := (s.heap p).posts }

/-- The calls on the alarm list that a handler makes on its way from `s` to `t`,
in order. -/
def alarmCalls (s t : Controller) (worker : Worker) (call : Call) : List AlarmCall :=
  match worker with
  | .coapMsg _ p => [.getAlarmCoapEapSession (s.sessionId p), armCall t p call.now]
  | .acknowledgment _ _ p =>
    if (s.heap p).currentState = 3 then
      [.getAlarmCoapEapSession (s.sessionId p), .getAlarmCoapEapSession (s.sessionId p)]
    else []
  | .receiveRadiusMsg _ p =>
    if (s.heap p).posts < (t.heap p).posts then
      [.getAlarmCoapEapSession (s.sessionId p), armCall t p call.now]
    else if (s.heap p).eapWorkarround < (t.heap p).eapWorkarround then
      [.getAlarmCoapEapSession (s.sessionId p)]
    else []
  | .retrCoapEap _ id p =>
    if id = postAlarm then
      .getAlarmCoapEapSession (s.sessionId p) ::
        if (t.heap p).rtxCounter < maxRetransmit ∧ (s.heap p).lastSentMessage.isSome then
          [.getAlarmCoapEapSession (s.sessionId p), armCall t p call.now]
        else []
    else []
  | _ => []

/-- The calls of a step. A step that ends the process makes none. -/
def stepAlarmCalls (s t : Controller) : Event → List AlarmCall
  | .handle i call =>
    if t.halted.isSome then []
    else (s.workers[i]?).elim [] fun worker => alarmCalls s t worker call
  | _ => []

/-- The session whose mutex a step needs. -/
def takesMutex (s : Controller) : Event → Option Ptr
  | .handle i _ => (s.workers[i]?).bind Worker.session
  | .lockAcknowledgment => s.networkThread.session
  | _ => none

/-- The controller with the calls that the handler in the mutex of each session
still has to make. -/
structure Interleaved where
  controller : Controller
  left : Ptr → List AlarmCall

inductive Instant
  | move (e : Event)
  | alarmCall (p : Ptr)
  deriving Repr

def interleavedStep (digests : Digests) (here : Interleaved) : Instant → Option Interleaved
  | .move e =>
    let s := here.controller
    match takesMutex s e with
    | none => (step digests s e).map fun t => { here with controller := t }
    | some p =>
      if here.left p ≠ [] then none
      else
        (step digests s e).map fun t =>
          { controller := { t with alarms := s.alarms }
            left := Function.update here.left p (stepAlarmCalls s t e) }
  | .alarmCall p =>
    let s := here.controller
    if s.halted.isSome then none
    else
      match here.left p with
      | [] => none
      | call :: rest =>
        some { controller := { s with alarms := call.run s.sessionId s.alarms }
               left := Function.update here.left p rest }

def initialInterleaved : Interleaved := ⟨initialController, fun _ => []⟩

variable {s t : Controller} {p : Ptr} {i : Nat} {call : Call} {e : Event} {digests : Digests}

/-- The list after some calls. -/
def runCalls (s : Controller) (calls : List AlarmCall) : List Alarm :=
  calls.foldl (AlarmCall.run s.sessionId) s.alarms

theorem runCalls_same {u : Controller} (hids : u.sessionId = s.sessionId)
    (halarms : u.alarms = s.alarms) (calls : List AlarmCall) :
    runCalls u calls = runCalls s calls := by
  rw [runCalls, hids, halarms, runCalls]

theorem armPost_calls {session : Session} {pdu : Bytes} {now : Rat}
    (hid : session.sessionId = s.sessionId p) :
    (armPost s p session pdu now).alarms = runCalls s
      [.getAlarmCoapEapSession (s.sessionId p), armCall (armPost s p session pdu now) p now] := by
  have hids : (s.setSession p (storePost session pdu)).sessionId = s.sessionId :=
    setSession_sessionId hid
  have hcancelled : (cancelPostAlarm (s.setSession p (storePost session pdu))
      session.sessionId).alarms =
        getAlarmCoapEapSession s.sessionId s.alarms (s.sessionId p) postAlarm := by
    rw [cancelPostAlarm, hids, hid]
    rfl
  have harmed : (armPost s p session pdu now).heap p = storePost session pdu := armPost_session
  have hlist : (armPost s p session pdu now).alarms = addAlarmCoapEap
      (cancelPostAlarm (s.setSession p (storePost session pdu)) session.sessionId).alarms
      { session := p, tmp := now + (storePost session pdu).rt, id := postAlarm,
        post := (storePost session pdu).posts } := by
    simp [armPost, addPostAlarm, cancelPostAlarm, storePost]
  rw [hlist, hcancelled, armCall, harmed]
  rfl

theorem processCoapMsg_calls {task : NetworkTask} (h : processCoapMsg s task p call = .ok t) :
    t.alarms = runCalls s (alarmCalls s t (.coapMsg task p) call) := by
  obtain ⟨u, session, packet, htouches, ⟨request, -, hstep⟩, rfl, -, rfl⟩ :=
    processCoapMsg_ok h
  obtain ⟨-, halarms, -, -⟩ := stepSession_session hstep
  have hids : u.sessionId = s.sessionId := funext htouches.sessionId
  let session := { u.heap p with currentState := 2, lastReceivedMessage := some task.buf }
  have harmed : (armPost u p session (firstPost session packet) call.now).alarms = runCalls u
      [.getAlarmCoapEapSession (u.sessionId p),
        armCall (armPost u p session (firstPost session packet) call.now) p call.now] :=
    armPost_calls rfl
  rw [runCalls_same hids halarms, hids] at harmed
  exact harmed

theorem processAcknowledgment_calls {task : NetworkTask} {post : Ptr × Nat}
    (h : processAcknowledgment s task post p call = .ok t) :
    t.alarms = runCalls s (alarmCalls s t (.acknowledgment task post p) call) := by
  obtain ⟨request, u, -, rfl, ⟨hstate, -, hstep⟩ | ⟨hstate, rfl⟩ | ⟨-, hnot, rfl⟩⟩ :=
    processAcknowledgment_ok h
  · have hnone : alarmCalls s t (.acknowledgment task post p) call = [] := by
      simp [alarmCalls, hstate]
    rw [hnone]
    exact (stepSession_session hstep).2.1
  · have hids : (s.setSession p { s.heap p with
        location := some (getLocation task.buf request 30) }).sessionId = s.sessionId :=
      setSession_sessionId (by rfl)
    rw [alarmCalls, if_pos hstate, ← runCalls_same hids rfl]
    rfl
  · simp only [alarmCalls, if_neg hnot]
    rfl

theorem processReceiveRadiusMsg_calls {msg : RadiusMsg} {identity : Bool}
    (h : processReceiveRadiusMsg digests s msg p call = .ok (t, identity)) :
    t.alarms = runCalls s (alarmCalls s t (.receiveRadiusMsg msg p) call) := by
  obtain ⟨u, hu, -, hcase⟩ := processReceiveRadiusMsg_ok h
  obtain ⟨-, halarms, -⟩ := radiusClientReceive_log hu
  have hids : u.sessionId = s.sessionId := funext (touches_radiusClientReceive p hu).sessionId
  have hsession := radiusClientReceive_session hu p
  have hposts : (u.heap p).posts = (s.heap p).posts := by rw [hsession]
  have hcount : (u.heap p).eapWorkarround = (s.heap p).eapWorkarround := by rw [hsession]
  rcases hcase with ⟨-, -, rfl, -⟩ | ⟨packet, -, ⟨-, rfl, -⟩ | ⟨-, hsend, -⟩⟩
  · simp only [alarmCalls, hposts, hcount, Nat.lt_irrefl, if_false]
    exact halarms
  · have hafter : ((identityWorkarround u p packet).heap p).posts = (s.heap p).posts ∧
        ((identityWorkarround u p packet).heap p).eapWorkarround =
          (s.heap p).eapWorkarround + 1 := by
      simp [identityWorkarround, cancelPostAlarm, hposts, hcount]
    have hone : alarmCalls s (identityWorkarround u p packet) (.receiveRadiusMsg msg p) call =
        [.getAlarmCoapEapSession (u.sessionId p)] := by
      simp [alarmCalls, hafter.1, hafter.2, hids]
    rw [hone, ← runCalls_same hids halarms]
    rfl
  · rcases (sendRadiusPost_ok hsend).2 with ⟨-, rfl⟩ | ⟨-, rfl⟩
    · let session := radiusPostSession (u.heap p)
      let v := armPost u p session (radiusPost session packet) call.now
      have harmed : v.alarms = runCalls u
          [.getAlarmCoapEapSession (u.sessionId p), armCall v p call.now] := armPost_calls rfl
      have hgrew : (s.heap p).posts < (v.heap p).posts := by
        have hsent : v.heap p = storePost session (radiusPost session packet) := armPost_session
        rw [hsent, ← hposts]
        exact Nat.lt_succ_self _
      have htwo : alarmCalls s (v.record [.sentPost p (session.posts + 1)])
          (.receiveRadiusMsg msg p) call =
            [.getAlarmCoapEapSession (u.sessionId p), armCall v p call.now] := by
        rw [hids, alarmCalls, Controller.record_heap, if_pos hgrew]
        rfl
      rw [htwo, ← runCalls_same hids halarms]
      exact harmed
    · have hnone : alarmCalls s
          (u.setSession p { radiusPostSession (u.heap p) with mutex := true })
            (.receiveRadiusMsg msg p) call = [] := by
        simp [alarmCalls, radiusPostSession, hposts, hcount]
      rw [hnone]
      exact halarms

theorem processRetrCoapEap_calls (origin : Alarm) {id : Nat}
    (h : processRetrCoapEap s id p call = .ok t) :
    t.alarms = runCalls s (alarmCalls s t (.retrCoapEap origin id p) call) := by
  rcases processRetrCoapEap_ok h with ⟨hid, rfl⟩ | ⟨hid, session, u, rfl, rfl, hcase⟩
  · simp only [alarmCalls, if_neg hid]
    rfl
  · rcases hcase with ⟨-, hnone, rfl⟩ | ⟨hcount, pdu, hsent, -, rfl⟩ | ⟨hcount, rfl⟩
    · have hone : alarmCalls s ((cancelPostAlarm s (s.heap p).sessionId).setSession p
          { s.heap p with rtxCounter := (s.heap p).rtxCounter + 1 }) (.retrCoapEap origin id p)
            call = [.getAlarmCoapEapSession (s.sessionId p)] := by
        simp only at hnone
        simp [alarmCalls, hid, hnone]
      rw [hone]
      rfl
    · let session := { s.heap p with rtxCounter := (s.heap p).rtxCounter + 1 }
      let u := (cancelPostAlarm s (s.heap p).sessionId).setSession p session
      let v := u.setSession p { session with rt := session.rt * 2 }
      let w := addPostAlarm (cancelPostAlarm v (s.heap p).sessionId) p call.now
      have hthree : alarmCalls s (w.record [.retransmitted p session.posts])
          (.retrCoapEap origin id p) call =
            [.getAlarmCoapEapSession (s.sessionId p), .getAlarmCoapEapSession (s.sessionId p),
              armCall w p call.now] := by
        have hafter : w.heap p = { session with rt := session.rt * 2 } := by
          simp [w, v, addPostAlarm, cancelPostAlarm]
        have hagain : (w.heap p).rtxCounter < maxRetransmit ∧
            (s.heap p).lastSentMessage.isSome = true := by
          rw [hafter]
          exact ⟨hcount, by rw [show (s.heap p).lastSentMessage = some pdu from hsent]; rfl⟩
        rw [alarmCalls, if_pos hid, Controller.record_heap, if_pos hagain]
        rfl
      have hcounted : u.sessionId = s.sessionId := setSession_sessionId (by rfl)
      have hdoubled : v.sessionId = u.sessionId := setSession_sessionId (by simp [u, session])
      have hlist : w.alarms = (armCall w p call.now).run v.sessionId
          ((AlarmCall.getAlarmCoapEapSession (s.sessionId p)).run v.sessionId v.alarms) := rfl
      rw [hthree]
      refine hlist.trans ?_
      rw [hdoubled, hcounted]
      rfl
    · have hone : alarmCalls s ((removeCoapEapSession (removeCoapEapSession
          ((cancelPostAlarm s (s.heap p).sessionId).setSession p
            { s.heap p with rtxCounter := (s.heap p).rtxCounter + 1 }) (s.heap p).sessionId)
              (s.heap p).sessionId).record [.timedOut p]) (.retrCoapEap origin id p) call =
          [.getAlarmCoapEapSession (s.sessionId p)] := by
        have hstop : ¬ (s.heap p).rtxCounter + 1 < maxRetransmit := hcount
        simp [alarmCalls, hid, hstop, removeCoapEapSession]
      rw [hone]
      rfl

/-- A worker that runs its handler to the end, or up to the hand-over of the
identity, leaves the alarms as its calls do. -/
theorem handleStep_calls {worker : Worker} {result : Except Halt Controller}
    (hresult : handleStep digests s i worker call = some result) (hok : result = .ok t) :
    t.halted = s.halted ∧ t.alarms = runCalls s (alarmCalls s t worker call) := by
  subst hok
  cases worker with
  | took task => simp [handleStep] at hresult
  | retrId origin id => simp [handleStep] at hresult
  | coapMsg task p =>
    simp only [handleStep, Option.ite_none_left_eq_some, Option.some.injEq] at hresult
    obtain ⟨u, hu, rfl⟩ := except_map_ok hresult.2
    have hcalls := processCoapMsg_calls hu
    exact ⟨(touches_processCoapMsg hu).halted, hcalls⟩
  | acknowledgment task post p =>
    simp only [handleStep, Option.ite_none_left_eq_some, Option.some.injEq] at hresult
    obtain ⟨u, hu, rfl⟩ := except_map_ok hresult.2
    have hcalls := processAcknowledgment_calls hu
    exact ⟨(touches_processAcknowledgment hu).halted, hcalls⟩
  | receiveRadiusMsg msg p =>
    simp only [handleStep, Option.ite_none_left_eq_some, Option.some.injEq] at hresult
    obtain ⟨⟨u, identity⟩, hu, rfl⟩ := except_map_ok hresult.2
    have hran := (touches_processReceiveRadiusMsg hu).halted
    have hcalls := processReceiveRadiusMsg_calls hu
    cases identity with
    | true => exact ⟨hran, hcalls⟩
    | false => exact ⟨hran, hcalls⟩
  | radiusIdentity p =>
    simp only [handleStep, Option.some.injEq] at hresult
    obtain ⟨u, hu, rfl⟩ := except_map_ok hresult
    exact ⟨(touches_identityHandOver hu).halted, (stepSession_session hu).2.1⟩
  | retrCoapEap origin id p =>
    simp only [handleStep, Option.ite_none_left_eq_some, Option.some.injEq] at hresult
    obtain ⟨u, hu, rfl⟩ := except_map_ok hresult.2
    have hcalls := processRetrCoapEap_calls origin hu
    exact ⟨(touches_processRetrCoapEap hu).halted, hcalls⟩

theorem handle_calls (h : step digests s (.handle i call) = some t) :
    t.alarms = runCalls s (stepAlarmCalls s t (.handle i call)) := by
  have hrunning := (step_move h).1
  simp only [step, hrunning, Option.isSome_none, Bool.false_eq_true, if_false,
    Option.bind_eq_some_iff, Option.map_eq_some_iff] at h
  obtain ⟨worker, hworker, result, hresult, hconclude⟩ := h
  rcases conclude_cases hconclude with hok | ⟨reason, rfl⟩
  · obtain ⟨hhalted, halarms⟩ := handleStep_calls hresult hok
    have hcalls : stepAlarmCalls s t (.handle i call) = alarmCalls s t worker call := by
      simp [stepAlarmCalls, hhalted, hrunning, hworker]
    rw [hcalls]
    exact halarms
  · rfl

/-- A step inside the mutex of a session leaves the alarms as its calls do. -/
theorem step_calls (h : step digests s e = some t) (hmutex : takesMutex s e = some p) :
    t.alarms = runCalls s (stepAlarmCalls s t e) := by
  cases e with
  | handle i call => exact handle_calls h
  | lockAcknowledgment =>
    obtain ⟨-, hmove⟩ := step_move h
    cases hmove <;> rfl
  | _ => simp [takesMutex] at hmutex

/-- A step with calls left goes on, and sessions keep their identifiers in it. -/
theorem stepAlarmCalls_running (h : step digests s e = some t)
    (hcalls : stepAlarmCalls s t e ≠ []) :
    t.halted = none ∧ t.sessionId = s.sessionId := by
  cases e with
  | handle i call =>
    have hrunning : t.halted = none := by
      by_contra hhalted
      simp [stepAlarmCalls, Option.isSome_iff_ne_none.mpr hhalted] at hcalls
    rcases handle_move_kind (step_move h).2 with rfl | ⟨reason, rfl⟩ | ⟨w, p, u, new, hhandler⟩
    · exact ⟨hrunning, rfl⟩
    · exact ⟨hrunning, rfl⟩
    · have hids : u.sessionId = s.sessionId := funext hhandler.touches.sessionId
      rcases hhandler.after with rfl | ⟨rfl, -⟩
      · exact ⟨hrunning, hids⟩
      · exact ⟨hrunning, hids⟩
  | _ => simp [stepAlarmCalls] at hcalls

/-- Outside the mutex of a session a step takes alarms away at most. -/
theorem step_alarms_sublist (h : step digests s e = some t) (hmutex : takesMutex s e = none) :
    List.Sublist t.alarms s.alarms := by
  obtain ⟨-, hmove⟩ := step_move h
  cases hmove with
  | popped time alarm rest hsweeping hlist =>
    rw [hlist]
    exact List.sublist_cons_self alarm rest
  | handledCoap _ _ _ _ _ hworker | handledAcknowledgment _ _ _ _ _ _ hworker
  | handledRadius _ _ _ _ _ hworker | wroteIdentity _ _ _ _ _ hworker
  | handedIdentity _ _ _ _ hworker | handledRetr _ _ _ _ _ _ hworker =>
    simp [takesMutex, hworker, Worker.session] at hmutex
  | _ => exact List.Sublist.refl _

/-- How many alarms for a POST of a session are in a list. -/
def postAlarmCount (alarms : List Alarm) (p : Ptr) : Nat :=
  alarms.countP fun a => a.session = p ∧ a.id = postAlarm

/-- With `n` alarms of a session in the list, its calls still to be made never
bring about a second one. -/
def KeepsOne : List AlarmCall → Nat → Prop
  | [], n => n ≤ 1
  | .getAlarmCoapEapSession _ :: rest, n => n ≤ 1 ∧ KeepsOne rest (n - 1)
  | .addAlarmCoapEap _ :: rest, n => n ≤ 1 ∧ KeepsOne rest (n + 1)

theorem KeepsOne.atMostOne {calls : List AlarmCall} {n : Nat} (h : KeepsOne calls n) : n ≤ 1 := by
  cases calls with
  | nil => exact h
  | cons call rest => cases call <;> exact h.1

theorem KeepsOne.fewer {calls : List AlarmCall} {n m : Nat} (h : KeepsOne calls n)
    (hle : m ≤ n) : KeepsOne calls m := by
  induction calls generalizing n m with
  | nil => exact Nat.le_trans hle h
  | cons call rest ih =>
    cases call with
    | getAlarmCoapEapSession id =>
      constructor
      · exact Nat.le_trans hle h.1
      · apply ih h.2
        omega
    | addAlarmCoapEap alarm =>
      constructor
      · exact Nat.le_trans hle h.1
      · apply ih h.2
        omega

/-- In every branch of a handler each alarm that is armed has a cancellation
before it. -/
theorem alarmCalls_keepsOne (s t : Controller) (worker : Worker) (call : Call) :
    KeepsOne (alarmCalls s t worker call) 1 := by
  unfold alarmCalls armCall
  split
  · simp [KeepsOne]
  · split <;> simp [KeepsOne]
  · split
    · simp [KeepsOne]
    · split <;> simp [KeepsOne]
  · split
    · split <;> simp [KeepsOne]
    · simp [KeepsOne]
  · simp [KeepsOne]

theorem stepAlarmCalls_keepsOne (s t : Controller) (e : Event) :
    KeepsOne (stepAlarmCalls s t e) 1 := by
  cases e with
  | handle i call =>
    simp only [stepAlarmCalls]
    split
    · simp [KeepsOne]
    · cases s.workers[i]? with
      | none => simp [KeepsOne]
      | some worker => exact alarmCalls_keepsOne s t worker call
  | _ => simp [stepAlarmCalls, KeepsOne]

/-- A call is about one session: it cancels under its identifier and arms its
alarm. -/
def AlarmCall.WorksFor (s : Controller) (p : Ptr) : AlarmCall → Prop
  | .getAlarmCoapEapSession id => id = s.sessionId p
  | .addAlarmCoapEap alarm => alarm.session = p ∧ alarm.id = postAlarm

theorem alarmCalls_worksFor {worker : Worker} (hsession : worker.session = some p) :
    ∀ c ∈ alarmCalls s t worker call, c.WorksFor s p := by
  have hcancel : (AlarmCall.getAlarmCoapEapSession (s.sessionId p)).WorksFor s p := rfl
  have harm : (armCall t p call.now).WorksFor s p := ⟨rfl, rfl⟩
  have hnone : ∀ c ∈ ([] : List AlarmCall), c.WorksFor s p := List.forall_mem_nil _
  have hrearm : ∀ c ∈ [.getAlarmCoapEapSession (s.sessionId p), armCall t p call.now],
      AlarmCall.WorksFor s p c :=
    List.forall_mem_cons.mpr ⟨hcancel, List.forall_mem_cons.mpr ⟨harm, hnone⟩⟩
  cases worker with
  | took task => cases hsession
  | retrId origin id => cases hsession
  | radiusIdentity q => exact hnone
  | coapMsg task q =>
    obtain rfl := Option.some.inj hsession
    exact hrearm
  | acknowledgment task post q =>
    obtain rfl := Option.some.inj hsession
    simp only [alarmCalls]
    split
    · exact List.forall_mem_cons.mpr ⟨hcancel, List.forall_mem_cons.mpr ⟨hcancel, hnone⟩⟩
    · exact hnone
  | receiveRadiusMsg msg q =>
    obtain rfl := Option.some.inj hsession
    simp only [alarmCalls]
    split
    · exact hrearm
    · split
      · exact List.forall_mem_cons.mpr ⟨hcancel, hnone⟩
      · exact hnone
  | retrCoapEap origin id q =>
    obtain rfl := Option.some.inj hsession
    simp only [alarmCalls]
    split
    · split
      · exact List.forall_mem_cons.mpr ⟨hcancel, hrearm⟩
      · exact List.forall_mem_cons.mpr ⟨hcancel, hnone⟩
    · exact hnone

theorem stepAlarmCalls_worksFor (hmutex : takesMutex s e = some p) :
    ∀ c ∈ stepAlarmCalls s t e, c.WorksFor s p := by
  intro c hc
  cases e with
  | handle i call =>
    obtain ⟨worker, hworker, hsession⟩ := Option.bind_eq_some_iff.mp hmutex
    simp only [stepAlarmCalls, hworker] at hc
    split at hc
    · simp at hc
    · exact alarmCalls_worksFor hsession c hc
  | _ => simp [stepAlarmCalls] at hc

theorem postAlarmCount_cancel {sessionId : Ptr → UInt32} {alarms : List Alarm}
    (hown : ∀ a ∈ alarms, sessionId a.session = sessionId p → a.session = p) :
    postAlarmCount (getAlarmCoapEapSession sessionId alarms (sessionId p) postAlarm) p ≤
      postAlarmCount alarms p - 1 := by
  induction alarms with
  | nil => simp [getAlarmCoapEapSession, postAlarmCount]
  | cons first rest ih =>
    have hfirst := hown first (List.mem_cons_self ..)
    have hrest := ih fun a ha => hown a (List.mem_cons_of_mem _ ha)
    unfold getAlarmCoapEapSession postAlarmCount at *
    by_cases hmatch : sessionId first.session = sessionId p ∧ first.id = postAlarm
    · rw [List.eraseP_cons_of_pos (by simpa using hmatch),
        List.countP_cons_of_pos (by simpa using ⟨hfirst hmatch.1, hmatch.2⟩)]
      omega
    · have hother : ¬ (first.session = p ∧ first.id = postAlarm) := by
        rintro ⟨rfl, hkind⟩
        exact hmatch ⟨rfl, hkind⟩
      rw [List.eraseP_cons_of_neg (by simpa using hmatch),
        List.countP_cons_of_neg (by simpa using hother),
        List.countP_cons_of_neg (by simpa using hother)]
      exact hrest

theorem postAlarmCount_add (p : Ptr) (alarms : List Alarm) {alarm : Alarm}
    (hkind : alarm.id = postAlarm) :
    postAlarmCount (addAlarmCoapEap alarms alarm) p =
      postAlarmCount alarms p + if alarm.session = p then 1 else 0 := by
  unfold postAlarmCount
  rw [(addAlarmCoapEap_perm alarm alarms).countP_eq, List.countP_cons]
  simp [hkind]

/-- Sessions that were made go by different identifiers. -/
def IdsDistinct (s : Controller) : Prop :=
  ∀ p < s.nextPtr, ∀ q < s.nextPtr, s.sessionId p = s.sessionId q → p = q

instance (s : Controller) : Decidable (IdsDistinct s) :=
  inferInstanceAs (Decidable (∀ p < s.nextPtr, ∀ q < s.nextPtr,
    s.sessionId p = s.sessionId q → p = q))

theorem IdsDistinct.before (hgrows : Grows s t) (h : IdsDistinct t) : IdsDistinct s := by
  intro p hp q hq hsame
  apply h p (Nat.lt_of_lt_of_le hp hgrows.nextPtr) q (Nat.lt_of_lt_of_le hq hgrows.nextPtr)
  rw [hgrows.sessionId p hp, hgrows.sessionId q hq, hsame]

variable {here after : Interleaved} {instant : Instant}

/-- The ways the system moves: outside every mutex, into the mutex of a session
that no handler has calls left in, or by the next call of a session's handler. -/
inductive InterleavedMove (digests : Digests) (here after : Interleaved) : Prop
  | outside (e : Event) (t : Controller) (taken : step digests here.controller e = some t)
      (mutex : takesMutex here.controller e = none) (left : after = { here with controller := t })
  | inside (e : Event) (p : Ptr) (t : Controller)
      (taken : step digests here.controller e = some t)
      (mutex : takesMutex here.controller e = some p) (free : here.left p = [])
      (left : after =
        { controller := { t with alarms := here.controller.alarms }
          left := Function.update here.left p (stepAlarmCalls here.controller t e) })
  | called (p : Ptr) (call : AlarmCall) (rest : List AlarmCall)
      (running : here.controller.halted = none) (next : here.left p = call :: rest)
      (left : after =
        { controller := { here.controller with
            alarms := call.run here.controller.sessionId here.controller.alarms }
          left := Function.update here.left p rest })

theorem interleaved_move (h : interleavedStep digests here instant = some after) :
    InterleavedMove digests here after := by
  cases instant with
  | move e =>
    simp only [interleavedStep] at h
    split at h
    · rename_i hmutex
      obtain ⟨t, ht, rfl⟩ := Option.map_eq_some_iff.mp h
      exact .outside e t ht hmutex rfl
    · rename_i p hmutex
      rw [Option.ite_none_left_eq_some] at h
      obtain ⟨t, ht, rfl⟩ := Option.map_eq_some_iff.mp h.2
      exact .inside e p t ht hmutex (by simpa using h.1) rfl
  | alarmCall p =>
    simp only [interleavedStep, Option.ite_none_left_eq_some] at h
    obtain ⟨hrunning, h⟩ := h
    split at h
    · simp at h
    · rename_i call rest hnext
      simp only [Option.some.injEq] at h
      exact .called p call rest (by simpa using hrunning) hnext h.symm

/-- What holds of the controller while calls are left: pointers point at sessions
that were made, and the calls left are about the session they are left in. -/
structure Sound (here : Interleaved) : Prop where
  wellFormed : WellFormed here.controller
  written : WrittenSession here.controller
  made : ReferredMade here.controller
  worksFor : ∀ p, ∀ c ∈ here.left p, c.WorksFor here.controller p
  leftMade : ∀ p, here.left p ≠ [] → p < here.controller.nextPtr

/-- The alarms are replaced by alarms of sessions that were made. -/
theorem ReferredMade.of_alarms (h : ReferredMade s) {alarms : List Alarm}
    (hmade : ∀ a ∈ alarms, a.session < s.nextPtr) : ReferredMade { s with alarms } := by
  intro p hp
  cases hp with
  | armed a hmem howner => exact howner ▸ hmade a hmem
  | listed hmem => exact h p (.listed hmem)
  | popped a hmem howner => exact h p (.popped a hmem howner)
  | inHand w hmem hsession => exact h p (.inHand w hmem hsession)
  | acknowledges w post hmem hpost howner => exact h p (.acknowledges w post hmem hpost howner)
  | named hmem => exact h p (.named hmem)
  | params hunread hsession => exact h p (.params hunread hsession)

theorem WellFormed.of_alarms (h : WellFormed s) (alarms : List Alarm) :
    WellFormed { s with alarms } :=
  ⟨h.sessions, h.contexts, h.activities, h.networkThread, h.acknowledged⟩

theorem AlarmCall.WorksFor.later {c : AlarmCall} (h : c.WorksFor s p) (hmade : p < s.nextPtr)
    (hgrows : Grows s t) : c.WorksFor t p := by
  cases c with
  | getAlarmCoapEapSession id =>
    have hsame : id = s.sessionId p := h
    exact hsame.trans (hgrows.sessionId p hmade).symm
  | addAlarmCoapEap alarm => exact h

theorem takesMutex_made (hs : ReferredMade s) (hmutex : takesMutex s e = some p) :
    p < s.nextPtr := by
  cases e with
  | handle i call =>
    obtain ⟨worker, hworker, hsession⟩ := Option.bind_eq_some_iff.mp hmutex
    exact hs p (.inHand worker (mem_activities_of_worker hworker) hsession)
  | lockAcknowledgment => exact hs p (.named hmutex)
  | _ => simp [takesMutex] at hmutex

/-- A call arms an alarm of a session that was made, or none. -/
theorem AlarmCall.WorksFor.made {c : AlarmCall} (h : c.WorksFor s p) (hmade : p < s.nextPtr)
    (hs : ReferredMade s) : ∀ a ∈ c.run s.sessionId s.alarms, a.session < s.nextPtr := by
  intro a ha
  cases c with
  | getAlarmCoapEapSession id => exact hs _ (.armed a (mem_of_mem_getAlarm ha) rfl)
  | addAlarmCoapEap alarm =>
    rcases mem_addAlarmCoapEap.mp ha with rfl | hold
    · rw [h.1]
      exact hmade
    · exact hs _ (.armed a hold rfl)

theorem Sound.step (hs : Sound here) (h : interleavedStep digests here instant = some after) :
    Sound after := by
  cases interleaved_move h with
  | outside e t ht hmutex hafter =>
    subst hafter
    have hgrows := step_grows ht
    refine ⟨wellFormed_step hs.wellFormed ht, hs.written.step ht,
      hs.made.step hs.wellFormed hs.written ht, ?_, ?_⟩
    · intro p c hc
      exact (hs.worksFor p c hc).later (hs.leftMade p (List.ne_nil_of_mem hc)) hgrows
    · intro p hp
      exact Nat.lt_of_lt_of_le (hs.leftMade p hp) hgrows.nextPtr
  | inside e p t ht hmutex hfree hafter =>
    subst hafter
    have hgrows := step_grows ht
    have hp := takesMutex_made hs.made hmutex
    have hmade := hs.made.step hs.wellFormed hs.written ht
    have hwritten := hs.written.step ht
    refine ⟨(wellFormed_step hs.wellFormed ht).of_alarms _, hwritten,
      hmade.of_alarms ?_, ?_, ?_⟩
    · intro a ha
      exact Nat.lt_of_lt_of_le (hs.made _ (.armed a ha rfl)) hgrows.nextPtr
    · intro q c hc
      by_cases hq : q = p
      · subst hq
        simp only [Function.update_self] at hc
        have hlater : c.WorksFor t q := (stepAlarmCalls_worksFor hmutex c hc).later hp hgrows
        exact hlater
      · simp only [Function.update_of_ne hq] at hc
        have hlater : c.WorksFor t q :=
          (hs.worksFor q c hc).later (hs.leftMade q (List.ne_nil_of_mem hc)) hgrows
        exact hlater
    · intro q hleft
      by_cases hq : q = p
      · rw [hq]
        exact Nat.lt_of_lt_of_le hp hgrows.nextPtr
      · simp only [Function.update_of_ne hq] at hleft
        exact Nat.lt_of_lt_of_le (hs.leftMade q hleft) hgrows.nextPtr
  | called p call rest hrunning hnext hafter =>
    subst hafter
    have hp : p < here.controller.nextPtr := hs.leftMade p (by simp [hnext])
    have hcall : call.WorksFor here.controller p := hs.worksFor p call (by simp [hnext])
    refine ⟨hs.wellFormed.of_alarms _, hs.written, hs.made.of_alarms (hcall.made hp hs.made),
      ?_, ?_⟩
    · intro q c hc
      by_cases hq : q = p
      · subst hq
        simp only [Function.update_self] at hc
        exact hs.worksFor q c (by simp [hnext, hc])
      · simp only [Function.update_of_ne hq] at hc
        exact hs.worksFor q c hc
    · intro q hleft
      by_cases hq : q = p
      · exact hq ▸ hp
      · simp only [Function.update_of_ne hq] at hleft
        exact hs.leftMade q hleft

theorem sound_initial (digests : Digests) : Sound initialInterleaved := by
  have hreach : Reachable digests initialController := .start
  refine ⟨wellFormed hreach, writtenSession hreach, referredMade_initial, ?_, ?_⟩
  · intro p c hc
    simp [initialInterleaved] at hc
  · intro p hp
    simp [initialInterleaved] at hp

/-- The invariant: no session has a second alarm, now or after the calls left. -/
def AtMostOne (here : Interleaved) : Prop :=
  ∀ p, KeepsOne (here.left p) (postAlarmCount here.controller.alarms p)

theorem AtMostOne.step (hs : AtMostOne here) (hsound : Sound here)
    (hdistinct : IdsDistinct here.controller)
    (h : interleavedStep digests here instant = some after) : AtMostOne after := by
  intro q
  cases interleaved_move h with
  | outside e t ht hmutex hafter =>
    subst hafter
    exact (hs q).fewer (step_alarms_sublist ht hmutex).countP_le
  | inside e p t ht hmutex hfree hafter =>
    subst hafter
    by_cases hq : q = p
    · subst hq
      simp only [Function.update_self]
      exact (stepAlarmCalls_keepsOne _ _ e).fewer (hs q).atMostOne
    · simp only [Function.update_of_ne hq]
      exact hs q
  | called p call rest hrunning hnext hafter =>
    subst hafter
    have hp : p < here.controller.nextPtr := hsound.leftMade p (by simp [hnext])
    have hcall : call.WorksFor here.controller p := hsound.worksFor p call (by simp [hnext])
    by_cases hq : q = p
    · subst hq
      have hbefore := hs q
      rw [hnext] at hbefore
      simp only [Function.update_self]
      cases call with
      | getAlarmCoapEapSession id =>
        obtain rfl : id = here.controller.sessionId q := hcall
        apply hbefore.2.fewer
        apply postAlarmCount_cancel
        intro a ha hsame
        exact hdistinct _ (hsound.made _ (.armed a ha rfl)) _ hp hsame
      | addAlarmCoapEap alarm =>
        apply hbefore.2.fewer
        have hadded := postAlarmCount_add q here.controller.alarms hcall.2
        rw [if_pos hcall.1] at hadded
        exact Nat.le_of_eq hadded
    · simp only [Function.update_of_ne hq]
      apply (hs q).fewer
      cases call with
      | getAlarmCoapEapSession id => exact List.eraseP_sublist.countP_le
      | addAlarmCoapEap alarm =>
        have hadded := postAlarmCount_add q here.controller.alarms hcall.2
        rw [if_neg (by rw [hcall.1]; exact fun h => hq h.symm)] at hadded
        exact Nat.le_of_eq hadded

theorem grows_interleaved (h : interleavedStep digests here instant = some after) :
    Grows here.controller after.controller := by
  cases interleaved_move h with
  | outside e t ht _ hafter => exact hafter ▸ step_grows ht
  | inside e p t ht _ _ hafter =>
    have hgrows := step_grows ht
    exact hafter ▸ ⟨hgrows.nextPtr, hgrows.sessionId, hgrows.posts⟩
  | called p call rest _ _ hafter => exact hafter ▸ grows_same rfl rfl

theorem sound (h : Library.Runs.Reachable (interleavedStep digests) initialInterleaved here) :
    Sound here :=
  h.invariant (sound_initial digests) fun _ _ _ _ hs _ hstep => hs.step hstep

/-- Identifiers that are distinct in the end were so before every step. -/
theorem atMostOne (h : Library.Runs.Reachable (interleavedStep digests) initialInterleaved here)
    (hdistinct : IdsDistinct here.controller) : AtMostOne here := by
  induction h with
  | start =>
    intro p
    exact Nat.zero_le _
  | step hbefore hmet htaken ih =>
    have hearlier := hdistinct.before (grows_interleaved htaken)
    exact (ih hearlier).step (sound hbefore) hearlier htaken

/-- At most one POST alarm per session, however the calls of the handlers on the
alarm list and the pops of the alarm thread interleave. -/
theorem at_most_one_post_alarm
    (h : Library.Runs.Reachable (interleavedStep digests) initialInterleaved here)
    (hdistinct : IdsDistinct here.controller) (p : Ptr) :
    postAlarmCount here.controller.alarms p ≤ 1 :=
  (atMostOne h hdistinct p).atMostOne

/-- While the handler of the second session has cancelled and not yet armed, the
alarm of the first session expires. -/
def poppedInBetween : List Instant :=
  (comesIn 1).map .move ++ [.alarmCall 0, .alarmCall 0] ++ (comesIn 2).map .move ++
    [.alarmCall 1, .move (.wake 100), .move .alarmStep, .alarmCall 1] ++
    List.replicate 4 (.move .alarmStep) ++
    [.move .getTask, .move (.lookup 0 []), .move (.lookup 0 []), .move (.handle 0 {}),
      .alarmCall 0, .alarmCall 0, .alarmCall 0]

theorem popped_in_between_armed_once : ∃ here,
    Library.Runs.Reachable (interleavedStep noAnswers) initialInterleaved here ∧
      here.controller.log.any (fun o => o = .retransmitted 0 1) = true ∧
      here.controller.alarms.length = 2 ∧ IdsDistinct here.controller ∧
      postAlarmCount here.controller.alarms 0 ≤ 1 := by
  have hrun : (run (interleavedStep noAnswers) initialInterleaved poppedInBetween).any
      (fun here => here.controller.log.any (fun o => o = .retransmitted 0 1) &&
        (here.controller.alarms.length = 2 ∧ IdsDistinct here.controller)) = true := by
    decide +kernel
  obtain ⟨here, hhere, hcheck⟩ := exists_of_run hrun
  rw [Bool.and_eq_true, decide_eq_true_eq] at hcheck
  have hreach := reachable_of_run hhere
  exact ⟨here, hreach, hcheck.1, hcheck.2.1, hcheck.2.2,
    at_most_one_post_alarm hreach hcheck.2.2 0⟩

/-- The calls left in one session are made one after the other. -/
theorem drained (digests : Digests) (calls : List AlarmCall) (s : Controller) (p : Ptr)
    (hrunning : s.halted = none) :
    Library.Runs.Reachable (interleavedStep digests) ⟨s, Function.update (fun _ => []) p calls⟩
      ⟨{ s with alarms := runCalls s calls }, fun _ => []⟩ := by
  induction calls generalizing s with
  | nil =>
    rw [Function.update_eq_self_iff.mpr rfl]
    exact .start
  | cons call rest ih =>
    let u : Controller := { s with alarms := call.run s.sessionId s.alarms }
    have hcall : interleavedStep digests ⟨s, Function.update (fun _ => []) p (call :: rest)⟩
        (.alarmCall p) = some ⟨u, Function.update (fun _ => []) p rest⟩ := by
      simp [interleavedStep, hrunning, u]
    exact ((ReachableUnder.start).step trivial hcall).trans (ih u hrunning)

/-- Every state of the controller whose handlers run in one move is a state of
the interleaved one, with no calls left. -/
theorem interleaved_of_reachable (h : Reachable digests s) :
    Library.Runs.Reachable (interleavedStep digests) initialInterleaved ⟨s, fun _ => []⟩ := by
  induction h with
  | start => exact .start
  | step hbefore hmet htaken ih =>
    rename_i s t e
    cases hmutex : takesMutex s e with
    | none =>
      have hmove : interleavedStep digests ⟨s, fun _ => []⟩ (.move e) = some ⟨t, fun _ => []⟩ := by
        simp [interleavedStep, hmutex, htaken]
      exact ih.step trivial hmove
    | some p =>
      have hlist := step_calls htaken hmutex
      have hmove : interleavedStep digests ⟨s, fun _ => []⟩ (.move e) =
          some ⟨{ t with alarms := s.alarms },
            Function.update (fun _ => []) p (stepAlarmCalls s t e)⟩ := by
        simp [interleavedStep, hmutex, htaken]
      have hinside := ih.step trivial hmove
      by_cases hcalls : stepAlarmCalls s t e = []
      · rw [hcalls] at hlist hinside
        have hsame : { t with alarms := s.alarms } = t := by
          rw [← show t.alarms = s.alarms from hlist]
        rwa [Function.update_eq_self_iff.mpr rfl, hsame] at hinside
      · obtain ⟨hrunning, hids⟩ := stepAlarmCalls_running htaken hcalls
        have hdrained := drained digests (stepAlarmCalls s t e) { t with alarms := s.alarms } p
          hrunning
        have hruns : runCalls { t with alarms := s.alarms } (stepAlarmCalls s t e) = t.alarms := by
          rw [hlist]
          exact runCalls_same (u := { t with alarms := s.alarms }) hids rfl _
        rw [hruns] at hdrained
        exact hinside.trans hdrained

/-- The same for handlers that run in one move. -/
theorem postAlarmCount_le_one (h : Reachable digests s) (hdistinct : IdsDistinct s) (p : Ptr) :
    postAlarmCount s.alarms p ≤ 1 :=
  (atMostOne (interleaved_of_reachable h) hdistinct p).atMostOne

end CoapEap.Mainserver
