import CoapEap.Controller.System

/-!
What the handlers leave alone. A handler works on one session: it may change
that session, the lists and the RADIUS client, it notes what it did, and of any
other session it touches at most the EAP context. The threads, the task queue and
the parameters of the alarm thread are not in its hands.

Each handler has one lemma that says which part of the log it writes.
-/

namespace CoapEap.Mainserver

open Cantcoap EapServer Lalarm Radius

/-- From `s` to `t` a handler of session `p` ran. -/
structure Touches (p : Ptr) (s t : Controller) : Prop where
  nextPtr : t.nextPtr = s.nextPtr
  radCtx : t.radCtx = s.radCtx
  tasks : t.tasks = s.tasks
  workers : t.workers = s.workers
  alarmThread : t.alarmThread = s.alarmThread
  networkThread : t.networkThread = s.networkThread
  retransParams : t.retransParams = s.retransParams
  halted : t.halted = s.halted
  sessionId : ∀ q, (t.heap q).sessionId = (s.heap q).sessionId
  posts : ∀ q, (s.heap q).posts ≤ (t.heap q).posts
  others : ∀ q, q ≠ p → t.heap q = { s.heap q with eapCtx := (t.heap q).eapCtx }
  sessions : List.Sublist t.sessions s.sessions
  alarms : ∀ a ∈ t.alarms, a ∈ s.alarms ∨ (a.session = p ∧ a.id = postAlarm)

theorem Touches.refl (p : Ptr) (s : Controller) : Touches p s s :=
  ⟨rfl, rfl, rfl, rfl, rfl, rfl, rfl, rfl, fun _ => rfl, fun _ => Nat.le_refl _,
    fun _ _ => rfl, List.Sublist.refl _, fun _ h => .inl h⟩

theorem Touches.trans {p : Ptr} {s t u : Controller} (h₁ : Touches p s t)
    (h₂ : Touches p t u) : Touches p s u where
  nextPtr := h₂.nextPtr.trans h₁.nextPtr
  radCtx := h₂.radCtx.trans h₁.radCtx
  tasks := h₂.tasks.trans h₁.tasks
  workers := h₂.workers.trans h₁.workers
  alarmThread := h₂.alarmThread.trans h₁.alarmThread
  networkThread := h₂.networkThread.trans h₁.networkThread
  retransParams := h₂.retransParams.trans h₁.retransParams
  halted := h₂.halted.trans h₁.halted
  sessionId := fun q => (h₂.sessionId q).trans (h₁.sessionId q)
  posts := fun q => Nat.le_trans (h₁.posts q) (h₂.posts q)
  others := by
    intro q hq
    rw [h₂.others q hq, h₁.others q hq]
  sessions := h₂.sessions.trans h₁.sessions
  alarms := by
    intro a ha
    rcases h₂.alarms a ha with hmem | hself
    · exact h₁.alarms a hmem
    · exact .inr hself

theorem touches_setSession {p : Ptr} {s : Controller} {session : Session}
    (hid : session.sessionId = (s.heap p).sessionId)
    (hposts : (s.heap p).posts ≤ session.posts) : Touches p s (s.setSession p session) where
  nextPtr := rfl
  radCtx := rfl
  tasks := rfl
  workers := rfl
  alarmThread := rfl
  networkThread := rfl
  retransParams := rfl
  halted := rfl
  sessionId := by
    intro q
    rw [Controller.setSession_heap]
    split
    · subst q
      exact hid
    · rfl
  posts := by
    intro q
    rw [Controller.setSession_heap]
    split
    · subst q
      exact hposts
    · exact Nat.le_refl _
  others := fun q hq => by rw [Controller.setSession_heap_ne s session hq]
  sessions := List.Sublist.refl _
  alarms := fun _ h => .inl h

/-- A session that received a message is as before but for that message. -/
theorem setReceived_heap (s : Controller) (p q : Ptr) (buf : Bytes) :
    (s.setSession p { s.heap p with lastReceivedMessage := some buf }).heap q =
      { s.heap q with lastReceivedMessage :=
        if q = p then some buf else (s.heap q).lastReceivedMessage } := by
  rw [Controller.setSession_heap]
  split
  · subst q
    rfl
  · rfl

theorem touches_setReceived (p : Ptr) (s : Controller) (buf : Bytes) :
    Touches p s (s.setSession p { s.heap p with lastReceivedMessage := some buf }) :=
  touches_setSession (by rfl) (by exact Nat.le_refl _)

theorem touches_record (p : Ptr) (s : Controller) (new : List Occurrence) :
    Touches p s (s.record new) :=
  ⟨rfl, rfl, rfl, rfl, rfl, rfl, rfl, rfl, fun _ => rfl, fun _ => Nat.le_refl _,
    fun _ _ => rfl, List.Sublist.refl _, fun _ h => .inl h⟩

theorem touches_radius (p : Ptr) (s : Controller) (radius : RadiusClient) :
    Touches p s { s with radius } :=
  ⟨rfl, rfl, rfl, rfl, rfl, rfl, rfl, rfl, fun _ => rfl, fun _ => Nat.le_refl _,
    fun _ _ => rfl, List.Sublist.refl _, fun _ h => .inl h⟩

theorem touches_eapReqId (p : Ptr) (s : Controller) (eapReqId : Bytes) :
    Touches p s { s with eapReqId } :=
  ⟨rfl, rfl, rfl, rfl, rfl, rfl, rfl, rfl, fun _ => rfl, fun _ => Nat.le_refl _,
    fun _ _ => rfl, List.Sublist.refl _, fun _ h => .inl h⟩

theorem touches_cancelPostAlarm (p : Ptr) (s : Controller) (id : UInt32) :
    Touches p s (cancelPostAlarm s id) :=
  ⟨rfl, rfl, rfl, rfl, rfl, rfl, rfl, rfl, fun _ => rfl, fun _ => Nat.le_refl _,
    fun _ _ => rfl, List.Sublist.refl _, fun _ h => .inl (mem_of_mem_getAlarm h)⟩

theorem touches_removeCoapEapSession (p : Ptr) (s : Controller) (id : UInt32) :
    Touches p s (removeCoapEapSession s id) :=
  ⟨rfl, rfl, rfl, rfl, rfl, rfl, rfl, rfl, fun _ => rfl, fun _ => Nat.le_refl _,
    fun _ _ => rfl, List.eraseP_sublist, fun _ h => .inl h⟩

theorem touches_addPostAlarm (p : Ptr) (s : Controller) (now : Rat) :
    Touches p s (addPostAlarm s p now) :=
  ⟨rfl, rfl, rfl, rfl, rfl, rfl, rfl, rfl, fun _ => rfl, fun _ => Nat.le_refl _,
    fun _ _ => rfl, List.Sublist.refl _,
    by
      intro a ha
      simp only [addPostAlarm, mem_addAlarmCoapEap] at ha
      rcases ha with rfl | hmem
      · exact .inr ⟨rfl, rfl⟩
      · exact .inl hmem⟩

theorem touches_armPost {p : Ptr} {s : Controller} {session : Session} (pdu : Bytes) (now : Rat)
    (hid : session.sessionId = (s.heap p).sessionId) (hposts : session.posts = (s.heap p).posts) :
    Touches p s (armPost s p session pdu now) := by
  have hset : Touches p s (s.setSession p (storePost session pdu)) :=
    touches_setSession hid (hposts ▸ Nat.le_succ _)
  exact (hset.trans (touches_cancelPostAlarm ..)).trans (touches_addPostAlarm ..)

/-- A step of the EAP layer, taken apart. -/
theorem stepSession_ok {s t : Controller} {p : Ptr} {session : Session} {call : Call}
    (h : stepSession s p session call = .ok t) :
    ∃ r, eapAuthStep session.eapCtx s.radius p call = .ok r ∧
      t = Controller.record
        { s.setSession p { session with eapCtx := r.ctx } with radius := r.radius }
        (r.request.toList.map (.accessRequest p)) := by
  unfold stepSession at h
  cases hstep : eapAuthStep session.eapCtx s.radius p call with
  | error reason =>
    rw [hstep] at h
    simp [Except.map] at h
  | ok r =>
    rw [hstep] at h
    simp only [Except.map, Except.ok.injEq] at h
    exact ⟨r, rfl, h.symm⟩

theorem touches_stepSession {p : Ptr} {s t : Controller} {session : Session} {call : Call}
    (hid : session.sessionId = (s.heap p).sessionId) (hposts : session.posts = (s.heap p).posts)
    (h : stepSession s p session call = .ok t) : Touches p s t := by
  obtain ⟨r, -, rfl⟩ := stepSession_ok h
  have hset : Touches p s (s.setSession p { session with eapCtx := r.ctx }) :=
    touches_setSession hid (Nat.le_of_eq hposts.symm)
  exact (hset.trans (touches_radius _ _ r.radius)).trans (touches_record ..)

/-- After a step of the EAP layer the session is the given one but for its EAP
context, and the log is longer by the Access-Requests sent. -/
theorem stepSession_session {p : Ptr} {s t : Controller} {session : Session} {call : Call}
    (h : stepSession s p session call = .ok t) :
    t.heap p = { session with eapCtx := (t.heap p).eapCtx } ∧ t.alarms = s.alarms ∧
      t.sessions = s.sessions ∧ t.eapReqId = s.eapReqId := by
  obtain ⟨r, -, rfl⟩ := stepSession_ok h
  simp [Controller.setSession]

theorem stepSession_log {p : Ptr} {s t : Controller} {session : Session} {call : Call}
    (h : stepSession s p session call = .ok t) :
    ∃ new, t.log = s.log ++ new ∧ ∀ o ∈ new, ∃ identifier, o = .accessRequest p identifier := by
  obtain ⟨r, -, rfl⟩ := stepSession_ok h
  refine ⟨_, rfl, ?_⟩
  intro o ho
  obtain ⟨identifier, -, rfl⟩ := List.mem_map.mp ho
  exact ⟨identifier, rfl⟩

theorem armPost_session {s : Controller} {p : Ptr} {session : Session} {pdu : Bytes}
    {now : Rat} : (armPost s p session pdu now).heap p = storePost session pdu := by
  simp [armPost, addPostAlarm, cancelPostAlarm]

@[simp] theorem armPost_log {s : Controller} {p : Ptr} {session : Session} {pdu : Bytes}
    {now : Rat} : (armPost s p session pdu now).log = s.log := rfl

/-- The handler of a new session stores and sends the first POST. -/
theorem processCoapMsg_ok {s t : Controller} {task : NetworkTask} {p : Ptr} {call : Call}
    (h : processCoapMsg s task p call = .ok t) :
    ∃ u session packet, Touches p s u ∧
      (∃ request, validate task.buf = some request ∧
        stepSession s p { s.heap p with
          location := some (if request.payload = [] then defaultLocation else request.payload)
          eapCtx := { (s.heap p).eapCtx with
            eap := { (s.heap p).eapCtx.eap with eapRestart := true } } } call = .ok u) ∧
      session = { u.heap p with currentState := 2, lastReceivedMessage := some task.buf } ∧
      (u.heap p).eapCtx.eap.eapReqData = some packet ∧
      t = (armPost u p session (firstPost session packet) call.now).record
        [.sentPost p (session.posts + 1)] := by
  unfold processCoapMsg at h
  cases hvalid : validate task.buf with
  | none => simp [hvalid] at h
  | some request =>
    simp only [hvalid, bind, Except.bind] at h
    split at h
    · simp at h
    · rename_i u hu
      have htouch : Touches p s u := touches_stepSession (by rfl) (by rfl) hu
      cases hpacket : (u.heap p).eapCtx.eap.eapReqData with
      | none => simp [hpacket] at h
      | some packet =>
        simp only [hpacket, Except.ok.injEq] at h
        exact ⟨u, _, packet, htouch, ⟨request, rfl, hu⟩, rfl, hpacket, h.symm⟩

theorem touches_processCoapMsg {s t : Controller} {task : NetworkTask} {p : Ptr} {call : Call}
    (h : processCoapMsg s task p call = .ok t) : Touches p s t := by
  obtain ⟨u, session, packet, htouch, -, rfl, -, rfl⟩ := processCoapMsg_ok h
  refine (htouch.trans ?_).trans (touches_record ..)
  exact touches_armPost _ _ rfl rfl

theorem processCoapMsg_log {s t : Controller} {task : NetworkTask} {p : Ptr} {call : Call}
    (h : processCoapMsg s task p call = .ok t) :
    ∃ new, t.log = s.log ++ new ∧ ∀ o ∈ new, (∃ identifier, o = .accessRequest p identifier) ∨
      ∃ post, o = .sentPost p post := by
  obtain ⟨u, session, packet, -, ⟨_, -, hu⟩, -, -, rfl⟩ := processCoapMsg_ok h
  obtain ⟨new, hnew, hrequests⟩ := stepSession_log hu
  refine ⟨new ++ [.sentPost p (session.posts + 1)], by simp [hnew], ?_⟩
  intro o ho
  rcases List.mem_append.mp ho with hreq | hsent
  · exact .inl (hrequests o hreq)
  · exact .inr ⟨_, List.mem_singleton.mp hsent⟩

/-- The ways `process_acknowledgment` returns: it fed the EAP layer (state 2),
it completed the session (state 3), or it only took the location over. -/
theorem processAcknowledgment_ok {s t : Controller} {task : NetworkTask} {post : Ptr × Nat}
    {p : Ptr} {call : Call} (h : processAcknowledgment s task post p call = .ok t) :
    ∃ request u, validate task.buf = some request ∧
      u = (s.setSession p { s.heap p with
        location := some (getLocation task.buf request 30) }).record
          (if answersOutstanding (s.heap p) task.buf then [.acknowledged p (s.heap p).posts]
            else []) ∧
      (((s.heap p).currentState = 2 ∧ hasOption task.buf request optionAuth = false ∧
          stepSession (u.record [.fed p post]) p { u.heap p with
            eapCtx := setEapResponse (u.heap p).eapCtx
              (acknowledgedEap request.payload call.behind) } call = .ok t) ∨
        ((s.heap p).currentState = 3 ∧
          t = (removeCoapEapSession (removeCoapEapSession
            (cancelPostAlarm (cancelPostAlarm u (s.heap p).sessionId) (s.heap p).sessionId)
              (s.heap p).sessionId) (s.heap p).sessionId).record
                [.completed p task.buf (s.heap p).lastSentMessage]) ∨
        ((s.heap p).currentState ≠ 2 ∧ (s.heap p).currentState ≠ 3 ∧ t = u)) := by
  unfold processAcknowledgment at h
  cases hvalid : validate task.buf with
  | none => simp [hvalid] at h
  | some request =>
    refine ⟨request, _, rfl, rfl, ?_⟩
    simp only [hvalid, acknowledgmentSwitch, Controller.record_heap,
      Controller.setSession_heap_self] at h
    split at h
    · rename_i hstate
      split at h
      · simp at h
      · rename_i hauth
        refine .inl ⟨hstate, by simpa using hauth, ?_⟩
        simpa using h
    · rename_i hstate
      refine .inr (.inl ⟨hstate, ?_⟩)
      simpa using h.symm
    · rename_i hnot2 hnot3
      refine .inr (.inr ⟨hnot2, hnot3, ?_⟩)
      simpa using h.symm

/-- An acknowledgment changes nothing of its session but location and EAP
context. -/
theorem processAcknowledgment_session {s t : Controller} {task : NetworkTask}
    {post : Ptr × Nat} {p : Ptr} {call : Call}
    (h : processAcknowledgment s task post p call = .ok t) :
    ∃ request, validate task.buf = some request ∧
      t.heap p = { s.heap p with
        location := some (getLocation task.buf request 30), eapCtx := (t.heap p).eapCtx } := by
  obtain ⟨request, u, hrequest, rfl, ⟨-, -, hstep⟩ | ⟨-, rfl⟩ | ⟨-, -, rfl⟩⟩ :=
    processAcknowledgment_ok h
  · refine ⟨request, hrequest, ?_⟩
    rw [(stepSession_session hstep).1]
    simp
  · exact ⟨request, hrequest, by simp [removeCoapEapSession, cancelPostAlarm]⟩
  · exact ⟨request, hrequest, by simp⟩

theorem touches_processAcknowledgment {s t : Controller} {task : NetworkTask}
    {post : Ptr × Nat} {p : Ptr} {call : Call}
    (h : processAcknowledgment s task post p call = .ok t) : Touches p s t := by
  obtain ⟨request, u, -, rfl, hcase⟩ := processAcknowledgment_ok h
  have hlocated : Touches p s ((s.setSession p { s.heap p with
      location := some (getLocation task.buf request 30) }).record
        (if answersOutstanding (s.heap p) task.buf then [.acknowledged p (s.heap p).posts]
          else [])) :=
    Touches.trans (touches_setSession (by rfl) (by exact Nat.le_refl _)) (touches_record ..)
  rcases hcase with ⟨-, -, hstep⟩ | ⟨-, rfl⟩ | ⟨-, -, rfl⟩
  · exact (hlocated.trans (touches_record ..)).trans (touches_stepSession (by rfl) (by rfl) hstep)
  · exact ((((hlocated.trans (touches_cancelPostAlarm ..)).trans
      (touches_cancelPostAlarm ..)).trans (touches_removeCoapEapSession ..)).trans
        (touches_removeCoapEapSession ..)).trans (touches_record ..)
  · exact hlocated

/-- What an acknowledgment notes, in order. -/
theorem processAcknowledgment_log {s t : Controller} {task : NetworkTask} {post : Ptr × Nat}
    {p : Ptr} {call : Call} (h : processAcknowledgment s task post p call = .ok t) :
    ∃ new, t.log = s.log ++
        ((if answersOutstanding (s.heap p) task.buf then [.acknowledged p (s.heap p).posts]
          else []) ++ new) ∧
      ((∃ requests, new = .fed p post :: requests ∧
          ∀ o ∈ requests, ∃ identifier, o = .accessRequest p identifier) ∨
        ((s.heap p).currentState = 3 ∧
          new = [.completed p task.buf (s.heap p).lastSentMessage]) ∨ new = []) := by
  obtain ⟨request, u, -, rfl, ⟨-, -, hstep⟩ | ⟨hstate, rfl⟩ | ⟨-, -, rfl⟩⟩ :=
    processAcknowledgment_ok h
  · obtain ⟨requests, hlog, hrequests⟩ := stepSession_log hstep
    exact ⟨.fed p post :: requests, by simp [hlog], .inl ⟨requests, rfl, hrequests⟩⟩
  · exact ⟨_, by simp [removeCoapEapSession, cancelPostAlarm], .inr (.inl ⟨hstate, rfl⟩)⟩
  · exact ⟨[], by simp, .inr (.inr rfl)⟩

/-- The ways `radius_client_receive` returns: no request waits under the
identifier, or one did and the answer was dropped, or it was taken into the
context found under the identifier. -/
theorem radiusClientReceive_ok {digests : Digests} {s t : Controller} {msg : RadiusMsg}
    {call : Call} (h : radiusClientReceive digests s msg call = .ok t) :
    (matching s.radius msg.identifier = none ∧ t = s) ∨
      ∃ entry, matching s.radius msg.identifier = some entry ∧
        ((acceptsAnswer digests msg entry.msg = false ∧
            t = { s with radius := removeMatching s.radius msg.identifier }) ∨
          (acceptsAnswer digests msg entry.msg = true ∧
            ∃ q eap, searchEapCtxRadClient s msg.identifier = some q ∧
              eap = eapServerSmStep
                (answerEap digests msg entry.msg (s.heap q).eapCtx.eap) call.rand ∧
              eap.faulted = false ∧
              t = Controller.setSession
                { s with radius := removeMatching s.radius msg.identifier } q
                { s.heap q with
                  eapCtx := { (s.heap q).eapCtx with eap, lastRecvRadius := some msg } })) := by
  unfold radiusClientReceive at h
  cases hmatch : matching s.radius msg.identifier with
  | none =>
    simp only [hmatch, Except.ok.injEq] at h
    exact .inl ⟨rfl, h.symm⟩
  | some entry =>
    refine .inr ⟨entry, rfl, ?_⟩
    simp only [hmatch] at h
    split at h
    · rename_i hdropped
      simp only [Except.ok.injEq] at h
      exact .inl ⟨hdropped, h.symm⟩
    · rename_i haccepted
      refine .inr ⟨by simpa using haccepted, ?_⟩
      cases hsearch : searchEapCtxRadClient
          { s with radius := removeMatching s.radius msg.identifier } msg.identifier with
      | none => simp [hsearch] at h
      | some q =>
        simp only [hsearch] at h
        split at h
        · simp at h
        · rename_i hfaulted
          simp only [Except.ok.injEq] at h
          exact ⟨q, _, hsearch, rfl, by simpa using hfaulted, h.symm⟩

/-- Taking an answer in changes at most the EAP context of one session. -/
theorem radiusClientReceive_session {digests : Digests} {s t : Controller} {msg : RadiusMsg}
    {call : Call} (h : radiusClientReceive digests s msg call = .ok t) (q : Ptr) :
    t.heap q = { s.heap q with eapCtx := (t.heap q).eapCtx } := by
  rcases radiusClientReceive_ok h with ⟨-, rfl⟩ | ⟨entry, -, ⟨-, rfl⟩ | ⟨-, q', eap, -, -, -, rfl⟩⟩
  · rfl
  · rfl
  · rw [Controller.setSession_heap]
    split
    · subst q
      rfl
    · rfl

theorem touches_radiusClientReceive {digests : Digests} {s t : Controller} {msg : RadiusMsg}
    {call : Call} (p : Ptr) (h : radiusClientReceive digests s msg call = .ok t) :
    Touches p s t := by
  have hsession := radiusClientReceive_session h
  have hids : ∀ q, (t.heap q).sessionId = (s.heap q).sessionId := by
    intro q
    rw [hsession q]
  have hposts : ∀ q, (s.heap q).posts ≤ (t.heap q).posts := by
    intro q
    exact Nat.le_of_eq (by rw [hsession q])
  rcases radiusClientReceive_ok h with ⟨-, rfl⟩ | ⟨entry, -, ⟨-, rfl⟩ | ⟨-, q', eap, -, -, -, rfl⟩⟩
  · exact .refl ..
  · exact touches_radius ..
  · exact ⟨rfl, rfl, rfl, rfl, rfl, rfl, rfl, rfl, hids, hposts, fun q _ => hsession q,
      List.Sublist.refl _, fun _ h => .inl h⟩

theorem radiusClientReceive_log {digests : Digests} {s t : Controller} {msg : RadiusMsg}
    {call : Call} (h : radiusClientReceive digests s msg call = .ok t) :
    t.log = s.log ∧ t.alarms = s.alarms ∧ t.sessions = s.sessions := by
  rcases radiusClientReceive_ok h with ⟨-, rfl⟩ | ⟨entry, -, ⟨-, rfl⟩ | ⟨-, q', eap, -, -, -, rfl⟩⟩
  · exact ⟨rfl, rfl, rfl⟩
  · exact ⟨rfl, rfl, rfl⟩
  · exact ⟨rfl, rfl, rfl⟩

/-- The session that `process_receive_radius_msg` builds its POST from. -/
def radiusPostSession (session : Session) : Session :=
  let available := session.eapCtx.eap.eapKeyAvailable
  { session with
    messageId := session.messageId + 1
    mskKey :=
      if available then session.eapCtx.eap.eapKeyData.map (List.take 64) else session.mskKey
    keyLen := if available then 64 else session.keyLen
    currentState := if available then 3 else session.currentState }

/-- The POST that `process_receive_radius_msg` sends. -/
def radiusPost (session : Session) (packet : Bytes) : Bytes :=
  if session.eapCtx.eap.eapSuccess then finalPost session else eapPost session packet

theorem radiusPostSession_eq (session : Session) :
    (if session.eapCtx.eap.eapKeyAvailable then
      { session with
        messageId := session.messageId + 1
        mskKey := session.eapCtx.eap.eapKeyData.map (List.take 64), keyLen := 64
        currentState := 3 }
    else { session with messageId := session.messageId + 1 }) = radiusPostSession session := by
  cases havailable : session.eapCtx.eap.eapKeyAvailable <;> simp [radiusPostSession, havailable]

theorem sendRadiusPost_ok {s t : Controller} {p : Ptr} {packet : Bytes} {call : Call}
    (h : sendRadiusPost s p packet call = .ok t) :
    let session := radiusPostSession (s.heap p)
    ((s.heap p).location ≠ none ∧ ((s.heap p).eapCtx.eap.eapKeyAvailable →
        (s.heap p).eapCtx.eap.eapKeyData ≠ none)) ∧
      ((call.sent = true ∧
          t = (armPost s p session (radiusPost session packet) call.now).record
            [.sentPost p (session.posts + 1)]) ∨
        (call.sent = false ∧ t = s.setSession p { session with mutex := true })) := by
  simp only [sendRadiusPost] at h
  split at h
  · simp at h
  · rename_i hlocation
    split at h
    · simp at h
    · rename_i hkey
      refine ⟨⟨hlocation, fun havailable hnone => hkey ⟨havailable, hnone⟩⟩, ?_⟩
      rw [radiusPostSession_eq] at h
      split at h
      · rename_i hsent
        simp only [Except.ok.injEq] at h
        exact .inl ⟨hsent, h.symm⟩
      · rename_i hsent
        simp only [Except.ok.injEq] at h
        exact .inr ⟨by simpa using hsent, h.symm⟩

/-- The ways `process_receive_radius_msg` returns: with nothing to send, inside
the identity workaround, or after its attempt to send the next POST. -/
theorem processReceiveRadiusMsg_ok {digests : Digests} {s t : Controller} {msg : RadiusMsg}
    {p : Ptr} {call : Call} {identity : Bool}
    (h : processReceiveRadiusMsg digests s msg p call = .ok (t, identity)) :
    ∃ u, radiusClientReceive digests s msg call = .ok u ∧
      (u.heap p).eapCtx.eap.eapFail = false ∧
      (((u.heap p).eapCtx.eap.eapReq = false ∧ (u.heap p).eapCtx.eap.eapSuccess = false ∧
          t = u ∧ identity = false) ∨
        ∃ packet, (u.heap p).eapCtx.eap.eapReqData = some packet ∧
          (((u.heap p).eapWorkarround = 0 ∧ t = identityWorkarround u p packet ∧
              identity = true) ∨
            ((u.heap p).eapWorkarround ≠ 0 ∧ sendRadiusPost u p packet call = .ok t ∧
              identity = false))) := by
  simp only [processReceiveRadiusMsg, bind, Except.bind] at h
  split at h
  · simp at h
  · rename_i u hu
    refine ⟨u, hu, ?_⟩
    split at h
    · simp at h
    · rename_i hfail
      refine ⟨by simpa using hfail, ?_⟩
      split at h
      · cases hpacket : (u.heap p).eapCtx.eap.eapReqData with
        | none => simp [hpacket] at h
        | some packet =>
          refine .inr ⟨packet, rfl, ?_⟩
          simp only [hpacket] at h
          split at h
          · rename_i hfirst
            simp only [Except.ok.injEq, Prod.mk.injEq] at h
            exact .inl ⟨hfirst, h.1.symm, h.2.symm⟩
          · rename_i hlater
            split at h
            · simp at h
            · rename_i v hv
              simp only [Except.ok.injEq, Prod.mk.injEq] at h
              obtain ⟨rfl, rfl⟩ := h
              exact .inr ⟨hlater, hv, rfl⟩
      · rename_i hnothing
        simp only [Except.ok.injEq, Prod.mk.injEq] at h
        simp only [not_or, Bool.not_eq_true] at hnothing
        exact .inl ⟨hnothing.1, hnothing.2, h.1.symm, h.2.symm⟩

theorem touches_sendRadiusPost {s t : Controller} {p : Ptr} {packet : Bytes} {call : Call}
    (h : sendRadiusPost s p packet call = .ok t) : Touches p s t := by
  rcases (sendRadiusPost_ok h).2 with ⟨-, rfl⟩ | ⟨-, rfl⟩
  · exact (touches_armPost _ _ (by rfl) (by rfl)).trans (touches_record ..)
  · exact touches_setSession (by rfl) (by exact Nat.le_refl _)

theorem touches_identityWorkarround (s : Controller) (p : Ptr) (packet : Bytes) :
    Touches p s (identityWorkarround s p packet) := by
  have hcancelled := touches_cancelPostAlarm p s (s.heap p).sessionId
  refine (hcancelled.trans ?_).trans (touches_eapReqId ..)
  exact touches_setSession (by rfl) (by exact Nat.le_refl _)

theorem touches_processReceiveRadiusMsg {digests : Digests} {s t : Controller} {msg : RadiusMsg}
    {p : Ptr} {call : Call} {identity : Bool}
    (h : processReceiveRadiusMsg digests s msg p call = .ok (t, identity)) : Touches p s t := by
  obtain ⟨u, hu, -, ⟨-, -, rfl, -⟩ | ⟨packet, -, ⟨-, rfl, -⟩ | ⟨-, hsend, -⟩⟩⟩ :=
    processReceiveRadiusMsg_ok h
  · exact touches_radiusClientReceive p hu
  · exact (touches_radiusClientReceive p hu).trans (touches_identityWorkarround ..)
  · exact (touches_radiusClientReceive p hu).trans (touches_sendRadiusPost hsend)

theorem processReceiveRadiusMsg_log {digests : Digests} {s t : Controller} {msg : RadiusMsg}
    {p : Ptr} {call : Call} {identity : Bool}
    (h : processReceiveRadiusMsg digests s msg p call = .ok (t, identity)) :
    ∃ new, t.log = s.log ++ new ∧ ∀ o ∈ new, ∃ post, o = .sentPost p post := by
  obtain ⟨u, hu, -, ⟨-, -, rfl, -⟩ | ⟨packet, -, ⟨-, rfl, -⟩ | ⟨-, hsend, -⟩⟩⟩ :=
    processReceiveRadiusMsg_ok h
  · exact ⟨[], by simp [(radiusClientReceive_log hu).1], by simp⟩
  · exact ⟨[], by simp [identityWorkarround, cancelPostAlarm, (radiusClientReceive_log hu).1],
      by simp⟩
  · rcases (sendRadiusPost_ok hsend).2 with ⟨-, rfl⟩ | ⟨-, rfl⟩
    · exact ⟨[_], by simp [(radiusClientReceive_log hu).1]; rfl, by simp⟩
    · exact ⟨[], by simp [(radiusClientReceive_log hu).1], by simp⟩

theorem touches_identityHandOver {s t : Controller} {p : Ptr} {call : Call}
    (h : identityHandOver s p call = .ok t) : Touches p s t :=
  touches_stepSession (by rfl) (by rfl) h

/-- Handing the identity over gives the mutex back and changes nothing else of
the session but its EAP context. -/
theorem identityHandOver_session {s t : Controller} {p : Ptr} {call : Call}
    (h : identityHandOver s p call = .ok t) :
    t.heap p = { s.heap p with mutex := false, eapCtx := (t.heap p).eapCtx } := by
  rw [(stepSession_session h).1]

/-- The ways `process_retr_coap_eap` returns: the alarm was none it knows, or it
sent the last message again, had none to send, or gave the session up. -/
theorem processRetrCoapEap_ok {s t : Controller} {id : Nat} {p : Ptr} {call : Call}
    (h : processRetrCoapEap s id p call = .ok t) :
    (id ≠ postAlarm ∧ t = s) ∨ (id = postAlarm ∧ ∃ session u,
      session = { s.heap p with rtxCounter := (s.heap p).rtxCounter + 1 } ∧
      u = (cancelPostAlarm s (s.heap p).sessionId).setSession p session ∧
      ((session.rtxCounter < maxRetransmit ∧ session.lastSentMessage = none ∧ t = u) ∨
        (session.rtxCounter < maxRetransmit ∧
          ∃ pdu, session.lastSentMessage = some pdu ∧ (validate pdu).isSome ∧
            t = (addPostAlarm (cancelPostAlarm
              (u.setSession p { session with rt := session.rt * 2 }) session.sessionId)
                p call.now).record [.retransmitted p session.posts]) ∨
        (¬ session.rtxCounter < maxRetransmit ∧
          t = (removeCoapEapSession (removeCoapEapSession u session.sessionId)
            session.sessionId).record [.timedOut p]))) := by
  unfold processRetrCoapEap at h
  split at h
  · rename_i hid
    refine .inr ⟨hid, _, _, rfl, rfl, ?_⟩
    simp only at h
    split at h
    · rename_i hcount
      split at h
      · rename_i pdu hpdu
        refine .inr (.inl ⟨hcount, pdu, hpdu, ?_⟩)
        unfold coapRetransmitLastSentMessage at h
        split at h
        · simp at h
        · rename_i hvalid
          simp only [Controller.setSession_heap_self, Except.ok.injEq] at h
          exact ⟨by simpa [Option.isSome_iff_ne_none] using hvalid, h.symm⟩
      · rename_i hnone
        simp only [Except.ok.injEq] at h
        exact .inl ⟨hcount, hnone, h.symm⟩
    · rename_i hcount
      simp only [Except.ok.injEq] at h
      exact .inr (.inr ⟨hcount, h.symm⟩)
  · rename_i hid
    simp only [Except.ok.injEq] at h
    exact .inl ⟨hid, h.symm⟩

/-- A retransmission task changes nothing of its session but counter and
timeout. -/
theorem processRetrCoapEap_session {s t : Controller} {id : Nat} {p : Ptr} {call : Call}
    (h : processRetrCoapEap s id p call = .ok t) :
    t.heap p = { s.heap p with rtxCounter := (t.heap p).rtxCounter, rt := (t.heap p).rt } := by
  rcases processRetrCoapEap_ok h with ⟨-, rfl⟩ | ⟨-, session, u, rfl, rfl,
    ⟨-, -, rfl⟩ | ⟨-, pdu, -, -, rfl⟩ | ⟨-, rfl⟩⟩
  · rfl
  · simp [cancelPostAlarm]
  · simp [addPostAlarm, cancelPostAlarm]
  · simp [removeCoapEapSession, cancelPostAlarm]

theorem touches_processRetrCoapEap {s t : Controller} {id : Nat} {p : Ptr} {call : Call}
    (h : processRetrCoapEap s id p call = .ok t) : Touches p s t := by
  rcases processRetrCoapEap_ok h with ⟨-, rfl⟩ | ⟨-, session, u, rfl, rfl, hcase⟩
  · exact .refl ..
  · have hcounted : Touches p s ((cancelPostAlarm s (s.heap p).sessionId).setSession p
        { s.heap p with rtxCounter := (s.heap p).rtxCounter + 1 }) :=
      (touches_cancelPostAlarm p s _).trans (touches_setSession (by rfl) (by exact Nat.le_refl _))
    rcases hcase with ⟨-, -, rfl⟩ | ⟨-, pdu, -, -, rfl⟩ | ⟨-, rfl⟩
    · exact hcounted
    · refine (((hcounted.trans ?_).trans (touches_cancelPostAlarm ..)).trans
        (touches_addPostAlarm ..)).trans (touches_record ..)
      exact touches_setSession (by simp) (by simp)
    · exact ((hcounted.trans (touches_removeCoapEapSession ..)).trans
        (touches_removeCoapEapSession ..)).trans (touches_record ..)

/-- A retransmission task notes a retransmission of the POST outstanding in its
session, or that it gave the session up, or nothing. -/
theorem processRetrCoapEap_log {s t : Controller} {id : Nat} {p : Ptr} {call : Call}
    (h : processRetrCoapEap s id p call = .ok t) :
    t.log = s.log ∨ t.log = s.log ++ [.retransmitted p (s.heap p).posts] ∨
      t.log = s.log ++ [.timedOut p] := by
  rcases processRetrCoapEap_ok h with ⟨-, rfl⟩ | ⟨-, session, u, rfl, rfl,
    ⟨-, -, rfl⟩ | ⟨-, pdu, -, -, rfl⟩ | ⟨-, rfl⟩⟩
  · exact .inl rfl
  · exact .inl rfl
  · exact .inr (.inl rfl)
  · exact .inr (.inr rfl)

end CoapEap.Mainserver
