import CoapEap.Controller.Cancellation
import CoapEap.Controller.Creation
import CoapEap.Controller.Identifiers
import CoapEap.Controller.Routing
import CoapEap.Controller.Screening
import CoapEap.Controller.StaleExpiry
import CoapEap.Controller.Stranding

/-!
What still works on a session that is off the list. Tasks that look their session
up in the list find it no more, but alarms, retransmission tasks and handlers have
it by its pointer, and the contexts of the RADIUS client never leave their list.
-/

namespace CoapEap.Mainserver

open Cantcoap EapServer Lalarm Radius Library.Runs Library.FirstMatch

/-- The identifier under which a step calls `search_eap_ctx_rad_client`: that of an
answer which a worker looks up or whose handler accepts it. -/
def lookedUp (digests : Digests) (s : Controller) : Event → Option UInt8
  | .lookup i _ =>
    match s.workers[i]? with
    | some (.took (.processReceiveRadiusMsg msg)) => some msg.identifier
    | _ => none
  | .handle i _ =>
    match s.workers[i]? with
    | some (.receiveRadiusMsg msg _) =>
      (matching s.radius msg.identifier).bind fun entry =>
        if acceptsAnswer digests msg entry.msg then some msg.identifier else none
    | _ => none
  | _ => none

/-- The session that a step gets from `search_eap_ctx_rad_client`. -/
def resolved (digests : Digests) (s : Controller) (e : Event) : Option Ptr :=
  (lookedUp digests s e).bind (searchEapCtxRadClient s)

/-- The session whose EAP machine a step runs. -/
def runsMachine (digests : Digests) (s : Controller) : Event → Option Ptr
  | .handle i call =>
    ((eapRun s (.handle i call)).map Prod.fst).or (resolved digests s (.handle i call))
  | _ => none

/-- A session that was made and is off the list. -/
def Removed (s : Controller) (p : Ptr) : Prop := p < s.nextPtr ∧ p ∉ s.sessions

/-- The session a message was sent for. -/
def Occurrence.sends : Occurrence → Option Ptr
  | .sentPost p _ => some p
  | .retransmitted p _ => some p
  | _ => none

/-- The step sends nothing for the session, arms no alarm for it, does not run its
EAP machine and does not find its context. -/
structure LeavesQuiet (digests : Digests) (s : Controller) (e : Event) (t : Controller) (p : Ptr) :
    Prop where
  unsent : ∀ new, t.log = s.log ++ new → ∀ o ∈ new, o.sends ≠ some p
  unarmed : ∀ a ∈ t.alarms, a.session = p → a ∈ s.alarms
  notRun : runsMachine digests s e ≠ some p
  machine : (t.heap p).eapCtx.eap = (s.heap p).eapCtx.eap
  unresolved : resolved digests s e ≠ some p

/-- The task has the session by its pointer and is going to do something for it. An
acknowledgment in hand drives the EAP exchange only in state 2. -/
def Worker.engages (s : Controller) (p : Ptr) : Worker → Bool
  | .acknowledgment _ _ q => q = p && (s.heap p).currentState = 2
  | w => w.session = some p

/-- The handler of worker `i` takes sessions off the list: an acknowledgment in
state 3, or a retransmission that gives its session up. -/
def removes (s : Controller) : Worker → Option Ptr
  | .acknowledgment _ _ p => if (s.heap p).currentState = 3 then some p else none
  | .retrCoapEap _ id p =>
    if id = postAlarm ∧ ¬ (s.heap p).rtxCounter + 1 < maxRetransmit then some p else none
  | _ => none

/-- The alarms that such a handler leaves. -/
def alarmsBeside (s : Controller) (worker : Worker) (p : Ptr) : List Alarm :=
  let once := cancelPostAlarm s (s.sessionId p)
  match worker with
  | .acknowledgment _ _ _ => (cancelPostAlarm once (s.sessionId p)).alarms
  | _ => once.alarms

/-- Apart from worker `i` nothing has the session by its pointer: no alarm, no
retransmission under way, and no handler. -/
def releasedBy (s : Controller) (i : Nat) (alarms : List Alarm) (p : Ptr) : Bool :=
  alarms.all (fun a => a.session ≠ p) && !aimedAt (endWorker s i) p &&
    (s.others i).all fun w => !w.engages s p

/-- A context found under the identifier belongs to a listed session: each removed
session that has the identifier is older than a listed one that has it. -/
def outlived (s : Controller) (identifier : UInt8) : Bool :=
  s.radCtx.all fun p => s.radiusIdentifier p ≠ identifier || s.sessions.contains p ||
    s.sessions.any fun q => p < q && s.radiusIdentifier q = identifier

/-- A handler takes a session off the list only when nothing else has it by its
pointer, and an answer is looked up only while removed sessions with its identifier
are older than a listed one. -/
def releases (digests : Digests) (s : Controller) (e : Event) : Bool :=
  (lookedUp digests s e).all (outlived s) &&
    match e with
    | .handle i _ =>
      (s.workers[i]?).all fun worker => (removes s worker).all fun p =>
        s.sessions.all fun q => (withoutTwice s p).contains q ||
          releasedBy s i (alarmsBeside s worker p) q
    | _ => true

variable {digests : Digests} {s t u : Controller} {e : Event} {p q : Ptr} {i : Nat} {call : Call}

/-- Contexts stand in the order in which their sessions were made, the newest
first. -/
def NewestFirst (s : Controller) : Prop := s.radCtx = (List.range s.nextPtr).reverse

theorem NewestFirst.step (hs : NewestFirst s) (h : step digests s e = some t) :
    NewestFirst t := by
  obtain ⟨-, hmove⟩ := step_move h
  cases hmove with
  | created datagram source arrival =>
    have hfront : (newSession s (datagram.take (maxBufLen - 1)) source arrival).radCtx =
        s.nextPtr :: (List.range s.nextPtr).reverse :=
      congrArg (s.nextPtr :: ·) hs
    have hnext : (newSession s (datagram.take (maxBufLen - 1)) source arrival).nextPtr =
        s.nextPtr + 1 :=
      rfl
    rw [NewestFirst, hfront, hnext, List.range_succ, List.reverse_append]
    rfl
  | handledCoap | handledAcknowledgment | handledRadius | wroteIdentity | handedIdentity
  | handledRetr =>
    have hframe := handle_frame (step_move h).2
    rw [NewestFirst, hframe.radCtx, hframe.nextPtr]
    exact hs
  | _ => exact hs

theorem newestFirst {guard : Controller → Event → Prop}
    (h : ReachableUnder (Mainserver.step digests) guard initialController s) : NewestFirst s := by
  refine h.invariant ?_ fun _ _ _ _ hs _ hstep => hs.step hstep
  rfl

/-- A search under an identifier that the removed sessions have behind them finds a
listed one. -/
theorem NewestFirst.listed {identifier : UInt8} (hs : NewestFirst s) (hwf : WellFormed s)
    (houtlived : outlived s identifier = true)
    (hfound : searchEapCtxRadClient s identifier = some p) : p ∈ s.sessions := by
  obtain ⟨hmem, hid⟩ := searchEapCtx_mem hfound
  have hid : s.radiusIdentifier p = identifier := hid
  simp only [outlived, List.all_eq_true, Bool.or_eq_true, decide_eq_true_eq,
    List.contains_iff_mem, List.any_eq_true, Bool.and_eq_true] at houtlived
  rcases houtlived p hmem with (hother | hlisted) | ⟨q, hq, hyounger, hsame⟩
  · exact absurd hid hother
  · exact hlisted
  · -- the younger session stands in front and would have been found
    have horder : s.radCtx.Pairwise fun a b => b < a := by
      rw [hs]
      exact List.pairwise_reverse.mpr List.pairwise_lt_range
    have hcontext : q ∈ s.radCtx := by
      rw [hs]
      simpa using hwf.sessions q hq
    rcases find_first horder hfound hcontext (decide_eq_true hsame) with rfl | holder
    · exact hq
    · exact absurd hyounger (Nat.lt_asymm holder)

/-- Under the condition a step finds contexts of listed sessions only. -/
theorem resolved_listed (hs : NewestFirst s) (hwf : WellFormed s)
    (hguard : releases digests s e = true) (hresolved : resolved digests s e = some p) :
    p ∈ s.sessions := by
  obtain ⟨identifier, hlookedUp, hfound⟩ := Option.bind_eq_some_iff.mp hresolved
  simp only [releases, hlookedUp, Option.all_some, Bool.and_eq_true] at hguard
  exact hs.listed hwf hguard.1 hfound

structure Quiet (s : Controller) (p : Ptr) : Prop where
  disarmed : ∀ a ∈ s.alarms, a.session ≠ p
  notAimed : NotAimed s p
  released : ∀ w ∈ s.activities, w.engages s p = false

/-- Removed sessions are quiet. -/
def RemovedQuiet (s : Controller) : Prop := ∀ p, Removed s p → Quiet s p

theorem Quiet.notInHand {worker : Worker} (hq : Quiet s p) (hworker : s.workers[i]? = some worker)
    (hsession : worker.session = some q) (hother : worker.post = none) : q ≠ p := by
  have hreleased := hq.released _ (mem_activities_of_worker hworker)
  rintro rfl
  cases worker <;> simp_all [Worker.engages, Worker.session, Worker.post]

/-- Alarms after a handler of another session. -/
theorem Touches.disarmed (htouches : Touches q s u) (hother : q ≠ p)
    (h : ∀ a ∈ s.alarms, a.session ≠ p) : ∀ a ∈ u.alarms, a.session ≠ p := by
  intro a ha
  rcases htouches.alarms a ha with hold | ⟨howner, -⟩
  · exact h a hold
  · rw [howner]
    exact hother

theorem Touches.state (htouches : Touches q s u) (hother : p ≠ q) :
    (u.heap p).currentState = (s.heap p).currentState := by
  rw [htouches.others p hother]

/-- What a step does to a session that was quiet before it: nothing that counts. -/
structure StaysQuiet (s t : Controller) (p : Ptr) : Prop where
  alarms : ∀ a ∈ t.alarms, a.session ≠ p
  state : (t.heap p).currentState = (s.heap p).currentState

theorem Quiet.stays (hq : Quiet s p) (hmade : p < s.nextPtr) (h : step digests s e = some t) :
    StaysQuiet s t p := by
  have hother : ∀ {i : Nat} {worker : Worker} {q : Ptr}, s.workers[i]? = some worker →
      worker.session = some q → worker.post = none → q ≠ p :=
    fun hworker hsession hpost => hq.notInHand hworker hsession hpost
  have hran : ∀ {u : Controller} {q : Ptr}, Touches q s u → q ≠ p → StaysQuiet s u p :=
    fun htouches hne => ⟨htouches.disarmed hne hq.disarmed, htouches.state hne.symm⟩
  obtain ⟨-, hmove⟩ := step_move h
  cases hmove with
  | created datagram source arrival =>
    refine ⟨hq.disarmed, ?_⟩
    rw [newSession_heap_ne _ _ _ (Nat.ne_of_lt hmade)]
  | queued task q =>
    refine ⟨hq.disarmed, ?_⟩
    show ((s.setSession q _).heap p).currentState = _
    rw [Controller.setSession_heap]
    split
    · subst p
      rfl
    · rfl
  | popped time alarm rest hsweeping hlist =>
    exact ⟨fun a ha => hq.disarmed a (hlist ▸ List.mem_cons_of_mem _ ha), rfl⟩
  | handledCoap i call task q u hworker _ hresult =>
    have hstays := hran (touches_processCoapMsg hresult) (hother hworker rfl rfl)
    exact ⟨hstays.alarms, hstays.state⟩
  | handledAcknowledgment i call task post q u hworker _ hresult =>
    refine ⟨fun a ha => hq.disarmed a (processAcknowledgment_alarms hresult a ha), ?_⟩
    have hstate := (processAcknowledgment_effect hresult).2.2.1
    by_cases hself : p = q
    · subst hself
      exact hstate
    · exact (touches_processAcknowledgment hresult).state hself
  | handledRadius i call msg q u hworker _ hresult =>
    have hstays := hran (touches_processReceiveRadiusMsg hresult) (hother hworker rfl rfl)
    exact ⟨hstays.alarms, hstays.state⟩
  | wroteIdentity i call msg q u hworker _ hresult =>
    have hstays := hran (touches_processReceiveRadiusMsg hresult) (hother hworker rfl rfl)
    exact ⟨hstays.alarms, hstays.state⟩
  | handedIdentity i call q u hworker hresult =>
    have hstays := hran (touches_identityHandOver hresult) (hother hworker rfl rfl)
    exact ⟨hstays.alarms, hstays.state⟩
  | handledRetr i call origin id q u hworker _ hresult =>
    have hstays := hran (touches_processRetrCoapEap hresult) (hother hworker rfl rfl)
    exact ⟨hstays.alarms, hstays.state⟩
  | _ => exact ⟨hq.disarmed, rfl⟩

theorem engages_of_state {w : Worker} (h : (t.heap p).currentState = (s.heap p).currentState) :
    w.engages t p = w.engages s p := by
  cases w <;> simp [Worker.engages, h]

theorem not_engages_of_session {w : Worker} (h : w.session ≠ some p) :
    w.engages s p = false := by
  cases w <;> simp_all [Worker.engages, Worker.session]

/-- Nothing gets hold of a removed session again. -/
theorem Quiet.step (hq : Quiet s p) (hremoved : Removed s p)
    (hresolved : ∀ p, resolved digests s e = some p → p ∈ s.sessions)
    (hwritten : WrittenSession s) (h : step digests s e = some t) : Quiet t p := by
  obtain ⟨hmade, hunlisted⟩ := hremoved
  have hstays := hq.stays hmade h
  refine ⟨hstays.alarms, ?_, ?_⟩
  · refine hq.notAimed.step hwritten ?_ h
    intro time alarm rest _ _ hlist _
    exact hq.disarmed alarm (hlist ▸ List.mem_cons_self ..)
  · intro w hw
    rw [engages_of_state hstays.state]
    rcases step_activities h w hw with hold | harises
    · exact hq.released w hold
    · apply not_engages_of_session
      intro hsession
      cases harises with
      | foundCoap i stack task q hbefore hfound =>
        obtain rfl : q = p := by simpa [Worker.session] using hsession
        exact hunlisted (getCoapEapSession_mem hfound).1
      | foundAcknowledgment i stack task post q hbefore hfound =>
        obtain rfl : q = p := by simpa [Worker.session] using hsession
        exact hunlisted (getCoapEapSession_mem hfound).1
      | foundContext i stack msg q hworker hfound =>
        obtain rfl : q = p := by simpa [Worker.session] using hsession
        exact hunlisted (hresolved q (by simp [resolved, lookedUp, hworker, hfound]))
      | readSession i stack origin id hbefore =>
        have hnamed : s.retransParams.session = p := by simpa [Worker.session] using hsession
        have hnone := hq.notAimed.unread hnamed _ hbefore
        simp [Worker.unread] at hnone
      | wroteIdentity i call msg q hbefore =>
        obtain rfl : q = p := by simpa [Worker.session] using hsession
        have hreleased := hq.released _ hbefore
        simp [Worker.engages, Worker.session] at hreleased
      | _ => simp [Worker.session] at hsession

theorem processCoapMsg_sessions {task : NetworkTask} (h : processCoapMsg s task p call = .ok t) :
    t.sessions = s.sessions := by
  obtain ⟨u, session, packet, -, ⟨request, -, hstep⟩, -, -, rfl⟩ := processCoapMsg_ok h
  exact (stepSession_session hstep).2.2.1

theorem processReceiveRadiusMsg_sessions {msg : RadiusMsg} {identity : Bool}
    (h : processReceiveRadiusMsg digests s msg p call = .ok (t, identity)) :
    t.sessions = s.sessions := by
  obtain ⟨u, hu, -, hcase⟩ := processReceiveRadiusMsg_ok h
  have hsame := (radiusClientReceive_log hu).2.2
  rcases hcase with ⟨-, -, rfl, -⟩ | ⟨packet, -, ⟨-, rfl, -⟩ | ⟨-, hsend, -⟩⟩
  · exact hsame
  · exact hsame
  · rcases (sendRadiusPost_ok hsend).2 with ⟨-, rfl⟩ | ⟨-, rfl⟩
    · exact hsame
    · exact hsame

/-- The handler of worker `i` took sessions with the identifier of `q` off the list. -/
structure TakesOff (s t : Controller) (i : Nat) (worker : Worker) (q : Ptr) : Prop where
  working : s.workers[i]? = some worker
  removes : removes s worker = some q
  sessions : t.sessions = withoutTwice s q
  alarms : t.alarms = alarmsBeside s worker q
  alarmThread : t.alarmThread = s.alarmThread
  retransParams : t.retransParams = s.retransParams
  activities : t.activities = s.others i
  state : ∀ p, (t.heap p).currentState = (s.heap p).currentState

theorem processAcknowledgment_takesOff {task : NetworkTask} {post : Ptr × Nat}
    (hworker : s.workers[i]? = some (.acknowledgment task post q))
    (h : processAcknowledgment s task post q call = .ok u) :
    u.sessions = s.sessions ∨
      TakesOff s (endWorker u i) i (.acknowledgment task post q) q := by
  have htouches := touches_processAcknowledgment h
  obtain ⟨hothers, -, hstate, new, -, -, ⟨-, hsame, -⟩ | ⟨hthree, hsessions, -⟩ |
    ⟨-, -, hsame, -⟩⟩ := processAcknowledgment_effect h
  · exact .inl hsame
  · right
    obtain ⟨request, v, -, rfl, ⟨htwo, -, -⟩ | ⟨-, rfl⟩ | ⟨-, hnot, -⟩⟩ :=
      processAcknowledgment_ok h
    · rw [hthree] at htwo
      exact absurd htwo (by decide)
    · refine ⟨hworker, by simp [Mainserver.removes, hthree], hsessions, ?_,
        htouches.alarmThread, htouches.retransParams, htouches.othersOf i, ?_⟩
      · have hids : (s.setSession q { s.heap q with
            location := some (getLocation task.buf request 30) }).sessionId = s.sessionId :=
          setSession_sessionId (by rfl)
        show getAlarmCoapEapSession (s.setSession q _).sessionId
          (getAlarmCoapEapSession (s.setSession q _).sessionId s.alarms _ postAlarm) _ postAlarm = _
        rw [hids]
        rfl
      · intro p
        by_cases hself : p = q
        · subst hself
          exact hstate
        · exact htouches.state hself
    · exact absurd hthree hnot
  · exact .inl hsame

theorem processRetrCoapEap_takesOff {origin : Alarm} {id : Nat}
    (hworker : s.workers[i]? = some (.retrCoapEap origin id q))
    (h : processRetrCoapEap s id q call = .ok u) :
    u.sessions = s.sessions ∨
      TakesOff s (endWorker u i) i (.retrCoapEap origin id q) q := by
  have htouches := touches_processRetrCoapEap h
  have hstate : (u.heap q).currentState = (s.heap q).currentState := by
    rw [processRetrCoapEap_session h]
  rcases processRetrCoapEap_ok h with ⟨-, rfl⟩ | ⟨hid, session, v, rfl, rfl,
    ⟨-, -, rfl⟩ | ⟨-, pdu, -, -, rfl⟩ | ⟨hcount, rfl⟩⟩
  · exact .inl rfl
  · exact .inl rfl
  · exact .inl rfl
  · right
    have hids : ((cancelPostAlarm s (s.heap q).sessionId).setSession q
        { s.heap q with rtxCounter := (s.heap q).rtxCounter + 1 }).sessionId = s.sessionId :=
      setSession_sessionId (by rfl)
    refine ⟨hworker, by simpa [removes, hid] using hcount, removeTwice_sessions hids rfl, rfl,
      htouches.alarmThread, htouches.retransParams, htouches.othersOf i, ?_⟩
    intro p
    by_cases hself : p = q
    · subst hself
      exact hstate
    · exact htouches.state hself

theorem step_takesOff (h : step digests s e = some t) :
    (∀ p ∈ s.sessions, p ∈ t.sessions) ∨
      ∃ i call worker q, e = .handle i call ∧ TakesOff s t i worker q := by
  have hkept : ∀ {u : Controller}, u.sessions = s.sessions → ∀ p ∈ s.sessions, p ∈ u.sessions :=
    fun heq p hp => heq ▸ hp
  obtain ⟨-, hmove⟩ := step_move h
  cases hmove with
  | created => exact .inl fun p hp => List.mem_cons_of_mem _ hp
  | handledCoap i call task q u hworker _ hresult =>
    have hsame : u.sessions = s.sessions := processCoapMsg_sessions hresult
    exact .inl (hkept hsame)
  | handledAcknowledgment i call task post q u hworker _ hresult =>
    rcases processAcknowledgment_takesOff hworker hresult with hsame | htakes
    · exact .inl (hkept hsame)
    · exact .inr ⟨i, call, _, q, rfl, htakes⟩
  | handledRadius i call msg q u hworker _ hresult =>
    have hsame : u.sessions = s.sessions := processReceiveRadiusMsg_sessions hresult
    exact .inl (hkept hsame)
  | wroteIdentity i call msg q u hworker _ hresult =>
    have hsame : u.sessions = s.sessions := processReceiveRadiusMsg_sessions hresult
    exact .inl (hkept hsame)
  | handedIdentity i call q u hworker hresult =>
    have hsame : u.sessions = s.sessions := (stepSession_session hresult).2.2.1
    exact .inl (hkept hsame)
  | handledRetr i call origin id q u hworker _ hresult =>
    rcases processRetrCoapEap_takesOff hworker hresult with hsame | htakes
    · exact .inl (hkept hsame)
    · exact .inr ⟨i, call, _, q, rfl, htakes⟩
  | _ => exact .inl fun p hp => hp

/-- A session that leaves the list is quiet from then on. -/
theorem TakesOff.quiet {worker : Worker} (h : TakesOff s t i worker q)
    (hguard : releases digests s (.handle i call) = true) (hlisted : p ∈ s.sessions)
    (hleft : p ∉ t.sessions) : Quiet t p := by
  simp only [releases, h.working, Option.all_some, h.removes, Bool.and_eq_true, List.all_eq_true,
    Bool.or_eq_true, List.contains_iff_mem] at hguard
  have hreleased : releasedBy s i (alarmsBeside s worker q) p = true := by
    rcases hguard.2 p hlisted with hstays | hreleased
    · exact absurd (h.sessions ▸ hstays) hleft
    · exact hreleased
  simp only [releasedBy, Bool.and_eq_true, List.all_eq_true, decide_eq_true_eq,
    Bool.not_eq_true'] at hreleased
  obtain ⟨⟨halarms, haimed⟩, hothers⟩ := hreleased
  have hnotAimed := aimedAt_eq_false.mp haimed
  refine ⟨?_, ?_, ?_⟩
  · rw [h.alarms]
    exact halarms
  · constructor
    · rw [h.alarmThread]
      exact hnotAimed.popped
    · rw [h.retransParams, h.activities]
      exact hnotAimed.unread
    · rw [h.activities]
      exact hnotAimed.inHand
  · rw [h.activities]
    intro w hw
    rw [engages_of_state (h.state p)]
    exact hothers w hw

/-- A session that a step makes is listed. -/
theorem step_made (hunlisted : p ∉ t.sessions) (hmade : p < t.nextPtr)
    (h : step digests s e = some t) : p < s.nextPtr := by
  obtain ⟨-, hmove⟩ := step_move h
  cases hmove with
  | created datagram source arrival =>
    have hfront : p ∉ s.nextPtr :: s.sessions := hunlisted
    have hmade : p < s.nextPtr + 1 := hmade
    have hother : p ≠ s.nextPtr := fun heq => hfront (heq ▸ List.mem_cons_self ..)
    exact Nat.lt_of_le_of_ne (Nat.le_of_lt_succ hmade) hother
  | handledCoap | handledAcknowledgment | handledRadius | wroteIdentity | handedIdentity
  | handledRetr =>
    rw [(handle_frame (step_move h).2).nextPtr] at hmade
    exact hmade
  | _ => exact hmade

theorem RemovedQuiet.step (hs : RemovedQuiet s) (hreach : Reachable digests s)
    (hguard : releases digests s e = true) (h : step digests s e = some t) : RemovedQuiet t := by
  have hwf := wellFormed hreach
  intro p hremoved
  obtain ⟨hmade, hunlisted⟩ := hremoved
  by_cases hlisted : p ∈ s.sessions
  · rcases step_takesOff h with hkept | ⟨i, call, worker, q, rfl, htakes⟩
    · exact absurd (hkept p hlisted) hunlisted
    · exact htakes.quiet hguard hlisted hunlisted
  · have hbefore : Removed s p := ⟨step_made hunlisted hmade h, hlisted⟩
    exact (hs p hbefore).step hbefore
      (fun q hq => resolved_listed (newestFirst hreach) hwf hguard hq) (writtenSession hreach) h

/-- The runs whose steps release what they take off the list. -/
abbrev Releasing (digests : Digests) : Controller → Prop :=
  ReachableUnder (Mainserver.step digests) (fun s e => releases digests s e = true)
    initialController

theorem removedQuiet (h : Releasing digests s) : RemovedQuiet s := by
  refine h.invariant ?_ fun _ _ _ hreach hs hguard hstep => hs.step hreach.reachable hguard hstep
  intro p hremoved
  exact absurd hremoved.1 (Nat.not_lt_zero p)

/-- Only a handler with the session in hand sends for it, and no acknowledgment
does. -/
theorem step_sends (h : Mainserver.step digests s e = some t) :
    ∃ new, t.log = s.log ++ new ∧ ∀ o ∈ new, ∀ p, o.sends = some p →
      ∃ i call worker, e = .handle i call ∧ s.workers[i]? = some worker ∧
        worker.session = some p ∧ worker.post = none := by
  have hsilent : ∀ {o : Occurrence}, o.sends = none → t.log = s.log ++ [o] →
      ∃ new, t.log = s.log ++ new ∧ ∀ o ∈ new, ∀ p, o.sends = some p →
        ∃ i call worker, e = .handle i call ∧ s.workers[i]? = some worker ∧
          worker.session = some p ∧ worker.post = none := by
    intro o hnone hlog
    refine ⟨[o], hlog, ?_⟩
    intro o' ho' p hp
    rw [List.mem_singleton.mp ho', hnone] at hp
    simp at hp
  obtain ⟨-, hmove⟩ := step_move h
  cases hmove with
  | queued task p => exact hsilent (o := .ackQueued (p, (s.heap p).posts)) rfl rfl
  | readSession i stack origin id =>
    exact hsilent (o := .retrRead origin s.retransParams.session id) rfl rfl
  | popped time alarm => exact hsilent (o := .expired alarm) rfl rfl
  | handledCoap i call task q u hworker _ hresult =>
    obtain ⟨new, hlog, hnew⟩ := processCoapMsg_log hresult
    refine ⟨new, hlog, ?_⟩
    intro o ho p hp
    refine ⟨i, call, _, rfl, hworker, ?_, rfl⟩
    rcases hnew o ho with ⟨identifier, rfl⟩ | ⟨post, rfl⟩
    · simp [Occurrence.sends] at hp
    · exact hp
  | handledAcknowledgment i call task post q u hworker _ hresult =>
    obtain ⟨new, hlog, hnew⟩ := processAcknowledgment_log hresult
    refine ⟨_, hlog, ?_⟩
    intro o ho p hp
    rcases List.mem_append.mp ho with hnoted | hrest
    · split at hnoted
      · rw [List.mem_singleton.mp hnoted] at hp
        simp [Occurrence.sends] at hp
      · simp at hnoted
    · rcases hnew with ⟨requests, rfl, hrequests⟩ | ⟨-, rfl⟩ | rfl
      · rcases List.mem_cons.mp hrest with rfl | hrequest
        · simp [Occurrence.sends] at hp
        · obtain ⟨identifier, rfl⟩ := hrequests o hrequest
          simp [Occurrence.sends] at hp
      · rw [List.mem_singleton.mp hrest] at hp
        simp [Occurrence.sends] at hp
      · simp at hrest
  | handledRadius i call msg q u hworker _ hresult =>
    obtain ⟨new, hlog, hnew⟩ := processReceiveRadiusMsg_log hresult
    refine ⟨new, hlog, ?_⟩
    intro o ho p hp
    obtain ⟨post, rfl⟩ := hnew o ho
    exact ⟨i, call, _, rfl, hworker, hp, rfl⟩
  | wroteIdentity i call msg q u hworker _ hresult =>
    obtain ⟨new, hlog, hnew⟩ := processReceiveRadiusMsg_log hresult
    refine ⟨new, hlog, ?_⟩
    intro o ho p hp
    obtain ⟨post, rfl⟩ := hnew o ho
    exact ⟨i, call, _, rfl, hworker, hp, rfl⟩
  | handedIdentity i call q u hworker hresult =>
    obtain ⟨new, hlog, hnew⟩ := stepSession_log hresult
    refine ⟨new, hlog, ?_⟩
    intro o ho p hp
    obtain ⟨identifier, rfl⟩ := hnew o ho
    simp [Occurrence.sends] at hp
  | handledRetr i call origin id q u hworker _ hresult =>
    rcases processRetrCoapEap_log hresult with hlog | hlog | hlog
    · exact ⟨[], hlog.trans (List.append_nil _).symm, by simp⟩
    · refine ⟨_, hlog, ?_⟩
      intro o ho p hp
      rw [List.mem_singleton.mp ho] at hp
      exact ⟨i, call, _, rfl, hworker, hp, rfl⟩
    · exact hsilent (o := .timedOut q) rfl hlog
  | _ => exact ⟨[], (List.append_nil _).symm, by simp⟩

/-- The machine that a handler runs on its own account is that of the session it has
in hand. -/
theorem engages_of_eapRun {run : Ptr × EapAuthCtx × Call}
    (h : eapRun s (.handle i call) = some run) :
    ∃ worker, s.workers[i]? = some worker ∧ worker.engages s run.1 = true := by
  simp only [eapRun] at h
  split at h
  · rename_i task p hworker
    obtain rfl := Option.some.inj h
    exact ⟨_, hworker, by simp [Worker.engages, Worker.session]⟩
  · rename_i task post p hworker
    split at h
    · rename_i hstate
      obtain ⟨request, -, rfl⟩ := Option.map_eq_some_iff.mp h
      exact ⟨_, hworker, by simp [Worker.engages, hstate]⟩
    · simp at h
  · rename_i p hworker
    obtain rfl := Option.some.inj h
    exact ⟨_, hworker, by simp [Worker.engages, Worker.session]⟩
  · simp at h

/-- The machine of a quiet session is not run. -/
theorem Quiet.notRun (hq : Quiet s p) (hresolved : resolved digests s e ≠ some p) :
    runsMachine digests s e ≠ some p := by
  cases e with
  | handle i call =>
    intro hruns
    rcases Option.or_eq_some_iff.mp hruns with hown | ⟨-, hanswered⟩
    · obtain ⟨run, hrun, rfl⟩ := Option.map_eq_some_iff.mp hown
      obtain ⟨worker, hworker, hengages⟩ := engages_of_eapRun hrun
      rw [hq.released worker (mem_activities_of_worker hworker)] at hengages
      exact Bool.noConfusion hengages
    · exact hresolved hanswered
  | _ => simp [runsMachine]

/-- A machine that a step does not run is as it was. -/
theorem machine_kept (hmade : p < s.nextPtr) (hq : Quiet s p)
    (hresolved : resolved digests s e ≠ some p) (h : Mainserver.step digests s e = some t) :
    (t.heap p).eapCtx.eap = (s.heap p).eapCtx.eap := by
  have hidle : ∀ {i : Nat} {worker : Worker}, s.workers[i]? = some worker →
      worker.engages s p = true → False := by
    intro i worker hworker hengages
    rw [hq.released worker (mem_activities_of_worker hworker)] at hengages
    exact Bool.noConfusion hengages
  have hmove := step_machine h p
  generalize (t.heap p).eapCtx.eap = eap at hmove
  cases hmove with
  | created _ hnew => exact absurd hnew (Nat.ne_of_lt hmade)
  | kept => rfl
  | opened i call task rand hworker =>
    exact (hidle hworker (by simp [Worker.engages, Worker.session])).elim
  | responded i call data rand hworker =>
    rcases hworker with hworker | ⟨hstate, task, post, hworker⟩
    · exact (hidle hworker (by simp [Worker.engages, Worker.session])).elim
    · exact (hidle hworker (by simp [Worker.engages, hstate])).elim
  | answered i call msg q entry hworker hwaiting haccepted hfound =>
    exact absurd (by simp [resolved, lookedUp, hworker, hwaiting, haccepted, hfound]) hresolved

/-- In every run whose steps release what they take off the list, a removed session
stays quiet. -/
theorem removed_session_stays_quiet (h : Releasing digests s)
    (hguard : releases digests s e = true) (hstep : Mainserver.step digests s e = some t)
    (hremoved : Removed s p) : LeavesQuiet digests s e t p := by
  have hq := removedQuiet h p hremoved
  have hresolved : resolved digests s e ≠ some p := fun hfound =>
    hremoved.2 (resolved_listed (newestFirst h) (wellFormed h) hguard hfound)
  constructor
  · obtain ⟨new, hlog, hsends⟩ := step_sends hstep
    intro new' hlog' o ho hp
    obtain rfl : new' = new := List.append_cancel_left (hlog'.symm.trans hlog)
    obtain ⟨i, call, worker, -, hworker, hsession, hpost⟩ := hsends o ho p hp
    exact hq.notInHand hworker hsession hpost rfl
  · intro a ha howner
    exact absurd howner ((hq.stays hremoved.1 hstep).alarms a ha)
  · exact hq.notRun hresolved
  · exact machine_kept hremoved.1 hq hresolved hstep
  · exact hresolved

/-- One of two sessions is given up, and then the server answers the other one's
request, under an identifier that both have. -/
def answeredAfterOther : List Event :=
  oneOfTwoGivesUp ++
    [.recvCoap (ackDatagram 2 1) ⟨[1], 5683⟩ {}, .lockAcknowledgment, .getTask, .lookup 0 [],
      .handle 0 { authenticator := requestAuthenticator },
      .recvRadius (accessChallengeDatagram false), .getTask]

theorem answer_finds_listed_session : ∃ s t, Releasing challengeDigests s ∧
    Mainserver.step challengeDigests s (.lookup 0 []) = some t ∧ Removed s 0 ∧
      resolved challengeDigests s (.lookup 0 []) = some 1 ∧
        LeavesQuiet challengeDigests s (.lookup 0 []) t 0 := by
  have hrun : (run (guarded (Mainserver.step challengeDigests) fun s e =>
      releases challengeDigests s e = true) initialController answeredAfterOther).any
        (fun s => (Mainserver.step challengeDigests s (.lookup 0 [])).isSome &&
          (releases challengeDigests s (.lookup 0 []) && (s.sessions == [1] &&
            (s.nextPtr == 2 && resolved challengeDigests s (.lookup 0 []) == some 1)))) = true := by
    decide +kernel
  obtain ⟨s, hs, hcheck⟩ := exists_of_run hrun
  simp only [Bool.and_eq_true, beq_iff_eq] at hcheck
  obtain ⟨hsteps, hguard, hlisted, hnext, hfound⟩ := hcheck
  obtain ⟨t, hstep⟩ := Option.isSome_iff_exists.mp hsteps
  have hreach := reachableUnder_of_run hs
  have hremoved : Removed s 0 := by
    constructor
    · rw [hnext]
      decide
    · rw [hlisted]
      decide
  exact ⟨s, t, hreach, hstep, hremoved, hfound,
    removed_session_stays_quiet hreach hguard hstep hremoved⟩

/-- A session acknowledges its first POST and is given up while its request waits.
Then the server answers, twice. -/
def answeredLate : List Event :=
  comesIn 1 ++
    [.recvCoap (ackDatagram 1 1) ⟨[1], 5683⟩ {}, .lockAcknowledgment, .getTask, .lookup 0 [],
      .handle 0 { authenticator := requestAuthenticator }] ++
    expires 3 ++ [.alarmStep] ++ expires 5 ++ [.alarmStep] ++ expires 9 ++ [.alarmStep] ++
    expires 17 ++
    [.recvRadius (accessChallengeDatagram false), .getTask, .lookup 0 [], .handle 0 {},
      .handle 0 { authenticator := requestAuthenticator },
      .recvRadius (accessChallengeDatagram true), .getTask, .lookup 0 []]

/-- The second answer makes the controller send a POST for the session and arm an
alarm for it. -/
theorem late_answer_revives_session :
    ¬ ∀ digests s e t p, Reachable digests s → Mainserver.step digests s e = some t →
      Removed s p → LeavesQuiet digests s e t p := by
  intro hstated
  have hrun : (run (Mainserver.step challengeDigests) initialController answeredLate).any
      (fun s => s.sessions == [] && (s.nextPtr == 1 && (s.alarms == [] &&
        (Mainserver.step challengeDigests s (.handle 0 {})).any fun t =>
          t.alarms.any fun a => a.session = 0))) = true := by
    decide +kernel
  obtain ⟨s, hs, hcheck⟩ := exists_of_run hrun
  simp only [Bool.and_eq_true, beq_iff_eq, Option.any_eq_true, List.any_eq_true,
    decide_eq_true_eq] at hcheck
  obtain ⟨hlisted, hnext, hdisarmed, t, hstep, a, ha, howner⟩ := hcheck
  have hremoved : Removed s 0 := by
    constructor
    · rw [hnext]
      decide
    · rw [hlisted]
      decide
  have hquiet := hstated challengeDigests s _ t 0 (reachable_of_run hs) hstep hremoved
  have hold := hquiet.unarmed a ha howner
  simp [hdisarmed] at hold

end CoapEap.Mainserver
