import CoapEap.Controller.Completion
import CoapEap.Controller.HandOver
import CoapEap.Controller.StoredPosts

/-!
No session is stranded as long as every handler hands its session over. The
obligation moves from the alarm to its task, from the task to a new alarm or to a
request for the RADIUS server, and from the answer back to an alarm, while answers
and requests work on the list of waiting requests one statement at a time.
-/

namespace CoapEap.Mainserver

open Cantcoap EapServer Lalarm Radius Library.Runs Relation

/-- The task, wherever it stands, is going to work on the session. Which session a
RADIUS answer in the queue works on is open until its context is looked up. -/
def ActsOn (s : Controller) (p : Ptr) : Worker → Prop
  | .took (.processCoapMsg task) => task.sessionId = s.sessionId p
  | .took (.processAcknowledgment _ post) => post.1 = p
  | .took (.processReceiveRadiusMsg _) => False
  | .took (.processRetrCoapEap _) =>
    s.retransParams.session = p ∧ s.retransParams.id = postAlarm
  | .retrId _ id => s.retransParams.session = p ∧ id = postAlarm
  | .retrCoapEap _ id q => q = p ∧ id = postAlarm
  | w => w.session = some p

inductive Pending (s : Controller) (p : Ptr) : Prop
  | alarm (a : Alarm) (h : a ∈ s.alarms) (owner : a.session = p) (kind : a.id = postAlarm)
  | expiring (a : Alarm) (h : s.alarmThread.alarm = some a) (owner : a.session = p)
      (kind : a.id = postAlarm)
  | task (w : Worker) (h : w ∈ s.activities) (acts : ActsOn s p w)
  | request (entry : RadiusMsgList) (h : entry ∈ s.radius.msgs) (owner : entry.session = p)

/-- Something is going to move the session on, and its mutex does not stand in the
way: it is free, or in the hands of a worker that gives it back. -/
structure MovesOn (s : Controller) (p : Ptr) : Prop where
  pending : Pending s p
  unlocked : (s.heap p).mutex = true → .radiusIdentity p ∈ s.activities

def NoneStranded (s : Controller) : Prop := ∀ p ∈ s.sessions, MovesOn s p

variable {digests : Digests} {s t u : Controller} {e : Event} {p q : Ptr} {i : Nat} {call : Call}
variable {requests : List RadiusMsgList} {here after : Overlapping}

/-- The session was made and has a POST to send again. -/
def HasPost (s : Controller) (p : Ptr) : Prop :=
  p < s.nextPtr ∧ (s.heap p).lastSentMessage ≠ none

/-- A session with an alarm, in the list, popped or in a task, has a POST to send
again. -/
structure ArmedStored (s : Controller) : Prop where
  alarms : ∀ a ∈ s.alarms, HasPost s a.session
  popped : ∀ a, s.alarmThread.alarm = some a → HasPost s a.session
  origins : ∀ w ∈ s.activities, ∀ a, w.origin = some a → HasPost s a.session

theorem SessionChange.keepsPost {x y : Session} (h : SessionChange digests x y)
    (hx : x.lastSentMessage ≠ none) : y.lastSentMessage ≠ none := by
  cases h with
  | opened | posted => simp [storePost]
  | _ => exact hx

theorem HasPost.step (hp : HasPost s p) (hshort : ShortRequests s)
    (h : step digests s e = some t) : HasPost t p := by
  obtain ⟨hmade, hstored⟩ := hp
  refine ⟨Nat.lt_of_lt_of_le hmade (step_grows h).nextPtr, ?_⟩
  rcases step_session hshort h p with ⟨hnew, -⟩ | hchanges
  · exact absurd hnew (Nat.ne_of_lt hmade)
  · have hkeeps : ∀ x y : Session, SessionChange digests x y → x.lastSentMessage ≠ none →
        y.lastSentMessage ≠ none :=
      fun _ _ hchange => hchange.keepsPost
    exact sessionChanges_keep hkeeps hchanges hstored

/-- The handler stored a POST or put no alarm into the list. -/
def PostBehindAlarm (s t : Controller) (p : Ptr) : Prop :=
  (t.heap p).lastSentMessage ≠ none ∨ ∀ a ∈ t.alarms, a ∈ s.alarms

theorem armPost_stored (session : Session) (pdu : Bytes) (now : Rat) :
    ((armPost s p session pdu now).heap p).lastSentMessage ≠ none := by
  rw [armPost_session]
  simp [storePost]

theorem processCoapMsg_stored {task : NetworkTask} (h : processCoapMsg s task p call = .ok t) :
    PostBehindAlarm s t p := by
  obtain ⟨u, session, packet, -, -, -, -, rfl⟩ := processCoapMsg_ok h
  exact .inl (armPost_stored _ _ call.now)

/-- An acknowledgment puts no alarm into the list. -/
theorem processAcknowledgment_alarms {task : NetworkTask} {post : Ptr × Nat}
    (h : processAcknowledgment s task post p call = .ok t) : ∀ a ∈ t.alarms, a ∈ s.alarms := by
  obtain ⟨request, u, -, rfl, ⟨-, -, hstep⟩ | ⟨-, rfl⟩ | ⟨-, -, rfl⟩⟩ :=
    processAcknowledgment_ok h
  · have halarms := (stepSession_session hstep).2.1
    exact fun a ha => halarms ▸ ha
  · exact fun a ha => mem_of_mem_getAlarm (mem_of_mem_getAlarm ha)
  · exact fun _ ha => ha

theorem processReceiveRadiusMsg_stored {msg : RadiusMsg} {identity : Bool}
    (h : processReceiveRadiusMsg digests s msg p call = .ok (t, identity)) :
    PostBehindAlarm s t p := by
  obtain ⟨u, hu, -, hcase⟩ := processReceiveRadiusMsg_ok h
  have halarms := (radiusClientReceive_log hu).2.1
  rcases hcase with ⟨-, -, rfl, -⟩ | ⟨packet, -, ⟨-, rfl, -⟩ | ⟨-, hsend, -⟩⟩
  · exact .inr fun a ha => halarms ▸ ha
  · exact .inr fun a ha => halarms ▸ mem_of_mem_getAlarm ha
  · rcases (sendRadiusPost_ok hsend).2 with ⟨-, rfl⟩ | ⟨-, rfl⟩
    · exact .inl (armPost_stored _ _ call.now)
    · exact .inr fun a ha => halarms ▸ ha

theorem processRetrCoapEap_stored {id : Nat} (h : processRetrCoapEap s id p call = .ok t) :
    PostBehindAlarm s t p := by
  rcases processRetrCoapEap_ok h with ⟨-, rfl⟩ | ⟨-, session, u, rfl, rfl,
    ⟨-, -, rfl⟩ | ⟨-, pdu, hpdu, -, rfl⟩ | ⟨-, rfl⟩⟩
  · exact .inr fun _ ha => ha
  · exact .inr fun _ ha => mem_of_mem_getAlarm ha
  · left
    have hpdu : (s.heap p).lastSentMessage = some pdu := hpdu
    simp [addPostAlarm, cancelPostAlarm, hpdu]
  · exact .inr fun _ ha => mem_of_mem_getAlarm ha

/-- Every alarm after a step was there before it or has a POST behind it. -/
theorem step_alarmsStored (h : step digests s e = some t) : ∀ a ∈ t.alarms,
    a ∈ s.alarms ∨ (t.heap a.session).lastSentMessage ≠ none := by
  have hran : ∀ {u : Controller} {p : Ptr}, Touches p s u → PostBehindAlarm s u p →
      ∀ a ∈ u.alarms, a ∈ s.alarms ∨ (u.heap a.session).lastSentMessage ≠ none := by
    intro u p htouches hstored a ha
    rcases htouches.alarms a ha with hold | ⟨rfl, -⟩
    · exact .inl hold
    · rcases hstored with hposted | hnone
      · exact .inr hposted
      · exact .inl (hnone a ha)
  obtain ⟨-, hmove⟩ := step_move h
  intro a ha
  cases hmove with
  | popped time alarm rest hsweeping hlist => exact .inl (hlist ▸ List.mem_cons_of_mem _ ha)
  | handledCoap i call task p u _ _ hresult =>
    exact hran (touches_processCoapMsg hresult) (processCoapMsg_stored hresult) a ha
  | handledAcknowledgment i call task post p u _ _ hresult =>
    exact hran (touches_processAcknowledgment hresult)
      (.inr (processAcknowledgment_alarms hresult)) a ha
  | handledRadius i call msg p u _ _ hresult =>
    exact hran (touches_processReceiveRadiusMsg hresult)
      (processReceiveRadiusMsg_stored hresult) a ha
  | wroteIdentity i call msg p u _ _ hresult =>
    exact hran (touches_processReceiveRadiusMsg hresult)
      (processReceiveRadiusMsg_stored hresult) a ha
  | handedIdentity i call p u _ hresult =>
    have halarms : u.alarms = s.alarms := (stepSession_session hresult).2.1
    exact .inl (halarms ▸ ha)
  | handledRetr i call origin id p u _ _ hresult =>
    exact hran (touches_processRetrCoapEap hresult) (processRetrCoapEap_stored hresult) a ha
  | _ => exact .inl ha

theorem ArmedStored.step (hs : ArmedStored s) (hshort : ShortRequests s)
    (hreferred : ReferredMade s) (h : step digests s e = some t) : ArmedStored t := by
  have hkeeps : ∀ {p}, HasPost s p → HasPost t p := fun hp => hp.step hshort h
  obtain ⟨halarms, hpopped, horigins⟩ := hs
  refine ⟨?_, ?_, ?_⟩
  · intro a ha
    rcases step_alarmsStored h a ha with hold | hstored
    · exact hkeeps (halarms a hold)
    · have hmade := hreferred a.session (step_armed h a ha)
      exact ⟨Nat.lt_of_lt_of_le hmade (step_grows h).nextPtr, hstored⟩
  · intro a ha
    cases step_retrMove h with
    | apart _ _ hleaves => exact hkeeps (hpopped a (hleaves.alarmThread ▸ ha))
    | readId | readSession => exact hkeeps (hpopped a ha)
    | swept _ stage _ hafter => simp [hafter] at ha
    | popped time alarm rest hsweeping hlist =>
      obtain rfl : alarm = a := by simpa [AlarmThread.alarm] using ha
      exact hkeeps (halarms alarm (hlist ▸ List.mem_cons_self ..))
    | wroteSession time alarm hstage | clearedId time alarm hstage
    | wroteId time alarm hstage => exact hkeeps (hpopped a (by rw [hstage]; exact ha))
    | unknownAlarm | queuedRetr => simp [AlarmThread.alarm] at ha
  · intro w hw a ha
    cases step_retrMove h with
    | apart _ _ hleaves =>
      rcases hleaves.members w hw with hold | hnone
      · exact hkeeps (horigins w hold a ha)
      · simp [hnone] at ha
    | readId i stack origin hworker =>
      rcases mem_activities_setWorker hw with rfl | hold
      · exact hkeeps (horigins _ (mem_activities_of_worker hworker) a ha)
      · exact hkeeps (horigins w hold a ha)
    | readSession i stack origin id hworker =>
      have hw : w ∈ (setWorker s i (.retrCoapEap origin id s.retransParams.session)).activities :=
        hw
      rcases mem_activities_setWorker hw with rfl | hold
      · exact hkeeps (horigins _ (mem_activities_of_worker hworker) a ha)
      · exact hkeeps (horigins w hold a ha)
    | queuedRetr time alarm hstage =>
      rcases mem_activities_addTask hw with rfl | hold
      · obtain rfl : alarm = a := by simpa [Worker.origin] using ha
        exact hkeeps (hpopped alarm (by rw [hstage]; rfl))
      · exact hkeeps (horigins w hold a ha)
    | swept | popped | wroteSession | clearedId | wroteId | unknownAlarm =>
      exact hkeeps (horigins w hw a ha)

/-- A retransmission task has its own alarm's session and kind in hand. -/
def RetrOwn (s : Controller) : Prop :=
  ∀ origin id p, .retrCoapEap origin id p ∈ s.activities → p = origin.session ∧ id = postAlarm

theorem RetrOwn.step (hs : RetrOwn s) (hparams : ParamsHold s) (hposts : PostAlarms s)
    (h : step digests s e = some t) : RetrOwn t := by
  intro origin id p hmem
  rcases step_activities h _ hmem with hold | harises
  · exact hs origin id p hold
  · cases harises with
    | readSession i stack _ _ hbefore =>
      constructor
      · exact hparams.sessions _ hbefore origin rfl
      · rw [hparams.readIds origin id hbefore]
        exact hposts.unread _ hbefore origin rfl

/-- What every state keeps as long as identifiers stay apart and the parameters of
retransmissions are not written over too early. Nothing of it is about the RADIUS client. -/
structure Steady (s : Controller) : Prop where
  wellFormed : WellFormed s
  written : WrittenSession s
  referred : ReferredMade s
  short : ShortRequests s
  posts : PostAlarms s
  ids : IdsApart s
  params : ParamsHold s
  own : RetrOwn s
  stored : ArmedStored s

theorem Steady.step (hs : Steady s) (hids : keepsIdsApart s e = true)
    (hparams : overwritesNoUnread s e = true) (h : step digests s e = some t) : Steady t where
  wellFormed := wellFormed_step hs.wellFormed h
  written := hs.written.step h
  referred := hs.referred.step hs.wellFormed hs.written h
  short := hs.short.step h
  posts := hs.posts.step h
  ids := hs.ids.step hs.wellFormed hs.referred hs.written hs.posts hids h
  params := hs.params.step hs.posts hs.written hparams h
  own := hs.own.step hs.params hs.posts h
  stored := hs.stored.step hs.short hs.referred h

theorem steady_initial (digests : Digests) : Steady initialController := by
  have hstart : Reachable digests initialController := .start
  constructor
  · exact wellFormed hstart
  · exact writtenSession hstart
  · exact referredMade hstart
  · exact shortRequests hstart
  · exact postAlarms hstart
  · exact @idsApart digests _ .start
  · exact @paramsHold _ digests .start
  · simp [RetrOwn, initialController, Controller.activities]
  · constructor <;> simp [initialController, Controller.activities, AlarmThread.alarm]

theorem Steady.of_client (hs : Steady s) (radius : RadiusClient) (eapReqId : Bytes) :
    Steady { s with radius, eapReqId } := by
  have hreferred : ∀ p, Referred { s with radius, eapReqId } p → Referred s p := by
    intro p hp
    cases hp with
    | listed h => exact .listed h
    | armed a h owner => exact .armed a h owner
    | popped a h owner => exact .popped a h owner
    | inHand w h session => exact .inHand w h session
    | acknowledges w post h answers owner => exact .acknowledges w post h answers owner
    | named h => exact .named h
    | params h session => exact .params h session
  obtain ⟨hwf, hwritten, hmade, hshort, hposts, hids, hparams, hown, hstored⟩ := hs
  constructor
  · exact ⟨hwf.sessions, hwf.contexts, hwf.activities, hwf.networkThread, hwf.acknowledged⟩
  · exact hwritten
  · exact fun p hp => hmade p (hreferred p hp)
  · exact hshort
  · exact ⟨hposts.alarms, hposts.popped, hposts.unread⟩
  · exact ⟨fun p q hp hq => hids.apart p q (hreferred p hp) (hreferred q hq), hids.listedOnce,
      hids.armedOnce, hids.named, hids.queued, hids.found⟩
  · exact ⟨hparams.sessions, hparams.ids, hparams.idWritten, hparams.readIds, hparams.reads⟩
  · exact hown
  · exact ⟨hstored.alarms, hstored.popped, hstored.origins⟩

/-- A worker that keeps no session going is done. -/
theorem Going.of_endWorker (hs : Going s requests) {worker : Worker}
    (hworker : s.workers[i]? = some worker) (hkeeps : ∀ p, worker.keeps s p = false) :
    Going (endWorker s i) requests := by
  refine hs.of_more rfl (fun _ h => h) (fun _ h => h) rfl ?_
  intro w hw p _ hkept
  rcases List.mem_cons.mp ((activities_of_worker hworker).mem_iff.mp hw) with rfl | hother
  · simp [hkeeps p] at hkept
  · exact ⟨w, hother, hkept⟩

/-- A task comes into the queue and nothing else changes. -/
theorem Going.of_addTask (hs : Going s requests) (task : Task)
    (hids : t.sessionId = s.sessionId) (hsessions : t.sessions = s.sessions)
    (halarms : t.alarms = s.alarms) (hpopped : t.alarmThread = s.alarmThread)
    (hactivities : t.activities.Perm (.took task :: s.activities)) : Going t requests := by
  refine hs.of_more hids (fun p hp => hsessions ▸ hp) (fun a ha => halarms ▸ ha)
    (by rw [hpopped]) ?_
  intro w hw p _ hkept
  exact ⟨w, hactivities.mem_iff.mpr (List.mem_cons_of_mem _ hw), hkept⟩

theorem Going.created {datagram : Bytes} {source : Endpoint} {arrival : Arrival}
    (hs : Going s requests) (hwf : WellFormed s) :
    Going (newSession s (datagram.take (maxBufLen - 1)) source arrival) requests := by
  have hactivities : (newSession s (datagram.take (maxBufLen - 1)) source
      arrival).activities.Perm (.took (.processCoapMsg
        ⟨datagram.take (maxBufLen - 1), source, arrival.sessionId⟩) :: s.activities) :=
    activities_addTask _ _
  intro p hp
  rcases List.mem_cons.mp hp with rfl | hold
  · apply keptBy_activity (hactivities.mem_iff.mpr (List.mem_cons_self ..))
    simp [Worker.keeps, Controller.sessionId, newSession_heap_self, initCoapEapSession]
  · have hid : (newSession s (datagram.take (maxBufLen - 1)) source arrival).sessionId p =
        s.sessionId p := by
      have hother := Nat.ne_of_lt (hwf.sessions p hold)
      exact congrArg Session.sessionId (newSession_heap_ne _ _ _ hother)
    apply keptBy_later (hs p hold)
    · exact fun a ha howner => keptBy_alarm ha howner
    · exact fun a ha howner => keptBy_popped ha howner
    · intro w hw hkeeps
      apply keptBy_activity (hactivities.mem_iff.mpr (List.mem_cons_of_mem _ hw))
      rw [keeps_of_sessionId hid]
      exact hkeeps
    · exact fun entry hentry => hentry

/-- The alarm goes from the list to the thread, or from the thread to a task. -/
theorem Going.popped {time : Rat} {alarm : Alarm} {rest : List Alarm} (hs : Going s requests)
    (hlist : s.alarms = alarm :: rest) (hsweeping : s.alarmThread = .sweeping time) :
    Going ({ s with alarms := rest, alarmThread := .popped time alarm }.record
      [.expired alarm]) requests := by
  intro p hp
  apply keptBy_later (hs p hp)
  · intro a ha howner
    rw [hlist] at ha
    rcases List.mem_cons.mp ha with rfl | hrest
    · exact keptBy_popped rfl howner
    · exact keptBy_alarm hrest howner
  · intro a ha
    simp [hsweeping, AlarmThread.alarm] at ha
  · exact fun w hw hkeeps => keptBy_activity hw hkeeps
  · exact fun entry hentry => hentry

theorem Going.queuedRetr {time : Rat} {alarm : Alarm} (hs : Going s requests)
    (hstage : s.alarmThread = .idWritten time alarm) :
    Going { addTask s (.processRetrCoapEap alarm) with alarmThread := .sweeping time }
      requests := by
  have hactivities := activities_addTask s (.processRetrCoapEap alarm)
  intro p hp
  apply keptBy_later (hs p hp)
  · exact fun a ha howner => keptBy_alarm ha howner
  · intro a ha howner
    obtain rfl : alarm = a := by simpa [hstage, AlarmThread.alarm] using ha
    apply keptBy_activity (hactivities.mem_iff.mpr (List.mem_cons_self ..))
    simp [Worker.keeps, howner]
  · exact fun w hw hkeeps =>
      keptBy_activity (hactivities.mem_iff.mpr (List.mem_cons_of_mem _ hw)) hkeeps
  · exact fun entry hentry => hentry

theorem handlesOver_sends {worker : Worker} (hworker : s.workers[i]? = some worker)
    (hhands : handlesOver digests s requests (.handle i call) = true) :
    sendFails digests s call worker = false := by
  simp only [handlesOver, hworker, Option.all_some, Bool.and_eq_true, Bool.not_eq_true'] at hhands
  exact hhands.2

/-- A step of the controller keeps every session going as long as the waiting requests
stay as they are. -/
theorem Going.step (hs : Going s requests) (hsteady : Steady s)
    (hguard : keepsIdsApart s e = true)
    (hhands : handlesOver digests s requests e = true)
    (h : step digests s e = some t) : Going t requests := by
  obtain ⟨hwf, hwritten, hmade, -, hposts, hids, hparams, hown, hstored⟩ := hsteady
  have halone : ∀ {i : Nat} {w : Worker} {p : Ptr}, s.workers[i]? = some w →
      w.session = some p → Alone s p :=
    fun hworker hsession =>
      hids.alone hposts (.inHand _ (mem_activities_of_worker hworker) hsession)
  obtain ⟨-, hmove⟩ := step_move h
  cases hmove with
  | created datagram source arrival => exact hs.created hwf
  | queued task p =>
    have hids : (s.setSession p { s.heap p with lastReceivedMessage := some task.buf }).sessionId =
        s.sessionId :=
      setSession_sessionId (by rfl)
    exact hs.of_addTask _ hids rfl rfl rfl (activities_addTask _ _)
  | arrived datagram msg => exact hs.of_addTask _ rfl rfl rfl rfl (activities_addTask _ _)
  | taken task rest hqueue =>
    refine hs.of_more rfl (fun _ h => h) (fun _ h => h) rfl ?_
    exact fun w hw p _ hkept => ⟨w, (activities_taken hqueue).mem_iff.mpr hw, hkept⟩
  | foundCoap i stack task p hworker hfound =>
    obtain ⟨hlisted, hid⟩ := getCoapEapSession_mem hfound
    apply hs.of_setWorker hworker
    intro q hq hkeeps
    have hsame : s.sessionId p = s.sessionId q := by
      rw [hid]
      simpa [Worker.keeps] using hkeeps
    simp [Worker.keeps, Worker.session, hids.apart p q (.listed hlisted) (.listed hq) hsame]
  | foundAcknowledgment i stack task post p hworker hfound =>
    have hnames : p = post.1 := by
      have hafter := hids.step hwf hmade hwritten hposts hguard h
      apply hafter.found task post p
      have hmem := activities_setWorker (.acknowledgment task post p) hworker
      exact hmem.mem_iff.mpr (List.mem_cons_self ..)
    apply hs.of_setWorker hworker
    intro q hq hkeeps
    simpa [Worker.keeps, Worker.session, hnames] using hkeeps
  | foundContext i stack msg p hworker =>
    apply hs.of_setWorker hworker
    intro q hq hkeeps
    simp [Worker.keeps] at hkeeps
  | noContext i stack msg hworker => exact hs.of_endWorker hworker fun _ => rfl
  | readId i stack origin hworker =>
    exact hs.of_setWorker hworker fun q _ hkeeps => hkeeps
  | readSession i stack origin id hworker =>
    have hsession := hparams.sessions _ (mem_activities_of_worker hworker) origin rfl
    apply hs.of_setWorker hworker
    intro q hq hkeeps
    simpa [Worker.keeps, Worker.session, hsession] using hkeeps
  | handledCoap i call task p u hworker _ hresult =>
    exact hs.handled hworker rfl (touches_processCoapMsg hresult)
      (processCoapMsg_leaves (halone hworker rfl) hresult) hhands (.inl ⟨rfl, rfl⟩)
  | handledAcknowledgment i call task post p u hworker _ hresult =>
    exact hs.handled hworker rfl (touches_processAcknowledgment hresult)
      (processAcknowledgment_leaves (halone hworker rfl) hresult) hhands
      (.inl ⟨rfl, rfl⟩)
  | handledRadius i call msg p u hworker _ hresult =>
    have hsends := handlesOver_sends hworker hhands
    exact hs.handled hworker rfl (touches_processReceiveRadiusMsg hresult)
      (processReceiveRadiusMsg_leaves (halone hworker rfl) hsends hresult) hhands
      (.inl ⟨rfl, rfl⟩)
  | wroteIdentity i call msg p u hworker _ hresult =>
    have hsends := handlesOver_sends hworker hhands
    exact hs.handled hworker rfl (touches_processReceiveRadiusMsg hresult)
      (processReceiveRadiusMsg_leaves (halone hworker rfl) hsends hresult) hhands
      (.inr ⟨rfl, rfl⟩)
  | handedIdentity i call p u hworker hresult =>
    exact hs.handled hworker rfl (touches_identityHandOver hresult)
      (identityHandOver_leaves hresult) hhands (.inl ⟨rfl, rfl⟩)
  | handledRetr i call origin id p u hworker _ hresult =>
    have hmem := mem_activities_of_worker hworker
    obtain ⟨rfl, rfl⟩ := hown origin id p hmem
    have hpost := hstored.origins _ hmem origin rfl
    exact hs.handled hworker rfl (touches_processRetrCoapEap hresult)
      (processRetrCoapEap_leaves (halone hworker rfl) hpost.2 hresult) hhands
      (.inl ⟨rfl, rfl⟩)
  | woke time hsleeping =>
    exact hs.of_more rfl (fun _ h => h) (fun _ h => h) (by rw [hsleeping]; rfl)
      fun w hw _ _ hkept => ⟨w, hw, hkept⟩
  | sweptUp time hsweeping =>
    exact hs.of_more rfl (fun _ h => h) (fun _ h => h) (by rw [hsweeping]; rfl)
      fun w hw _ _ hkept => ⟨w, hw, hkept⟩
  | popped time alarm rest hsweeping hlist => exact hs.popped hlist hsweeping
  | wroteSession time alarm hstage | clearedId time alarm hstage | wroteId time alarm hstage =>
    exact hs.of_more rfl (fun _ h => h) (fun _ h => h) (by rw [hstage]; rfl)
      fun w hw _ _ hkept => ⟨w, hw, hkept⟩
  | unknownAlarm time alarm hstage hkind =>
    exact absurd (hposts.popped alarm (by rw [hstage]; rfl)) hkind
  | queuedRetr time alarm hstage => exact hs.queuedRetr hstage
  | ignored | ended | named | duplicate =>
    exact hs.of_more rfl (fun _ h => h) (fun _ h => h) rfl
      fun w hw _ _ hkept => ⟨w, hw, hkept⟩

/-- Between two steps only a worker inside the identity workaround holds the mutex
of a session. -/
def LockedInside (s : Controller) : Prop :=
  ∀ p, (s.heap p).mutex = true → .radiusIdentity p ∈ s.activities

theorem LockedInside.of_frame (hs : LockedInside s)
    (hmutex : ∀ p, (t.heap p).mutex = true → (s.heap p).mutex = true)
    (hinside : ∀ p, .radiusIdentity p ∈ s.activities → .radiusIdentity p ∈ t.activities) :
    LockedInside t :=
  fun p hp => hinside p (hs p (hmutex p hp))

theorem inside_of_worker {worker : Worker} (hworker : s.workers[i]? = some worker)
    (hother : worker ≠ .radiusIdentity p) (h : .radiusIdentity p ∈ s.activities) :
    .radiusIdentity p ∈ s.others i := by
  rcases List.mem_cons.mp ((activities_of_worker hworker).mem_iff.mp h) with hself | hrest
  · exact absurd hself.symm hother
  · exact hrest

theorem LockedInside.of_setWorker (hs : LockedInside s) {worker worker' : Worker}
    (hworker : s.workers[i]? = some worker) (hother : ∀ p, worker ≠ .radiusIdentity p) :
    LockedInside (setWorker s i worker') := by
  refine hs.of_frame (fun _ h => h) ?_
  intro p hp
  have hrest := inside_of_worker hworker (hother p) hp
  exact (activities_setWorker worker' hworker).mem_iff.mpr (List.mem_cons_of_mem _ hrest)

/-- A handler that found the mutex free gives it back. -/
theorem LockedInside.ended (hs : LockedInside s) {worker : Worker}
    (hworker : s.workers[i]? = some worker) (hother : ∀ p, worker ≠ .radiusIdentity p)
    (htouches : Touches p s u) (hfree : (u.heap p).mutex = false) :
    LockedInside (endWorker u i) := by
  intro q hq
  have hlocked : (u.heap q).mutex = true := hq
  have hdiff : q ≠ p := by
    rintro rfl
    simp [hfree] at hlocked
  rw [htouches.others q hdiff] at hlocked
  rw [activities_endWorker, htouches.othersOf]
  exact inside_of_worker hworker (hother q) (hs q hlocked)

theorem processCoapMsg_mutex {task : NetworkTask} (h : processCoapMsg s task p call = .ok t) :
    (t.heap p).mutex = (s.heap p).mutex := by
  obtain ⟨u, session, packet, -, ⟨request, -, hstep⟩, rfl, -, rfl⟩ := processCoapMsg_ok h
  have hsession := (stepSession_session hstep).1
  rw [Controller.record_heap, armPost_session, hsession]
  rfl

theorem processReceiveRadiusMsg_mutex {msg : RadiusMsg}
    (hsends : sendFails digests s call (.receiveRadiusMsg msg p) = false)
    (h : processReceiveRadiusMsg digests s msg p call = .ok (t, false)) :
    (t.heap p).mutex = (s.heap p).mutex := by
  obtain ⟨u, hu, -, hcase⟩ := processReceiveRadiusMsg_ok h
  have hsession := radiusClientReceive_session hu p
  rcases hcase with ⟨-, -, rfl, -⟩ | ⟨packet, hpacket, ⟨-, -, hidentity⟩ | ⟨hlater, hsend, -⟩⟩
  · rw [hsession]
  · exact Bool.noConfusion hidentity
  · rcases (sendRadiusPost_ok hsend).2 with ⟨-, rfl⟩ | ⟨hfailed, rfl⟩
    · rw [Controller.record_heap, armPost_session, hsession]
      rfl
    · -- a POST was to be sent, so the failure of `sendto` contradicts the guard
      have hnext : hasNext digests s msg p call = true := by
        cases hnext : hasNext digests s msg p call with
        | true => rfl
        | false =>
          obtain ⟨hreceived, -⟩ := processReceiveRadiusMsg_idle_ok hnext h
          rw [hu] at hreceived
          have hsame := congrArg (fun x => (x.heap p).messageId) (Except.ok.inj hreceived)
          simp [radiusPostSession] at hsame
      rw [hsession] at hlater
      simp [sendFails, hnext, hfailed, hlater] at hsends

theorem LockedInside.step (hs : LockedInside s)
    (hhands : handlesOver digests s requests e = true)
    (h : step digests s e = some t) : LockedInside t := by
  obtain ⟨-, hmove⟩ := step_move h
  cases hmove with
  | created datagram source arrival =>
    refine hs.of_frame ?_ fun p hp =>
      (activities_addTask _ _).mem_iff.mpr (List.mem_cons_of_mem _ hp)
    intro p hp
    have hlocked : ((s.setSession s.nextPtr (initCoapEapSession
        (datagram.take (maxBufLen - 1)) source arrival)).heap p).mutex = true := hp
    rw [Controller.setSession_heap] at hlocked
    split at hlocked
    · simp [initCoapEapSession] at hlocked
    · exact hlocked
  | queued task p =>
    refine hs.of_frame ?_ fun p hp =>
      (activities_addTask _ _).mem_iff.mpr (List.mem_cons_of_mem _ hp)
    intro q hq
    have hlocked : ((s.setSession p
        { s.heap p with lastReceivedMessage := some task.buf }).heap q).mutex = true := hq
    rw [setReceived_heap] at hlocked
    exact hlocked
  | arrived datagram msg =>
    exact hs.of_frame (fun _ h => h) fun p hp =>
      (activities_addTask _ _).mem_iff.mpr (List.mem_cons_of_mem _ hp)
  | taken task rest hqueue =>
    exact hs.of_frame (fun _ h => h) fun p hp => (activities_taken hqueue).mem_iff.mpr hp
  | foundCoap i stack task p hworker => exact hs.of_setWorker hworker (by simp)
  | foundAcknowledgment i stack task post p hworker => exact hs.of_setWorker hworker (by simp)
  | foundContext i stack msg p hworker => exact hs.of_setWorker hworker (by simp)
  | noContext i stack msg hworker =>
    exact hs.of_frame (fun _ h => h) fun p hp => inside_of_worker hworker (by simp) hp
  | readId i stack origin hworker => exact hs.of_setWorker hworker (by simp)
  | readSession i stack origin id hworker => exact hs.of_setWorker hworker (by simp)
  | handledCoap i call task p u hworker hunlocked hresult =>
    exact hs.ended hworker (by simp) (touches_processCoapMsg hresult)
      ((processCoapMsg_mutex hresult).trans hunlocked)
  | handledAcknowledgment i call task post p u hworker hunlocked hresult =>
    obtain ⟨request, -, hsession⟩ := processAcknowledgment_session hresult
    refine hs.ended hworker (by simp) (touches_processAcknowledgment hresult) ?_
    rw [hsession]
    exact hunlocked
  | handledRadius i call msg p u hworker hunlocked hresult =>
    exact hs.ended hworker (by simp) (touches_processReceiveRadiusMsg hresult)
      ((processReceiveRadiusMsg_mutex (handlesOver_sends hworker hhands) hresult).trans
        hunlocked)
  | wroteIdentity i call msg p u hworker hunlocked hresult =>
    have htouches := touches_processReceiveRadiusMsg hresult
    have hworking : u.workers[i]? = some (.receiveRadiusMsg msg p) := by
      rw [htouches.workers]
      exact hworker
    have hafter := activities_setWorker (.radiusIdentity p) hworking
    intro q hq
    by_cases hsame : q = p
    · exact hafter.mem_iff.mpr (hsame ▸ List.mem_cons_self ..)
    · have hlocked : (u.heap q).mutex = true := hq
      rw [htouches.others q hsame] at hlocked
      have hrest := inside_of_worker hworker (by simp) (hs q hlocked)
      exact hafter.mem_iff.mpr (List.mem_cons_of_mem _ (htouches.othersOf i ▸ hrest))
  | handedIdentity i call p u hworker hresult =>
    have htouches := touches_identityHandOver hresult
    intro q hq
    have hlocked : (u.heap q).mutex = true := hq
    have hdiff : q ≠ p := by
      rintro rfl
      rw [identityHandOver_session hresult] at hlocked
      simp at hlocked
    rw [htouches.others q hdiff] at hlocked
    rw [activities_endWorker, htouches.othersOf]
    exact inside_of_worker hworker (by simpa using hdiff.symm) (hs q hlocked)
  | handledRetr i call origin id p u hworker hunlocked hresult =>
    refine hs.ended hworker (by simp) (touches_processRetrCoapEap hresult) ?_
    rw [processRetrCoapEap_session hresult]
    exact hunlocked
  | queuedRetr time alarm hstage =>
    exact hs.of_frame (fun _ h => h) fun p hp =>
      (activities_addTask _ _).mem_iff.mpr (List.mem_cons_of_mem _ hp)
  | _ => exact hs.of_frame (fun _ h => h) fun _ h => h

/-- What a run that hands every session over keeps: nothing is stranded, and what that
rests on. -/
structure Unstranded (here : Overlapping) : Prop where
  steady : Steady here.controller
  going : Going here.controller here.client.listed
  locked : LockedInside here.controller

/-- A step of the controller between two turns, with some client and buffer in its state
and the waiting requests as they are. -/
theorem Unstranded.handled {radius : RadiusClient} {eapReqId : Bytes}
    (hsteady : Steady s) (hgoing : Going s requests) (hlocked : LockedInside s)
    (hids : keepsIdsApart { s with radius, eapReqId } e = true)
    (hparams : overwritesNoUnread { s with radius, eapReqId } e = true)
    (hhands : handlesOver digests { s with radius, eapReqId } requests e = true)
    (h : step digests { s with radius, eapReqId } e = some t) :
    Steady t ∧ Going t requests ∧ LockedInside t := by
  have hbefore := hsteady.of_client radius eapReqId
  have hkept : Going { s with radius, eapReqId } requests := hgoing
  have hinside : LockedInside { s with radius, eapReqId } := hlocked
  exact ⟨hbefore.step hids hparams h, hkept.step hbefore hids hhands h, hinside.step hhands h⟩

theorem Unstranded.step {turn : ListTurn} (hs : Unstranded here)
    (hguard : handsOver digests here turn = true)
    (h : overlappingStep digests here turn = some after) : Unstranded after := by
  obtain ⟨hsteady, hgoing, hlocked⟩ := hs
  cases overlappingStep_taken h with
  | moved e t _ _ ht =>
    simp only [handsOver, Bool.and_eq_true] at hguard
    obtain ⟨⟨hids, hparams⟩, hhands⟩ := hguard
    obtain ⟨hsteady, hgoing, hlocked⟩ :=
      Unstranded.handled hsteady hgoing hlocked hids hparams hhands ht
    exact ⟨hsteady, hgoing, hlocked⟩
  | answerEntered | requestEntered | receiveFollowedFreed | requestFollowedFreed
  | answerFollowedFreed => exact ⟨hsteady, hgoing, hlocked⟩
  | receiving work client stage hwork hnext =>
    simp only [handsOver, hwork, Option.all_some, sparedBy, hnext, Option.any_some] at hguard
    exact ⟨hsteady, hgoing.of_spared hguard, hlocked⟩
  | requesting work client stage hwork hnext =>
    simp only [handsOver, hwork, Option.all_some, sparedBy, hnext, Option.any_some] at hguard
    exact ⟨hsteady, hgoing.of_spared hguard, hlocked⟩
  | received i work req radius t hwork hstage _ hanswered ht =>
    simp only [handsOver, hwork, Option.all_some, hstage, hanswered, Option.any_some,
      Bool.and_eq_true] at hguard
    obtain ⟨hspares, hhands⟩ := hguard
    obtain ⟨hsteady, hgoing, hlocked⟩ := Unstranded.handled hsteady
      (hgoing.of_spared hspares) hlocked rfl rfl hhands ht
    exact ⟨hsteady, hgoing, hlocked⟩
  | requested i work t hwork _ _ ht =>
    simp only [handsOver, hwork, Option.all_some] at hguard
    obtain ⟨hsteady, hgoing, hlocked⟩ :=
      Unstranded.handled hsteady hgoing hlocked rfl rfl hguard ht
    exact ⟨hsteady.of_client t.radius here.controller.eapReqId, hgoing, hlocked⟩

/-- The runs in which every handler hands its session over. -/
abbrev HandingOver (digests : Digests) : Overlapping → Prop :=
  ReachableUnder (overlappingStep digests)
    (fun here turn => handsOver digests here turn = true) initialOverlapping

theorem unstranded (h : HandingOver digests here) : Unstranded here := by
  refine h.invariant ⟨steady_initial digests, ?_, ?_⟩
    fun _ _ _ _ hs hguard hstep => hs.step hguard hstep
  · simp [Going, initialOverlapping, initialController]
  · simp [LockedInside, initialOverlapping, initialController, initCoapEapSession]

/-- The work that keeps a session going acts on it. -/
theorem actsOn_of_keeps (hparams : ParamsHold s) (hposts : PostAlarms s) (hown : RetrOwn s)
    {w : Worker} (hw : w ∈ s.activities) (hkeeps : w.keeps s p = true) : ActsOn s p w := by
  cases w with
  | took task =>
    cases task with
    | processCoapMsg task => simpa [Worker.keeps, ActsOn] using hkeeps
    | processAcknowledgment task post => simpa [Worker.keeps, ActsOn] using hkeeps
    | processReceiveRadiusMsg msg => simp [Worker.keeps] at hkeeps
    | processRetrCoapEap origin =>
      have howner : origin.session = p := by simpa [Worker.keeps] using hkeeps
      have hkind := hposts.unread _ hw origin rfl
      exact ⟨(hparams.sessions _ hw origin rfl).trans howner,
        (hparams.ids _ hw origin rfl).1.trans hkind⟩
  | retrId origin id =>
    have howner : origin.session = p := by simpa [Worker.keeps] using hkeeps
    have hkind := hposts.unread _ hw origin rfl
    exact ⟨(hparams.sessions _ hw origin rfl).trans howner,
      (hparams.readIds origin id hw).trans hkind⟩
  | retrCoapEap origin id q =>
    have howner : q = p := by simpa [Worker.keeps, Worker.session] using hkeeps
    exact ⟨howner, (hown origin id q hw).2⟩
  | _ => simpa [Worker.keeps, ActsOn] using hkeeps

/-- In every run in which every handler hands its session over, no session is
stranded. -/
theorem handed_over_sessions_move_on (h : HandingOver digests here) :
    NoneStranded here.view := by
  obtain ⟨hsteady, hgoing, hlocked⟩ := unstranded h
  intro p hp
  refine ⟨?_, hlocked p⟩
  rcases keptBy_iff.mp (hgoing p hp) with ⟨a, ha, howner⟩ | ⟨a, ha, howner⟩ | ⟨w, hw, hkeeps⟩ |
    ⟨entry, hentry, howner⟩
  · exact .alarm a ha howner (hsteady.posts.alarms a ha)
  · exact .expiring a ha howner (hsteady.posts.popped a ha)
  · exact .task w hw (actsOn_of_keeps hsteady.params hsteady.posts hsteady.own hw hkeeps)
  · exact .request entry hentry howner

def challengeAuthenticator (second : Bool) : Bytes :=
  if second then
    [0x00, 0x87, 0x88, 0x4D, 0x18, 0x39, 0x80, 0x95, 0x0C, 0xFA, 0xF7, 0xA9, 0xC5, 0xF4, 0x0D,
      0x4F]
  else
    [0x9C, 0x0C, 0xE8, 0x4A, 0x3B, 0x22, 0xF0, 0x84, 0xAD, 0x94, 0xCF, 0xD5, 0x14, 0x0F, 0x80,
      0xC2]

def challengeMessageAuthenticator (second : Bool) : Bytes :=
  if second then
    [0x1A, 0x2B, 0xEF, 0x7E, 0x59, 0x0F, 0xE3, 0xE0, 0xA7, 0x73, 0xE0, 0xE9, 0x49, 0x41, 0x41,
      0x98]
  else
    [0x00, 0xAE, 0x0B, 0x77, 0xC7, 0x0B, 0x84, 0xCA, 0xF3, 0xA3, 0x96, 0xCC, 0xE1, 0x13, 0x7F,
      0x1A]

/-- The Access-Challenges for the first two requests of a session, each with an EAP
request. -/
def accessChallengeDatagram (second : Bool) : Bytes :=
  [0x0B, if second then 1 else 0, 0x00, 0x2E] ++ challengeAuthenticator second ++
    [0x4F, 0x08, 0x01, if second then 3 else 2, 0x00, 0x06, 0x04, 0x00, 0x50, 0x12] ++
    challengeMessageAuthenticator second

/-- What MD5 and HMAC give for the two challenges under the secret `testing123` and
the authenticator of the requests. -/
def challengeDigests : Digests :=
  { messageAuthenticator := fun msg _ => challengeMessageAuthenticator (msg.identifier = 1)
    responseAuthenticator := fun msg _ => challengeAuthenticator (msg.identifier = 1)
    decryptMsKey := fun _ _ => none }

/-- The server answers a session's identity with a challenge, which the workaround
answers itself, and then with a second one, which goes out as the next POST. -/
def challengedTwice (sent : Bool) : List Event :=
  comesIn 1 ++
    [.recvCoap (ackDatagram 1 1) ⟨[1], 5683⟩ {}, .lockAcknowledgment, .getTask, .lookup 0 [],
      .handle 0 { authenticator := requestAuthenticator },
      .recvRadius (accessChallengeDatagram false), .getTask, .lookup 0 [], .handle 0 {},
      .handle 0 { authenticator := requestAuthenticator },
      .recvRadius (accessChallengeDatagram true), .getTask, .lookup 0 [], .handle 0 { sent }]

/-- A device comes in, and a worker gets its identity. -/
def identifies (sessionId : UInt32) : List ListTurn :=
  List.map .move (comesIn sessionId ++ [.recvCoap (ackDatagram sessionId 1) ⟨[1], 5683⟩ {},
    .lockAcknowledgment, .getTask, .lookup 0 []])

/-- A worker gets an Access-Challenge. -/
def isChallenged (worker : Nat) (second : Bool) : List ListTurn :=
  List.map .move [.recvRadius (accessChallengeDatagram second), .getTask, .lookup worker []]

/-- The worker takes its request to the list, which takes this many statements. -/
def listsRequest (statements : Nat) : List ListTurn :=
  .enter 0 { authenticator := requestAuthenticator } :: List.replicate statements .request ++
    [.requested 0]

/-- The worker takes the answer to the list and handles it. -/
def takesAnswer (statements : Nat) (call : Call) : List ListTurn :=
  .enter 0 call :: List.replicate statements .receive ++ [.received 0]

/-- The same with the list of waiting requests in memory. -/
def challengedInTurns (sent : Bool) : List ListTurn :=
  identifies 1 ++ listsRequest 4 ++ isChallenged 0 false ++ takesAnswer 3 {} ++ listsRequest 4 ++
    isChallenged 0 true ++ takesAnswer 3 { sent }

theorem challenged_session_moves_on : ∃ here, HandingOver challengeDigests here ∧
    here.view.sessions = [0] ∧ .sentPost 0 2 ∈ here.view.log ∧ NoneStranded here.view := by
  have hrun : (run (guarded (overlappingStep challengeDigests) fun here turn =>
      handsOver challengeDigests here turn = true) initialOverlapping
        (challengedInTurns true)).any
        (fun here => here.view.sessions == [0] && here.view.log.contains (.sentPost 0 2)) =
          true := by
    decide +kernel
  obtain ⟨here, hhere, hcheck⟩ := exists_of_run hrun
  simp only [Bool.and_eq_true, beq_iff_eq, List.contains_iff_mem] at hcheck
  have hreach := reachableUnder_of_run hhere
  exact ⟨here, hreach, hcheck.1, hcheck.2, handed_over_sessions_move_on hreach⟩

/-- Nothing is left that could move a session on. -/
def idle (s : Controller) : Bool :=
  s.alarms == [] && s.alarmThread == .sleeping && s.activities == [] && s.radius.msgs == []

theorem not_pending_of_idle (h : idle s = true) : ¬ Pending s p := by
  simp only [idle, Bool.and_eq_true, beq_iff_eq] at h
  obtain ⟨⟨⟨halarms, hthread⟩, hactivities⟩, hmsgs⟩ := h
  intro hpending
  cases hpending with
  | alarm a ha => simp [halarms] at ha
  | expiring a ha => simp [hthread, AlarmThread.alarm] at ha
  | task w hw => simp [hactivities] at hw
  | request entry hentry => simp [hmsgs] at hentry

/-- When `sendto` fails for the POST, the session stays in the list with nothing to
move it on. -/
theorem failed_send_strands_session :
    ¬ ∀ digests here, Library.Runs.Reachable (overlappingStep digests) initialOverlapping here →
      ∀ p ∈ here.view.sessions, Pending here.view p := by
  intro hstated
  have hrun : (run (overlappingStep challengeDigests) initialOverlapping
      (challengedInTurns false)).any
        (fun here => here.view.sessions == [0] && idle here.view) = true := by
    decide +kernel
  obtain ⟨here, hhere, hcheck⟩ := exists_of_run hrun
  simp only [Bool.and_eq_true, beq_iff_eq] at hcheck
  have hlisted : 0 ∈ here.view.sessions := by
    rw [hcheck.1]
    exact List.mem_singleton_self 0
  exact not_pending_of_idle hcheck.2
    (hstated challengeDigests here (reachable_of_run hhere) 0 hlisted)

/-- Session 0 stands in the identity workaround while the answer of session 1 has found
its request at the head of the list. The request of session 0 comes in front of it, and
then the answer writes the head. -/
def requestBesideAnswer : List ListTurn :=
  identifies 1 ++ listsRequest 4 ++ identifies 2 ++ listsRequest 5 ++
    isChallenged 0 false ++ takesAnswer 4 {} ++
    isChallenged 1 true ++ [.enter 1 {}, .receive] ++ listsRequest 5 ++ [.receive]

example : (run (overlappingStep challengeDigests) initialOverlapping requestBesideAnswer).any
    (fun here => here.view.sessions.contains 0 &&
      !keptBy here.view here.view.activities here.view.radius.msgs 0) = true := by
  decide +kernel

end CoapEap.Mainserver
