import CoapEap.Controller.Identifiers
import CoapEap.Controller.Overlapping
import CoapEap.Controller.Workarround

/-!
What keeps a session going: its alarm, an activity that works on it, or its
request that waits for the RADIUS server. A handler that is done with a session has
to leave one of them behind. The identity workaround takes the alarm out, and from
there on the session lives on its request alone, which an answer and a request that
are in the list together may lose.
-/

namespace CoapEap.Mainserver

open Cantcoap EapServer Lalarm Radius Library.Runs

/-- The activity keeps the session going. -/
def Worker.keeps (s : Controller) (p : Ptr) : Worker → Bool
  | .took (.processCoapMsg task) => task.sessionId = s.sessionId p
  | .took (.processAcknowledgment _ post) => post.1 = p
  | .took (.processReceiveRadiusMsg _) => false
  | .took (.processRetrCoapEap origin) => origin.session = p
  | .retrId origin _ => origin.session = p
  | w => w.session = some p

/-- Alarms, activities and requests of which one is the session's. -/
def keptBy (s : Controller) (activities : List Worker) (requests : List RadiusMsgList) (p : Ptr) :
    Bool :=
  s.alarms.any (fun a => a.session = p) || s.alarmThread.alarm.any (fun a => a.session = p) ||
    activities.any (Worker.keeps s p) || requests.any fun entry => entry.session = p

/-- After the answer was taken in, the session has an EAP request or a success to
send. -/
def hasNext (digests : Digests) (s : Controller) (msg : RadiusMsg) (p : Ptr) (call : Call) :
    Bool :=
  match radiusClientReceive digests s msg call with
  | .ok u => (u.heap p).eapCtx.eap.eapReq || (u.heap p).eapCtx.eap.eapSuccess
  | .error _ => true

/-- The handler itself moves its session on: it arms an alarm, enters the workaround,
or takes the session off the list. -/
def movesSession (digests : Digests) (s : Controller) (call : Call) : Worker → Bool
  | .acknowledgment _ _ p => (s.heap p).currentState = 3
  | .radiusIdentity _ => false
  | .receiveRadiusMsg msg p => hasNext digests s msg p call
  | _ => true

/-- The session is not listed, or what the handler of worker `i` and the waiting
requests leave behind keeps it going. -/
def leftGoing (digests : Digests) (s : Controller) (i : Nat) (call : Call) (worker : Worker)
    (requests : List RadiusMsgList) (p : Ptr) : Bool :=
  !s.sessions.contains p || (worker.session = some p && movesSession digests s call worker) ||
    keptBy s (s.others i) requests p

/-- `sendto` fails for the POST that the RADIUS handler sends. -/
def sendFails (digests : Digests) (s : Controller) (call : Call) : Worker → Bool
  | .receiveRadiusMsg msg p =>
    hasNext digests s msg p call && (s.heap p).eapWorkarround ≠ 0 && !call.sent
  | _ => false

/-- A handler leaves its session with something that moves it on, and has no failure
of `sendto`. -/
def handlesOver (digests : Digests) (s : Controller) (requests : List RadiusMsgList) :
    Event → Bool
  | .handle i call =>
    (s.workers[i]?).all fun worker =>
      worker.session.all (leftGoing digests s i call worker requests) &&
        !sendFails digests s call worker
  | _ => true

/-- No request leaves the list that is the last thing to keep a listed session going. -/
def sparesRequests (s : Controller) (before after : List RadiusMsgList) : Bool :=
  before.all fun entry =>
    after.contains entry || !s.sessions.contains entry.session ||
      keptBy s s.activities after entry.session

/-- A statement on the list of waiting requests follows no freed one, and spares the
others. -/
def sparedBy {Stage : Type} (s : Controller) (c : RadiusNodes)
    (next : Option (RadiusNodes × Stage)) : Bool :=
  next.any fun next => sparesRequests s c.listed next.1.listed

/-- Every handler leaves its session with something that moves it on, no statement on
the list of waiting requests takes the last such thing from a session, the parameters
of retransmissions are not written over too early, and identifiers stay apart. -/
def handsOver (digests : Digests) (here : Overlapping) : ListTurn → Bool
  | .move e =>
    keepsIdsApart here.view e && overwritesNoUnread here.view e &&
      handlesOver digests here.view here.client.listed e
  | .enter _ _ => true
  | .receive =>
    here.receiving.all fun work =>
      sparedBy here.controller here.client
        (receiveStatement work.msg.identifier here.client work.stage)
  | .request =>
    here.requesting.all fun work =>
      sparedBy here.controller here.client
        (requestStatement work.before.nextRadiusIdentifier work.request here.client work.stage)
  | .received i =>
    here.receiving.all fun work =>
      match work.stage with
      | .found req =>
        (answeredClient here.client work.msg.identifier req).any fun radius =>
          let requests := (releasedClient here.client req).listed
          sparesRequests here.controller here.client.listed requests &&
            handlesOver digests { here.controller with radius } requests (.handle i work.call)
      | _ => true
  | .requested i =>
    here.requesting.all fun work =>
      handlesOver digests
        { here.controller with radius := work.before, eapReqId := work.eapReqId }
        here.client.listed (.handle i work.call)

variable {digests : Digests} {s t u : Controller} {e : Event} {p q : Ptr} {i : Nat} {call : Call}
variable {requests requests' : List RadiusMsgList}

theorem keptBy_iff {activities : List Worker} :
    keptBy s activities requests p = true ↔
      (∃ a ∈ s.alarms, a.session = p) ∨ (∃ a, s.alarmThread.alarm = some a ∧ a.session = p) ∨
        (∃ w ∈ activities, w.keeps s p = true) ∨ ∃ entry ∈ requests, entry.session = p := by
  simp [keptBy, or_assoc, Option.any_eq_true]

/-- Every listed session is kept going, with these requests in the list. -/
def Going (s : Controller) (requests : List RadiusMsgList) : Prop :=
  ∀ p ∈ s.sessions, keptBy s s.activities requests p = true

theorem keeps_of_sessionId {w : Worker} (h : t.sessionId p = s.sessionId p) :
    w.keeps t p = w.keeps s p := by
  cases w with
  | took task => cases task <;> simp [Worker.keeps, h]
  | _ => rfl

/-- What kept a session going is still there, or something else is. -/
theorem keptBy_later {activities activities' : List Worker}
    (h : keptBy s activities requests p = true)
    (halarms : ∀ a ∈ s.alarms, a.session = p → keptBy t activities' requests' p = true)
    (hpopped : ∀ a, s.alarmThread.alarm = some a → a.session = p →
      keptBy t activities' requests' p = true)
    (hactivities : ∀ w ∈ activities, w.keeps s p = true →
      keptBy t activities' requests' p = true)
    (hrequests : ∀ entry ∈ requests, entry ∈ requests') :
    keptBy t activities' requests' p = true := by
  rcases keptBy_iff.mp h with ⟨a, ha, howner⟩ | ⟨a, ha, howner⟩ | ⟨w, hw, hkeeps⟩ |
    ⟨entry, hentry, howner⟩
  · exact halarms a ha howner
  · exact hpopped a ha howner
  · exact hactivities w hw hkeeps
  · exact keptBy_iff.mpr (.inr (.inr (.inr ⟨entry, hrequests entry hentry, howner⟩)))

theorem keptBy_alarm {activities : List Worker} {a : Alarm}
    (ha : a ∈ s.alarms) (howner : a.session = p) : keptBy s activities requests p = true :=
  keptBy_iff.mpr (.inl ⟨a, ha, howner⟩)

theorem keptBy_popped {activities : List Worker} {a : Alarm}
    (ha : s.alarmThread.alarm = some a) (howner : a.session = p) :
    keptBy s activities requests p = true :=
  keptBy_iff.mpr (.inr (.inl ⟨a, ha, howner⟩))

theorem keptBy_activity {activities : List Worker} {w : Worker}
    (hw : w ∈ activities) (hkeeps : w.keeps s p = true) : keptBy s activities requests p = true :=
  keptBy_iff.mpr (.inr (.inr (.inl ⟨w, hw, hkeeps⟩)))

theorem keptBy_request {activities : List Worker}
    {entry : RadiusMsgList} (hentry : entry ∈ requests) (howner : entry.session = p) :
    keptBy s activities requests p = true :=
  keptBy_iff.mpr (.inr (.inr (.inr ⟨entry, hentry, howner⟩)))

/-- A step that takes nothing away from what keeps a session going. -/
theorem Going.of_more (hs : Going s requests) (hids : t.sessionId = s.sessionId)
    (hsessions : ∀ p ∈ t.sessions, p ∈ s.sessions) (halarms : ∀ a ∈ s.alarms, a ∈ t.alarms)
    (hpopped : t.alarmThread.alarm = s.alarmThread.alarm)
    (hactivities : ∀ w ∈ s.activities, ∀ p ∈ s.sessions, w.keeps s p = true →
      ∃ w' ∈ t.activities, w'.keeps s p = true) : Going t requests := by
  intro p hp
  have hid : t.sessionId p = s.sessionId p := by rw [hids]
  have hlisted := hsessions p hp
  apply keptBy_later (hs p hlisted)
  · exact fun a ha howner => keptBy_alarm (halarms a ha) howner
  · exact fun a ha howner => keptBy_popped (hpopped ▸ ha) howner
  · intro w hw hkeeps
    obtain ⟨w', hw', hkeeps'⟩ := hactivities w hw p hlisted hkeeps
    exact keptBy_activity hw' (by rw [keeps_of_sessionId hid]; exact hkeeps')
  · exact fun entry hentry => hentry

/-- Requests leave the list, and none was the last thing that kept its session going. -/
theorem Going.of_spared (hs : Going s requests)
    (hspares : sparesRequests s requests requests' = true) : Going s requests' := by
  intro p hp
  rcases keptBy_iff.mp (hs p hp) with ⟨a, ha, howner⟩ | ⟨a, ha, howner⟩ | ⟨w, hw, hkeeps⟩ |
    ⟨entry, hentry, howner⟩
  · exact keptBy_alarm ha howner
  · exact keptBy_popped ha howner
  · exact keptBy_activity hw hkeeps
  · simp only [sparesRequests, List.all_eq_true, Bool.or_eq_true, Bool.not_eq_true',
      List.contains_eq_mem, decide_eq_true_eq, decide_eq_false_iff_not] at hspares
    rcases hspares entry hentry with (hstays | hgone) | hkept
    · exact keptBy_request hstays howner
    · exact absurd hp (howner ▸ hgone)
    · exact howner ▸ hkept

/-- A worker moves on with a task that keeps the same sessions. -/
theorem Going.of_setWorker (hs : Going s requests) {worker worker' : Worker}
    (hworker : s.workers[i]? = some worker)
    (hkeeps : ∀ p ∈ s.sessions, worker.keeps s p = true → worker'.keeps s p = true) :
    Going (setWorker s i worker') requests := by
  refine hs.of_more rfl (fun _ h => h) (fun _ h => h) rfl ?_
  intro w hw p hp hkept
  have hafter := activities_setWorker worker' hworker
  rcases List.mem_cons.mp ((activities_of_worker hworker).mem_iff.mp hw) with rfl | hother
  · exact ⟨worker', hafter.mem_iff.mpr (List.mem_cons_self ..), hkeeps p hp hkept⟩
  · exact ⟨w, hafter.mem_iff.mpr (List.mem_cons_of_mem _ hother), hkept⟩

/-- The handler of session `p` ran and the state is `u`. The alarms of other sessions
are there, and if the handler moves its session on, there is an alarm, or it is off
the list, or the worker stands in the identity workaround; if not, the alarms are as
they were. -/
structure Leaves (digests : Digests) (s u : Controller) (call : Call) (worker : Worker) (p : Ptr)
    (inside : Bool) : Prop where
  others : ∀ a ∈ s.alarms, a.session ≠ p → a ∈ u.alarms
  moved : movesSession digests s call worker = true →
    inside = true ∨ p ∉ u.sessions ∨ ∃ a ∈ u.alarms, a.session = p
  stayed : movesSession digests s call worker = false → ∀ a ∈ s.alarms, a ∈ u.alarms

theorem Rearmed.own (h : Rearmed s t p) : ∃ a ∈ t.alarms, a.session = p := by
  obtain ⟨a, howner, -, hlist⟩ := h
  refine ⟨a, ?_, howner⟩
  rw [hlist, mem_addAlarmCoapEap]
  exact .inl rfl

theorem Rearmed.others (h : Rearmed s t p) : ∀ a ∈ s.alarms, a.session ≠ p → a ∈ t.alarms := by
  obtain ⟨b, -, -, hlist⟩ := h
  intro a ha hother
  rw [hlist, mem_addAlarmCoapEap]
  exact .inr (mem_othersAlarms.mpr ⟨ha, hother⟩)

theorem processCoapMsg_leaves {task : NetworkTask} (halone : Alone s p)
    (h : processCoapMsg s task p call = .ok u) :
    Leaves digests s u call (.coapMsg task p) p false := by
  have hrearmed := (processCoapMsg_belongings halone h).1
  constructor
  · exact hrearmed.others
  · exact fun _ => .inr (.inr hrearmed.own)
  · intro hnot
    simp [movesSession] at hnot

theorem processAcknowledgment_leaves {task : NetworkTask} {post : Ptr × Nat} (halone : Alone s p)
    (h : processAcknowledgment s task post p call = .ok u) :
    Leaves digests s u call (.acknowledgment task post p) p false := by
  rcases processAcknowledgment_belongings halone h with ⟨hstate, halarms, hsessions⟩ |
    ⟨hstate, halarms, -⟩
  · constructor
    · intro a ha hother
      rw [halarms]
      exact mem_othersAlarms.mpr ⟨ha, hother⟩
    · intro _
      refine .inr (.inl ?_)
      rw [hsessions]
      simp [othersListed]
    · intro hnot
      simp [movesSession, hstate] at hnot
  · constructor
    · exact fun a ha _ => halarms ▸ ha
    · intro hmoves
      simp [movesSession, hstate] at hmoves
    · exact fun _ a ha => halarms ▸ ha

theorem identityHandOver_leaves (h : identityHandOver s p call = .ok u) :
    Leaves digests s u call (.radiusIdentity p) p false := by
  have halarms := (stepSession_session h).2.1
  constructor
  · exact fun a ha _ => halarms ▸ ha
  · intro hmoves
    simp [movesSession] at hmoves
  · exact fun _ a ha => halarms ▸ ha

/-- Without an EAP request or a success the handler returns what it took in. -/
theorem processReceiveRadiusMsg_idle_ok {msg : RadiusMsg} {identity : Bool}
    (hnext : hasNext digests s msg p call = false)
    (h : processReceiveRadiusMsg digests s msg p call = .ok (u, identity)) :
    radiusClientReceive digests s msg call = .ok u ∧ identity = false := by
  unfold hasNext at hnext
  cases hreceived : radiusClientReceive digests s msg call with
  | error reason => simp [hreceived] at hnext
  | ok v =>
    simp only [hreceived, Bool.or_eq_false_iff] at hnext
    simp only [processReceiveRadiusMsg, hreceived, bind, Except.bind, hnext.1, hnext.2,
      Bool.false_eq_true, or_self, if_false] at h
    split at h
    · simp at h
    · simp only [Except.ok.injEq, Prod.mk.injEq] at h
      exact ⟨by rw [h.1], h.2.symm⟩

theorem processReceiveRadiusMsg_leaves {msg : RadiusMsg} {identity : Bool} (halone : Alone s p)
    (hsends : sendFails digests s call (.receiveRadiusMsg msg p) = false)
    (h : processReceiveRadiusMsg digests s msg p call = .ok (u, identity)) :
    Leaves digests s u call (.receiveRadiusMsg msg p) p identity := by
  cases hnext : hasNext digests s msg p call with
  | false =>
    obtain ⟨hreceived, -⟩ := processReceiveRadiusMsg_idle_ok hnext h
    have halarms := (radiusClientReceive_log hreceived).2.1
    constructor
    · exact fun a ha _ => halarms ▸ ha
    · intro hmoves
      simp [movesSession, hnext] at hmoves
    · exact fun _ a ha => halarms ▸ ha
  | true =>
    obtain ⟨v, hv, -, hcase⟩ := processReceiveRadiusMsg_ok h
    have halarms := (radiusClientReceive_log hv).2.1
    have hsame := radiusClientReceive_session hv p
    have hthere : Alone v p := by
      refine halone.of_less (funext (touches_radiusClientReceive p hv).sessionId) ?_ ?_
      · rw [halarms]
      · rw [(radiusClientReceive_log hv).2.2]
    rcases hcase with ⟨hreq, hsuccess, -, -⟩ |
      ⟨packet, -, ⟨-, rfl, rfl⟩ | ⟨hlater, hsend, rfl⟩⟩
    · simp [hasNext, hv, hreq, hsuccess] at hnext
    · have hcancelled := identityWorkarround_belongings packet hthere
      constructor
      · intro a ha hother
        rw [hcancelled, halarms]
        exact mem_othersAlarms.mpr ⟨ha, hother⟩
      · exact fun _ => .inl rfl
      · intro hnot
        simp [movesSession, hnext] at hnot
    · have hworkarround : (s.heap p).eapWorkarround ≠ 0 := by
        rw [hsame] at hlater
        exact hlater
      have hcall : call.sent = true := by
        simpa [sendFails, hnext, hworkarround] using hsends
      obtain ⟨⟨-, hrearmed⟩ | ⟨hfailed, -⟩, -⟩ := sendRadiusPost_belongings hthere hsend
      · have hrearmed : Rearmed s u p := by
          obtain ⟨a, howner, hkind, hlist⟩ := hrearmed
          exact ⟨a, howner, hkind, halarms ▸ hlist⟩
        constructor
        · exact hrearmed.others
        · exact fun _ => .inr (.inr hrearmed.own)
        · intro hnot
          simp [movesSession, hnext] at hnot
      · rw [hcall] at hfailed
        exact Bool.noConfusion hfailed

theorem processRetrCoapEap_leaves {origin : Alarm} (halone : Alone s p)
    (hstored : (s.heap p).lastSentMessage ≠ none)
    (h : processRetrCoapEap s postAlarm p call = .ok u) :
    Leaves digests s u call (.retrCoapEap origin postAlarm p) p false := by
  have hmoves : movesSession digests s call (.retrCoapEap origin postAlarm p) = true := rfl
  rcases processRetrCoapEap_belongings halone h with ⟨hid, -⟩ |
    ⟨-, ⟨hnone, -⟩ | ⟨hrearmed, -, -⟩ | ⟨halarms, hsessions, -⟩⟩
  · exact absurd rfl hid
  · exact absurd hnone hstored
  · refine ⟨hrearmed.others, fun _ => .inr (.inr hrearmed.own), ?_⟩
    intro hnot
    rw [hmoves] at hnot
    exact Bool.noConfusion hnot
  · refine ⟨?_, ?_, ?_⟩
    · intro a ha hother
      rw [halarms]
      exact mem_othersAlarms.mpr ⟨ha, hother⟩
    · intro _
      refine .inr (.inl ?_)
      rw [hsessions]
      simp [othersListed]
    · intro hnot
      rw [hmoves] at hnot
      exact Bool.noConfusion hnot

theorem keeps_of_session {worker : Worker} (hsession : worker.session = some p)
    (hkeeps : worker.keeps s q = true) : q = p := by
  cases worker with
  | took task => simp [Worker.session] at hsession
  | retrId origin id => simp [Worker.session] at hsession
  | _ =>
    simp only [Worker.keeps, decide_eq_true_eq] at hkeeps
    exact Option.some.inj (hkeeps.symm.trans hsession)

/-- The handler of a worker hands its session over. -/
theorem Going.handled {worker : Worker} {inside : Bool} (hs : Going s requests)
    (hworker : s.workers[i]? = some worker) (hsession : worker.session = some p)
    (htouches : Touches p s u) (hleaves : Leaves digests s u call worker p inside)
    (hhands : handlesOver digests s requests (.handle i call) = true)
    (hafter : (inside = false ∧ t = endWorker u i) ∨
      (inside = true ∧ t = setWorker u i (.radiusIdentity p))) : Going t requests := by
  obtain ⟨halarms, hpopped, hsessions, hids⟩ : t.alarms = u.alarms ∧
      t.alarmThread = s.alarmThread ∧ t.sessions = u.sessions ∧ t.sessionId = s.sessionId := by
    have hids : u.sessionId = s.sessionId := funext htouches.sessionId
    rcases hafter with ⟨-, rfl⟩ | ⟨-, rfl⟩
    · exact ⟨rfl, htouches.alarmThread, rfl, hids⟩
    · exact ⟨rfl, htouches.alarmThread, rfl, hids⟩
  have hworker' : u.workers[i]? = some worker := by rw [htouches.workers, hworker]
  have hothers : ∀ w ∈ s.others i, w ∈ t.activities := by
    intro w hw
    rw [← htouches.othersOf i] at hw
    rcases hafter with ⟨-, rfl⟩ | ⟨-, rfl⟩
    · exact hw
    · exact (activities_setWorker _ hworker').mem_iff.mpr (List.mem_cons_of_mem _ hw)
  have hinside : inside = true → .radiusIdentity p ∈ t.activities := by
    intro hin
    rcases hafter with ⟨hout, -⟩ | ⟨-, rfl⟩
    · simp [hin] at hout
    · exact (activities_setWorker _ hworker').mem_iff.mpr (List.mem_cons_self ..)
  -- what was there beside the handler keeps a session going after it too
  have hbeside : ∀ q, keptBy s (s.others i) requests q = true →
      (∀ a ∈ s.alarms, a.session = q → a ∈ u.alarms) →
        keptBy t t.activities requests q = true := by
    intro q hkept hstay
    have hid : t.sessionId q = s.sessionId q := by rw [hids]
    apply keptBy_later hkept
    · exact fun a ha howner => keptBy_alarm (halarms ▸ hstay a ha howner) howner
    · exact fun a ha howner => keptBy_popped (hpopped ▸ ha) howner
    · exact fun w hw hkeeps =>
        keptBy_activity (hothers w hw) (by rw [keeps_of_sessionId hid]; exact hkeeps)
    · exact fun entry hentry => hentry
  intro q hq
  rw [hsessions] at hq
  have hlisted : q ∈ s.sessions := htouches.sessions.subset hq
  by_cases hself : q = p
  · subst hself
    simp only [handlesOver, hworker, Option.all_some, hsession, Bool.and_eq_true, leftGoing,
      Bool.or_eq_true, decide_true, true_and, Bool.not_eq_true', List.contains_eq_mem,
      decide_eq_false_iff_not] at hhands
    cases hmoves : movesSession digests s call worker with
    | true =>
      rcases hleaves.moved hmoves with hin | hgone | ⟨a, ha, howner⟩
      · exact keptBy_activity (hinside hin) (by simp [Worker.keeps, Worker.session])
      · exact absurd hq hgone
      · exact keptBy_alarm (halarms ▸ ha) howner
    | false =>
      rcases hhands.1 with (hgone | hmoved) | hkept
      · exact absurd hlisted hgone
      · simp [hmoves] at hmoved
      · exact hbeside q hkept fun a ha _ => hleaves.stayed hmoves a ha
  · rcases keptBy_iff.mp (hs q hlisted) with ⟨a, ha, howner⟩ | ⟨a, ha, howner⟩ |
      ⟨w, hw, hkeeps⟩ | ⟨entry, hentry, howner⟩
    · exact keptBy_alarm (halarms ▸ hleaves.others a ha (howner ▸ hself)) howner
    · exact keptBy_popped (hpopped ▸ ha) howner
    · rcases List.mem_cons.mp ((activities_of_worker hworker).mem_iff.mp hw) with rfl | hother
      · exact absurd (keeps_of_session hsession hkeeps) hself
      · have hid : t.sessionId q = s.sessionId q := by rw [hids]
        exact keptBy_activity (hothers w hother) (by rw [keeps_of_sessionId hid]; exact hkeeps)
    · exact keptBy_request hentry howner

end CoapEap.Mainserver
