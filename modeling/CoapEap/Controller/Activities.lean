import CoapEap.Controller.Moves
import CoapEap.Library.Logs

/-!
The work in hand: the queued tasks and the tasks the workers are in. A task that
a worker takes from the queue stays where it is in this view, so only the lookups
and the handlers move an activity on.
-/

namespace CoapEap.Mainserver

open Cantcoap EapServer Lalarm Radius Library.Logs

namespace Controller

/-- The queued tasks, each as the worker has it that takes it next, and the
workers. -/
def activities (s : Controller) : List Worker := s.tasks.map .took ++ s.workers

def others (s : Controller) (i : Nat) : List Worker :=
  s.tasks.map .took ++ s.workers.eraseIdx i

end Controller

/-- The session a worker has in hand. -/
def Worker.session : Worker → Option Ptr
  | .coapMsg _ p => some p
  | .acknowledgment _ _ p => some p
  | .receiveRadiusMsg _ p => some p
  | .radiusIdentity p => some p
  | .retrCoapEap _ _ p => some p
  | _ => none

/-- The POST that an acknowledgment was queued for. -/
def Worker.post : Worker → Option (Ptr × Nat)
  | .took (.processAcknowledgment _ post) => some post
  | .acknowledgment _ post _ => some post
  | _ => none

def Occurrence.fedPost : Occurrence → Option (Ptr × Nat)
  | .fed _ post => some post
  | _ => none

variable {s t : Controller} {i : Nat} {worker worker' : Worker}

theorem activities_of_worker (h : s.workers[i]? = some worker) :
    s.activities.Perm (worker :: s.others i) := by
  have hworkers := perm_of_getElem? h
  have hfront : s.activities.Perm (s.tasks.map .took ++ worker :: s.workers.eraseIdx i) :=
    hworkers.append_left _
  exact hfront.trans List.perm_middle

theorem activities_setWorker (worker' : Worker) (h : s.workers[i]? = some worker) :
    (setWorker s i worker').activities.Perm (worker' :: s.others i) := by
  have hworkers : (s.workers.set i worker').Perm (worker' :: s.workers.eraseIdx i) :=
    set_perm h
  have hfront : (setWorker s i worker').activities.Perm
      (s.tasks.map .took ++ worker' :: s.workers.eraseIdx i) :=
    hworkers.append_left _
  exact hfront.trans List.perm_middle

theorem activities_endWorker : (endWorker s i).activities = s.others i := rfl

theorem activities_addTask (s : Controller) (task : Task) :
    (addTask s task).activities.Perm (.took task :: s.activities) := by
  have hsplit : (addTask s task).activities =
      s.tasks.map .took ++ .took task :: s.workers := by
    simp [Controller.activities, addTask]
  rw [hsplit]
  exact List.perm_middle

/-- A worker takes the first task. -/
theorem activities_taken {task : Task} {rest : List Task} (h : s.tasks = task :: rest) :
    Controller.activities { s with tasks := rest, workers := s.workers ++ [.took task] }
      |>.Perm s.activities := by
  have hbefore : s.activities = .took task :: (rest.map .took ++ s.workers) := by
    simp [Controller.activities, h]
  have hafter : Controller.activities
      { s with tasks := rest, workers := s.workers ++ [.took task] } =
        (rest.map .took ++ s.workers) ++ [.took task] := by
    simp [Controller.activities]
  rw [hbefore, hafter]
  exact List.perm_append_singleton _ _

theorem mem_activities_of_worker (h : s.workers[i]? = some worker) : worker ∈ s.activities :=
  (activities_of_worker h).mem_iff.mpr (List.mem_cons_self ..)

theorem mem_activities_of_others (h : worker ∈ s.others i) : worker ∈ s.activities := by
  rcases List.mem_append.mp h with hqueued | hworking
  · exact List.mem_append_left _ hqueued
  · exact List.mem_append_right _ (List.mem_of_mem_eraseIdx hworking)

theorem mem_activities_setWorker (h : worker ∈ (setWorker s i worker').activities) :
    worker = worker' ∨ worker ∈ s.activities := by
  rcases List.mem_append.mp h with hqueued | hworking
  · exact .inr (List.mem_append_left _ hqueued)
  · rcases List.mem_or_eq_of_mem_set hworking with hold | hnew
    · exact .inr (List.mem_append_right _ hold)
    · exact .inl hnew

theorem mem_activities_addTask {task : Task} (h : worker ∈ (addTask s task).activities) :
    worker = .took task ∨ worker ∈ s.activities :=
  List.mem_cons.mp ((activities_addTask s task).mem_iff.mp h)

theorem Touches.activities {p : Ptr} (h : Touches p s t) : t.activities = s.activities := by
  rw [Controller.activities, h.tasks, h.workers, Controller.activities]

theorem Touches.othersOf {p : Ptr} (h : Touches p s t) (i : Nat) : t.others i = s.others i := by
  rw [Controller.others, h.tasks, h.workers, Controller.others]

/-- What a worker notes in its handler, by the task it is in. The other
occurrences are noted by the network thread, by the alarm thread and by the reads
of the parameters they share. -/
inductive Notes (s : Controller) (p : Ptr) : Worker → Occurrence → Prop
  | sentPost (worker : Worker) (post : Nat) : Notes s p worker (.sentPost p post)
  | accessRequest (worker : Worker) (identifier : UInt8) :
      Notes s p worker (.accessRequest p identifier)
  | acknowledged (task : NetworkTask) (post : Ptr × Nat)
      (answers : answersOutstanding (s.heap p) task.buf = true) :
      Notes s p (.acknowledgment task post p) (.acknowledged p (s.heap p).posts)
  | fed (task : NetworkTask) (post : Ptr × Nat) :
      Notes s p (.acknowledgment task post p) (.fed p post)
  | completed (task : NetworkTask) (post : Ptr × Nat) (state : (s.heap p).currentState = 3) :
      Notes s p (.acknowledgment task post p)
        (.completed p task.buf (s.heap p).lastSentMessage)
  | retransmitted (origin : Alarm) (id : Nat) :
      Notes s p (.retrCoapEap origin id p) (.retransmitted p (s.heap p).posts)
  | timedOut (origin : Alarm) (id : Nat) : Notes s p (.retrCoapEap origin id p) (.timedOut p)

/-- The move of a worker in its handler: the handler works on the session in
hand, feeds the EAP layer at most once and with the acknowledgment in hand, and
then the worker is done or stands in the identity workaround. -/
structure HandlerMove (s t : Controller) (i : Nat) (worker : Worker) (p : Ptr)
    (u : Controller) (new : List Occurrence) : Prop where
  working : s.workers[i]? = some worker
  inHand : worker.session = some p
  touches : Touches p s u
  log : u.log = s.log ++ new
  notes : ∀ o ∈ new, Notes s p worker o
  fed : List.Sublist (new.filterMap Occurrence.fedPost) worker.post.toList
  after : t = endWorker u i ∨
    (t = setWorker u i (.radiusIdentity p) ∧ ∃ msg, worker = .receiveRadiusMsg msg p)

theorem fed_of_none {new : List Occurrence} (h : ∀ o ∈ new, o.fedPost = none) :
    List.Sublist (new.filterMap Occurrence.fedPost) worker.post.toList := by
  rw [List.filterMap_eq_nil_iff.mpr h]
  exact List.nil_sublist _

theorem processAcknowledgment_notes {task : NetworkTask} {post : Ptr × Nat} {p : Ptr}
    {call : Call} (h : processAcknowledgment s task post p call = .ok t) :
    ∃ new, t.log = s.log ++ new ∧ (∀ o ∈ new, Notes s p (.acknowledgment task post p) o) ∧
      List.Sublist (new.filterMap Occurrence.fedPost) [post] := by
  obtain ⟨new, hlog, hnew⟩ := processAcknowledgment_log h
  refine ⟨_, hlog, ?_, ?_⟩
  · intro o ho
    rcases List.mem_append.mp ho with hnoted | hrest
    · split at hnoted
      · rename_i hanswers
        rw [List.mem_singleton.mp hnoted]
        exact .acknowledged task post hanswers
      · simp at hnoted
    · rcases hnew with ⟨requests, rfl, hrequests⟩ | ⟨hstate, rfl⟩ | rfl
      · rcases List.mem_cons.mp hrest with rfl | hrequest
        · exact .fed task post
        · obtain ⟨identifier, rfl⟩ := hrequests o hrequest
          exact .accessRequest _ identifier
      · rw [List.mem_singleton.mp hrest]
        exact .completed task post hstate
      · simp at hrest
  · have hnoted : (if answersOutstanding (s.heap p) task.buf then
        [Occurrence.acknowledged p (s.heap p).posts] else []).filterMap Occurrence.fedPost =
          [] := by
      split <;> rfl
    rw [List.filterMap_append, hnoted, List.nil_append]
    rcases hnew with ⟨requests, rfl, hrequests⟩ | ⟨-, rfl⟩ | rfl
    · have hnone : requests.filterMap Occurrence.fedPost = [] := by
        apply List.filterMap_eq_nil_iff.mpr
        intro o ho
        obtain ⟨identifier, rfl⟩ := hrequests o ho
        rfl
      have hone : (Occurrence.fed p post :: requests).filterMap Occurrence.fedPost =
          post :: requests.filterMap Occurrence.fedPost := rfl
      rw [hone, hnone]
    · exact List.nil_sublist _
    · exact List.nil_sublist _

theorem processRetrCoapEap_notes {origin : Alarm} {id : Nat} {p : Ptr} {call : Call}
    (h : processRetrCoapEap s id p call = .ok t) :
    ∃ new, t.log = s.log ++ new ∧ (∀ o ∈ new, Notes s p (.retrCoapEap origin id p) o) ∧
      List.Sublist (new.filterMap Occurrence.fedPost) [] := by
  rcases processRetrCoapEap_log h with hlog | hlog | hlog
  · exact ⟨[], by simp [hlog], by simp, List.Sublist.refl _⟩
  · refine ⟨_, hlog, ?_, List.Sublist.refl _⟩
    intro o ho
    rw [List.mem_singleton.mp ho]
    exact .retransmitted origin id
  · refine ⟨_, hlog, ?_, List.Sublist.refl _⟩
    intro o ho
    rw [List.mem_singleton.mp ho]
    exact .timedOut origin id

/-- Whatever the handler, its move is of one kind. -/
theorem handle_move_kind {digests : Digests} {call : Call}
    (h : Move digests s (.handle i call) t) :
    t = s ∨ (∃ reason, t = { s with halted := some reason }) ∨
      ∃ worker p u new, HandlerMove s t i worker p u new := by
  cases h with
  | ignored => exact .inl rfl
  | ended _ reason => exact .inr (.inl ⟨reason, rfl⟩)
  | handledCoap _ _ task p u hworker _ hresult =>
    obtain ⟨new, hlog, hnew⟩ := processCoapMsg_log hresult
    refine .inr (.inr ⟨_, p, u, new, hworker, rfl, touches_processCoapMsg hresult, hlog, ?_,
      fed_of_none ?_, .inl rfl⟩)
    · intro o ho
      rcases hnew o ho with ⟨identifier, rfl⟩ | ⟨post, rfl⟩
      · exact .accessRequest _ identifier
      · exact .sentPost _ post
    · intro o ho
      rcases hnew o ho with ⟨identifier, rfl⟩ | ⟨post, rfl⟩ <;> rfl
  | handledAcknowledgment _ _ task post p u hworker _ hresult =>
    obtain ⟨new, hlog, hnew, hfed⟩ := processAcknowledgment_notes hresult
    exact .inr (.inr ⟨_, p, u, new, hworker, rfl, touches_processAcknowledgment hresult, hlog,
      hnew, hfed, .inl rfl⟩)
  | handledRadius _ _ msg p u hworker _ hresult =>
    obtain ⟨new, hlog, hnew⟩ := processReceiveRadiusMsg_log hresult
    refine .inr (.inr ⟨_, p, u, new, hworker, rfl, touches_processReceiveRadiusMsg hresult,
      hlog, ?_, fed_of_none ?_, .inl rfl⟩)
    · intro o ho
      obtain ⟨post, rfl⟩ := hnew o ho
      exact .sentPost _ post
    · intro o ho
      obtain ⟨post, rfl⟩ := hnew o ho
      rfl
  | wroteIdentity _ _ msg p u hworker _ hresult =>
    obtain ⟨new, hlog, hnew⟩ := processReceiveRadiusMsg_log hresult
    refine .inr (.inr ⟨_, p, u, new, hworker, rfl, touches_processReceiveRadiusMsg hresult,
      hlog, ?_, fed_of_none ?_, .inr ⟨rfl, msg, rfl⟩⟩)
    · intro o ho
      obtain ⟨post, rfl⟩ := hnew o ho
      exact .sentPost _ post
    · intro o ho
      obtain ⟨post, rfl⟩ := hnew o ho
      rfl
  | handedIdentity _ _ p u hworker hresult =>
    obtain ⟨new, hlog, hnew⟩ := stepSession_log hresult
    refine .inr (.inr ⟨_, p, u, new, hworker, rfl, touches_identityHandOver hresult, hlog, ?_,
      fed_of_none ?_, .inl rfl⟩)
    · intro o ho
      obtain ⟨identifier, rfl⟩ := hnew o ho
      exact .accessRequest _ identifier
    · intro o ho
      obtain ⟨identifier, rfl⟩ := hnew o ho
      rfl
  | handledRetr _ _ origin id p u hworker _ hresult =>
    obtain ⟨new, hlog, hnew, hfed⟩ := processRetrCoapEap_notes hresult
    exact .inr (.inr ⟨_, p, u, new, hworker, rfl, touches_processRetrCoapEap hresult, hlog,
      hnew, hfed, .inl rfl⟩)

/-- What the move of a worker in its handler leaves alone, whatever the handler. -/
structure HandlerFrame (s t : Controller) (i : Nat) : Prop where
  nextPtr : t.nextPtr = s.nextPtr
  radCtx : t.radCtx = s.radCtx
  networkThread : t.networkThread = s.networkThread
  sessions : List.Sublist t.sessions s.sessions
  alarms : ∀ a ∈ t.alarms, a ∈ s.alarms ∨
    ∃ worker, s.workers[i]? = some worker ∧ worker.session = some a.session

theorem HandlerMove.frame {p : Ptr} {u : Controller} {new : List Occurrence}
    (h : HandlerMove s t i worker p u new) : HandlerFrame s t i := by
  have hran : HandlerFrame s u i := by
    refine ⟨h.touches.nextPtr, h.touches.radCtx, h.touches.networkThread, h.touches.sessions, ?_⟩
    intro a ha
    rcases h.touches.alarms a ha with hold | ⟨howner, -⟩
    · exact .inl hold
    · exact .inr ⟨worker, h.working, howner ▸ h.inHand⟩
  rcases h.after with rfl | ⟨rfl, -⟩
  · exact ⟨hran.nextPtr, hran.radCtx, hran.networkThread, hran.sessions, hran.alarms⟩
  · exact ⟨hran.nextPtr, hran.radCtx, hran.networkThread, hran.sessions, hran.alarms⟩

theorem handle_frame {digests : Digests} {call : Call}
    (h : Move digests s (.handle i call) t) : HandlerFrame s t i := by
  have hsame : HandlerFrame s s i := ⟨rfl, rfl, rfl, List.Sublist.refl _, fun _ ha => .inl ha⟩
  rcases handle_move_kind h with rfl | ⟨reason, rfl⟩ | ⟨w, p, u, new, hhandler⟩
  · exact hsame
  · exact ⟨hsame.nextPtr, hsame.radCtx, hsame.networkThread, hsame.sessions, hsame.alarms⟩
  · exact hhandler.frame

/-- What a step adds to the log, by the thread that moves. -/
inductive Noted (s : Controller) : Event → Occurrence → Prop
  | byHandler (i : Nat) (call : Call) (worker : Worker) (p : Ptr) (o : Occurrence)
      (working : s.workers[i]? = some worker) (notes : Notes s p worker o) :
      Noted s (.handle i call) o
  | ackQueued (post : Ptr × Nat) : Noted s .lockAcknowledgment (.ackQueued post)
  | expired (alarm : Alarm) : Noted s .alarmStep (.expired alarm)
  | retrRead (i : Nat) (stack : Bytes) (origin : Alarm) (p : Ptr) (id : Nat) :
      Noted s (.lookup i stack) (.retrRead origin p id)

theorem HandlerMove.log_eq {p : Ptr} {u : Controller} {new : List Occurrence}
    (h : HandlerMove s t i worker p u new) : t.log = s.log ++ new := by
  rcases h.after with rfl | ⟨rfl, -⟩
  · exact h.log
  · exact h.log

theorem step_log {digests : Digests} {e : Event} (h : step digests s e = some t) :
    ∃ new, t.log = s.log ++ new ∧ ∀ o ∈ new, Noted s e o := by
  have hnothing : t.log = s.log → ∃ new, t.log = s.log ++ new ∧ ∀ o ∈ new, Noted s e o :=
    fun hlog => ⟨[], by simp [hlog], by simp⟩
  obtain ⟨-, hmove⟩ := step_move h
  cases hmove with
  | queued task p =>
    refine ⟨[_], rfl, ?_⟩
    intro o ho
    rw [List.mem_singleton.mp ho]
    exact .ackQueued _
  | readSession i stack origin id =>
    refine ⟨[_], rfl, ?_⟩
    intro o ho
    rw [List.mem_singleton.mp ho]
    exact .retrRead i stack origin _ id
  | popped time alarm =>
    refine ⟨[_], rfl, ?_⟩
    intro o ho
    rw [List.mem_singleton.mp ho]
    exact .expired alarm
  | handledCoap | handledAcknowledgment | handledRadius | wroteIdentity | handedIdentity
  | handledRetr =>
    rcases handle_move_kind (step_move h).2 with heq | ⟨reason, heq⟩ | ⟨w, p, u, new, hhandler⟩
    · exact hnothing (by rw [heq])
    · exact hnothing (by rw [heq])
    · exact ⟨new, hhandler.log_eq,
        fun o ho => .byHandler _ _ w p o hhandler.working (hhandler.notes o ho)⟩
  | _ => exact hnothing rfl

/-- What never shrinks, and what a session keeps for ever. -/
structure Grows (s t : Controller) : Prop where
  nextPtr : s.nextPtr ≤ t.nextPtr
  sessionId : ∀ p < s.nextPtr, t.sessionId p = s.sessionId p
  posts : ∀ p < s.nextPtr, (s.heap p).posts ≤ (t.heap p).posts

theorem grows_same (hnext : t.nextPtr = s.nextPtr) (hheap : t.heap = s.heap) : Grows s t where
  nextPtr := Nat.le_of_eq hnext.symm
  sessionId := fun p _ => by rw [Controller.sessionId, hheap, Controller.sessionId]
  posts := fun p _ => Nat.le_of_eq (by rw [hheap])

theorem Touches.grows {p : Ptr} (h : Touches p s t) : Grows s t where
  nextPtr := Nat.le_of_eq h.nextPtr.symm
  sessionId := fun q _ => h.sessionId q
  posts := fun q _ => h.posts q

theorem HandlerMove.grows {p : Ptr} {u : Controller} {new : List Occurrence}
    (h : HandlerMove s t i worker p u new) : Grows s t := by
  have hran := h.touches.grows
  rcases h.after with rfl | ⟨rfl, -⟩
  · exact ⟨hran.nextPtr, hran.sessionId, hran.posts⟩
  · exact ⟨hran.nextPtr, hran.sessionId, hran.posts⟩

theorem step_grows {digests : Digests} {e : Event} (h : step digests s e = some t) :
    Grows s t := by
  obtain ⟨-, hmove⟩ := step_move h
  cases hmove with
  | created datagram source arrival =>
    refine ⟨Nat.le_succ _, ?_, ?_⟩
    · intro p hp
      rw [Controller.sessionId, newSession_heap_ne _ _ _ (Nat.ne_of_lt hp), Controller.sessionId]
    · intro p hp
      exact Nat.le_of_eq (by rw [newSession_heap_ne _ _ _ (Nat.ne_of_lt hp)])
  | queued task p =>
    have hreceived := touches_setReceived p s task.buf
    exact ⟨Nat.le_refl _, hreceived.grows.sessionId, hreceived.grows.posts⟩
  | handledCoap | handledAcknowledgment | handledRadius | wroteIdentity | handedIdentity
  | handledRetr =>
    rcases handle_move_kind (step_move h).2 with heq | ⟨reason, heq⟩ | ⟨w, p, u, new, hhandler⟩
    · rw [heq]
      exact grows_same rfl rfl
    · rw [heq]
      exact grows_same rfl rfl
    · exact hhandler.grows
  | _ => exact grows_same rfl rfl

/-- An activity that a step brings about, with what it comes from. -/
inductive Arises (s : Controller) : Event → Worker → Prop
  | created (datagram : Bytes) (source : Endpoint) (arrival : Arrival)
      (valid : (validate (datagram.take (maxBufLen - 1))).isSome)
      (type : getType (datagram.take (maxBufLen - 1)) ≠ .acknowledgement) :
      Arises s (.recvCoap datagram source arrival)
        (.took (.processCoapMsg ⟨datagram.take (maxBufLen - 1), source, arrival.sessionId⟩))
  | queued (task : NetworkTask) (p : Ptr) (lastSent : Bytes)
      (named : s.networkThread = .acknowledgment task p)
      (sent : (s.heap p).lastSentMessage = some lastSent)
      (answers : getMessageId task.buf = getMessageId lastSent) :
      Arises s .lockAcknowledgment (.took (.processAcknowledgment task (p, (s.heap p).posts)))
  | arrived (datagram : Bytes) (msg : RadiusMsg)
      (parsed : radiusMsgParse (datagram.take maxDataLen) = some msg) :
      Arises s (.recvRadius datagram) (.took (.processReceiveRadiusMsg msg))
  | foundCoap (i : Nat) (stack : Bytes) (task : NetworkTask) (p : Ptr)
      (before : .took (.processCoapMsg task) ∈ s.activities)
      (found : getCoapEapSession s task.sessionId = .ok p) :
      Arises s (.lookup i stack) (.coapMsg task p)
  | foundAcknowledgment (i : Nat) (stack : Bytes) (task : NetworkTask) (post : Ptr × Nat)
      (p : Ptr) (before : .took (.processAcknowledgment task post) ∈ s.activities)
      (found : getCoapEapSession s (tokenSessionId task.buf stack) = .ok p)
      (worker : s.workers[i]? = some (.took (.processAcknowledgment task post))) :
      Arises s (.lookup i stack) (.acknowledgment task post p)
  | foundContext (i : Nat) (stack : Bytes) (msg : RadiusMsg) (p : Ptr)
      (worker : s.workers[i]? = some (.took (.processReceiveRadiusMsg msg)))
      (found : searchEapCtxRadClient s msg.identifier = some p) :
      Arises s (.lookup i stack) (.receiveRadiusMsg msg p)
  | readId (i : Nat) (stack : Bytes) (origin : Alarm) :
      Arises s (.lookup i stack) (.retrId origin s.retransParams.id)
  | readSession (i : Nat) (stack : Bytes) (origin : Alarm) (id : Nat)
      (before : .retrId origin id ∈ s.activities) :
      Arises s (.lookup i stack) (.retrCoapEap origin id s.retransParams.session)
  | wroteIdentity (i : Nat) (call : Call) (msg : RadiusMsg) (p : Ptr)
      (before : .receiveRadiusMsg msg p ∈ s.activities) (unlocked : (s.heap p).mutex = false) :
      Arises s (.handle i call) (.radiusIdentity p)
  | queuedRetr (time : Rat) (alarm : Alarm) (stage : s.alarmThread = .idWritten time alarm) :
      Arises s .alarmStep (.took (.processRetrCoapEap alarm))

/-- Every activity after a step was there before it or arose in it. -/
theorem step_activities {digests : Digests} {e : Event} (h : step digests s e = some t) :
    ∀ w ∈ t.activities, w ∈ s.activities ∨ Arises s e w := by
  obtain ⟨-, hmove⟩ := step_move h
  intro w hw
  cases hmove with
  | created datagram source arrival _ hvalid htype =>
    rcases mem_activities_addTask hw with rfl | hold
    · exact .inr (.created datagram source arrival hvalid htype)
    · exact .inl hold
  | queued task p lastSent hnamed _ hsent hanswers =>
    rcases mem_activities_addTask hw with rfl | hold
    · exact .inr (.queued task p lastSent hnamed hsent hanswers)
    · exact .inl hold
  | arrived datagram msg _ hparsed =>
    rcases mem_activities_addTask hw with rfl | hold
    · exact .inr (.arrived datagram msg hparsed)
    · exact .inl hold
  | taken task rest hqueue => exact .inl ((activities_taken hqueue).mem_iff.mp hw)
  | foundCoap i stack task p hworker hfound =>
    rcases mem_activities_setWorker hw with rfl | hold
    · exact .inr (.foundCoap i stack task p (mem_activities_of_worker hworker) hfound)
    · exact .inl hold
  | foundAcknowledgment i stack task post p hworker hfound =>
    rcases mem_activities_setWorker hw with rfl | hold
    · exact .inr
        (.foundAcknowledgment i stack task post p (mem_activities_of_worker hworker) hfound
          hworker)
    · exact .inl hold
  | foundContext i stack msg p hworker hfound =>
    rcases mem_activities_setWorker hw with rfl | hold
    · exact .inr (.foundContext i stack msg p hworker hfound)
    · exact .inl hold
  | noContext => exact .inl (mem_activities_of_others hw)
  | readId i stack origin =>
    rcases mem_activities_setWorker hw with rfl | hold
    · exact .inr (.readId i stack origin)
    · exact .inl hold
  | readSession i stack origin id hworker =>
    have hw : w ∈ (setWorker s i (.retrCoapEap origin id s.retransParams.session)).activities :=
      hw
    rcases mem_activities_setWorker hw with rfl | hold
    · exact .inr (.readSession i stack origin id (mem_activities_of_worker hworker))
    · exact .inl hold
  | wroteIdentity i call msg p u hworker hunlocked hresult =>
    rcases mem_activities_setWorker hw with rfl | hold
    · exact .inr (.wroteIdentity i call msg p (mem_activities_of_worker hworker) hunlocked)
    · exact .inl ((touches_processReceiveRadiusMsg hresult).activities ▸ hold)
  | handledCoap i call task p u _ _ hresult =>
    exact .inl ((touches_processCoapMsg hresult).activities ▸ mem_activities_of_others hw)
  | handledAcknowledgment i call task post p u _ _ hresult =>
    exact .inl ((touches_processAcknowledgment hresult).activities ▸ mem_activities_of_others hw)
  | handledRadius i call msg p u _ _ hresult =>
    exact .inl ((touches_processReceiveRadiusMsg hresult).activities ▸ mem_activities_of_others hw)
  | handedIdentity i call p u _ hresult =>
    exact .inl ((touches_identityHandOver hresult).activities ▸ mem_activities_of_others hw)
  | handledRetr i call origin id p u _ _ hresult =>
    exact .inl ((touches_processRetrCoapEap hresult).activities ▸ mem_activities_of_others hw)
  | queuedRetr time alarm hstage =>
    rcases mem_activities_addTask hw with rfl | hold
    · exact .inr (.queuedRetr time alarm hstage)
    · exact .inl hold
  | _ => exact .inl hw

end CoapEap.Mainserver
