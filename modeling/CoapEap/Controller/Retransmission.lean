import CoapEap.Controller.Activities

/-!
Alarms and their tasks. The alarm thread pops an alarm, writes its session and
its kind into the parameters, and queues a task that points at them; the task
reads them when a worker runs it. All sweeps write into the same place.
-/

namespace CoapEap.Mainserver

open Cantcoap EapServer Lalarm Radius Library.Logs Library.Runs

/-- The alarm of a task that has read neither parameter. -/
def Worker.unreadId : Worker → Option Alarm
  | .took (.processRetrCoapEap origin) => some origin
  | _ => none

/-- The alarm of a task that has not read the session. -/
def Worker.unread : Worker → Option Alarm
  | .took (.processRetrCoapEap origin) => some origin
  | .retrId origin _ => some origin
  | _ => none

/-- The alarm of a task, wherever the task stands. -/
def Worker.origin : Worker → Option Alarm
  | .took (.processRetrCoapEap origin) => some origin
  | .retrId origin _ => some origin
  | .retrCoapEap origin _ _ => some origin
  | _ => none

/-- The alarm that was popped and has no task yet. -/
def AlarmThread.alarm : AlarmThread → Option Alarm
  | .sleeping => none
  | .sweeping _ => none
  | .popped _ alarm => some alarm
  | .sessionWritten _ alarm => some alarm
  | .idCleared _ alarm => some alarm
  | .idWritten _ alarm => some alarm

def Occurrence.expiredAlarm : Occurrence → Option Alarm
  | .expired alarm => some alarm
  | _ => none

def Occurrence.readAlarm : Occurrence → Option Alarm
  | .retrRead origin _ _ => some origin
  | _ => none

/-- The alarms whose execution of `process_retr_coap_eap` is still to come. -/
def pending (s : Controller) : List Alarm :=
  s.alarmThread.alarm.toList ++ s.activities.filterMap Worker.unread

/-- Every expired alarm has had its one execution or has it still to come, and
every execution reads session and kind of its own alarm. -/
structure OneExecutionEach (s : Controller) : Prop where
  executions : (s.log.filterMap Occurrence.expiredAlarm).Perm
    (s.log.filterMap Occurrence.readAlarm ++ pending s)
  reads : ∀ origin p id, .retrRead origin p id ∈ s.log → p = origin.session ∧ id = origin.id

/-- A move apart from alarms and their tasks. -/
structure LeavesRetr (s t : Controller) : Prop where
  alarmThread : t.alarmThread = s.alarmThread
  retransParams : t.retransParams = s.retransParams
  alarms : ∀ a ∈ t.alarms, a ∈ s.alarms ∨ a.id = postAlarm
  unread : (t.activities.filterMap Worker.unread).Perm (s.activities.filterMap Worker.unread)
  members : ∀ w ∈ t.activities, w ∈ s.activities ∨ w.origin = none
  log : ∃ new, t.log = s.log ++ new ∧
    ∀ o ∈ new, o.expiredAlarm = none ∧ o.readAlarm = none

inductive RetrMove (s : Controller) : Event → Controller → Prop
  | apart (e : Event) (t : Controller) (h : LeavesRetr s t) : RetrMove s e t
  | readId (i : Nat) (stack : Bytes) (origin : Alarm)
      (worker : s.workers[i]? = some (.took (.processRetrCoapEap origin))) :
      RetrMove s (.lookup i stack) (setWorker s i (.retrId origin s.retransParams.id))
  | readSession (i : Nat) (stack : Bytes) (origin : Alarm) (id : Nat)
      (worker : s.workers[i]? = some (.retrId origin id)) :
      RetrMove s (.lookup i stack)
        ((setWorker s i (.retrCoapEap origin id s.retransParams.session)).record
          [.retrRead origin s.retransParams.session id])
  | swept (e : Event) (stage : AlarmThread) (before : s.alarmThread.alarm = none)
      (after : stage.alarm = none) : RetrMove s e { s with alarmThread := stage }
  | popped (time : Rat) (alarm : Alarm) (rest : List Alarm)
      (sweeping : s.alarmThread = .sweeping time) (list : s.alarms = alarm :: rest)
      (due : alarm.tmp < time) :
      RetrMove s .alarmStep
        ({ s with alarms := rest, alarmThread := .popped time alarm }.record [.expired alarm])
  | wroteSession (time : Rat) (alarm : Alarm) (stage : s.alarmThread = .popped time alarm) :
      RetrMove s .alarmStep { s with
        retransParams := { s.retransParams with session := alarm.session }
        alarmThread := .sessionWritten time alarm }
  | clearedId (time : Rat) (alarm : Alarm) (stage : s.alarmThread = .sessionWritten time alarm) :
      RetrMove s .alarmStep { s with
        retransParams := { s.retransParams with id := 0 }
        alarmThread := .idCleared time alarm }
  | wroteId (time : Rat) (alarm : Alarm) (stage : s.alarmThread = .idCleared time alarm)
      (kind : alarm.id = postAlarm) :
      RetrMove s .alarmStep { s with
        retransParams := { s.retransParams with id := postAlarm }
        alarmThread := .idWritten time alarm }
  | unknownAlarm (time : Rat) (alarm : Alarm) (stage : s.alarmThread = .idCleared time alarm)
      (kind : alarm.id ≠ postAlarm) :
      RetrMove s .alarmStep { s with alarmThread := .sweeping time }
  | queuedRetr (time : Rat) (alarm : Alarm) (stage : s.alarmThread = .idWritten time alarm) :
      RetrMove s .alarmStep
        { addTask s (.processRetrCoapEap alarm) with alarmThread := .sweeping time }

variable {s t : Controller} {i : Nat} {e : Event} {digests : Digests}

theorem unread_of_origin {w : Worker} (h : w.origin = none) : w.unread = none := by
  cases w with
  | took task => cases task <;> simp_all [Worker.origin, Worker.unread]
  | retrId origin id => simp [Worker.origin] at h
  | _ => rfl

theorem leavesRetr_same (hthread : t.alarmThread = s.alarmThread)
    (hparams : t.retransParams = s.retransParams) (halarms : t.alarms = s.alarms)
    (hactivities : t.activities = s.activities) (hlog : t.log = s.log) : LeavesRetr s t where
  alarmThread := hthread
  retransParams := hparams
  alarms := fun a ha => .inl (halarms ▸ ha)
  unread := by rw [hactivities]
  members := fun w hw => .inl (hactivities ▸ hw)
  log := ⟨[], by simp [hlog], by simp⟩

/-- A task that is no retransmission is queued. -/
theorem leavesRetr_addTask {task : Task} {new : List Occurrence}
    (hthread : t.alarmThread = s.alarmThread) (hparams : t.retransParams = s.retransParams)
    (halarms : t.alarms = s.alarms)
    (hactivities : t.activities.Perm (.took task :: s.activities))
    (htask : Worker.origin (.took task) = none) (hlog : t.log = s.log ++ new)
    (hnew : ∀ o ∈ new, o.expiredAlarm = none ∧ o.readAlarm = none) : LeavesRetr s t where
  alarmThread := hthread
  retransParams := hparams
  alarms := fun a ha => .inl (halarms ▸ ha)
  unread := by
    have hmapped := hactivities.filterMap Worker.unread
    rwa [List.filterMap_cons_none (unread_of_origin htask)] at hmapped
  members := by
    intro w hw
    rcases List.mem_cons.mp (hactivities.mem_iff.mp hw) with rfl | hold
    · exact .inr htask
    · exact .inl hold
  log := ⟨new, hlog, hnew⟩

/-- A worker that is in no retransmission finds its session. -/
theorem leavesRetr_setWorker {worker worker' : Worker} (hworker : s.workers[i]? = some worker)
    (hbefore : worker.unread = none) (hafter : worker'.origin = none) :
    LeavesRetr s (setWorker s i worker') where
  alarmThread := rfl
  retransParams := rfl
  alarms := fun _ ha => .inl ha
  unread := by
    have hold := (activities_of_worker hworker).filterMap Worker.unread
    have hnew := (activities_setWorker worker' hworker).filterMap Worker.unread
    rw [List.filterMap_cons_none hbefore] at hold
    rw [List.filterMap_cons_none (unread_of_origin hafter)] at hnew
    exact hnew.trans hold.symm
  members := by
    intro w hw
    rcases mem_activities_setWorker hw with rfl | hold
    · exact .inr hafter
    · exact .inl hold
  log := ⟨[], by simp [setWorker], by simp⟩

theorem leavesRetr_endWorker {worker : Worker} (hworker : s.workers[i]? = some worker)
    (hbefore : worker.unread = none) : LeavesRetr s (endWorker s i) where
  alarmThread := rfl
  retransParams := rfl
  alarms := fun _ ha => .inl ha
  unread := by
    have hold := (activities_of_worker hworker).filterMap Worker.unread
    rw [List.filterMap_cons_none hbefore] at hold
    exact hold.symm
  members := fun w hw => .inl (mem_activities_of_others hw)
  log := ⟨[], by simp [endWorker], by simp⟩

theorem LeavesRetr.trans {u : Controller} (h₁ : LeavesRetr s t) (h₂ : LeavesRetr t u) :
    LeavesRetr s u where
  alarmThread := h₂.alarmThread.trans h₁.alarmThread
  retransParams := h₂.retransParams.trans h₁.retransParams
  alarms := by
    intro a ha
    rcases h₂.alarms a ha with hmem | hkind
    · exact h₁.alarms a hmem
    · exact .inr hkind
  unread := h₂.unread.trans h₁.unread
  members := by
    intro w hw
    rcases h₂.members w hw with hmem | hnone
    · exact h₁.members w hmem
    · exact .inr hnone
  log := by
    obtain ⟨new₁, hlog₁, hnew₁⟩ := h₁.log
    obtain ⟨new₂, hlog₂, hnew₂⟩ := h₂.log
    refine ⟨new₁ ++ new₂, by rw [hlog₂, hlog₁, List.append_assoc], ?_⟩
    intro o ho
    rcases List.mem_append.mp ho with hfirst | hsecond
    · exact hnew₁ o hfirst
    · exact hnew₂ o hsecond

theorem unread_of_session {worker : Worker} {p : Ptr} (h : worker.session = some p) :
    worker.unread = none := by
  cases worker <;> simp_all [Worker.session, Worker.unread]

theorem Notes.quiet {p : Ptr} {worker : Worker} {o : Occurrence} (h : Notes s p worker o) :
    o.expiredAlarm = none ∧ o.readAlarm = none := by
  cases h <;> exact ⟨rfl, rfl⟩

theorem Touches.leavesRetr {p : Ptr} {worker : Worker} {new : List Occurrence}
    (h : Touches p s t) (hlog : t.log = s.log ++ new)
    (hnew : ∀ o ∈ new, Notes s p worker o) : LeavesRetr s t where
  alarmThread := h.alarmThread
  retransParams := h.retransParams
  alarms := fun a ha => (h.alarms a ha).imp id And.right
  unread := by rw [h.activities]
  members := fun w hw => .inl (h.activities ▸ hw)
  log := ⟨new, hlog, fun o ho => (hnew o ho).quiet⟩

theorem HandlerMove.leavesRetr {worker : Worker} {p : Ptr} {u : Controller}
    {new : List Occurrence} (h : HandlerMove s t i worker p u new) : LeavesRetr s t := by
  have hran : LeavesRetr s u := h.touches.leavesRetr h.log h.notes
  have hworker : u.workers[i]? = some worker := by
    rw [h.touches.workers]
    exact h.working
  have hnone : worker.unread = none := unread_of_session h.inHand
  rcases h.after with rfl | ⟨rfl, -⟩
  · exact hran.trans (leavesRetr_endWorker hworker hnone)
  · exact hran.trans (leavesRetr_setWorker hworker hnone rfl)

theorem handle_leavesRetr {call : Call} (h : Move digests s (.handle i call) t) :
    LeavesRetr s t := by
  rcases handle_move_kind h with rfl | ⟨reason, rfl⟩ | ⟨worker, p, u, new, hhandler⟩
  · exact leavesRetr_same rfl rfl rfl rfl rfl
  · exact leavesRetr_same rfl rfl rfl rfl rfl
  · exact hhandler.leavesRetr

/-- A step of the controller as alarms and their tasks see it. -/
theorem step_retrMove (h : step digests s e = some t) : RetrMove s e t := by
  obtain ⟨-, hmove⟩ := step_move h
  cases hmove with
  | ignored | ended | named | duplicate =>
    exact .apart _ _ (leavesRetr_same rfl rfl rfl rfl rfl)
  | created datagram source arrival =>
    exact .apart _ _ (leavesRetr_addTask rfl rfl rfl (activities_addTask _ _) rfl
      (List.append_nil _).symm (by simp))
  | queued task p =>
    exact .apart _ _ (leavesRetr_addTask rfl rfl rfl (activities_addTask _ _) rfl rfl
      (by simp [Occurrence.expiredAlarm, Occurrence.readAlarm]))
  | arrived =>
    exact .apart _ _ (leavesRetr_addTask rfl rfl rfl (activities_addTask _ _) rfl
      (List.append_nil _).symm (by simp))
  | taken task rest hqueue =>
    have htaken := activities_taken hqueue
    refine .apart _ _ ⟨rfl, rfl, fun _ ha => .inl ha, htaken.filterMap _, ?_,
      ⟨[], by simp, by simp⟩⟩
    exact fun w hw => .inl (htaken.mem_iff.mp hw)
  | foundCoap _ _ task p hworker =>
    exact .apart _ _ (leavesRetr_setWorker hworker rfl rfl)
  | foundAcknowledgment _ _ task post p hworker =>
    exact .apart _ _ (leavesRetr_setWorker hworker rfl rfl)
  | foundContext _ _ msg p hworker =>
    exact .apart _ _ (leavesRetr_setWorker hworker rfl rfl)
  | noContext _ _ msg hworker =>
    exact .apart _ _ (leavesRetr_endWorker hworker rfl)
  | handledCoap | handledAcknowledgment | handledRadius | wroteIdentity | handedIdentity
  | handledRetr => exact .apart _ _ (handle_leavesRetr (step_move h).2)
  | readId _ _ origin hworker => exact .readId _ _ origin hworker
  | readSession _ _ origin id hworker => exact .readSession _ _ origin id hworker
  | woke time hsleeping => exact .swept _ _ (by rw [hsleeping]; rfl) rfl
  | sweptUp time hsweeping => exact .swept _ _ (by rw [hsweeping]; rfl) rfl
  | popped time alarm rest hsweeping hlist hdue =>
    exact .popped time alarm rest hsweeping hlist hdue
  | wroteSession time alarm hstage => exact .wroteSession time alarm hstage
  | clearedId time alarm hstage => exact .clearedId time alarm hstage
  | wroteId time alarm hstage hkind => exact .wroteId time alarm hstage hkind
  | unknownAlarm time alarm hstage hkind => exact .unknownAlarm time alarm hstage hkind
  | queuedRetr time alarm hstage => exact .queuedRetr time alarm hstage

/-- Every alarm is the alarm of a POST. -/
structure PostAlarms (s : Controller) : Prop where
  alarms : ∀ a ∈ s.alarms, a.id = postAlarm
  popped : ∀ a, s.alarmThread.alarm = some a → a.id = postAlarm
  unread : ∀ w ∈ s.activities, ∀ a, w.unread = some a → a.id = postAlarm

theorem PostAlarms.step (hs : PostAlarms s) (h : step digests s e = some t) : PostAlarms t := by
  obtain ⟨halarms, hpopped, hunread⟩ := hs
  cases step_retrMove h with
  | apart _ _ hleaves =>
    refine ⟨?_, by rwa [hleaves.alarmThread], ?_⟩
    · intro a ha
      rcases hleaves.alarms a ha with hold | hkind
      · exact halarms a hold
      · exact hkind
    · intro w hw a ha
      rcases hleaves.members w hw with hold | hnone
      · exact hunread w hold a ha
      · simp [unread_of_origin hnone] at ha
  | readId i _ origin hworker =>
    refine ⟨halarms, hpopped, ?_⟩
    intro w hw a ha
    rcases mem_activities_setWorker hw with rfl | hold
    · exact hunread _ (mem_activities_of_worker hworker) a ha
    · exact hunread w hold a ha
  | readSession i _ origin id hworker =>
    refine ⟨halarms, hpopped, ?_⟩
    intro w hw a ha
    have hw : w ∈ (setWorker s i (.retrCoapEap origin id s.retransParams.session)).activities :=
      hw
    rcases mem_activities_setWorker hw with rfl | hold
    · simp [Worker.unread] at ha
    · exact hunread w hold a ha
  | swept _ stage hbefore hafter =>
    exact ⟨halarms, by simp [hafter], hunread⟩
  | popped time alarm rest hsweeping hlist =>
    refine ⟨fun a ha => halarms a (hlist ▸ List.mem_cons_of_mem _ ha), ?_, hunread⟩
    intro a ha
    obtain rfl : alarm = a := by simpa [AlarmThread.alarm] using ha
    exact halarms alarm (hlist ▸ List.mem_cons_self ..)
  | wroteSession time alarm hstage =>
    exact ⟨halarms, fun a ha => hpopped a (by rw [hstage]; exact ha), hunread⟩
  | clearedId time alarm hstage =>
    exact ⟨halarms, fun a ha => hpopped a (by rw [hstage]; exact ha), hunread⟩
  | wroteId time alarm hstage =>
    exact ⟨halarms, fun a ha => hpopped a (by rw [hstage]; exact ha), hunread⟩
  | unknownAlarm time alarm hstage =>
    exact ⟨halarms, by simp [AlarmThread.alarm], hunread⟩
  | queuedRetr time alarm hstage =>
    refine ⟨halarms, by simp [AlarmThread.alarm], ?_⟩
    intro w hw a ha
    rcases mem_activities_addTask hw with rfl | hold
    · obtain rfl : alarm = a := by simpa [Worker.unread] using ha
      exact hpopped alarm (by rw [hstage]; rfl)
    · exact hunread w hold a ha

theorem postAlarms {guard : Controller → Event → Prop}
    (h : ReachableUnder (step digests) guard initialController s) : PostAlarms s := by
  refine h.invariant ⟨?_, ?_, ?_⟩ fun _ _ _ _ hs _ hstep => hs.step hstep
  · simp [initialController]
  · simp [initialController, AlarmThread.alarm]
  · simp [initialController, Controller.activities]

/-- The alarm whose session stands in the parameters. -/
def AlarmThread.written : AlarmThread → Option Alarm
  | .sessionWritten _ alarm => some alarm
  | .idCleared _ alarm => some alarm
  | .idWritten _ alarm => some alarm
  | _ => none

/-- Only the alarm thread writes the parameters. -/
def WrittenSession (s : Controller) : Prop :=
  ∀ a, s.alarmThread.written = some a → s.retransParams.session = a.session

theorem WrittenSession.step (hs : WrittenSession s) (h : step digests s e = some t) :
    WrittenSession t := by
  intro a ha
  cases step_retrMove h with
  | apart _ _ hleaves =>
    rw [hleaves.alarmThread] at ha
    rw [hleaves.retransParams]
    exact hs a ha
  | readId => exact hs a ha
  | readSession => exact hs a ha
  | swept _ stage _ hafter =>
    cases stage <;> simp [AlarmThread.alarm, AlarmThread.written] at hafter ha
  | popped => simp [AlarmThread.written] at ha
  | wroteSession time alarm hstage =>
    obtain rfl : alarm = a := by simpa [AlarmThread.written] using ha
    rfl
  | clearedId time alarm hstage => exact hs a (by rw [hstage]; exact ha)
  | wroteId time alarm hstage => exact hs a (by rw [hstage]; exact ha)
  | unknownAlarm => simp [AlarmThread.written] at ha
  | queuedRetr => simp [AlarmThread.written] at ha

theorem writtenSession {guard : Controller → Event → Prop}
    (h : ReachableUnder (step digests) guard initialController s) : WrittenSession s := by
  refine h.invariant ?_ fun _ _ _ _ hs _ hstep => hs.step hstep
  simp [WrittenSession, initialController, AlarmThread.written]

/-- The alarms of the unread tasks, before and after a worker's move. -/
theorem unread_of_worker {worker : Worker} (worker' : Worker) (h : s.workers[i]? = some worker) :
    (s.activities.filterMap Worker.unread).Perm
      (worker.unread.toList ++ (s.others i).filterMap Worker.unread) ∧
    ((setWorker s i worker').activities.filterMap Worker.unread).Perm
      (worker'.unread.toList ++ (s.others i).filterMap Worker.unread) := by
  have hold := (activities_of_worker h).filterMap Worker.unread
  have hnew := (activities_setWorker worker' h).filterMap Worker.unread
  constructor
  · refine hold.trans ?_
    cases hunread : worker.unread <;> simp [hunread]
  · refine hnew.trans ?_
    cases hunread : worker'.unread <;> simp [hunread]

/-- The expired alarms are those executed and those pending. -/
def Balanced (s : Controller) : Prop :=
  (s.log.filterMap Occurrence.expiredAlarm).Perm
    (s.log.filterMap Occurrence.readAlarm ++ pending s)

theorem Balanced.of_same (hs : Balanced s) (hlog : t.log = s.log)
    (hactivities : t.activities = s.activities)
    (halarm : t.alarmThread.alarm = s.alarmThread.alarm) : Balanced t := by
  unfold Balanced pending at hs ⊢
  rw [hlog, hactivities, halarm]
  exact hs

theorem Balanced.step (hs : Balanced s) (hpost : PostAlarms s) (h : step digests s e = some t) :
    Balanced t := by
  cases step_retrMove h with
  | apart _ _ hleaves =>
    obtain ⟨new, hlog, hnew⟩ := hleaves.log
    have hexpired : new.filterMap Occurrence.expiredAlarm = [] :=
      List.filterMap_eq_nil_iff.mpr fun o ho => (hnew o ho).1
    have hread : new.filterMap Occurrence.readAlarm = [] :=
      List.filterMap_eq_nil_iff.mpr fun o ho => (hnew o ho).2
    unfold Balanced pending
    rw [hlog, List.filterMap_append, List.filterMap_append, hexpired, hread, List.append_nil,
      List.append_nil, hleaves.alarmThread]
    exact hs.trans ((hleaves.unread.symm.append_left _).append_left _)
  | readId i _ origin hworker =>
    obtain ⟨hbefore, hafter⟩ := unread_of_worker (.retrId origin s.retransParams.id) hworker
    have hsame := hbefore.trans hafter.symm
    exact hs.trans ((hsame.append_left _).append_left _)
  | readSession i _ origin id hworker =>
    obtain ⟨hbefore, hafter⟩ := unread_of_worker
      (.retrCoapEap origin id s.retransParams.session) hworker
    have hreads : List.filterMap Occurrence.readAlarm
        (s.log ++ [.retrRead origin s.retransParams.session id]) =
          s.log.filterMap Occurrence.readAlarm ++ [origin] := by
      simp [Occurrence.readAlarm]
    have hexpired : List.filterMap Occurrence.expiredAlarm
        (s.log ++ [.retrRead origin s.retransParams.session id]) =
          s.log.filterMap Occurrence.expiredAlarm := by
      simp [Occurrence.expiredAlarm]
    have hmoved : (pending s).Perm (origin :: pending ((setWorker s i
        (.retrCoapEap origin id s.retransParams.session)).record
          [.retrRead origin s.retransParams.session id])) := by
      have hold := hbefore.append_left s.alarmThread.alarm.toList
      have hnew := hafter.symm.append_left s.alarmThread.alarm.toList
      exact (hold.trans List.perm_middle).trans (hnew.cons origin)
    refine (List.Perm.of_eq hexpired).trans (hs.trans ((hmoved.append_left _).trans ?_))
    rw [List.append_cons, ← hreads]
    rfl
  | swept _ stage hbefore hafter =>
    exact hs.of_same rfl rfl (by rw [hbefore]; exact hafter)
  | popped time alarm rest hsweeping hlist =>
    have hexpired : List.filterMap Occurrence.expiredAlarm (s.log ++ [.expired alarm]) =
        s.log.filterMap Occurrence.expiredAlarm ++ [alarm] := by
      simp [Occurrence.expiredAlarm]
    have hreads : List.filterMap Occurrence.readAlarm (s.log ++ [.expired alarm]) =
        s.log.filterMap Occurrence.readAlarm := by
      simp [Occurrence.readAlarm]
    have hnone : pending s = s.activities.filterMap Worker.unread := by
      simp [pending, hsweeping, AlarmThread.alarm]
    have hmore := hs.append_right [alarm]
    rw [hnone] at hmore
    refine (List.Perm.of_eq hexpired).trans (hmore.trans ?_)
    rw [Controller.record_log, hreads, List.append_assoc]
    exact List.Perm.append_left _ (List.perm_append_singleton _ _)
  | wroteSession time alarm hstage =>
    exact hs.of_same rfl rfl (by rw [hstage]; rfl)
  | clearedId time alarm hstage =>
    exact hs.of_same rfl rfl (by rw [hstage]; rfl)
  | wroteId time alarm hstage =>
    exact hs.of_same rfl rfl (by rw [hstage]; rfl)
  | unknownAlarm time alarm hstage hkind =>
    exact absurd (hpost.popped alarm (by rw [hstage]; rfl)) hkind
  | queuedRetr time alarm hstage =>
    have hadded := (activities_addTask s (.processRetrCoapEap alarm)).filterMap Worker.unread
    have hone : pending s = alarm :: s.activities.filterMap Worker.unread := by
      simp [pending, hstage, AlarmThread.alarm]
    unfold Balanced at hs
    rw [hone] at hs
    exact hs.trans (hadded.symm.append_left _)

theorem balanced {guard : Controller → Event → Prop}
    (h : ReachableUnder (step digests) guard initialController s) : Balanced s := by
  refine h.invariant ?_ fun _ _ _ hreach hs _ hstep => hs.step (postAlarms hreach) hstep
  simp [Balanced, pending, initialController, Controller.activities, AlarmThread.alarm]

/-- The alarm thread writes over a parameter only when no task has another value
of it to read. -/
def overwritesNoUnread (s : Controller) : Event → Bool
  | .alarmStep =>
    match s.alarmThread with
    | .popped _ alarm =>
      (s.activities.filterMap Worker.unread).all fun origin => origin.session = alarm.session
    | .sessionWritten _ _ => (s.activities.filterMap Worker.unreadId).isEmpty
    | _ => true
  | _ => true

/-- The identifier in the parameters is being written. -/
def AlarmThread.clearing : AlarmThread → Bool
  | .idCleared _ _ => true
  | .idWritten _ _ => true
  | _ => false

/-- The parameters hold what every unread task is going to read. -/
structure ParamsHold (s : Controller) : Prop where
  sessions : ∀ w ∈ s.activities, ∀ a, w.unread = some a → s.retransParams.session = a.session
  ids : ∀ w ∈ s.activities, ∀ a, w.unreadId = some a →
    s.retransParams.id = a.id ∧ s.alarmThread.clearing = false
  idWritten : ∀ time a, s.alarmThread = .idWritten time a → s.retransParams.id = a.id
  readIds : ∀ origin id, .retrId origin id ∈ s.activities → id = origin.id
  reads : ∀ origin p id, .retrRead origin p id ∈ s.log → p = origin.session ∧ id = origin.id

theorem unread_of_unreadId {w : Worker} {a : Alarm} (h : w.unreadId = some a) :
    w.unread = some a := by
  cases w with
  | took task => cases task <;> simp_all [Worker.unreadId, Worker.unread]
  | _ => simp [Worker.unreadId] at h

theorem ParamsHold.apart (hs : ParamsHold s) (h : LeavesRetr s t) : ParamsHold t := by
  have hmember : ∀ w ∈ t.activities, ∀ a, w.unread = some a → w ∈ s.activities := by
    intro w hw a ha
    rcases h.members w hw with hold | hnone
    · exact hold
    · simp [unread_of_origin hnone] at ha
  refine ⟨?_, ?_, ?_, ?_, ?_⟩
  · intro w hw a ha
    rw [h.retransParams]
    exact hs.sessions w (hmember w hw a ha) a ha
  · intro w hw a ha
    rw [h.retransParams, h.alarmThread]
    exact hs.ids w (hmember w hw a (unread_of_unreadId ha)) a ha
  · rw [h.alarmThread, h.retransParams]
    exact hs.idWritten
  · intro origin id hw
    exact hs.readIds origin id (hmember _ hw origin rfl)
  · intro origin p id hmem
    obtain ⟨new, hlog, hnew⟩ := h.log
    rw [hlog] at hmem
    rcases List.mem_append.mp hmem with hold | hfresh
    · exact hs.reads origin p id hold
    · simp [Occurrence.readAlarm] at hnew
      exact absurd (hnew _ hfresh).2 (by simp)

theorem ParamsHold.step (hs : ParamsHold s) (hpost : PostAlarms s)
    (hwritten : WrittenSession s) (hguard : overwritesNoUnread s e = true)
    (h : step digests s e = some t) :
    ParamsHold t := by
  cases step_retrMove h with
  | apart _ _ hleaves => exact hs.apart hleaves
  | readId i _ origin hworker =>
    have hmem := mem_activities_of_worker hworker
    have hid := (hs.ids _ hmem origin rfl).1
    refine ⟨?_, ?_, hs.idWritten, ?_, hs.reads⟩
    · intro w hw a ha
      rcases mem_activities_setWorker hw with rfl | hold
      · exact hs.sessions _ hmem a ha
      · exact hs.sessions w hold a ha
    · intro w hw a ha
      rcases mem_activities_setWorker hw with rfl | hold
      · simp [Worker.unreadId] at ha
      · exact hs.ids w hold a ha
    · intro origin' id hw
      rcases mem_activities_setWorker hw with heq | hold
      · simp only [Worker.retrId.injEq] at heq
        rw [heq.1, heq.2, hid]
      · exact hs.readIds origin' id hold
  | readSession i _ origin id hworker =>
    have hmem := mem_activities_of_worker hworker
    have hactivities : ∀ w ∈ (setWorker s i
        (.retrCoapEap origin id s.retransParams.session)).activities,
        w.unread ≠ none → w ∈ s.activities := by
      intro w hw hunread
      rcases mem_activities_setWorker hw with rfl | hold
      · simp [Worker.unread] at hunread
      · exact hold
    refine ⟨?_, ?_, hs.idWritten, ?_, ?_⟩
    · intro w hw a ha
      exact hs.sessions w (hactivities w hw (by simp [ha])) a ha
    · intro w hw a ha
      exact hs.ids w (hactivities w hw (by simp [unread_of_unreadId ha])) a ha
    · intro origin' id' hw
      exact hs.readIds origin' id' (hactivities _ hw (by simp [Worker.unread]))
    · intro origin' p id' hlogged
      rcases List.mem_append.mp hlogged with hold | hnew
      · exact hs.reads origin' p id' hold
      · simp only [List.mem_singleton, Occurrence.retrRead.injEq] at hnew
        obtain ⟨rfl, rfl, rfl⟩ := hnew
        exact ⟨hs.sessions _ hmem origin' rfl, hs.readIds origin' id' hmem⟩
  | swept _ stage hbefore hafter =>
    cases stage with
    | sleeping | sweeping =>
      refine ⟨hs.sessions, ?_, by simp, hs.readIds, hs.reads⟩
      intro w hw a ha
      exact ⟨(hs.ids w hw a ha).1, rfl⟩
    | _ => simp [AlarmThread.alarm] at hafter
  | popped time alarm rest hsweeping hlist =>
    refine ⟨hs.sessions, ?_, by simp, hs.readIds, ?_⟩
    · intro w hw a ha
      exact ⟨(hs.ids w hw a ha).1, rfl⟩
    · intro origin p id hlogged
      exact hs.reads origin p id (by simpa using hlogged)
  | wroteSession time alarm hstage =>
    simp only [overwritesNoUnread, hstage, List.all_eq_true, List.mem_filterMap,
      decide_eq_true_eq] at hguard
    refine ⟨?_, ?_, by simp, hs.readIds, hs.reads⟩
    · intro w hw a ha
      exact (hguard a ⟨w, hw, ha⟩).symm
    · intro w hw a ha
      exact ⟨(hs.ids w hw a ha).1, rfl⟩
  | clearedId time alarm hstage =>
    simp only [overwritesNoUnread, hstage, List.isEmpty_iff, List.filterMap_eq_nil_iff] at hguard
    refine ⟨hs.sessions, ?_, by simp, hs.readIds, hs.reads⟩
    intro w hw a ha
    have hnone := hguard w hw
    simp [hnone] at ha
  | wroteId time alarm hstage hkind =>
    refine ⟨hs.sessions, ?_, ?_, hs.readIds, hs.reads⟩
    · intro w hw a ha
      have hclear := (hs.ids w hw a ha).2
      simp [hstage, AlarmThread.clearing] at hclear
    · intro time' a ha
      obtain ⟨-, rfl⟩ : time = time' ∧ alarm = a := by simpa using ha
      exact hkind.symm
  | unknownAlarm time alarm hstage hkind =>
    exact absurd (hpost.popped alarm (by rw [hstage]; rfl)) hkind
  | queuedRetr time alarm hstage =>
    refine ⟨?_, ?_, by simp, ?_, hs.reads⟩
    · intro w hw a ha
      rcases mem_activities_addTask hw with rfl | hold
      · obtain rfl : alarm = a := by simpa [Worker.unread] using ha
        exact hwritten alarm (by rw [hstage]; rfl)
      · exact hs.sessions w hold a ha
    · intro w hw a ha
      refine ⟨?_, rfl⟩
      rcases mem_activities_addTask hw with rfl | hold
      · obtain rfl : alarm = a := by simpa [Worker.unreadId] using ha
        exact hs.idWritten time alarm hstage
      · exact (hs.ids w hold a ha).1
    · intro origin id hw
      rcases mem_activities_addTask hw with heq | hold
      · simp at heq
      · exact hs.readIds origin id hold

theorem paramsHold
    (h : ReachableUnder (step digests) (fun s e => overwritesNoUnread s e = true)
      initialController s) : ParamsHold s := by
  refine h.invariant ?_
    fun _ _ _ hreach hs hguard hstep =>
      hs.step (postAlarms hreach) (writtenSession hreach) hguard hstep
  constructor <;> simp [initialController, Controller.activities]

/-- In a run whose alarm thread never writes over a parameter that a task has yet
to read, every expired alarm has exactly one execution, on its own session and
with its own kind. -/
theorem expired_alarm_executed_once
    (h : ReachableUnder (step digests) (fun s e => overwritesNoUnread s e = true)
      initialController s) : OneExecutionEach s :=
  ⟨balanced h, (paramsHold h).reads⟩

/-- For runs in which no RADIUS answer arrives. -/
def noAnswers : Digests :=
  { messageAuthenticator := fun _ _ => [], responseAuthenticator := fun _ _ => []
    decryptMsKey := fun _ _ => none }

/-- A device asks for service and its new session sends the first POST. -/
def comesIn (sessionId : UInt32) : List Event :=
  [.recvCoap [0x40, 0x02, 0x00, 0x09] ⟨[1], 5683⟩ { sessionId }, .getTask, .lookup 0 [],
    .handle 0 {}]

/-- The acknowledgment of a POST, carrying the identity response `a`. -/
def ackDatagram (sessionId : UInt32) (messageId : UInt8) : Bytes :=
  [0x64, 0x41, 0x00, messageId] ++ le32 sessionId ++ [0xFF, 0x02, 0x01, 0x00, 0x06, 0x01, 0x61]

/-- An acknowledgment arrives, is queued, and a worker executes it. -/
def acknowledges (sessionId : UInt32) (messageId : UInt8) : List Event :=
  [.recvCoap (ackDatagram sessionId messageId) ⟨[1], 5683⟩ {}, .lockAcknowledgment, .getTask,
    .lookup 0 [], .handle 0 {}]

/-- Two sessions' alarms, each popped, read and executed before the next. -/
def twoAlarmsInTurn : List Event :=
  comesIn 1 ++ comesIn 2 ++
    [.wake 100, .alarmStep, .alarmStep, .alarmStep, .alarmStep, .alarmStep, .getTask,
      .lookup 0 [], .lookup 0 [], .handle 0 {}, .alarmStep, .alarmStep, .alarmStep, .alarmStep,
      .alarmStep, .getTask, .lookup 0 [], .lookup 0 []]

theorem two_alarms_executed_once : ∃ s,
    ReachableUnder (step noAnswers) (fun s e => overwritesNoUnread s e = true)
      initialController s ∧
    s.log.filterMap Occurrence.expiredAlarm ≠ [] ∧ OneExecutionEach s := by
  have hrun : (run (guarded (step noAnswers) fun s e => overwritesNoUnread s e = true)
      initialController twoAlarmsInTurn).any
        (fun s => s.log.filterMap Occurrence.expiredAlarm ≠ []) = true := by
    decide +kernel
  obtain ⟨s, hs, hexpired⟩ := exists_of_run hrun
  have hreach := reachableUnder_of_run hs
  exact ⟨s, hreach, by simpa using hexpired, expired_alarm_executed_once hreach⟩

/-- Two alarms popped in one sweep before a worker runs. -/
def twoAlarmsAtOnce : List Event :=
  comesIn 1 ++ comesIn 2 ++ [.wake 100] ++ List.replicate 10 .alarmStep ++
    [.getTask, .lookup 0 [], .lookup 0 []]

def readsAnother : Occurrence → Bool
  | .retrRead origin p _ => p ≠ origin.session
  | _ => false

theorem two_alarms_at_once_misread :
    ¬ ∀ digests s, Reachable digests s → OneExecutionEach s := by
  intro hstated
  have hrun : (run (step noAnswers) initialController twoAlarmsAtOnce).any
      (fun s => s.log.any readsAnother) = true := by
    decide +kernel
  obtain ⟨s, hs, hcheck⟩ := exists_of_run hrun
  obtain ⟨o, ho, hreads⟩ := List.any_eq_true.mp hcheck
  have hreach : Reachable noAnswers s := reachable_of_run hs
  cases o with
  | retrRead origin p id =>
    have hown := ((hstated noAnswers s hreach).reads origin p id ho).1
    simp [readsAnother, hown] at hreads
  | _ => simp [readsAnother] at hreads

end CoapEap.Mainserver
