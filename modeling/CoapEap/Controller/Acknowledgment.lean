import CoapEap.Controller.Retransmission
import CoapEap.Controller.WellFormed

/-!
Acknowledgments from the network to the EAP layer. The network thread compares
the message identifier of an acknowledgment with that of the last message sent
and queues a task; the message identifier changes only when a worker has fed the
EAP layer and the RADIUS server has answered.
-/

namespace CoapEap.Mainserver

open Cantcoap EapServer Lalarm Radius Library.Logs Library.Runs

def Occurrence.queuedPost : Occurrence → Option (Ptr × Nat)
  | .ackQueued post => some post
  | _ => none

/-- How often an acknowledgment of the POST was fed to the EAP layer. -/
def fedCount (s : Controller) (post : Ptr × Nat) : Nat :=
  (s.log.filterMap Occurrence.fedPost).count post

def queuedCount (s : Controller) (post : Ptr × Nat) : Nat :=
  (s.log.filterMap Occurrence.queuedPost).count post

def inHandCount (s : Controller) (post : Ptr × Nat) : Nat :=
  (s.activities.filterMap Worker.post).count post

/-- The network thread queues an acknowledgment only for a POST it has queued
none for. -/
def queuesOnce (s : Controller) : Event → Bool
  | .lockAcknowledgment =>
    match s.networkThread with
    | .acknowledgment task p =>
      !answersOutstanding (s.heap p) task.buf || queuedCount s (p, (s.heap p).posts) = 0
    | .waiting => true
  | _ => true

variable {s t : Controller} {i : Nat} {e : Event} {digests : Digests} {post : Ptr × Nat}

theorem inHandCount_of_worker {worker : Worker} (h : s.workers[i]? = some worker)
    (post : Ptr × Nat) : inHandCount s post =
      worker.post.toList.count post + ((s.others i).filterMap Worker.post).count post := by
  have hold := ((activities_of_worker h).filterMap Worker.post).count_eq post
  rw [inHandCount, hold]
  cases hpost : worker.post <;> simp [hpost, Nat.add_comm, List.count_cons]

theorem inHandCount_setWorker {worker : Worker} (worker' : Worker)
    (h : s.workers[i]? = some worker) (post : Ptr × Nat) :
    inHandCount (setWorker s i worker') post =
      worker'.post.toList.count post + ((s.others i).filterMap Worker.post).count post := by
  have hnew := ((activities_setWorker worker' h).filterMap Worker.post).count_eq post
  rw [inHandCount, hnew]
  cases hpost : worker'.post <;> simp [hpost, Nat.add_comm, List.count_cons]

theorem inHandCount_endWorker (post : Ptr × Nat) : inHandCount (endWorker s i) post =
    ((s.others i).filterMap Worker.post).count post := rfl

theorem inHandCount_addTask (s : Controller) (task : Task) (post : Ptr × Nat) :
    inHandCount (addTask s task) post =
      (Worker.took task).post.toList.count post + inHandCount s post := by
  have hnew := ((activities_addTask s task).filterMap Worker.post).count_eq post
  rw [inHandCount, hnew]
  cases hpost : (Worker.took task).post <;>
    simp [hpost, inHandCount, Nat.add_comm, List.count_cons]

theorem HandlerMove.inHand_le {worker : Worker} {p : Ptr} {u : Controller}
    {new : List Occurrence} (h : HandlerMove s t i worker p u new) (post : Ptr × Nat) :
    inHandCount t post + worker.post.toList.count post ≤ inHandCount s post := by
  have hbefore := inHandCount_of_worker h.working post
  have hworker : u.workers[i]? = some worker := by
    rw [h.touches.workers]
    exact h.working
  have hothers := h.touches.othersOf i
  rcases h.after with rfl | ⟨rfl, -⟩
  · rw [inHandCount_endWorker, hothers]
    omega
  · rw [inHandCount_setWorker _ hworker, hothers]
    have hnone : (Worker.radiusIdentity p).post = none := rfl
    rw [hnone, Option.toList_none, List.count_nil]
    omega

theorem Notes.queuedPost {p : Ptr} {worker : Worker} {o : Occurrence}
    (h : Notes s p worker o) : o.queuedPost = none := by
  cases h <;> rfl

/-- Every acknowledgment fed to the EAP layer was queued, and those still in hand
were queued besides. -/
def FedFromQueue (s : Controller) : Prop :=
  ∀ post, fedCount s post + inHandCount s post ≤ queuedCount s post

/-- A move that neither queues nor feeds an acknowledgment. -/
theorem FedFromQueue.of_frame (hs : FedFromQueue s) {new : List Occurrence}
    (hlog : t.log = s.log ++ new) (hfed : new.filterMap Occurrence.fedPost = [])
    (hqueued : new.filterMap Occurrence.queuedPost = [])
    (hinHand : ∀ post, inHandCount t post ≤ inHandCount s post) : FedFromQueue t := by
  intro post
  have hbefore := hs post
  have hmoved := hinHand post
  unfold fedCount queuedCount at hbefore ⊢
  rw [hlog, List.filterMap_append, List.filterMap_append, hfed, hqueued, List.append_nil,
    List.append_nil]
  omega

theorem FedFromQueue.of_same (hs : FedFromQueue s) (hlog : t.log = s.log)
    (hinHand : ∀ post, inHandCount t post ≤ inHandCount s post) : FedFromQueue t :=
  hs.of_frame (hlog.trans (List.append_nil _).symm) rfl rfl hinHand

theorem inHandCount_setWorker_le {worker : Worker} (worker' : Worker)
    (hworker : s.workers[i]? = some worker)
    (hpost : worker'.post = none ∨ worker'.post = worker.post) (post : Ptr × Nat) :
    inHandCount (setWorker s i worker') post ≤ inHandCount s post := by
  rw [inHandCount_setWorker worker' hworker, inHandCount_of_worker hworker]
  rcases hpost with hnone | hsame
  · rw [hnone, Option.toList_none, List.count_nil]
    omega
  · exact Nat.le_of_eq (by rw [hsame])

theorem inHandCount_addTask_eq (s : Controller) {task : Task}
    (hpost : (Worker.took task).post = none) (post : Ptr × Nat) :
    inHandCount (addTask s task) post = inHandCount s post := by
  rw [inHandCount_addTask, hpost, Option.toList_none, List.count_nil, Nat.zero_add]

theorem HandlerMove.fedFromQueue {worker : Worker} {p : Ptr} {u : Controller}
    {new : List Occurrence} (h : HandlerMove s t i worker p u new) (hs : FedFromQueue s) :
    FedFromQueue t := by
  intro post
  have hbefore := hs post
  have hinHand := h.inHand_le post
  have hfed : (new.filterMap Occurrence.fedPost).count post ≤ worker.post.toList.count post :=
    h.fed.count_le post
  have hqueued : new.filterMap Occurrence.queuedPost = [] :=
    List.filterMap_eq_nil_iff.mpr fun o ho => (h.notes o ho).queuedPost
  unfold fedCount queuedCount at hbefore ⊢
  rw [h.log_eq, List.filterMap_append, List.filterMap_append, hqueued, List.append_nil,
    List.count_append]
  omega

theorem fedFromQueue_step (hs : FedFromQueue s) (h : step digests s e = some t) :
    FedFromQueue t := by
  obtain ⟨-, hmove⟩ := step_move h
  cases hmove with
  | ignored => exact hs
  | ended | named | duplicate | woke | sweptUp | wroteSession | clearedId | wroteId
  | unknownAlarm => exact hs.of_same rfl fun _ => Nat.le_refl _
  | created => exact hs.of_same rfl fun post => Nat.le_of_eq (inHandCount_addTask_eq s rfl post)
  | queued task p =>
    intro post
    have hbefore := hs post
    have hadded := inHandCount_addTask s (.processAcknowledgment task (p, (s.heap p).posts)) post
    have hqueued : queuedCount (s.record [.ackQueued (p, (s.heap p).posts)]) post =
        queuedCount s post + [(p, (s.heap p).posts)].count post := by
      unfold queuedCount
      rw [Controller.record_log, List.filterMap_append, List.count_append]
      rfl
    have hfed : fedCount (s.record [.ackQueued (p, (s.heap p).posts)]) post =
        fedCount s post := by
      unfold fedCount
      rw [Controller.record_log, List.filterMap_append, List.count_append]
      rfl
    have htotal : fedCount (s.record [.ackQueued (p, (s.heap p).posts)]) post +
        inHandCount (addTask s (.processAcknowledgment task (p, (s.heap p).posts))) post ≤
          queuedCount (s.record [.ackQueued (p, (s.heap p).posts)]) post := by
      simp only [Worker.post, Option.toList_some] at hadded
      omega
    exact htotal
  | arrived => exact hs.of_same rfl fun post => Nat.le_of_eq (inHandCount_addTask_eq s rfl post)
  | taken task rest hqueue =>
    refine hs.of_same rfl ?_
    intro post
    have htaken := ((activities_taken hqueue).filterMap Worker.post).count_eq post
    exact Nat.le_of_eq htaken
  | foundCoap _ _ _ _ hworker =>
    exact hs.of_same rfl (inHandCount_setWorker_le _ hworker (.inl rfl))
  | foundAcknowledgment _ _ _ _ _ hworker =>
    exact hs.of_same rfl (inHandCount_setWorker_le _ hworker (.inr rfl))
  | foundContext _ _ _ _ hworker =>
    exact hs.of_same rfl (inHandCount_setWorker_le _ hworker (.inl rfl))
  | noContext _ _ _ hworker =>
    refine hs.of_same rfl ?_
    intro post
    rw [inHandCount_endWorker, inHandCount_of_worker hworker]
    exact Nat.le_add_left _ _
  | handledCoap | handledAcknowledgment | handledRadius | wroteIdentity | handedIdentity
  | handledRetr =>
    rcases handle_move_kind (step_move h).2 with heq | ⟨reason, heq⟩ | ⟨w, p, u, new, hhandler⟩
    · exact heq ▸ hs
    · rw [heq]
      exact hs.of_same rfl fun _ => Nat.le_refl _
    · exact hhandler.fedFromQueue hs
  | readId _ _ _ hworker =>
    exact hs.of_same rfl (inHandCount_setWorker_le _ hworker (.inl rfl))
  | readSession _ _ _ _ hworker =>
    exact hs.of_frame rfl rfl rfl (inHandCount_setWorker_le _ hworker (.inl rfl))
  | popped => exact hs.of_frame rfl rfl rfl fun _ => Nat.le_refl _
  | queuedRetr =>
    exact hs.of_same rfl fun post => Nat.le_of_eq (inHandCount_addTask_eq s rfl post)

theorem fedFromQueue {guard : Controller → Event → Prop}
    (h : ReachableUnder (step digests) guard initialController s) : FedFromQueue s := by
  refine h.invariant ?_ fun _ _ _ _ hs _ hstep => fedFromQueue_step hs hstep
  intro post
  simp [fedCount, inHandCount, queuedCount, initialController, Controller.activities]

/-- Only the network thread queues acknowledgments, one at a time. -/
theorem queuedCount_step (h : step digests s e = some t) :
    (∀ post, queuedCount t post = queuedCount s post) ∨
      ∃ task p, e = .lockAcknowledgment ∧ s.networkThread = .acknowledgment task p ∧
        answersOutstanding (s.heap p) task.buf = true ∧
        ∀ post, queuedCount t post =
          queuedCount s post + if post = (p, (s.heap p).posts) then 1 else 0 := by
  obtain ⟨new, hlog, hnew⟩ := step_log h
  by_cases hevent : e = .lockAcknowledgment
  · subst hevent
    obtain ⟨-, hmove⟩ := step_move h
    cases hmove with
    | ignored | ended | duplicate => exact .inl fun _ => rfl
    | queued task p lastSent hnamed _ hsent hanswers =>
      refine .inr ⟨task, p, rfl, hnamed, by simp [answersOutstanding, hsent, hanswers], ?_⟩
      intro post
      have hcount : queuedCount (s.record [.ackQueued (p, (s.heap p).posts)]) post =
          queuedCount s post + [(p, (s.heap p).posts)].count post := by
        unfold queuedCount
        rw [Controller.record_log, List.filterMap_append, List.count_append]
        rfl
      refine hcount.trans ?_
      rw [List.count_singleton]
      by_cases heq : post = (p, (s.heap p).posts)
      · simp [heq]
      · simp [heq, Ne.symm heq]
  · left
    intro post
    have hnone : new.filterMap Occurrence.queuedPost = [] := by
      apply List.filterMap_eq_nil_iff.mpr
      intro o ho
      cases hnew o ho with
      | byHandler _ _ worker p _ _ hnotes => exact hnotes.queuedPost
      | ackQueued => exact absurd rfl hevent
      | expired => rfl
      | retrRead => rfl
    rw [queuedCount, hlog, List.filterMap_append, hnone, List.append_nil, queuedCount]

def QueuedOnce (s : Controller) : Prop := ∀ post, queuedCount s post ≤ 1

theorem QueuedOnce.step (hs : QueuedOnce s) (hguard : queuesOnce s e = true)
    (h : step digests s e = some t) : QueuedOnce t := by
  intro post
  rcases queuedCount_step h with hsame | ⟨task, p, rfl, hnamed, hanswers, hone⟩
  · rw [hsame]
    exact hs post
  · rw [hone]
    split
    · rename_i heq
      have hfirst : queuedCount s (p, (s.heap p).posts) = 0 := by
        simpa [queuesOnce, hnamed, hanswers] using hguard
      exact Nat.le_of_eq (by rw [heq, hfirst])
    · exact hs post

/-- In a run where the network thread queues no second acknowledgment of a POST,
each POST is fed to the EAP layer at most once. -/
theorem each_post_fed_at_most_once
    (h : ReachableUnder (step digests) (fun s e => queuesOnce s e = true) initialController s)
    (post : Ptr × Nat) : fedCount s post ≤ 1 := by
  have hqueued : QueuedOnce s := by
    refine h.invariant ?_ fun _ _ _ _ hs hguard hstep => hs.step hguard hstep
    intro post
    simp [queuedCount, initialController]
  have hfed := fedFromQueue h post
  have hone := hqueued post
  omega

/-- The first POST is acknowledged, and its acknowledgment is fed. -/
theorem first_post_fed_once : ∃ s,
    ReachableUnder (step noAnswers) (fun s e => queuesOnce s e = true) initialController s ∧
    0 < fedCount s (0, 1) ∧ fedCount s (0, 1) ≤ 1 := by
  have hrun : (run (guarded (step noAnswers) fun s e => queuesOnce s e = true)
      initialController (comesIn 1 ++ acknowledges 1 1)).any
        (fun s => decide (0 < fedCount s (0, 1))) = true := by
    decide +kernel
  obtain ⟨s, hs, hcheck⟩ := exists_of_run hrun
  have hreach := reachableUnder_of_run hs
  exact ⟨s, hreach, by simpa using hcheck, each_post_fed_at_most_once hreach (0, 1)⟩

/-- The network duplicates the acknowledgment of the first POST, and both copies
are queued before a worker runs the first. -/
def duplicatedAcknowledgment : List Event :=
  comesIn 1 ++
    [.recvCoap (ackDatagram 1 1) ⟨[1], 5683⟩ {}, .lockAcknowledgment,
      .recvCoap (ackDatagram 1 1) ⟨[1], 5683⟩ {}, .lockAcknowledgment,
      .getTask, .lookup 0 [], .handle 0 {}, .getTask, .lookup 0 [], .handle 0 {}]

theorem duplicate_fed_twice :
    ¬ ∀ digests s, Reachable digests s → ∀ post, fedCount s post ≤ 1 := by
  intro hstated
  have hrun : (run (step noAnswers) initialController duplicatedAcknowledgment).any
      (fun s => decide (fedCount s (0, 1) = 2)) = true := by
    decide +kernel
  obtain ⟨s, hs, hcheck⟩ := exists_of_run hrun
  have hone := hstated noAnswers s (reachable_of_run hs) (0, 1)
  have htwo : fedCount s (0, 1) = 2 := by simpa using hcheck
  omega

end CoapEap.Mainserver
