import CoapEap.Controller.Activities

/-!
Pointers in use point at sessions that were made. Sessions are never freed, so
this is all a pointer needs.
-/

namespace CoapEap.Mainserver

open Cantcoap EapServer Lalarm Radius Library.Runs

/-- The sessions that a worker works for. A retransmission is not among them: it
takes its session from the shared parameters. -/
def Worker.pointers : Worker → List Ptr
  | .took (.processAcknowledgment _ post) => [post.1]
  | .coapMsg _ p => [p]
  | .acknowledgment _ post p => [post.1, p]
  | .receiveRadiusMsg _ p => [p]
  | .radiusIdentity p => [p]
  | _ => []

structure WellFormed (s : Controller) : Prop where
  sessions : ∀ p ∈ s.sessions, p < s.nextPtr
  contexts : ∀ p ∈ s.radCtx, p < s.nextPtr
  activities : ∀ w ∈ s.activities, ∀ p ∈ w.pointers, p < s.nextPtr
  networkThread : ∀ task p, s.networkThread = .acknowledgment task p → p < s.nextPtr
  acknowledged : ∀ p n, .acknowledged p n ∈ s.log → p < s.nextPtr ∧ n ≤ (s.heap p).posts

variable {s t : Controller} {i : Nat} {e : Event} {digests : Digests}

theorem getCoapEapSession_mem {id : UInt32} {p : Ptr} (h : getCoapEapSession s id = .ok p) :
    p ∈ s.sessions ∧ s.sessionId p = id := by
  unfold getCoapEapSession at h
  cases hfound : s.sessions.find? fun p => s.sessionId p = id with
  | none => simp [hfound] at h
  | some q =>
    simp only [hfound, Except.ok.injEq] at h
    subst h
    exact ⟨List.mem_of_find?_eq_some hfound, by simpa using List.find?_some hfound⟩

theorem searchEapCtx_mem {identifier : UInt8} {p : Ptr}
    (h : searchEapCtxRadClient s identifier = some p) :
    p ∈ s.radCtx ∧ (s.heap p).eapCtx.radiusIdentifier = identifier := by
  have hfound : s.radCtx.find? (fun p => (s.heap p).eapCtx.radiusIdentifier = identifier) =
      some p := h
  exact ⟨List.mem_of_find?_eq_some hfound, by simpa using List.find?_some hfound⟩

/-- A move that makes no session and acknowledges nothing. -/
theorem WellFormed.of_frame (hs : WellFormed s) (hnext : t.nextPtr = s.nextPtr)
    (hsessions : ∀ p ∈ t.sessions, p ∈ s.sessions) (hcontexts : t.radCtx = s.radCtx)
    (hactivities : ∀ w ∈ t.activities, w ∈ s.activities ∨ ∀ p ∈ w.pointers, p < s.nextPtr)
    (hthread : ∀ task p, t.networkThread = .acknowledgment task p → p < s.nextPtr)
    (hposts : ∀ p, (s.heap p).posts ≤ (t.heap p).posts)
    (hlog : ∀ p n, .acknowledged p n ∈ t.log →
      .acknowledged p n ∈ s.log ∨ (p < s.nextPtr ∧ n ≤ (s.heap p).posts)) : WellFormed t where
  sessions := by
    intro p hp
    rw [hnext]
    exact hs.sessions p (hsessions p hp)
  contexts := by
    rw [hnext, hcontexts]
    exact hs.contexts
  activities := by
    intro w hw p hp
    rw [hnext]
    rcases hactivities w hw with hold | hnew
    · exact hs.activities w hold p hp
    · exact hnew p hp
  networkThread := by
    rw [hnext]
    exact hthread
  acknowledged := by
    intro p n hmem
    rw [hnext]
    have hbound : p < s.nextPtr ∧ n ≤ (s.heap p).posts := by
      rcases hlog p n hmem with hold | hnew
      · exact hs.acknowledged p n hold
      · exact hnew
    exact ⟨hbound.1, Nat.le_trans hbound.2 (hposts p)⟩

theorem wellFormed_setWorker (hs : WellFormed s) {worker : Worker}
    (hpointers : ∀ p ∈ worker.pointers, p < s.nextPtr) : WellFormed (setWorker s i worker) := by
  refine hs.of_frame rfl (fun _ h => h) rfl ?_ hs.networkThread (fun _ => Nat.le_refl _)
    (fun _ _ h => .inl h)
  intro w hw
  rcases mem_activities_setWorker hw with rfl | hold
  · exact .inr hpointers
  · exact .inl hold

theorem wellFormed_endWorker (hs : WellFormed s) : WellFormed (endWorker s i) :=
  hs.of_frame rfl (fun _ h => h) rfl (fun _ hw => .inl (mem_activities_of_others hw))
    hs.networkThread (fun _ => Nat.le_refl _) (fun _ _ h => .inl h)

theorem wellFormed_addTask (hs : WellFormed s) {task : Task}
    (hpointers : ∀ p ∈ (Worker.took task).pointers, p < s.nextPtr) :
    WellFormed (addTask s task) := by
  refine hs.of_frame rfl (fun _ h => h) rfl ?_ hs.networkThread (fun _ => Nat.le_refl _)
    (fun _ _ h => .inl h)
  intro w hw
  rcases mem_activities_addTask hw with rfl | hold
  · exact .inr hpointers
  · exact .inl hold

/-- A session is made behind a pointer that nothing mentions yet. -/
theorem wellFormed_newSession (hs : WellFormed s) (buf : Bytes) (source : Endpoint)
    (arrival : Arrival) : WellFormed (newSession s buf source arrival) where
  sessions := by
    intro p hp
    rcases List.mem_cons.mp hp with rfl | hold
    · exact Nat.lt_succ_self _
    · exact Nat.lt_succ_of_lt (hs.sessions p hold)
  contexts := by
    intro p hp
    rcases List.mem_cons.mp hp with rfl | hold
    · exact Nat.lt_succ_self _
    · exact Nat.lt_succ_of_lt (hs.contexts p hold)
  activities := by
    intro w hw p hp
    rcases mem_activities_addTask hw with rfl | hold
    · simp [Worker.pointers] at hp
    · exact Nat.lt_succ_of_lt (hs.activities w hold p hp)
  networkThread := fun task p hthread => Nat.lt_succ_of_lt (hs.networkThread task p hthread)
  acknowledged := by
    intro p n hmem
    obtain ⟨hp, hn⟩ := hs.acknowledged p n hmem
    have hother : p ≠ s.nextPtr := Nat.ne_of_lt hp
    refine ⟨Nat.lt_succ_of_lt hp, ?_⟩
    rw [newSession_heap_ne _ _ _ hother]
    exact hn

theorem HandlerMove.wellFormed {worker : Worker} {p : Ptr} {u : Controller}
    {new : List Occurrence} (h : HandlerMove s t i worker p u new) (hs : WellFormed s) :
    WellFormed t := by
  have hworker := mem_activities_of_worker h.working
  have hran : WellFormed u := by
    refine hs.of_frame h.touches.nextPtr (fun _ hq => h.touches.sessions.subset hq)
      h.touches.radCtx (fun w hw => .inl (h.touches.activities ▸ hw)) ?_ h.touches.posts ?_
    · rw [h.touches.networkThread]
      exact hs.networkThread
    · intro q n hmem
      rw [h.log] at hmem
      rcases List.mem_append.mp hmem with hold | hnew
      · exact .inl hold
      · have hnotes := h.notes _ hnew
        cases hnotes with
        | acknowledged task post =>
          exact .inr ⟨hs.activities _ hworker p (by simp [Worker.pointers]), Nat.le_refl _⟩
  rcases h.after with rfl | ⟨rfl, msg, rfl⟩
  · exact wellFormed_endWorker hran
  · refine wellFormed_setWorker hran ?_
    rw [h.touches.nextPtr]
    intro q hq
    exact hs.activities _ hworker q (by simpa [Worker.pointers] using hq)

theorem wellFormed_step (hs : WellFormed s) (h : step digests s e = some t) :
    WellFormed t := by
  obtain ⟨-, hmove⟩ := step_move h
  cases hmove with
  | ignored => exact hs
  | ended => exact ⟨hs.sessions, hs.contexts, hs.activities, hs.networkThread, hs.acknowledged⟩
  | created datagram source arrival => exact wellFormed_newSession hs _ source arrival
  | named datagram source arrival p _ _ _ hfound =>
    refine hs.of_frame rfl (fun _ h => h) rfl (fun _ hw => .inl hw) ?_ (fun _ => Nat.le_refl _)
      (fun _ _ h => .inl h)
    intro task q hthread
    obtain ⟨-, rfl⟩ : _ ∧ p = q := by simpa using hthread
    exact hs.sessions p (getCoapEapSession_mem hfound).1
  | duplicate =>
    exact hs.of_frame rfl (fun _ h => h) rfl (fun _ hw => .inl hw) (by simp)
      (fun _ => Nat.le_refl _) (fun _ _ h => .inl h)
  | queued task p lastSent hnamed =>
    refine hs.of_frame rfl (fun _ h => h) rfl ?_ (by simp) ?_ ?_
    · intro w hw
      rcases mem_activities_addTask hw with rfl | hold
      · refine .inr ?_
        intro q hq
        rw [List.mem_singleton.mp hq]
        exact hs.networkThread task p hnamed
      · exact .inl hold
    · exact (touches_setReceived p s task.buf).posts
    · intro q n hmem
      exact .inl (by simpa [addTask] using hmem)
  | arrived => exact wellFormed_addTask hs (by simp [Worker.pointers])
  | taken task rest hqueue =>
    have htaken := activities_taken hqueue
    exact hs.of_frame rfl (fun _ h => h) rfl (fun _ hw => .inl (htaken.mem_iff.mp hw))
      hs.networkThread (fun _ => Nat.le_refl _) (fun _ _ h => .inl h)
  | foundCoap i stack task p hworker hfound =>
    refine wellFormed_setWorker hs ?_
    intro q hq
    rw [List.mem_singleton.mp hq]
    exact hs.sessions p (getCoapEapSession_mem hfound).1
  | foundAcknowledgment i stack task post p hworker hfound =>
    refine wellFormed_setWorker hs ?_
    intro q hq
    rcases List.mem_cons.mp hq with rfl | hp
    · exact hs.activities _ (mem_activities_of_worker hworker) _ (by simp [Worker.pointers])
    · rw [List.mem_singleton.mp hp]
      exact hs.sessions p (getCoapEapSession_mem hfound).1
  | foundContext i stack msg p hworker hfound =>
    refine wellFormed_setWorker hs ?_
    intro q hq
    rw [List.mem_singleton.mp hq]
    exact hs.contexts p (searchEapCtx_mem hfound).1
  | noContext => exact wellFormed_endWorker hs
  | readId => exact wellFormed_setWorker hs (by simp [Worker.pointers])
  | readSession i stack origin id hworker =>
    have hread : WellFormed
        (setWorker s i (.retrCoapEap origin id s.retransParams.session)) :=
      wellFormed_setWorker hs (by simp [Worker.pointers])
    refine hread.of_frame rfl (fun _ h => h) rfl (fun _ hw => .inl hw) hread.networkThread
      (fun _ => Nat.le_refl _) ?_
    intro q n hmem
    exact .inl (by simpa using hmem)
  | handledCoap | handledAcknowledgment | handledRadius | wroteIdentity | handedIdentity
  | handledRetr =>
    rcases handle_move_kind (step_move h).2 with heq | ⟨reason, heq⟩ | ⟨w, p, u, new, hhandler⟩
    · exact heq ▸ hs
    · rw [heq]
      exact ⟨hs.sessions, hs.contexts, hs.activities, hs.networkThread, hs.acknowledged⟩
    · exact hhandler.wellFormed hs
  | popped time alarm rest hsweeping hlist =>
    refine hs.of_frame rfl (fun _ h => h) rfl (fun _ hw => .inl hw) hs.networkThread
      (fun _ => Nat.le_refl _) ?_
    intro q n hmem
    exact .inl (by simpa using hmem)
  | woke | sweptUp | wroteSession | clearedId | wroteId | unknownAlarm =>
    exact ⟨hs.sessions, hs.contexts, hs.activities, hs.networkThread, hs.acknowledged⟩
  | queuedRetr time alarm hstage =>
    have hadded : WellFormed (addTask s (.processRetrCoapEap alarm)) :=
      wellFormed_addTask hs (by simp [Worker.pointers])
    exact ⟨hadded.sessions, hadded.contexts, hadded.activities, hadded.networkThread,
      hadded.acknowledged⟩

theorem wellFormed {guard : Controller → Event → Prop}
    (h : ReachableUnder (step digests) guard initialController s) :
    WellFormed s := by
  refine h.invariant ?_ fun _ _ _ _ hs _ hstep => wellFormed_step hs hstep
  constructor <;> simp [initialController, Controller.activities]

end CoapEap.Mainserver
