import CoapEap.Controller.Retransmission
import CoapEap.Controller.WellFormed

/-!
The schedule of retransmissions. The counter, the timeout and the stored message
of a session are set by the senders, and counted up and doubled by
`process_retr_coap_eap`; nothing else touches them. The counter is raised before
it is compared with `MAX_RETRANSMIT`, so the last round that the name promises is
not sent.
-/

namespace CoapEap.Mainserver

open Cantcoap EapServer Lalarm Radius Library.Runs

/-- What the schedule of a session consists of. -/
structure SameSchedule (x y : Session) : Prop where
  posts : y.posts = x.posts
  lastSentMessage : y.lastSentMessage = x.lastSentMessage
  rtxCounter : y.rtxCounter = x.rtxCounter
  rt : y.rt = x.rt
  rtInit : y.rtInit = x.rtInit

/-- A POST was stored, and the schedule starts anew. -/
structure Restarts (x y : Session) : Prop where
  posts : y.posts = x.posts + 1
  lastSentMessage : y.lastSentMessage.isSome
  rtxCounter : y.rtxCounter = 0
  rt : y.rt = y.rtInit

/-- What is noted about the schedule of a session. -/
def Occurrence.ofSchedule (p : Ptr) : Occurrence → Bool
  | .retransmitted q _ => q = p
  | .timedOut q => q = p
  | _ => false

/-- What a step from `s` on does to the schedule of a session, which is `y` after it,
and what it notes about it. -/
inductive ScheduleMove (s : Controller) (p : Ptr) (y : Session) (new : List Occurrence) : Prop
  | made (fresh : s.nextPtr ≤ p) (posts : y.posts = 0) (message : y.lastSentMessage = none)
      (silent : ∀ o ∈ new, o.ofSchedule p = false)
  | kept (same : SameSchedule (s.heap p) y) (silent : ∀ o ∈ new, o.ofSchedule p = false)
  | stored (old : p < s.nextPtr) (restarts : Restarts (s.heap p) y)
      (silent : ∀ o ∈ new, o.ofSchedule p = false)
  | retransmitted (pdu : Bytes) (message : (s.heap p).lastSentMessage = some pdu)
      (counter : (s.heap p).rtxCounter + 1 < maxRetransmit)
      (session : SameSchedule { s.heap p with
        rtxCounter := (s.heap p).rtxCounter + 1, rt := (s.heap p).rt * 2 } y)
      (noted : new = [.retransmitted p (s.heap p).posts])
  | counted (message : (s.heap p).lastSentMessage = none) (posts : y.posts = (s.heap p).posts)
      (unsent : y.lastSentMessage = none) (silent : ∀ o ∈ new, o.ofSchedule p = false)
  | gaveUp (counter : ¬ (s.heap p).rtxCounter + 1 < maxRetransmit)
      (session : SameSchedule { s.heap p with rtxCounter := (s.heap p).rtxCounter + 1 } y)
      (noted : new = [.timedOut p])

variable {digests : Digests} {s t u : Controller} {e : Event} {i : Nat} {p q : Ptr} {call : Call}
variable {new : List Occurrence}

theorem SameSchedule.refl (x : Session) : SameSchedule x x := ⟨rfl, rfl, rfl, rfl, rfl⟩

theorem SameSchedule.of_eapCtx {x y : Session} {ctx : EapAuthCtx}
    (h : y = { x with eapCtx := ctx }) :
    SameSchedule x y := by
  subst h
  exact ⟨rfl, rfl, rfl, rfl, rfl⟩

/-- Of another session a handler touches at most the EAP context, and it notes
nothing about it. -/
theorem scheduleMove_other (htouches : Touches p s u) (hq : q ≠ p)
    (hnew : ∀ o ∈ new, o.ofSchedule q = false) : ScheduleMove s q (u.heap q) new :=
  .kept (.of_eapCtx (htouches.others q hq)) hnew

theorem restarts_armPost {session : Session} {pdu : Bytes} {now : Rat}
    {occurrences : List Occurrence}
    (hposts : session.posts = (s.heap p).posts) :
    Restarts (s.heap p) (((armPost u p session pdu now).record occurrences).heap p) := by
  rw [Controller.record_heap, armPost_session]
  exact ⟨congrArg (· + 1) hposts, rfl, rfl, rfl⟩

theorem processCoapMsg_schedule {task : NetworkTask} (h : processCoapMsg s task p call = .ok t) :
    Restarts (s.heap p) (t.heap p) := by
  obtain ⟨u, session, packet, -, ⟨request, -, hstep⟩, rfl, -, rfl⟩ := processCoapMsg_ok h
  refine restarts_armPost ?_
  have hsession := (stepSession_session hstep).1
  rw [hsession]

theorem processReceiveRadiusMsg_schedule {msg : RadiusMsg} {identity : Bool}
    (h : processReceiveRadiusMsg digests s msg p call = .ok (t, identity)) :
    SameSchedule (s.heap p) (t.heap p) ∨ Restarts (s.heap p) (t.heap p) := by
  obtain ⟨u, hu, -, ⟨-, -, rfl, -⟩ | ⟨packet, -, ⟨-, rfl, -⟩ | ⟨-, hsend, -⟩⟩⟩ :=
    processReceiveRadiusMsg_ok h
  · exact .inl (.of_eapCtx (radiusClientReceive_session hu p))
  · have hsame := SameSchedule.of_eapCtx (radiusClientReceive_session hu p)
    left
    simp only [identityWorkarround, cancelPostAlarm, Controller.setSession_heap_self]
    exact ⟨hsame.posts, hsame.lastSentMessage, hsame.rtxCounter, hsame.rt, hsame.rtInit⟩
  · have hsame := SameSchedule.of_eapCtx (radiusClientReceive_session hu p)
    rcases (sendRadiusPost_ok hsend).2 with ⟨-, rfl⟩ | ⟨-, rfl⟩
    · exact .inr (restarts_armPost hsame.posts)
    · left
      rw [Controller.setSession_heap_self]
      exact ⟨hsame.posts, hsame.lastSentMessage, hsame.rtxCounter, hsame.rt, hsame.rtInit⟩

/-- `process_retr_coap_eap` makes at most one move in the schedule. -/
theorem processRetrCoapEap_schedule {id : Nat} (h : processRetrCoapEap s id p call = .ok t) :
    ∃ new, t.log = s.log ++ new ∧ (∀ q, q ≠ p → ∀ o ∈ new, o.ofSchedule q = false) ∧
      ScheduleMove s p (t.heap p) new := by
  rcases processRetrCoapEap_ok h with ⟨-, rfl⟩ | ⟨-, session, u, rfl, rfl,
    ⟨-, hnone, rfl⟩ | ⟨hcounter, pdu, hpdu, -, rfl⟩ | ⟨hcounter, rfl⟩⟩
  · exact ⟨[], by simp, by simp, .kept (.refl _) (by simp)⟩
  · refine ⟨[], by simp [cancelPostAlarm], by simp, .counted hnone ?_ ?_ (by simp)⟩
    · simp
    · rw [Controller.setSession_heap_self]
      exact hnone
  · refine ⟨[_], rfl, ?_, .retransmitted pdu hpdu hcounter ?_ rfl⟩
    · intro q hq o ho
      rw [List.mem_singleton.mp ho]
      simpa [Occurrence.ofSchedule] using Ne.symm hq
    · simp only [Controller.record_heap, addPostAlarm, cancelPostAlarm,
        Controller.setSession_heap_self]
      exact ⟨rfl, rfl, rfl, rfl, rfl⟩
  · refine ⟨[_], rfl, ?_, .gaveUp hcounter ?_ rfl⟩
    · intro q hq o ho
      rw [List.mem_singleton.mp ho]
      simpa [Occurrence.ofSchedule] using Ne.symm hq
    · simp only [Controller.record_heap, removeCoapEapSession, Controller.setSession_heap_self]
      exact ⟨rfl, rfl, rfl, rfl, rfl⟩

/-- What a step does to the schedule of a session. -/
theorem step_schedule (hwf : WellFormed s) (h : step digests s e = some t) (q : Ptr) :
    ∃ new, t.log = s.log ++ new ∧ ScheduleMove s q (t.heap q) new := by
  have hsame : ∀ new, t.log = s.log ++ new → t.heap = s.heap →
      (∀ o ∈ new, o.ofSchedule q = false) →
        ∃ new, t.log = s.log ++ new ∧ ScheduleMove s q (t.heap q) new := by
    intro new hlog hheap hsilent
    exact ⟨new, hlog, .kept (hheap ▸ .refl _) hsilent⟩
  have hradius : ∀ {i : Nat} {msg} {call} p u identity,
      s.workers[i]? = some (.receiveRadiusMsg msg p) →
      processReceiveRadiusMsg digests s msg p call = .ok (u, identity) →
        ∃ new, u.log = s.log ++ new ∧ ScheduleMove s q (u.heap q) new := by
    intro i msg call p u identity hworker hresult
    have hmade := hwf.activities _ (mem_activities_of_worker hworker) p (by simp [Worker.pointers])
    obtain ⟨new, hlog, hnew⟩ := processReceiveRadiusMsg_log hresult
    have hsilent : ∀ o ∈ new, o.ofSchedule q = false := by
      intro o ho
      obtain ⟨post, rfl⟩ := hnew o ho
      rfl
    refine ⟨new, hlog, ?_⟩
    by_cases hq : q = p
    · subst hq
      rcases processReceiveRadiusMsg_schedule hresult with hkept | hrestarts
      · exact .kept hkept hsilent
      · exact .stored hmade hrestarts hsilent
    · exact scheduleMove_other (touches_processReceiveRadiusMsg hresult) hq hsilent
  obtain ⟨-, hmove⟩ := step_move h
  cases hmove with
  | created datagram source arrival =>
    refine ⟨[], by simp [newSession, addTask], ?_⟩
    by_cases hq : q = s.nextPtr
    · subst hq
      refine .made (Nat.le_refl _) ?_ ?_ (by simp)
      · rw [newSession_heap_self]
        rfl
      · rw [newSession_heap_self]
        rfl
    · rw [newSession_heap_ne _ _ _ hq]
      exact .kept (.refl _) (by simp)
  | queued task p =>
    refine ⟨[_], rfl, .kept ?_ (by simp [Occurrence.ofSchedule])⟩
    by_cases hq : q = p
    · subst hq
      simp only [addTask, Controller.record_heap, Controller.setSession_heap_self]
      exact ⟨rfl, rfl, rfl, rfl, rfl⟩
    · simp only [addTask, Controller.record_heap, Controller.setSession_heap_ne s _ hq]
      exact .refl _
  | readSession => exact hsame [_] rfl rfl (by simp [Occurrence.ofSchedule])
  | popped => exact hsame [_] rfl rfl (by simp [Occurrence.ofSchedule])
  | handledCoap i call task p u hworker _ hresult =>
    have hmade := hwf.activities _ (mem_activities_of_worker hworker) p (by simp [Worker.pointers])
    obtain ⟨new, hlog, hnew⟩ := processCoapMsg_log hresult
    have hsilent : ∀ o ∈ new, o.ofSchedule q = false := by
      intro o ho
      rcases hnew o ho with ⟨identifier, rfl⟩ | ⟨post, rfl⟩ <;> rfl
    refine ⟨new, hlog, ?_⟩
    by_cases hq : q = p
    · subst hq
      have hrestarts := processCoapMsg_schedule hresult
      exact .stored hmade hrestarts hsilent
    · exact scheduleMove_other (u := u) (touches_processCoapMsg hresult) hq hsilent
  | handledAcknowledgment i call task post p u _ _ hresult =>
    obtain ⟨new, hlog, hnotes, -⟩ := processAcknowledgment_notes hresult
    have hsilent : ∀ o ∈ new, o.ofSchedule q = false := by
      intro o ho
      cases hnotes o ho <;> rfl
    refine ⟨new, hlog, ?_⟩
    by_cases hq : q = p
    · subst hq
      obtain ⟨request, -, hsession⟩ := processAcknowledgment_session hresult
      have hkept : SameSchedule (s.heap q) (u.heap q) := by
        rw [hsession]
        exact ⟨rfl, rfl, rfl, rfl, rfl⟩
      exact .kept hkept hsilent
    · exact scheduleMove_other (u := u) (touches_processAcknowledgment hresult) hq hsilent
  | handledRadius i call msg p u hworker _ hresult => exact hradius p u false hworker hresult
  | wroteIdentity i call msg p u hworker _ hresult => exact hradius p u true hworker hresult
  | handedIdentity i call p u _ hresult =>
    obtain ⟨new, hlog, hnew⟩ := stepSession_log hresult
    have hsilent : ∀ o ∈ new, o.ofSchedule q = false := by
      intro o ho
      obtain ⟨identifier, rfl⟩ := hnew o ho
      rfl
    refine ⟨new, hlog, ?_⟩
    by_cases hq : q = p
    · subst hq
      have hkept : SameSchedule (s.heap q) (u.heap q) := by
        rw [identityHandOver_session hresult]
        exact ⟨rfl, rfl, rfl, rfl, rfl⟩
      exact .kept hkept hsilent
    · exact scheduleMove_other (u := u) (touches_identityHandOver hresult) hq hsilent
  | handledRetr i call origin id p u _ _ hresult =>
    obtain ⟨new, hlog, hsilent, hown⟩ := processRetrCoapEap_schedule hresult
    refine ⟨new, hlog, ?_⟩
    by_cases hq : q = p
    · subst hq
      exact hown
    · exact scheduleMove_other (u := u) (touches_processRetrCoapEap hresult) hq (hsilent q hq)
  | _ => exact hsame [] (by simp [addTask, setWorker, endWorker]) rfl (by simp)

/-- How often the POST outstanding in a session was sent again. -/
def retransmissions (s : Controller) (p : Ptr) : Nat :=
  s.log.count (.retransmitted p (s.heap p).posts)

/-- A timeout after that many doublings. -/
def doubled (rt : Rat) : Nat → Rat
  | 0 => rt
  | n + 1 => doubled rt n * 2

/-- The counter, the timeout and the log agree. The counter is one of sixteen bits:
when it runs over, the retransmissions begin again. -/
structure Scheduled (s : Controller) (p : Ptr) : Prop where
  fresh : s.nextPtr ≤ p → (s.heap p).posts = 0
  later : ∀ n, .retransmitted p n ∈ s.log → n ≤ (s.heap p).posts
  unsent : (s.heap p).posts = 0 → (s.heap p).lastSentMessage = none ∧
    ∀ n, .retransmitted p n ∉ s.log
  sent : (s.heap p).posts ≠ 0 → (s.heap p).lastSentMessage.isSome
  counted : (s.heap p).posts ≠ 0 →
    retransmissions s p % 4 = min (s.heap p).rtxCounter.toNat 3
  waited : (s.heap p).posts ≠ 0 →
    (s.heap p).rt = doubled (s.heap p).rtInit (retransmissions s p)

theorem not_mem_of_silent {n : Nat} (hsilent : ∀ o ∈ new, o.ofSchedule p = false) :
    .retransmitted p n ∉ new := by
  intro hmem
  have hnot := hsilent _ hmem
  simp [Occurrence.ofSchedule] at hnot

/-- A step that notes nothing of a session's schedule leaves the counts. -/
theorem retransmitted_silent {n : Nat} (hlog : t.log = s.log ++ new)
    (hsilent : ∀ o ∈ new, o.ofSchedule p = false) :
    (.retransmitted p n ∈ t.log ↔ .retransmitted p n ∈ s.log) ∧
      t.log.count (.retransmitted p n) = s.log.count (.retransmitted p n) := by
  have hnone := not_mem_of_silent (n := n) hsilent
  constructor
  · rw [hlog, List.mem_append, or_iff_left hnone]
  · rw [hlog, List.count_append, List.count_eq_zero_of_not_mem hnone, Nat.add_zero]

theorem Scheduled.of_same (hs : Scheduled s p) (hnext : s.nextPtr ≤ t.nextPtr)
    (hsame : SameSchedule (s.heap p) (t.heap p)) (hlog : t.log = s.log ++ new)
    (hsilent : ∀ o ∈ new, o.ofSchedule p = false) : Scheduled t p := by
  have hkept := fun n => retransmitted_silent (n := n) hlog hsilent
  have hcount : retransmissions t p = retransmissions s p := by
    unfold retransmissions
    rw [hsame.posts]
    exact (hkept _).2
  constructor
  · intro hfresh
    exact hsame.posts.trans (hs.fresh (Nat.le_trans hnext hfresh))
  · intro n hmem
    rw [hsame.posts]
    exact hs.later n ((hkept n).1.mp hmem)
  · intro hzero
    obtain ⟨hmessage, hnone⟩ := hs.unsent (hsame.posts ▸ hzero)
    exact ⟨hsame.lastSentMessage.trans hmessage, fun n hmem => hnone n ((hkept n).1.mp hmem)⟩
  · intro hposted
    rw [hsame.lastSentMessage]
    exact hs.sent (hsame.posts ▸ hposted)
  · intro hposted
    rw [hcount, hsame.rtxCounter]
    exact hs.counted (hsame.posts ▸ hposted)
  · intro hposted
    rw [hcount, hsame.rt, hsame.rtInit]
    exact hs.waited (hsame.posts ▸ hposted)

theorem raised_toNat (counter : UInt16) :
    (counter + 1).toNat = (counter.toNat + 1) % 65536 := by
  rw [UInt16.toNat_add]
  rfl

/-- Where a session is given up, the counter stood at three at least. -/
theorem three_before_giving_up {counter : UInt16} (h : ¬ counter + 1 < maxRetransmit) :
    3 ≤ counter.toNat ∧ 4 ≤ (counter + 1).toNat := by
  have hreached : ¬ (counter + 1).toNat < 4 := fun hlt => h (UInt16.lt_iff_toNat_lt.mpr hlt)
  have hraised := raised_toNat counter
  omega

/-- The schedule goes on as the counter says. -/
theorem Scheduled.step (hwf : WellFormed s) (hs : Scheduled s p)
    (h : step digests s e = some t) : Scheduled t p := by
  have hnext := (step_grows h).nextPtr
  obtain ⟨new, hlog, hmove⟩ := step_schedule hwf h p
  cases hmove with
  | made hfresh hposts hmessage hsilent =>
    have hkept := fun n => (retransmitted_silent (n := n) hlog hsilent).1
    have hnone : ∀ n, .retransmitted p n ∉ t.log := by
      intro n hmem
      exact (hs.unsent (hs.fresh hfresh)).2 n ((hkept n).mp hmem)
    exact ⟨fun _ => hposts, fun n hmem => absurd hmem (hnone n), fun _ => ⟨hmessage, hnone⟩,
      fun hposted => absurd hposts hposted, fun hposted => absurd hposts hposted,
      fun hposted => absurd hposts hposted⟩
  | kept hsame hsilent => exact hs.of_same hnext hsame hlog hsilent
  | stored hmade hrestarts hsilent =>
    have hkept := fun n => (retransmitted_silent (n := n) hlog hsilent).1
    have hposted : (t.heap p).posts ≠ 0 := by
      rw [hrestarts.posts]
      exact Nat.succ_ne_zero _
    have hnone : retransmissions t p = 0 := by
      refine List.count_eq_zero_of_not_mem ?_
      intro hmem
      have hbound := hs.later _ ((hkept _).mp hmem)
      rw [hrestarts.posts] at hbound
      omega
    constructor
    · intro hfresh
      exact absurd (Nat.lt_of_lt_of_le hmade hnext) (Nat.not_lt.mpr hfresh)
    · intro n hmem
      rw [hrestarts.posts]
      exact Nat.le_succ_of_le (hs.later n ((hkept n).mp hmem))
    · intro hzero
      exact absurd hzero hposted
    · intro _
      exact hrestarts.lastSentMessage
    · intro _
      rw [hnone, hrestarts.rtxCounter]
      rfl
    · intro _
      rw [hnone]
      exact hrestarts.rt
  | retransmitted pdu hmessage hcounter hsession hnoted =>
    have hposted : (s.heap p).posts ≠ 0 := by
      intro hzero
      simp [(hs.unsent hzero).1] at hmessage
    have hcount : retransmissions t p = retransmissions s p + 1 := by
      unfold retransmissions
      rw [hsession.posts, hlog, hnoted, List.count_append]
      simp
    constructor
    · intro hfresh
      exact hsession.posts.trans (hs.fresh (Nat.le_trans hnext hfresh))
    · intro n hmem
      rw [hsession.posts]
      rw [hlog, hnoted, List.mem_append, List.mem_singleton] at hmem
      rcases hmem with hold | hnew
      · exact hs.later n hold
      · exact Nat.le_of_eq (Occurrence.retransmitted.inj hnew).2
    · intro hzero
      exact absurd (hsession.posts.symm.trans hzero) hposted
    · intro _
      rw [hsession.lastSentMessage]
      exact hs.sent hposted
    · intro _
      have hbefore := hs.counted hposted
      rw [hcount, hsession.rtxCounter]
      have hraised := raised_toNat (s.heap p).rtxCounter
      have hbelow : ((s.heap p).rtxCounter + 1).toNat < 4 := UInt16.lt_iff_toNat_lt.mp hcounter
      have hbound := (s.heap p).rtxCounter.toNat_lt
      dsimp only
      omega
    · intro _
      rw [hcount, hsession.rt, hsession.rtInit]
      exact congrArg (· * 2) (hs.waited hposted)
  | counted hmessage hposts hunsent hsilent =>
    have hkept := fun n => (retransmitted_silent (n := n) hlog hsilent).1
    have hzero : (s.heap p).posts = 0 := by
      by_contra hposted
      have hsent := hs.sent hposted
      simp [hmessage] at hsent
    have hnone : ∀ n, .retransmitted p n ∉ t.log := by
      intro n hmem
      exact (hs.unsent hzero).2 n ((hkept n).mp hmem)
    have hstill : (t.heap p).posts = 0 := hposts.trans hzero
    exact ⟨fun _ => hstill, fun n hmem => absurd hmem (hnone n), fun _ => ⟨hunsent, hnone⟩,
      fun hposted => absurd hstill hposted, fun hposted => absurd hstill hposted,
      fun hposted => absurd hstill hposted⟩
  | gaveUp hcounter hsession hnoted =>
    have hkept : ∀ n, .retransmitted p n ∈ t.log ↔ .retransmitted p n ∈ s.log := by
      intro n
      simp [hlog, hnoted]
    have hcount : retransmissions t p = retransmissions s p := by
      unfold retransmissions
      rw [hsession.posts, hlog, hnoted, List.count_append]
      simp
    constructor
    · intro hfresh
      exact hsession.posts.trans (hs.fresh (Nat.le_trans hnext hfresh))
    · intro n hmem
      rw [hsession.posts]
      exact hs.later n ((hkept n).mp hmem)
    · intro hzero
      obtain ⟨hmessage, hnone⟩ := hs.unsent (hsession.posts ▸ hzero)
      exact ⟨hsession.lastSentMessage.trans hmessage,
        fun n hmem => hnone n ((hkept n).mp hmem)⟩
    · intro hposted
      rw [hsession.lastSentMessage]
      exact hs.sent (hsession.posts ▸ hposted)
    · intro hposted
      have hbefore := hs.counted (hsession.posts ▸ hposted)
      have hlast := three_before_giving_up hcounter
      have hraised := raised_toNat (s.heap p).rtxCounter
      rw [hcount, hsession.rtxCounter]
      dsimp only
      omega
    · intro hposted
      rw [hcount, hsession.rt, hsession.rtInit]
      exact hs.waited (hsession.posts ▸ hposted)

theorem scheduled {guard : Controller → Event → Prop}
    (h : ReachableUnder (step digests) guard initialController s) (p : Ptr) : Scheduled s p := by
  have hall : ∀ p, Scheduled s p := by
    induction h with
    | start =>
      intro p
      exact ⟨fun _ => rfl, by simp [initialController],
        fun _ => ⟨rfl, by simp [initialController]⟩, fun hposted => absurd rfl hposted,
        fun hposted => absurd rfl hposted, fun hposted => absurd rfl hposted⟩
    | step hbefore _ htaken ih =>
      intro p
      exact (ih p).step (wellFormed hbefore) htaken
  exact hall p

/-- The message that is sent again is the POST itself: it changes only with the
number of the POST. -/
theorem message_of_post_kept (hreach : Reachable digests s) (h : step digests s e = some t)
    (hposted : (s.heap p).posts ≠ 0) (hposts : (t.heap p).posts = (s.heap p).posts) :
    (t.heap p).lastSentMessage = (s.heap p).lastSentMessage := by
  have hs := scheduled hreach p
  obtain ⟨new, -, hmove⟩ := step_schedule (wellFormed hreach) h p
  cases hmove with
  | made hfresh => exact absurd (hs.fresh hfresh) hposted
  | kept hsame => exact hsame.lastSentMessage
  | stored _ hrestarts =>
    have hraised := hrestarts.posts
    omega
  | retransmitted pdu _ _ hsession => exact hsession.lastSentMessage
  | counted hmessage =>
    have hsent := hs.sent hposted
    simp [hmessage] at hsent
  | gaveUp _ hsession => exact hsession.lastSentMessage

/-- A session is given up in a step. -/
def givesUp (s t : Controller) (p : Ptr) : Prop :=
  s.log.count (.timedOut p) < t.log.count (.timedOut p)

/-- What the schedule asks for where a session is given up: its POST was sent again
as often as `MAX_RETRANSMIT` says, and the last wait was as long as that many
doublings make it. -/
structure OnSchedule (s : Controller) (p : Ptr) : Prop where
  sent : retransmissions s p = maxRetransmit.toNat
  waited : (s.heap p).rt = doubled (s.heap p).rtInit maxRetransmit.toNat

theorem counter_of_givesUp (hreach : Reachable digests s) (h : step digests s e = some t)
    (hgave : givesUp s t p) : 3 ≤ (s.heap p).rtxCounter.toNat := by
  obtain ⟨new, hlog, hmove⟩ := step_schedule (wellFormed hreach) h p
  have hnoted : .timedOut p ∈ new := by
    by_contra hnone
    rw [givesUp, hlog, List.count_append, List.count_eq_zero_of_not_mem hnone] at hgave
    omega
  have hquiet : (∀ o ∈ new, o.ofSchedule p = false) → False := by
    intro hsilent
    have hown := hsilent _ hnoted
    simp [Occurrence.ofSchedule] at hown
  cases hmove with
  | made _ _ _ hsilent => exact (hquiet hsilent).elim
  | kept _ hsilent => exact (hquiet hsilent).elim
  | stored _ _ hsilent => exact (hquiet hsilent).elim
  | counted _ _ _ hsilent => exact (hquiet hsilent).elim
  | retransmitted pdu _ _ _ hnew => simp [hnew] at hnoted
  | gaveUp hcounter => exact (three_before_giving_up hcounter).1

/-- No session is ever given up on schedule: its POST was sent again three times, or
four times more for each overflow of the counter. -/
theorem given_up_off_schedule (hreach : Reachable digests s) (h : step digests s e = some t)
    (hgave : givesUp s t p) : ¬ OnSchedule s p := by
  intro hschedule
  have hs := scheduled hreach p
  have hcounter := counter_of_givesUp hreach h hgave
  have hfour : retransmissions s p = 4 := hschedule.sent
  by_cases hposted : (s.heap p).posts = 0
  · have hnone : retransmissions s p = 0 :=
      List.count_eq_zero_of_not_mem ((hs.unsent hposted).2 _)
    omega
  · have hcount := hs.counted hposted
    omega

/-- The alarm of the only session expires, and a worker executes it. -/
def alarmExecuted (time : Rat) : List Event :=
  [.wake time] ++ List.replicate 6 .alarmStep ++
    [.getTask, .lookup 0 [], .lookup 0 [], .handle 0 { now := time }]

/-- A session is made, and its POST is never acknowledged. -/
def neverAnswered : List Event :=
  comesIn 1 ++ alarmExecuted 100 ++ alarmExecuted 200 ++ alarmExecuted 300 ++ alarmExecuted 400

/-- The step in which the session is given up, after three retransmissions. -/
def givesUpAfterThree (tr : Controller × Event × Controller) : Bool :=
  tr.1.log.count (.timedOut 0) < tr.2.2.log.count (.timedOut 0) && retransmissions tr.1 0 = 3

theorem neverAnswered_gives_up : ∃ s e t, Reachable noAnswers s ∧ step noAnswers s e = some t ∧
    givesUp s t 0 ∧ retransmissions s 0 = 3 := by
  have hrun : (transitions (step noAnswers) initialController neverAnswered).any
      givesUpAfterThree = true := by
    decide +kernel
  obtain ⟨⟨s, e, t⟩, hmem, hcheck⟩ := List.any_eq_true.mp hrun
  obtain ⟨hreach, hstep⟩ := mem_transitions hmem
  simp only [givesUpAfterThree, Bool.and_eq_true, decide_eq_true_eq] at hcheck
  exact ⟨s, e, t, hreach, hstep, hcheck.1, hcheck.2⟩

theorem unanswered_session_off_schedule : ∃ s t, givesUp s t 0 ∧ ¬ OnSchedule s 0 := by
  obtain ⟨s, e, t, hreach, hstep, hgave, -⟩ := neverAnswered_gives_up
  exact ⟨s, t, hgave, given_up_off_schedule hreach hstep hgave⟩

theorem given_up_after_three_retransmissions :
    ¬ ∀ digests s e t p, Reachable digests s → step digests s e = some t → givesUp s t p →
      OnSchedule s p := by
  intro hstated
  obtain ⟨s, e, t, hreach, hstep, hgave, hthree⟩ := neverAnswered_gives_up
  have hfour : retransmissions s 0 = 4 := (hstated noAnswers s e t 0 hreach hstep hgave).sent
  omega

end CoapEap.Mainserver
