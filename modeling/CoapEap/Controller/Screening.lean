import CoapEap.Controller.Retransmission
import CoapEap.Controller.Sessions

/-!
What the handler of an acknowledgment asks before it acts. It takes the session
that the token names and asks neither where the datagram came from nor how long
its token was, and it never looks at the code.
-/

namespace CoapEap.Mainserver

open Cantcoap EapServer Lalarm Radius Library.Runs

variable {digests : Digests} {s t u : Controller} {task : NetworkTask} {post : Ptr × Nat}
variable {p q : Ptr} {call : Call}

/-- The location that an acknowledgment leaves in its session. -/
def locationOf (buf : Bytes) : Option Bytes :=
  (validate buf).map fun v => getLocation buf v 30

/-- Whether the handler has anything to do in a session: an exchange to drive, a
session to complete, or another location to keep. -/
def hasWork (session : Session) (buf : Bytes) : Bool :=
  session.currentState = 2 || session.currentState = 3 || session.location ≠ locationOf buf

/-- The session left the list. -/
def Left (s t : Controller) (q : Ptr) : Prop := q ∈ s.sessions ∧ q ∉ t.sessions

/-- A step acted on a session: it changed it, took it off the list, or noted that
it fed its EAP layer or completed it. -/
def ActedOn (s t : Controller) (q : Ptr) : Prop :=
  t.heap q ≠ s.heap q ∨ Left s t q ∨
    ∃ new, t.log = s.log ++ new ∧
      ∃ o ∈ new, (∃ post, o = .fed q post) ∨ ∃ ack lastSent, o = .completed q ack lastSent

/-- The list of sessions when `process_acknowledgment` has removed entries with the
identifier of a session twice. -/
def withoutTwice (s : Controller) (p : Ptr) : List Ptr :=
  (s.sessions.eraseP fun q => s.sessionId q = s.sessionId p).eraseP
    fun q => s.sessionId q = s.sessionId p

/-- The sessions that a handled acknowledgment acts on: the one in hand, and in
state 3 whatever the identifier takes off the list. -/
def WorksOn (s : Controller) (task : NetworkTask) (p q : Ptr) : Prop :=
  (q = p ∧ hasWork (s.heap p) task.buf = true) ∨
    ((s.heap p).currentState = 3 ∧ q ∈ s.sessions ∧ q ∉ withoutTwice s p)

theorem removeTwice_sessions (hid : u.sessionId = s.sessionId)
    (hsessions : u.sessions = s.sessions) :
    (removeCoapEapSession (removeCoapEapSession u (s.sessionId p)) (s.sessionId p)).sessions =
      withoutTwice s p := by
  show (u.sessions.eraseP fun q => u.sessionId q = s.sessionId p).eraseP
    (fun q => u.sessionId q = s.sessionId p) = withoutTwice s p
  rw [hid, hsessions]
  rfl

theorem sessionId_of_removed (hmem : q ∈ s.sessions) (hleft : q ∉ withoutTwice s p) :
    s.sessionId q = s.sessionId p := by
  by_contra hne
  apply hleft
  unfold withoutTwice
  rw [List.mem_eraseP_of_neg (by simpa using hne), List.mem_eraseP_of_neg (by simpa using hne)]
  exact hmem

/-- The three ways through the handler, by what they leave. -/
theorem processAcknowledgment_effect (h : processAcknowledgment s task post p call = .ok t) :
    (∀ q, q ≠ p → t.heap q = s.heap q) ∧ (t.heap p).location = locationOf task.buf ∧
      (t.heap p).currentState = (s.heap p).currentState ∧
      ∃ new, t.log = s.log ++ new ∧ (∀ o ∈ new, Notes s p (.acknowledgment task post p) o) ∧
        (((s.heap p).currentState = 2 ∧ t.sessions = s.sessions ∧ .fed p post ∈ new) ∨
          ((s.heap p).currentState = 3 ∧ t.sessions = withoutTwice s p ∧
            .completed p task.buf (s.heap p).lastSentMessage ∈ new) ∨
          ((s.heap p).currentState ≠ 2 ∧ (s.heap p).currentState ≠ 3 ∧
            t.sessions = s.sessions ∧ (∀ o ∈ new, ∃ n, o = .acknowledged p n) ∧
            t.heap p = { s.heap p with location := locationOf task.buf })) := by
  obtain ⟨new, hlog, hnotes, -⟩ := processAcknowledgment_notes h
  obtain ⟨v, hvalid, hself⟩ := processAcknowledgment_session h
  obtain ⟨request, u, hrequest, hu, hcase⟩ := processAcknowledgment_ok h
  have hchange : SessionChange noAnswers (s.heap p) (t.heap p) ∧
      ∀ q, q ≠ p → t.heap q = s.heap q := processAcknowledgment_change h
  have hlocation : locationOf task.buf = some (getLocation task.buf request 30) := by
    rw [locationOf, hrequest, Option.map_some]
  have hv : v = request := by
    rw [hvalid, Option.some.injEq] at hrequest
    exact hrequest
  rw [hv, ← hlocation] at hself
  refine ⟨hchange.2, by rw [hself], by rw [hself], new, hlog, hnotes, ?_⟩
  have hids : u.sessionId = s.sessionId := by
    funext q
    rw [hu]
    by_cases hq : q = p
    · simp [Controller.sessionId, hq]
    · simp [Controller.sessionId, Controller.setSession_heap, hq]
  rcases hcase with ⟨hstate, -, hstep⟩ | ⟨hstate, ht⟩ | ⟨hnot2, hnot3, ht⟩
  · refine .inl ⟨hstate, ?_, ?_⟩
    · rw [(stepSession_session hstep).2.2.1, hu]
      rfl
    · obtain ⟨requests, hrequests, -⟩ := stepSession_log hstep
      rw [hlog, hu] at hrequests
      simp only [Controller.record_log, Controller.setSession_log, List.append_assoc] at hrequests
      rw [List.append_cancel_left hrequests]
      simp
  · refine .inr (.inl ⟨hstate, ?_, ?_⟩)
    · rw [ht]
      exact removeTwice_sessions (u := cancelPostAlarm (cancelPostAlarm u _) _) hids
        (by rw [hu]; rfl)
    · have hnew := congrArg Controller.log ht
      rw [hlog, hu] at hnew
      simp only [Controller.record_log, removeCoapEapSession, cancelPostAlarm,
        Controller.setSession_log, List.append_assoc] at hnew
      rw [List.append_cancel_left hnew]
      simp
  · refine .inr (.inr ⟨hnot2, hnot3, ?_, ?_, ?_⟩)
    · rw [ht, hu]
      rfl
    · have hnew := congrArg Controller.log ht
      rw [hlog, hu] at hnew
      simp only [Controller.record_log, Controller.setSession_log] at hnew
      rw [List.append_cancel_left hnew]
      intro o ho
      split at ho
      · exact ⟨_, List.mem_singleton.mp ho⟩
      · simp at ho
    · rw [ht, hu, Controller.record_heap, Controller.setSession_heap_self, hlocation]

/-- A handled acknowledgment acts on the sessions it has work in, and on no other. -/
theorem actedOn_iff (h : processAcknowledgment s task post p call = .ok t) :
    ActedOn s t q ↔ WorksOn s task p q := by
  obtain ⟨hothers, hlocation, hstate, new, hlog, hnotes, hcase⟩ := processAcknowledgment_effect h
  constructor
  · rintro (hheap | ⟨hmem, hleft⟩ | ⟨new', hlog', o, ho, hacts⟩)
    · have hq : q = p := by
        by_contra hne
        exact hheap (hothers q hne)
      subst hq
      refine .inl ⟨rfl, ?_⟩
      rcases hcase with ⟨h2, -⟩ | ⟨h3, -⟩ | ⟨-, -, -, -, hself⟩
      · simp [hasWork, h2]
      · simp [hasWork, h3]
      · have hnew : (s.heap q).location ≠ locationOf task.buf := by
          intro hsame
          exact hheap (by rw [hself, ← hsame])
        simp [hasWork, hnew]
    · rcases hcase with ⟨-, hsame, -⟩ | ⟨h3, hsessions, -⟩ | ⟨-, -, hsame, -⟩
      · rw [hsame] at hleft
        exact absurd hmem hleft
      · exact .inr ⟨h3, hmem, hsessions ▸ hleft⟩
      · rw [hsame] at hleft
        exact absurd hmem hleft
    · rw [hlog] at hlog'
      rw [← List.append_cancel_left hlog'] at ho
      have hnote := hnotes o ho
      have hq : q = p := by
        rcases hacts with ⟨post', rfl⟩ | ⟨ack, lastSent, rfl⟩
        · cases hnote
          rfl
        · cases hnote
          rfl
      refine .inl ⟨hq, ?_⟩
      rcases hcase with ⟨h2, -⟩ | ⟨h3, -⟩ | ⟨-, -, -, hnoted, -⟩
      · simp [hasWork, h2]
      · simp [hasWork, h3]
      · obtain ⟨n, rfl⟩ := hnoted o ho
        rcases hacts with ⟨post', h⟩ | ⟨ack, lastSent, h⟩
        · simp at h
        · simp at h
  · rintro (⟨rfl, hwork⟩ | ⟨h3, hmem, hleft⟩)
    · rcases hcase with ⟨-, -, hfed⟩ | ⟨-, -, hcompleted⟩ | ⟨hnot2, hnot3, -, -, -⟩
      · exact .inr (.inr ⟨new, hlog, _, hfed, .inl ⟨post, rfl⟩⟩)
      · exact .inr (.inr ⟨new, hlog, _, hcompleted, .inr ⟨_, _, rfl⟩⟩)
      · left
        intro hsame
        rw [hsame] at hlocation
        simp [hasWork, hnot2, hnot3, hlocation] at hwork
    · rcases hcase with ⟨h2, -⟩ | ⟨-, hsessions, -⟩ | ⟨-, hnot3, -⟩
      · omega
      · exact .inr (.inl ⟨hmem, hsessions ▸ hleft⟩)
      · exact absurd h3 hnot3

/-- The class of a code is that of the success responses. -/
def isSuccess (buf : Bytes) : Bool := getCode buf / 32 = 2

/-- An acknowledgment drives its session only if it is a success, and leaves it
alone if it is not. -/
structure DrivenBySuccess (s t : Controller) (buf : Bytes) (p : Ptr) : Prop where
  drives : ActedOn s t p → isSuccess buf = true
  otherwise : isSuccess buf = false → (t.heap p).currentState = (s.heap p).currentState ∧
    (t.heap p).location = (s.heap p).location ∧ (t.heap p).eapCtx = (s.heap p).eapCtx

theorem worksOn_self : WorksOn s task p p ↔ hasWork (s.heap p) task.buf = true := by
  constructor
  · rintro (⟨-, hwork⟩ | ⟨h3, -, -⟩)
    · exact hwork
    · simp [hasWork, h3]
  · intro hwork
    exact .inl ⟨rfl, hwork⟩

/-- Only a success drives the exchange exactly when the acknowledgment is one, or
when the handler has nothing to do: its session is in neither of the states 2 and
3 and has the location already that the acknowledgment gives. -/
theorem driven_by_success_iff (hresult : processAcknowledgment s task post p call = .ok t) :
    DrivenBySuccess s t task.buf p ↔
      (isSuccess task.buf = true ∨ hasWork (s.heap p) task.buf = false) := by
  constructor
  · intro h
    cases hwork : hasWork (s.heap p) task.buf with
    | false => exact .inr rfl
    | true => exact .inl (h.drives ((actedOn_iff hresult).mpr (worksOn_self.mpr hwork)))
  · intro h
    refine ⟨?_, ?_⟩
    · intro hacts
      have hwork := worksOn_self.mp ((actedOn_iff hresult).mp hacts)
      rcases h with hsuccess | hnone
      · exact hsuccess
      · rw [hwork] at hnone
        contradiction
    · intro hfailure
      rcases h with hsuccess | hnone
      · rw [hsuccess] at hfailure
        contradiction
      · have hsame : t.heap p = s.heap p := by
          by_contra hchanged
          have hwork := worksOn_self.mp ((actedOn_iff hresult).mp (.inl hchanged))
          rw [hwork] at hnone
          contradiction
        rw [hsame]
        exact ⟨rfl, rfl, rfl⟩

/-- An acknowledgment of the first POST arrives and a worker has its session. -/
def answersFirstPost (datagram : Bytes) (source : Endpoint) : List Event :=
  comesIn 1 ++ [.recvCoap datagram source {}, .lockAcknowledgment, .getTask, .lookup 0 []]

/-- The worker of `answersFirstPost` holds the first session, which is in state 2
and waits for this acknowledgment, and its handler will return. -/
def holdsFirstSession (task : NetworkTask) (s : Controller) : Bool :=
  s.workers[0]? == some (.acknowledgment task (0, 1) 0) && (s.heap 0).currentState == 2 &&
    answersOutstanding (s.heap 0) task.buf && (s.heap 0).recvAddr == ⟨[1], 5683⟩ &&
    (processAcknowledgment s task (0, 1) 0 {}).toOption.isSome

theorem holdsFirstSession_spec {task : NetworkTask}
    (h : holdsFirstSession task s = true) :
    ∃ t, s.workers[0]? = some (.acknowledgment task (0, 1) 0) ∧
      (s.heap 0).currentState = 2 ∧ answersOutstanding (s.heap 0) task.buf = true ∧
      (s.heap 0).recvAddr = ⟨[1], 5683⟩ ∧ processAcknowledgment s task (0, 1) 0 {} = .ok t := by
  simp only [holdsFirstSession, Bool.and_eq_true, beq_iff_eq] at h
  obtain ⟨⟨⟨⟨hworker, hstate⟩, hanswers⟩, haddr⟩, hok⟩ := h
  cases hresult : processAcknowledgment s task (0, 1) 0 {} with
  | error reason =>
    rw [hresult] at hok
    simp [Except.toOption] at hok
  | ok t => exact ⟨t, hworker, hstate, hanswers, haddr, rfl⟩

/-- The created response to the first POST drives its session. -/
theorem created_response_drives : ∃ s t, Reachable noAnswers s ∧
    answersOutstanding (s.heap 0) (ackDatagram 1 1) = true ∧ ActedOn s t 0 ∧
    DrivenBySuccess s t (ackDatagram 1 1) 0 := by
  have hrun : (run (step noAnswers) initialController
      (answersFirstPost (ackDatagram 1 1) ⟨[1], 5683⟩)).any
        (holdsFirstSession ⟨ackDatagram 1 1, ⟨[1], 5683⟩, 0⟩) = true := by
    decide +kernel
  obtain ⟨s, hs, hcheck⟩ := exists_of_run hrun
  obtain ⟨t, hworker, hstate, hanswers, -, hresult⟩ := holdsFirstSession_spec hcheck
  refine ⟨s, t, reachable_of_run hs, hanswers, ?_, ?_⟩
  · exact (actedOn_iff hresult).mpr (.inl ⟨rfl, by simp [hasWork, hstate]⟩)
  · exact (driven_by_success_iff hresult).mpr (.inl (by decide))

/-- The device's answer to a POST on a name that it has given up: 4.04. -/
def notFoundDatagram : Bytes := [0x64, 0x84, 0x00, 0x01] ++ le32 1

/-- The error is fed to the EAP layer and clears the location. -/
theorem not_found_drives : ∃ s t, Reachable noAnswers s ∧
    s.workers[0]? = some (.acknowledgment ⟨notFoundDatagram, ⟨[1], 5683⟩, 0⟩ (0, 1) 0) ∧
    answersOutstanding (s.heap 0) notFoundDatagram = true ∧
    processAcknowledgment s ⟨notFoundDatagram, ⟨[1], 5683⟩, 0⟩ (0, 1) 0 {} = .ok t ∧
    (t.heap 0).location ≠ (s.heap 0).location ∧ ¬ DrivenBySuccess s t notFoundDatagram 0 := by
  have hrun : (run (step noAnswers) initialController
      (answersFirstPost notFoundDatagram ⟨[1], 5683⟩)).any (fun s =>
        holdsFirstSession ⟨notFoundDatagram, ⟨[1], 5683⟩, 0⟩ s &&
          (s.heap 0).location == some defaultLocation) = true := by
    decide +kernel
  obtain ⟨s, hs, hcheck⟩ := exists_of_run hrun
  simp only [Bool.and_eq_true, beq_iff_eq] at hcheck
  obtain ⟨hcheck, hlocation⟩ := hcheck
  obtain ⟨t, hworker, hstate, hanswers, -, hresult⟩ := holdsFirstSession_spec hcheck
  refine ⟨s, t, reachable_of_run hs, hworker, hanswers, hresult, ?_, ?_⟩
  · rw [(processAcknowledgment_effect hresult).2.1, hlocation]
    decide +kernel
  · intro h
    have hacts : ActedOn s t 0 :=
      (actedOn_iff hresult).mpr (.inl ⟨rfl, by simp [hasWork, hstate]⟩)
    exact absurd (h.drives hacts) (by decide)

/-- A token of four bytes is the identifier of the session it names. -/
theorem token_eq_le32 {buf stack : Bytes} {id : UInt32} (hlength : (getToken buf).length = 4)
    (hid : id = tokenSessionId buf stack) : getToken buf = le32 id := by
  rw [hid, tokenSessionId]
  match htoken : getToken buf, hlength with
  | [a, b, c, d], _ => exact (le32_fromLe32 a b c d _).symm

/-- A worker has in hand the session that the token of its acknowledgment names. -/
def NamedByToken (s : Controller) : Prop :=
  ∀ task post p, .acknowledgment task post p ∈ s.activities →
    ∃ stack, s.sessionId p = tokenSessionId task.buf stack

theorem namedByToken {guard : Controller → Event → Prop}
    (h : ReachableUnder (step digests) guard initialController s) : NamedByToken s := by
  refine h.invariant (by simp [NamedByToken, initialController, Controller.activities]) ?_
  intro s e t hreach hs _ hstep task post p hworker
  have hgrows := step_grows hstep
  rcases step_activities hstep _ hworker with hold | harises
  · obtain ⟨stack, hstack⟩ := hs task post p hold
    have hmade : p < s.nextPtr :=
      (wellFormed hreach).activities _ hold p (by simp [Worker.pointers])
    exact ⟨stack, (hgrows.sessionId p hmade).trans hstack⟩
  · cases harises with
    | foundAcknowledgment i stack _ _ _ _ hfound =>
      obtain ⟨hmem, hid⟩ := getCoapEapSession_mem hfound
      have hmade := (wellFormed hreach).sessions p hmem
      exact ⟨stack, (hgrows.sessionId p hmade).trans hid⟩

/-- The acknowledgment answers the session: its token is the identifier, and it
comes from the endpoint that the session was made for. -/
def Answers (s : Controller) (task : NetworkTask) (q : Ptr) : Prop :=
  getToken task.buf = le32 (s.sessionId q) ∧ task.theirAddr = (s.heap q).recvAddr

/-- A handled acknowledgment acts only on sessions it answers exactly when its
token has four bytes and its source is the endpoint of every session in which
the handler has something to do, if there is any. -/
theorem acts_on_answered_iff {i : Nat} (hreach : Reachable digests s)
    (hworker : s.workers[i]? = some (.acknowledgment task post p))
    (hresult : processAcknowledgment s task post p call = .ok t) :
    (∀ q, ActedOn s t q → Answers s task q) ↔
      ∀ q, WorksOn s task p q →
        (getToken task.buf).length = 4 ∧ task.theirAddr = (s.heap q).recvAddr := by
  constructor
  · intro h q hworks
    obtain ⟨htoken, hsource⟩ := h q ((actedOn_iff hresult).mpr hworks)
    exact ⟨by rw [htoken]; rfl, hsource⟩
  · intro h q hacts
    have hworks := (actedOn_iff hresult).mp hacts
    obtain ⟨hlength, hsource⟩ := h q hworks
    obtain ⟨stack, hid⟩ := namedByToken hreach task post p (mem_activities_of_worker hworker)
    have hnamed : s.sessionId q = tokenSessionId task.buf stack := by
      rcases hworks with ⟨rfl, -⟩ | ⟨-, hmem, hleft⟩
      · exact hid
      · exact (sessionId_of_removed hmem hleft).trans hid
    exact ⟨token_eq_le32 hlength hnamed, hsource⟩

/-- An acknowledgment from the device with the identifier for its token. -/
theorem device_answers_its_session : ∃ s t, Reachable noAnswers s ∧ ActedOn s t 0 ∧
    ∀ q, ActedOn s t q → Answers s ⟨ackDatagram 1 1, ⟨[1], 5683⟩, 0⟩ q := by
  have hrun : (run (step noAnswers) initialController
      (answersFirstPost (ackDatagram 1 1) ⟨[1], 5683⟩)).any
        (holdsFirstSession ⟨ackDatagram 1 1, ⟨[1], 5683⟩, 0⟩) = true := by
    decide +kernel
  obtain ⟨s, hs, hcheck⟩ := exists_of_run hrun
  obtain ⟨t, hworker, hstate, -, haddr, hresult⟩ := holdsFirstSession_spec hcheck
  refine ⟨s, t, reachable_of_run hs, ?_, ?_⟩
  · exact (actedOn_iff hresult).mpr (.inl ⟨rfl, by simp [hasWork, hstate]⟩)
  · refine (acts_on_answered_iff (reachable_of_run hs) hworker hresult).mpr ?_
    rintro q (⟨rfl, -⟩ | ⟨h3, -, -⟩)
    · exact ⟨by decide, haddr.symm⟩
    · omega

/-- The same datagram from another address feeds the session as well. -/
theorem stranger_acts_on_session : ∃ s t, Reachable noAnswers s ∧
    s.workers[0]? = some (.acknowledgment ⟨ackDatagram 1 1, ⟨[2], 4444⟩, 0⟩ (0, 1) 0) ∧
    processAcknowledgment s ⟨ackDatagram 1 1, ⟨[2], 4444⟩, 0⟩ (0, 1) 0 {} = .ok t ∧
    ActedOn s t 0 ∧ ¬ ∀ q, ActedOn s t q → Answers s ⟨ackDatagram 1 1, ⟨[2], 4444⟩, 0⟩ q := by
  have hrun : (run (step noAnswers) initialController
      (answersFirstPost (ackDatagram 1 1) ⟨[2], 4444⟩)).any
        (holdsFirstSession ⟨ackDatagram 1 1, ⟨[2], 4444⟩, 0⟩) = true := by
    decide +kernel
  obtain ⟨s, hs, hcheck⟩ := exists_of_run hrun
  obtain ⟨t, hworker, hstate, -, haddr, hresult⟩ := holdsFirstSession_spec hcheck
  have hacts : ActedOn s t 0 :=
    (actedOn_iff hresult).mpr (.inl ⟨rfl, by simp [hasWork, hstate]⟩)
  refine ⟨s, t, reachable_of_run hs, hworker, hresult, hacts, ?_⟩
  intro h
  obtain ⟨-, hsource⟩ := h 0 hacts
  rw [haddr] at hsource
  simp at hsource

end CoapEap.Mainserver
