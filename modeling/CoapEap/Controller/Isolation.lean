import CoapEap.Controller.Robustness

/-!
A datagram and the sessions it is not for. In a run whose steps spare the other
sessions, receiving a datagram and processing it leaves them as they are, and the
process runs on.
-/

namespace CoapEap.Mainserver

open Cantcoap EapServer Lalarm Radius Library.Runs

/-- The session that the datagram in hand is addressed to, where the step moves one. -/
def addressed (s : Controller) : Event → Option Ptr
  | .lockAcknowledgment => s.networkThread.session
  | .handle i _ => (s.workers[i]?).bind Worker.session
  | _ => none

/-- The worker is in a task of the alarm thread. -/
def Worker.retransmits : Worker → Bool
  | .took (.processRetrCoapEap _) => true
  | .retrId _ _ => true
  | .retrCoapEap _ _ _ => true
  | _ => false

/-- In the step a datagram is received or processed. -/
def carriesDatagram (s : Controller) : Event → Bool
  | .lookup i _ => (s.workers[i]?).all fun w => !w.retransmits
  | .handle i _ => (s.workers[i]?).all fun w => !w.retransmits
  | .wake _ => false
  | .alarmStep => false
  | _ => true

/-- Session `q` keeps its state: itself, its entry, its alarms, its waiting requests,
the workers that have it in hand, and what one of them is to read from `eap_req_id`. -/
structure Undisturbed (s t : Controller) (q : Ptr) : Prop extends Spares s t q where
  inHand : ∀ w ∈ s.activities, w.session = some q → w ∈ t.activities
  eapReqId : .radiusIdentity q ∈ s.activities → t.eapReqId = s.eapReqId

variable {digests : Digests} {s t u : Controller} {e : Event} {p q : Ptr} {i : Nat} {call : Call}

/-- The worker that moves on has another session in hand, or none. -/
theorem inHand_others {worker : Worker} (hworker : s.workers[i]? = some worker)
    (hother : worker.session ≠ some q) : ∀ w ∈ s.activities, w.session = some q →
      w ∈ s.others i := by
  intro w hw hsession
  rcases List.mem_cons.mp ((activities_of_worker hworker).mem_iff.mp hw) with rfl | hold
  · exact absurd hsession hother
  · exact hold

theorem inHand_setWorker {worker : Worker} (worker' : Worker)
    (hworker : s.workers[i]? = some worker) (hother : worker.session ≠ some q) :
    ∀ w ∈ s.activities, w.session = some q → w ∈ (setWorker s i worker').activities := by
  intro w hw hsession
  have hkept := inHand_others hworker hother w hw hsession
  exact (activities_setWorker worker' hworker).mem_iff.mpr (List.mem_cons_of_mem _ hkept)

/-- Neither the lists nor the sessions are touched. -/
theorem undisturbed_of_same (hheap : t.heap = s.heap) (hsessions : t.sessions = s.sessions)
    (halarms : t.alarms = s.alarms) (hradius : t.radius = s.radius)
    (hbuffer : t.eapReqId = s.eapReqId)
    (hinHand : ∀ w ∈ s.activities, w.session = some q → w ∈ t.activities) :
    Undisturbed s t q where
  session := by rw [hheap]
  listed := by rw [hsessions]
  alarms := by rw [halarms]
  requests := by
    intro entry _
    rw [hradius]
  inHand := hinHand
  eapReqId := fun _ => hbuffer

/-- A worker looked its session up. -/
theorem undisturbed_setWorker {worker : Worker} (worker' : Worker)
    (hworker : s.workers[i]? = some worker) (hother : worker.session ≠ some q) :
    Undisturbed s (setWorker s i worker') q :=
  undisturbed_of_same rfl rfl rfl rfl rfl (inHand_setWorker worker' hworker hother)

/-- A handler is through with its session. -/
theorem undisturbed_endWorker {worker : Worker} (hspares : Spares s u q) (htouches : Touches p s u)
    (hworker : s.workers[i]? = some worker) (hother : worker.session ≠ some q)
    (hbuffer : .radiusIdentity q ∈ s.activities → (endWorker u i).eapReqId = s.eapReqId) :
    Undisturbed s (endWorker u i) q where
  session := hspares.session
  listed := hspares.listed
  alarms := hspares.alarms
  requests := hspares.requests
  inHand := by
    intro w hw hsession
    rw [activities_endWorker, htouches.othersOf]
    exact inHand_others hworker hother w hw hsession
  eapReqId := hbuffer

theorem undisturbed_addTask (task : Task) (hspares : Spares s u q)
    (hactivities : u.activities = s.activities) (hbuffer : u.eapReqId = s.eapReqId) :
    Undisturbed s (addTask u task) q where
  session := hspares.session
  listed := hspares.listed
  alarms := hspares.alarms
  requests := hspares.requests
  inHand := by
    intro w hw _
    rw [(activities_addTask u task).mem_iff, hactivities]
    exact List.mem_cons_of_mem _ hw
  eapReqId := fun _ => hbuffer

/-- While another worker is to read `eap_req_id`, nobody writes it. -/
theorem step_keeps_eapReqId (hreach : Reachable digests s) (hmet : spares digests s e = true)
    (h : step digests s e = some t) (hw : .radiusIdentity q ∈ s.activities) :
    t.eapReqId = s.eapReqId := by
  cases ha : answersIdentity digests s e with
  | none => exact (step_eapReqId ha h).1
  | some entered =>
    obtain ⟨p, packet⟩ := entered
    have hfirst := (answersIdentity_enters hreach ha h).first
    obtain ⟨i, call, msg, u, rfl, hworker, -⟩ := wrote_of_answersIdentity ha
    have hspares := sparesOthers_of_worker hmet hworker
    have hnobody : s.workers.any Worker.inWorkarround = false := by
      simpa [sparesOthers, hfirst] using (Bool.and_eq_true_iff.mp hspares).2
    have hworking : .radiusIdentity q ∈ s.workers := by
      rcases List.mem_append.mp hw with hqueued | hworking
      · obtain ⟨task, -, heq⟩ := List.mem_map.mp hqueued
        cases heq
      · exact hworking
    have hsome : s.workers.any Worker.inWorkarround = true :=
      List.any_eq_true.mpr ⟨_, hworking, rfl⟩
    rw [hnobody] at hsome
    cases hsome

theorem waitingBeside_others {radius : RadiusClient} {completed : Bool}
    (h : makesOwnRoom radius completed p = true) {entry : RadiusMsgList}
    (hentry : entry ∈ radius.msgs) (hother : entry.session ≠ p) :
    entry ∈ waitingBeside radius completed := by
  obtain ⟨hunder, holdest⟩ := Bool.and_eq_true_iff.mp h
  have hfree : entry.msg.identifier ≠ radius.nextRadiusIdentifier := by
    simpa [hother] using List.all_eq_true.mp hunder entry hentry
  have hleft : entry ∈ (radiusClientGetId radius).2.msgs :=
    List.mem_filter.mpr ⟨hentry, decide_eq_true hfree⟩
  unfold waitingBeside
  split
  · rename_i hfull
    obtain ⟨hcompleted, hcount⟩ := Bool.and_eq_true_iff.mp hfull
    have hnonempty := List.ne_nil_of_mem hleft
    have hlast : ((radiusClientGetId radius).2.msgs.getLast hnonempty).session = p := by
      have hcount : ¬ radius.numMsgs < radiusClientMaxEntries := by simpa using hcount
      simpa [hcompleted, hcount, List.getLast?_eq_some_getLast hnonempty] using holdest
    rw [← List.dropLast_append_getLast hnonempty] at hleft
    rcases List.mem_append.mp hleft with hkept | hdropped
    · exact hkept
    · exact absurd (List.mem_singleton.mp hdropped ▸ hlast) hother
  · exact hleft

/-- What a handler drops is its session's. -/
theorem kept_of_dropsOwn {ctx : EapAuthCtx} {call' : Call} {p' : Ptr}
    (h : dropsOwn s i call p = true) (hrun : eapRun s (.handle i call) = some (p', ctx, call'))
    (hq : q ≠ p) : ∀ entry ∈ s.radius.msgs, entry.session = q →
      entry ∈ requestsBeside s.radius ctx call' := by
  intro entry hentry howner
  unfold requestsBeside
  simp only [dropsOwn, hrun, Option.all_some] at h
  cases hhanded : handedResponse ctx call' with
  | none => exact hentry
  | some data =>
    rw [hhanded, Option.all_some] at h
    exact waitingBeside_others h hentry (howner ▸ hq)

theorem ne_of_addressed {worker : Worker} (hworker : s.workers[i]? = some worker)
    (hsession : worker.session = some p) (haddressed : addressed s (.handle i call) ≠ some q) :
    q ≠ p := by
  rintro rfl
  apply haddressed
  rw [addressed, hworker]
  exact hsession

theorem step_undisturbed (h : Sparing digests s) (hmet : spares digests s e = true)
    (hstep : step digests s e = some t) (hcarries : carriesDatagram s e = true)
    (hmade : q < s.nextPtr) (haddressed : addressed s e ≠ some q) : Undisturbed s t q := by
  have hbuffer : .radiusIdentity q ∈ s.activities → t.eapReqId = s.eapReqId :=
    step_keeps_eapReqId h.reachable hmet hstep
  have hinHand : ∀ w ∈ s.activities, w.session = some q → w ∈ s.activities := fun _ hw _ => hw
  obtain ⟨-, hmove⟩ := step_move hstep
  cases hmove with
  | ignored => exact undisturbed_of_same rfl rfl rfl rfl rfl hinHand
  | ended => exact undisturbed_of_same rfl rfl rfl rfl rfl hinHand
  | named => exact undisturbed_of_same rfl rfl rfl rfl rfl hinHand
  | duplicate => exact undisturbed_of_same rfl rfl rfl rfl rfl hinHand
  | created datagram source arrival =>
    have hne : q ≠ s.nextPtr := Nat.ne_of_lt hmade
    have hlisted : q ∈ s.nextPtr :: s.sessions ↔ q ∈ s.sessions := by
      simp [hne]
    exact undisturbed_addTask _
      ⟨newSession_heap_ne _ _ _ hne, hlisted, rfl, fun _ _ => .rfl⟩ rfl rfl
  | queued task p lastSent hnamed =>
    have hq : q ≠ p := by
      rintro rfl
      simp [addressed, hnamed, NetworkThread.session] at haddressed
    have hadded : Undisturbed s
        (addTask (s.setSession p { s.heap p with lastReceivedMessage := some task.buf })
          (.processAcknowledgment task (p, (s.heap p).posts))) q :=
      undisturbed_addTask _ (setSession_spares hq _) rfl rfl
    exact ⟨⟨hadded.session, hadded.listed, hadded.alarms, hadded.requests⟩, hadded.inHand,
      hadded.eapReqId⟩
  | arrived datagram msg => exact undisturbed_addTask _ (.refl s q) rfl rfl
  | taken task rest hqueue =>
    exact undisturbed_of_same rfl rfl rfl rfl rfl
      fun w hw _ => (activities_taken hqueue).mem_iff.mpr hw
  | foundCoap i stack task p hworker =>
    exact undisturbed_setWorker _ hworker (by simp [Worker.session])
  | foundAcknowledgment i stack task post p hworker =>
    exact undisturbed_setWorker _ hworker (by simp [Worker.session])
  | foundContext i stack msg p hworker =>
    exact undisturbed_setWorker _ hworker (by simp [Worker.session])
  | noContext i stack msg hworker =>
    exact undisturbed_endWorker (.refl s q) (.refl q s) hworker (by simp [Worker.session])
      fun _ => rfl
  | readId i stack origin hworker =>
    exact undisturbed_setWorker _ hworker (by simp [Worker.session])
  | readSession i stack origin id hworker =>
    simp [carriesDatagram, hworker, Worker.retransmits] at hcarries
  | handledCoap i call task p u hworker _ hresult =>
    have hq : q ≠ p := ne_of_addressed hworker rfl haddressed
    have hspares := sparesOthers_of_worker hmet hworker
    simp only [sparesOthers, Bool.and_eq_true] at hspares
    have hrun : eapRun s (.handle i call) = some (p, { (s.heap p).eapCtx with
        eap := { (s.heap p).eapCtx.eap with eapRestart := true } }, call) := by
      simp only [eapRun, hworker]
    have hroom := kept_of_dropsOwn hspares.2 hrun hq
    exact undisturbed_endWorker (processCoapMsg_spares hq hresult hspares.1.2 hroom)
      (touches_processCoapMsg hresult) hworker (by simpa [Worker.session] using hq.symm) hbuffer
  | handledAcknowledgment i call task post p u hworker _ hresult =>
    have hq : q ≠ p := ne_of_addressed hworker rfl haddressed
    have hspares := sparesOthers_of_worker hmet hworker
    simp only [sparesOthers, Bool.and_eq_true] at hspares
    have hlists : (s.heap p).currentState = 3 →
        ownAlarms s p 2 = true ∧ ownEntries s p 2 = true := by
      intro hstate
      simpa [hstate] using hspares.2
    have hasked : (s.heap p).currentState = 2 → ∀ request, validate task.buf = some request →
        ∀ entry ∈ s.radius.msgs, entry.session = q → entry ∈ requestsBeside s.radius
          (setEapResponse (s.heap p).eapCtx
            (acknowledgedEap request.payload call.behind)) call := by
      intro hstate request hrequest
      have hrun : eapRun s (.handle i call) = some (p, setEapResponse (s.heap p).eapCtx
          (acknowledgedEap request.payload call.behind), call) := by
        simp [eapRun, hworker, hstate, hrequest]
      exact kept_of_dropsOwn hspares.1.2 hrun hq
    exact undisturbed_endWorker (processAcknowledgment_spares hq hresult hlists hasked)
      (touches_processAcknowledgment hresult) hworker (by simpa [Worker.session] using hq.symm)
      hbuffer
  | handledRadius i call msg p u hworker _ hresult =>
    have hq : q ≠ p := ne_of_addressed hworker rfl haddressed
    have hspares := sparesOthers_of_worker hmet hworker
    simp only [sparesOthers, Bool.and_eq_true] at hspares
    exact undisturbed_endWorker
      (processReceiveRadiusMsg_spares hq hresult hspares.1.1.1 hspares.1.2)
      (touches_processReceiveRadiusMsg hresult) hworker (by simpa [Worker.session] using hq.symm)
      hbuffer
  | wroteIdentity i call msg p u hworker _ hresult =>
    have hq : q ≠ p := ne_of_addressed hworker rfl haddressed
    have hspares := sparesOthers_of_worker hmet hworker
    simp only [sparesOthers, Bool.and_eq_true] at hspares
    have hkept := processReceiveRadiusMsg_spares hq hresult hspares.1.1.1 hspares.1.2
    have htouches := touches_processReceiveRadiusMsg hresult
    refine ⟨⟨hkept.session, hkept.listed, hkept.alarms, hkept.requests⟩, ?_, hbuffer⟩
    rw [← htouches.workers] at hworker
    rw [← htouches.activities]
    exact inHand_setWorker _ hworker (by simpa [Worker.session] using hq.symm)
  | handedIdentity i call p u hworker hresult =>
    have hq : q ≠ p := ne_of_addressed hworker rfl haddressed
    have hspares := sparesOthers_of_worker hmet hworker
    have hrun : eapRun s (.handle i call) = some (p, setEapResponse (s.heap p).eapCtx
        (s.eapReqId.take (5 + (s.heap p).userId.length)), call) := by
      simp only [eapRun, hworker]
    have hroom := kept_of_dropsOwn hspares hrun hq
    exact undisturbed_endWorker (stepSession_spares hq hresult hroom)
      (touches_identityHandOver hresult) hworker (by simpa [Worker.session] using hq.symm) hbuffer
  | handledRetr i call origin id p u hworker =>
    simp [carriesDatagram, hworker, Worker.retransmits] at hcarries
  | _ => simp [carriesDatagram] at hcarries

/-- How many bytes a step copies into an object, and how many that object has: the
token of an acknowledgment into `session_id`, an EAP request into `eap_req_id`, and the
digest that `radius_msg_verify` writes over a Message-Authenticator. -/
def copies (digests : Digests) (s : Controller) : Event → List (Nat × Nat)
  | .recvCoap datagram _ _ =>
    let buf := datagram.take (maxBufLen - 1)
    if (validate buf).isSome ∧ getType buf = .acknowledgement then [((getToken buf).length, 4)]
    else []
  | .lookup i _ =>
    match s.workers[i]? with
    | some (.took (.processAcknowledgment task _)) => [((getToken task.buf).length, 4)]
    | _ => []
  | .handle i call =>
    let verified := match s.workers[i]? with
      | some (.receiveRadiusMsg msg _) =>
        if (matching s.radius msg.identifier).isSome then attrValues msg attrMessageAuthenticator
        else []
      | _ => []
    (answersIdentity digests s (.handle i call)).toList.map (fun x => (eapReqIdEnd x.2, 50)) ++
      verified.map fun value => (16, value.length)
  | _ => []

/-- A step spares the other sessions, and its copies stay inside the objects they go
into. The source checks none of these lengths; what a longer copy writes over is not
modelled. -/
def keepsApart (digests : Digests) (s : Controller) (e : Event) : Bool :=
  spares digests s e && (copies digests s e).all fun copy => copy.1 ≤ copy.2

/-- In every run whose steps keep the sessions apart, no datagram ends the process,
and none disturbs a session but the one it is addressed to. -/
theorem datagrams_stay_apart
    (h : ReachableUnder (step digests) (fun s e => keepsApart digests s e = true)
      initialController s)
    (hmet : keepsApart digests s e = true) (hstep : step digests s e = some t) :
    t.halted = none ∧
      (carriesDatagram s e = true →
        ∀ q < s.nextPtr, addressed s e ≠ some q → Undisturbed s t q) := by
  have hsparing : Sparing digests s := h.weaken fun _ _ hguard => (Bool.and_eq_true_iff.mp hguard).1
  have hspares := (Bool.and_eq_true_iff.mp hmet).1
  constructor
  · exact step_running hsparing hspares hstep
  · intro hcarries q hmade haddressed
    exact step_undisturbed hsparing hspares hstep hcarries hmade haddressed

/-- The second challenge for a session comes after another session has come in. -/
def challengedBesideAnother : List Event :=
  (challengedTwice true).dropLast.dropLast.dropLast.dropLast ++ comesIn 2 ++
    [.recvRadius (accessChallengeDatagram true), .getTask, .lookup 0 []]

theorem other_session_undisturbed : ∃ s t, Reachable challengeDigests s ∧
    step challengeDigests s (.handle 0 {}) = some t ∧ t.halted = none ∧ Undisturbed s t 1 := by
  have hrun : (run (guarded (step challengeDigests) fun s e =>
      keepsApart challengeDigests s e = true) initialController challengedBesideAnother).any
        (fun s =>
        keepsApart challengeDigests s (.handle 0 {}) &&
          ((step challengeDigests s (.handle 0 {})).isSome &&
            (carriesDatagram s (.handle 0 {}) &&
              (s.nextPtr == 2 && addressed s (.handle 0 {}) == some 0)))) = true := by
    decide +kernel
  obtain ⟨s, hs, hcheck⟩ := exists_of_run hrun
  simp only [Bool.and_eq_true, beq_iff_eq] at hcheck
  obtain ⟨hmet, hstep, hcarries, hnext, haddressed⟩ := hcheck
  obtain ⟨t, ht⟩ := Option.isSome_iff_exists.mp hstep
  have hreach := reachableUnder_of_run hs
  obtain ⟨hrunning, hothers⟩ := datagrams_stay_apart hreach hmet ht
  have hmade : 1 < s.nextPtr := by
    rw [hnext]
    exact Nat.lt_succ_self 1
  have hother : addressed s (.handle 0 {}) ≠ some 1 := by
    rw [haddressed]
    exact fun heq => Nat.zero_ne_one (Option.some.inj heq)
  exact ⟨s, t, hreach.reachable, ht, hrunning, hothers hcarries 1 hmade hother⟩

/-- An acknowledgment whose token names no session. -/
def strayAcknowledgment : Bytes := [0x64, 0x00, 0x00, 0x01, 0xEF, 0xBE, 0xAD, 0xDE]

/-- The search for the session of an acknowledgment ends the process when it finds
none. -/
theorem stray_acknowledgment_exits :
    ¬ ∀ digests s t e, Reachable digests s → step digests s e = some t → t.halted = none ∧
      (carriesDatagram s e = true →
        ∀ q < s.nextPtr, addressed s e ≠ some q → Undisturbed s t q) := by
  intro hstated
  have hexits : (step noAnswers initialController
      (.recvCoap strayAcknowledgment ⟨[], 0⟩ {})).any (fun t => t.halted.isSome) = true := by
    decide +kernel
  cases ht : step noAnswers initialController (.recvCoap strayAcknowledgment ⟨[], 0⟩ {}) with
  | none => simp [ht] at hexits
  | some t =>
    obtain ⟨hrunning, -⟩ := hstated noAnswers _ t _ .start ht
    simp [ht, hrunning] at hexits

end CoapEap.Mainserver
