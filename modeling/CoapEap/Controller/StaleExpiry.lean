import CoapEap.Controller.Rejection
import CoapEap.Controller.StoredPosts

/-!
A retransmission task that runs late. The task knows the session of its alarm but
not the POST the alarm was armed for, so it works on whatever POST is outstanding
when a worker runs it.
-/

namespace CoapEap.Mainserver

open Cantcoap EapServer Lalarm Radius Library.Logs Library.Runs

/-- The task sends its session's last message again. -/
def sendsAgain (s : Controller) (q : Ptr) : Bool :=
  (s.heap q).rtxCounter + 1 < maxRetransmit && (s.heap q).lastSentMessage.isSome

/-- None of the alarms that a retransmission in session `q` takes out of the list
is an alarm of session `p`. -/
def missesAlarms (s : Controller) (q p : Ptr) : Bool :=
  let id := s.sessionId q
  (findAlarmCoapEapSession s.sessionId s.alarms id postAlarm).all (fun a => a.session ≠ p) &&
    (!sendsAgain s q ||
      (findAlarmCoapEapSession s.sessionId (cancelPostAlarm s id).alarms id postAlarm).all
        fun a => a.session ≠ p)

/-- A task whose session has a newer POST than the task's alarm runs only if it
read another kind of alarm, or another session that shares no alarm with its
own. -/
def staleMissesNewer (s : Controller) : Event → Bool
  | .handle i _ =>
    match s.workers[i]? with
    | some (.retrCoapEap origin id q) =>
      (s.heap origin.session).posts ≤ origin.post || id ≠ postAlarm ||
        (q ≠ origin.session && missesAlarms s q origin.session)
    | _ => true
  | _ => true

/-- The POST outstanding in session `p`, its alarm with its deadline, its counter
and its timeout are as they were, and it was not sent again. -/
structure NewerPostUndisturbed (s t : Controller) (p : Ptr) : Prop where
  alarms : t.alarms.filter (fun a => a.session = p) = s.alarms.filter (fun a => a.session = p)
  notSent : ∀ n, t.log.count (.retransmitted p n) = s.log.count (.retransmitted p n)
  rtxCounter : (t.heap p).rtxCounter = (s.heap p).rtxCounter
  rt : (t.heap p).rt = (s.heap p).rt

/-- If the step executes a task after a newer POST of its session was sent, that
POST is undisturbed. -/
def StaleExpiryHarmless (s : Controller) (e : Event) (t : Controller) : Prop :=
  match e with
  | .handle i _ => ∀ origin id q, s.workers[i]? = some (.retrCoapEap origin id q) →
      origin.post < (s.heap origin.session).posts → NewerPostUndisturbed s t origin.session
  | _ => True

variable {s t : Controller} {i id : Nat} {p q : Ptr} {call : Call} {digests : Digests}

/-- The task never ends the process. -/
theorem processRetrCoapEap_total (id : Nat) (call : Call) (hstored : StoresPosts (s.heap q)) :
    ∃ u, processRetrCoapEap s id q call = .ok u := by
  unfold processRetrCoapEap
  split
  · simp only
    split
    · split
      · rename_i pdu hpdu
        have hvalid := hstored.stored pdu hpdu
        have hnot : (validate pdu).isNone = false := by
          cases hpdu : validate pdu <;> simp_all
        exact ⟨_, by simp [coapRetransmitLastSentMessage, hnot]; rfl⟩
      · exact ⟨_, rfl⟩
    · exact ⟨_, rfl⟩
  · exact ⟨_, rfl⟩

theorem handle_retr {origin : Alarm} (hstored : StoresPosts (s.heap q))
    (hworker : s.workers[i]? = some (.retrCoapEap origin id q))
    (h : step digests s (.handle i call) = some t) :
    ∃ u, processRetrCoapEap s id q call = .ok u ∧ t = endWorker u i := by
  obtain ⟨u, hu⟩ := processRetrCoapEap_total id call hstored
  refine ⟨u, hu, ?_⟩
  unfold step at h
  split at h
  · simp at h
  · simp only [hworker, Option.bind_some, handleStep, hu] at h
    split at h
    · simp at h
    · simpa [conclude, Except.map] using h.symm

theorem setSession_sessionId {session : Session}
    (hid : session.sessionId = (s.heap q).sessionId) :
    (s.setSession q session).sessionId = s.sessionId := by
  funext r
  rw [Controller.sessionId, Controller.setSession_heap]
  split
  · subst r
    exact hid
  · rfl

/-- What the task takes out of the alarm list and puts into it, seen from a
session other than the one it works on. -/
theorem retr_alarms (hq : q ≠ p) (h : processRetrCoapEap s postAlarm q call = .ok t) :
    t.alarms.filter (fun a => a.session = p) = s.alarms.filter (fun a => a.session = p) ↔
      missesAlarms s q p = true := by
  have honce : (cancelPostAlarm s (s.heap q).sessionId).alarms.filter (fun a => a.session = p) =
      s.alarms.filter (fun a => a.session = p) ↔
        (findAlarmCoapEapSession s.sessionId s.alarms (s.sessionId q) postAlarm).all
          (fun a => a.session ≠ p) = true := by
    refine filter_getAlarm_iff.trans ?_
    simp [Controller.sessionId]
  rcases processRetrCoapEap_ok h with ⟨hid, -⟩ | ⟨-, session, u, rfl, rfl,
    ⟨hcount, hnone, rfl⟩ | ⟨hcount, pdu, hpdu, -, rfl⟩ | ⟨hcount, rfl⟩⟩
  · exact absurd rfl hid
  · -- nothing to send again
    have hsends : sendsAgain s q = false := by
      have hnone : (s.heap q).lastSentMessage = none := hnone
      simp [sendsAgain, hnone]
    simpa [missesAlarms, hsends] using honce
  · -- the alarm is taken out, twice, and put in again for the session of the task
    have hsends : sendsAgain s q = true := by
      have hpdu : (s.heap q).lastSentMessage = some pdu := hpdu
      simp only at hcount
      simp [sendsAgain, hcount, hpdu]
    have hcounted : ((cancelPostAlarm s (s.heap q).sessionId).setSession q
        { s.heap q with rtxCounter := (s.heap q).rtxCounter + 1 }).sessionId = s.sessionId :=
      setSession_sessionId (by rfl)
    have hdoubled : (((cancelPostAlarm s (s.heap q).sessionId).setSession q
        { s.heap q with rtxCounter := (s.heap q).rtxCounter + 1 }).setSession q
          { s.heap q with
            rtxCounter := (s.heap q).rtxCounter + 1, rt := (s.heap q).rt * 2 }).sessionId =
              s.sessionId :=
      (setSession_sessionId (by simp)).trans hcounted
    have htwice : (addPostAlarm (cancelPostAlarm
        (((cancelPostAlarm s (s.heap q).sessionId).setSession q
          { s.heap q with rtxCounter := (s.heap q).rtxCounter + 1 }).setSession q
            { s.heap q with
              rtxCounter := (s.heap q).rtxCounter + 1, rt := (s.heap q).rt * 2 })
        (s.heap q).sessionId) q call.now).alarms.filter (fun a => a.session = p) =
          (cancelPostAlarm (cancelPostAlarm s (s.heap q).sessionId)
            (s.heap q).sessionId).alarms.filter (fun a => a.session = p) := by
      rw [addPostAlarm, cancelPostAlarm, hdoubled]
      exact filter_addAlarmCoapEap (by simpa using hq) _
    have hnested : (cancelPostAlarm (cancelPostAlarm s (s.heap q).sessionId)
        (s.heap q).sessionId).alarms =
          getAlarmCoapEapSession s.sessionId
            (getAlarmCoapEapSession s.sessionId s.alarms (s.heap q).sessionId postAlarm)
              (s.heap q).sessionId postAlarm :=
      rfl
    rw [Controller.record_alarms, htwice, hnested]
    refine filter_getAlarm_twice_iff.trans ?_
    simp [missesAlarms, hsends, Controller.sessionId, cancelPostAlarm]
  · have hsends : sendsAgain s q = false := by
      simp only at hcount
      simp [sendsAgain, hcount]
    simpa [missesAlarms, hsends, removeCoapEapSession] using honce

/-- A task on another session leaves counter and timeout alone and sends nothing
of this one. -/
theorem retr_others (hq : q ≠ p) (h : processRetrCoapEap s id q call = .ok t) :
    t.heap p = s.heap p ∧ ∀ n, t.log.count (.retransmitted p n) =
      s.log.count (.retransmitted p n) := by
  have hchange : SessionChange noAnswers (s.heap q) (t.heap q) ∧
      ∀ r, r ≠ q → t.heap r = s.heap r :=
    processRetrCoapEap_change h
  refine ⟨hchange.2 p (Ne.symm hq), ?_⟩
  intro n
  rcases processRetrCoapEap_log h with hlog | hlog | hlog
  · rw [hlog]
  · rw [hlog, List.count_append]
    simp [hq]
  · rw [hlog, List.count_append]
    simp

theorem retr_counts (h : processRetrCoapEap s postAlarm q call = .ok t) :
    (t.heap q).rtxCounter = (s.heap q).rtxCounter + 1 := by
  rcases processRetrCoapEap_ok h with ⟨hid, -⟩ | ⟨-, session, u, rfl, rfl,
    ⟨-, -, rfl⟩ | ⟨-, pdu, -, -, rfl⟩ | ⟨-, rfl⟩⟩
  · exact absurd rfl hid
  · simp
  · simp [addPostAlarm, cancelPostAlarm]
  · simp [removeCoapEapSession]

/-- The steps that leave a newer POST alone are those that meet the condition. -/
theorem staleExpiryHarmless_iff {e : Event} (hreach : Reachable digests s)
    (h : step digests s e = some t) :
    StaleExpiryHarmless s e t ↔ staleMissesNewer s e = true := by
  cases e with
  | handle i call =>
    cases hworker : s.workers[i]? with
    | none => simp [StaleExpiryHarmless, staleMissesNewer, hworker]
    | some worker =>
      cases worker with
      | retrCoapEap origin id q =>
        obtain ⟨u, hu, rfl⟩ := handle_retr (storesPosts hreach q) hworker h
        have hrunning : (endWorker u i).alarms = u.alarms ∧ (endWorker u i).log = u.log ∧
            (endWorker u i).heap = u.heap := ⟨rfl, rfl, rfl⟩
        obtain ⟨halarms, hlog, hheap⟩ := hrunning
        simp only [StaleExpiryHarmless, staleMissesNewer, hworker, Option.some.injEq,
          Worker.retrCoapEap.injEq, Bool.or_eq_true, decide_eq_true_eq, Bool.and_eq_true]
        constructor
        · intro hharmless
          by_cases hold : (s.heap origin.session).posts ≤ origin.post
          · exact .inl (.inl hold)
          · have hundisturbed := hharmless origin id q ⟨rfl, rfl, rfl⟩ (Nat.lt_of_not_le hold)
            by_cases hid : id = postAlarm
            · subst hid
              have hother : q ≠ origin.session := by
                rintro rfl
                have hcount := retr_counts hu
                rw [← hheap, hundisturbed.rtxCounter] at hcount
                simp at hcount
              refine .inr ⟨hother, (retr_alarms hother hu).mp ?_⟩
              rw [← halarms]
              exact hundisturbed.alarms
            · exact .inl (.inr hid)
        · rintro hcondition origin' id' q' ⟨rfl, rfl, rfl⟩ hstale
          rcases hcondition with (hold | hid) | ⟨hother, hmisses⟩
          · omega
          · have hsame : u = s := by
              simpa [processRetrCoapEap, hid] using hu.symm
            subst hsame
            exact ⟨rfl, fun _ => rfl, rfl, rfl⟩
          · by_cases hid : id = postAlarm
            · subst hid
              obtain ⟨hsession, hsent⟩ := retr_others hother hu
              refine ⟨?_, ?_, ?_, ?_⟩
              · rw [halarms]
                exact (retr_alarms hother hu).mpr hmisses
              · rw [hlog]
                exact hsent
              · rw [hheap, hsession]
              · rw [hheap, hsession]
            · have hsame : u = s := by
                simpa [processRetrCoapEap, hid] using hu.symm
              subst hsame
              exact ⟨rfl, fun _ => rfl, rfl, rfl⟩
      | _ => simp [StaleExpiryHarmless, staleMissesNewer, hworker]
  | _ => simp [StaleExpiryHarmless, staleMissesNewer]

/-- On every schedule: all late expiries are harmless if and only if every step
meets the condition. -/
theorem late_expiries_harmless_iff (digests : Digests) (es : List Event) :
    (∀ tr ∈ transitions (step digests) initialController es,
      StaleExpiryHarmless tr.1 tr.2.1 tr.2.2) ↔
        ∀ tr ∈ transitions (step digests) initialController es,
          staleMissesNewer tr.1 tr.2.1 = true := by
  have hstep : ∀ a e b, Reachable digests a → step digests a e = some b →
      (StaleExpiryHarmless a e b ↔ staleMissesNewer a e = true) :=
    fun _ _ _ hreach hstep => staleExpiryHarmless_iff hreach hstep
  exact forall_transitions_iff hstep es

/-- The alarm of the first POST is popped and a worker holds its task; meanwhile
two forged RADIUS datagrams make the session send its second POST; then the
worker goes on. -/
def lateExpiry : List Event :=
  comesIn 1 ++
    [.wake 100, .alarmStep, .alarmStep, .alarmStep, .alarmStep, .alarmStep, .getTask,
      .lookup 0 [], .lookup 0 [],
      .recvRadius (forgedRadius 0), .getTask, .lookup 1 [], .handle 1 {}, .handle 1 {},
      .recvRadius (forgedRadius 0), .getTask, .lookup 1 [], .handle 1 {},
      .handle 0 {}]

theorem late_expiry_resends_newer :
    ¬ ∀ digests es, ∀ tr ∈ transitions (step digests) initialController es,
      StaleExpiryHarmless tr.1 tr.2.1 tr.2.2 := by
  intro hstated
  have hfails : (transitions (step noAnswers) initialController lateExpiry).all
      (fun tr => staleMissesNewer tr.1 tr.2.1) = false := by
    decide +kernel
  have hmeets : (transitions (step noAnswers) initialController lateExpiry).all
      (fun tr => staleMissesNewer tr.1 tr.2.1) = true := by
    refine List.all_eq_true.mpr ?_
    rintro ⟨a, e, b⟩ hmem
    obtain ⟨hreach, hstep⟩ := mem_transitions hmem
    exact (staleExpiryHarmless_iff hreach hstep).mp (hstated noAnswers lateExpiry _ hmem)
  rw [hfails] at hmeets
  exact Bool.noConfusion hmeets

end CoapEap.Mainserver
