import CoapEap.Controller.Screening
import CoapEap.Controller.StaleExpiry
import CoapEap.Library.FirstMatch

/-!
What a handler does to the alarms and to the list of sessions when the identifier
of its session names no other: it takes out and puts in only what belongs to the
session it works on.
-/

namespace CoapEap.Mainserver

open Cantcoap EapServer Lalarm Radius Library.Runs Library.FirstMatch

/-- No session but `p` goes by the identifier of `p`, among the alarms and in the
list, and no alarm and no entry is there twice. -/
structure Alone (s : Controller) (p : Ptr) : Prop where
  alarms : ∀ a ∈ s.alarms, s.sessionId a.session = s.sessionId p → a.session = p
  kinds : ∀ a ∈ s.alarms, a.id = postAlarm
  armedOnce : (s.alarms.map Alarm.session).Nodup
  listed : ∀ q ∈ s.sessions, s.sessionId q = s.sessionId p → q = p
  listedOnce : s.sessions.Nodup

def othersAlarms (alarms : List Alarm) (p : Ptr) : List Alarm :=
  alarms.filter fun a => a.session ≠ p

def othersListed (sessions : List Ptr) (p : Ptr) : List Ptr := sessions.filter fun q => q ≠ p

variable {s t u : Controller} {p q : Ptr} {call : Call} {digests : Digests} {msg : RadiusMsg}

theorem othersAlarms_twice (alarms : List Alarm) (p : Ptr) :
    othersAlarms (othersAlarms alarms p) p = othersAlarms alarms p := by
  simp [othersAlarms, List.filter_filter]

theorem othersListed_twice (sessions : List Ptr) (p : Ptr) :
    othersListed (othersListed sessions p) p = othersListed sessions p := by
  simp [othersListed, List.filter_filter]

theorem mem_othersAlarms {a : Alarm} {alarms : List Alarm} :
    a ∈ othersAlarms alarms p ↔ a ∈ alarms ∧ a.session ≠ p := by
  simp [othersAlarms]

/-- What `p` goes by is as it was, and alarms and entries at most went. -/
theorem Alone.of_less (h : Alone s p) (hid : t.sessionId = s.sessionId)
    (halarms : List.Sublist t.alarms s.alarms) (hsessions : List.Sublist t.sessions s.sessions) :
    Alone t p where
  alarms := by
    intro a ha
    rw [hid]
    exact h.alarms a (halarms.subset ha)
  kinds := fun a ha => h.kinds a (halarms.subset ha)
  armedOnce := h.armedOnce.sublist (halarms.map _)
  listed := by
    intro q hq
    rw [hid]
    exact h.listed q (hsessions.subset hq)
  listedOnce := h.listedOnce.sublist hsessions

/-- `get_alarm_coap_eap_session` takes out the alarm of the session. -/
theorem Alone.cancel (h : Alone s p) :
    (cancelPostAlarm s (s.sessionId p)).alarms = othersAlarms s.alarms p := by
  have hpasses : ∀ a ∈ s.alarms,
      decide (s.sessionId a.session = s.sessionId p ∧ a.id = postAlarm) =
        decide (a.session = p) := by
    intro a ha
    apply decide_eq_decide.mpr
    constructor
    · exact fun hmatch => h.alarms a ha hmatch.1
    · intro howner
      exact ⟨by rw [howner], h.kinds a ha⟩
  have hone : s.alarms.Pairwise fun a b =>
      decide (s.sessionId a.session = s.sessionId p ∧ a.id = postAlarm) = true →
        decide (s.sessionId b.session = s.sessionId p ∧ b.id = postAlarm) = false := by
    have hdistinct : s.alarms.Pairwise fun a b => a.session ≠ b.session :=
      List.pairwise_map.mp h.armedOnce
    apply hdistinct.imp_of_mem
    intro a b ha hb hne
    rw [hpasses a ha, hpasses b hb]
    intro howner
    simpa [of_decide_eq_true howner] using hne.symm
  have herased : (cancelPostAlarm s (s.sessionId p)).alarms = s.alarms.filter fun a =>
      !decide (s.sessionId a.session = s.sessionId p ∧ a.id = postAlarm) :=
    eraseP_eq_filter hone
  rw [herased]
  apply List.filter_congr
  intro a ha
  rw [hpasses a ha]
  simp

/-- `remove_coap_eap_session` takes out the entry of the session. -/
theorem Alone.remove (h : Alone s p) :
    (removeCoapEapSession s (s.sessionId p)).sessions = othersListed s.sessions p := by
  have hpasses : ∀ q ∈ s.sessions,
      decide (s.sessionId q = s.sessionId p) = decide (q = p) := by
    intro q hq
    apply decide_eq_decide.mpr
    constructor
    · exact h.listed q hq
    · exact fun howner => by rw [howner]
  have hone : s.sessions.Pairwise fun a b =>
      decide (s.sessionId a = s.sessionId p) = true →
        decide (s.sessionId b = s.sessionId p) = false := by
    apply h.listedOnce.imp_of_mem
    intro a b ha hb hne
    rw [hpasses a ha, hpasses b hb]
    intro howner
    simpa [of_decide_eq_true howner] using hne.symm
  have herased : (removeCoapEapSession s (s.sessionId p)).sessions = s.sessions.filter fun q =>
      !decide (s.sessionId q = s.sessionId p) :=
    eraseP_eq_filter hone
  rw [herased]
  apply List.filter_congr
  intro q hq
  rw [hpasses q hq]
  simp

/-- The second of two removals finds nothing. -/
theorem Alone.remove_twice (h : Alone s p) :
    (removeCoapEapSession (removeCoapEapSession s (s.sessionId p)) (s.sessionId p)).sessions =
      othersListed s.sessions p := by
  have honce : Alone (removeCoapEapSession s (s.sessionId p)) p :=
    h.of_less rfl (List.Sublist.refl _) List.eraseP_sublist
  exact honce.remove.trans (by rw [h.remove, othersListed_twice])

theorem Alone.cancel_twice (h : Alone s p) :
    (cancelPostAlarm (cancelPostAlarm s (s.sessionId p)) (s.sessionId p)).alarms =
      othersAlarms s.alarms p := by
  have honce : Alone (cancelPostAlarm s (s.sessionId p)) p :=
    h.of_less rfl List.eraseP_sublist (List.Sublist.refl _)
  exact honce.cancel.trans (by rw [h.cancel, othersAlarms_twice])

/-- The alarm of the session is replaced by a new one. -/
def Rearmed (s t : Controller) (p : Ptr) : Prop :=
  ∃ a, a.session = p ∧ a.id = postAlarm ∧
    t.alarms = addAlarmCoapEap (othersAlarms s.alarms p) a

theorem Alone.rearm (h : Alone s p) (hid : t.sessionId = s.sessionId)
    (halarms : t.alarms = s.alarms) (hsessions : t.sessions = s.sessions) (now : Rat) :
    Rearmed s (addPostAlarm (cancelPostAlarm t (s.sessionId p)) p now) p := by
  have hthere : Alone t p :=
    h.of_less hid (halarms ▸ List.Sublist.refl _) (hsessions ▸ List.Sublist.refl _)
  have hcancelled := hthere.cancel
  rw [hid, halarms] at hcancelled
  let session := t.heap p
  refine ⟨{ session := p, tmp := now + session.rt, id := postAlarm, post := session.posts },
    rfl, rfl, ?_⟩
  rw [← hcancelled]
  rfl

theorem armPost_rearms {session : Session} {pdu : Bytes} {now : Rat} (h : Alone s p)
    (hid : session.sessionId = s.sessionId p) :
    Rearmed s (armPost s p session pdu now) p := by
  have hids : (s.setSession p (storePost session pdu)).sessionId = s.sessionId :=
    setSession_sessionId hid
  have hrearmed : Rearmed s (addPostAlarm (cancelPostAlarm
      (s.setSession p (storePost session pdu)) (s.sessionId p)) p now) p :=
    h.rearm hids rfl rfl now
  rw [← hid] at hrearmed
  exact hrearmed

theorem processCoapMsg_belongings {task : NetworkTask} (h : Alone s p)
    (hresult : processCoapMsg s task p call = .ok t) :
    Rearmed s t p ∧ t.sessions = s.sessions := by
  obtain ⟨u, session, packet, htouches, ⟨request, -, hstep⟩, rfl, -, rfl⟩ :=
    processCoapMsg_ok hresult
  obtain ⟨-, halarms, hsessions, -⟩ := stepSession_session hstep
  have hids : u.sessionId = s.sessionId := funext htouches.sessionId
  have hthere : Alone u p :=
    h.of_less hids (halarms ▸ List.Sublist.refl _) (hsessions ▸ List.Sublist.refl _)
  constructor
  · have hrearmed : Rearmed u (armPost u p
        { u.heap p with currentState := 2, lastReceivedMessage := some task.buf }
        (firstPost { u.heap p with currentState := 2, lastReceivedMessage := some task.buf }
          packet) call.now) p :=
      armPost_rearms hthere rfl
    obtain ⟨a, howner, hkind, hlist⟩ := hrearmed
    exact ⟨a, howner, hkind, halarms ▸ hlist⟩
  · exact hsessions

/-- An acknowledgment in state 3 takes its session's alarm and entry out, others
leave the lists alone. -/
theorem processAcknowledgment_belongings {task : NetworkTask} {post : Ptr × Nat} (h : Alone s p)
    (hresult : processAcknowledgment s task post p call = .ok t) :
    ((s.heap p).currentState = 3 ∧ t.alarms = othersAlarms s.alarms p ∧
        t.sessions = othersListed s.sessions p) ∨
      ((s.heap p).currentState ≠ 3 ∧ t.alarms = s.alarms ∧ t.sessions = s.sessions) := by
  obtain ⟨request, u, -, rfl, ⟨hstate, -, hstep⟩ | ⟨hstate, rfl⟩ | ⟨-, hnot, rfl⟩⟩ :=
    processAcknowledgment_ok hresult
  · obtain ⟨-, halarms, hsessions, -⟩ := stepSession_session hstep
    exact .inr ⟨by omega, halarms, hsessions⟩
  · refine .inl ⟨hstate, ?_⟩
    have hids : (s.setSession p { s.heap p with
        location := some (getLocation task.buf request 30) }).sessionId = s.sessionId :=
      setSession_sessionId (by rfl)
    have hthere : Alone (s.setSession p { s.heap p with
        location := some (getLocation task.buf request 30) }) p :=
      h.of_less hids (List.Sublist.refl _) (List.Sublist.refl _)
    constructor
    · have hcancelled := hthere.cancel_twice
      rw [hids] at hcancelled
      exact hcancelled
    · have hremoved := hthere.remove_twice
      rw [hids] at hremoved
      exact hremoved
  · exact .inr ⟨hnot, rfl, rfl⟩

theorem sendRadiusPost_belongings {packet : Bytes} (h : Alone s p)
    (hresult : sendRadiusPost s p packet call = .ok t) :
    ((call.sent = true ∧ Rearmed s t p) ∨ (call.sent = false ∧ t.alarms = s.alarms)) ∧
      t.sessions = s.sessions := by
  rcases (sendRadiusPost_ok hresult).2 with ⟨hsent, rfl⟩ | ⟨hsent, rfl⟩
  · exact ⟨.inl ⟨hsent, armPost_rearms h rfl⟩, rfl⟩
  · exact ⟨.inr ⟨hsent, rfl⟩, rfl⟩

theorem identityWorkarround_belongings (packet : Bytes) (h : Alone s p) :
    (identityWorkarround s p packet).alarms = othersAlarms s.alarms p :=
  h.cancel

/-- The RADIUS handler with nothing to send, in the identity workaround, and when
it sends the next POST or fails to. -/
theorem processReceiveRadiusMsg_belongings {identity : Bool} (h : Alone s p)
    (hresult : processReceiveRadiusMsg digests s msg p call = .ok (t, identity)) :
    (t.alarms = s.alarms ∨ (identity = true ∧ t.alarms = othersAlarms s.alarms p) ∨
        (identity = false ∧ Rearmed s t p)) ∧ t.sessions = s.sessions := by
  obtain ⟨u, hu, -, hcase⟩ := processReceiveRadiusMsg_ok hresult
  obtain ⟨-, halarms, hsessions⟩ := radiusClientReceive_log hu
  have hids : u.sessionId = s.sessionId := funext (touches_radiusClientReceive p hu).sessionId
  have hthere : Alone u p :=
    h.of_less hids (halarms ▸ List.Sublist.refl _) (hsessions ▸ List.Sublist.refl _)
  rcases hcase with ⟨-, -, rfl, -⟩ | ⟨packet, -, ⟨-, rfl, hidentity⟩ | ⟨-, hsend, hidentity⟩⟩
  · exact ⟨.inl halarms, hsessions⟩
  · refine ⟨.inr (.inl ⟨hidentity, ?_⟩), hsessions⟩
    rw [identityWorkarround_belongings packet hthere, halarms]
  · obtain ⟨⟨-, a, howner, hkind, hlist⟩ | ⟨-, hsame⟩, hkept⟩ :=
      sendRadiusPost_belongings hthere hsend
    · exact ⟨.inr (.inr ⟨hidentity, a, howner, hkind, halarms ▸ hlist⟩), hkept.trans hsessions⟩
    · exact ⟨.inl (hsame.trans halarms), hkept.trans hsessions⟩

/-- The ways a retransmission task leaves the lists: as they were, with the alarm
of its session taken out, replaced, or taken out together with the entry. -/
theorem processRetrCoapEap_belongings {id : Nat} (h : Alone s p)
    (hresult : processRetrCoapEap s id p call = .ok t) :
    (id ≠ postAlarm ∧ t = s) ∨ (id = postAlarm ∧
      (((s.heap p).lastSentMessage = none ∧ t.alarms = othersAlarms s.alarms p ∧
          t.sessions = s.sessions ∧ t.log = s.log) ∨
        (Rearmed s t p ∧ t.sessions = s.sessions ∧
          t.log = s.log ++ [.retransmitted p (s.heap p).posts]) ∨
        (t.alarms = othersAlarms s.alarms p ∧ t.sessions = othersListed s.sessions p ∧
          t.log = s.log ++ [.timedOut p]))) := by
  have hcancelled := h.cancel
  rcases processRetrCoapEap_ok hresult with ⟨hid, rfl⟩ | ⟨hid, session, u, rfl, rfl, hcase⟩
  · exact .inl ⟨hid, rfl⟩
  · refine .inr ⟨hid, ?_⟩
    have hids : ((cancelPostAlarm s (s.heap p).sessionId).setSession p
        { s.heap p with rtxCounter := (s.heap p).rtxCounter + 1 }).sessionId = s.sessionId :=
      setSession_sessionId (by rfl)
    have hthere : Alone ((cancelPostAlarm s (s.heap p).sessionId).setSession p
        { s.heap p with rtxCounter := (s.heap p).rtxCounter + 1 }) p :=
      h.of_less hids List.eraseP_sublist (List.Sublist.refl _)
    rcases hcase with ⟨-, hnone, rfl⟩ | ⟨-, pdu, -, -, rfl⟩ | ⟨-, rfl⟩
    · exact .inl ⟨hnone, hcancelled, rfl, rfl⟩
    · refine .inr (.inl ⟨?_, rfl, rfl⟩)
      have hdoubled : (((cancelPostAlarm s (s.heap p).sessionId).setSession p
          { s.heap p with rtxCounter := (s.heap p).rtxCounter + 1 }).setSession p
            { s.heap p with rtxCounter := (s.heap p).rtxCounter + 1
                            rt := (s.heap p).rt * 2 }).sessionId =
          ((cancelPostAlarm s (s.heap p).sessionId).setSession p
            { s.heap p with rtxCounter := (s.heap p).rtxCounter + 1 }).sessionId :=
        setSession_sessionId (by simp)
      obtain ⟨a, howner, hkind, hlist⟩ := hthere.rearm hdoubled rfl rfl call.now
      rw [hids] at hlist
      refine ⟨a, howner, hkind, ?_⟩
      rw [← othersAlarms_twice s.alarms p, ← hcancelled]
      exact hlist
    · refine .inr (.inr ⟨hcancelled, ?_, rfl⟩)
      have hremoved := hthere.remove_twice
      rw [hids] at hremoved
      exact hremoved

end CoapEap.Mainserver
