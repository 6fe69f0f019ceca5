import CoapEap.Controller.Belongings
import CoapEap.Controller.Routing
import CoapEap.Controller.Totality

/-!
What a handler leaves to the sessions it does not work on. It reaches them only
through the lists it searches by identifier, and through the list of waiting
requests, from which a new request takes out what waits under its number and, when
the list is full, the oldest.
-/

namespace CoapEap.Mainserver

open Cantcoap EapServer Lalarm Radius Library.Runs Library.FirstMatch

/-- From `s` to `t` session `q`, its entry, its alarms and its waiting requests stay
as they are. -/
structure Spares (s t : Controller) (q : Ptr) : Prop where
  session : t.heap q = s.heap q
  listed : q ∈ t.sessions ↔ q ∈ s.sessions
  alarms : t.alarms.filter (fun a => a.session = q) = s.alarms.filter fun a => a.session = q
  requests : ∀ entry, entry.session = q → (entry ∈ t.radius.msgs ↔ entry ∈ s.radius.msgs)

/-- The first `n` alarms under the identifier of the session are its own. -/
def ownAlarms (s : Controller) (p : Ptr) (n : Nat) : Bool :=
  ((s.alarms.filter fun a => s.sessionId a.session = s.sessionId p ∧ a.id = postAlarm).take n).all
    fun a => a.session = p

/-- The first `n` entries under the identifier of the session are its own. -/
def ownEntries (s : Controller) (p : Ptr) (n : Nat) : Bool :=
  ((s.sessions.filter fun q => s.sessionId q = s.sessionId p).take n).all fun q => q = p

/-- The waiting requests that a step of the EAP layer leaves in the list. -/
def requestsBeside (radius : RadiusClient) (ctx : EapAuthCtx) (call : Call) :
    List RadiusMsgList :=
  match handedResponse ctx call with
  | some data => waitingBeside radius (userNameFits ctx data)
  | none => radius.msgs

variable {digests : Digests} {s t u : Controller} {p q : Ptr} {call : Call} {n : Nat}

theorem Spares.refl (s : Controller) (q : Ptr) : Spares s s q :=
  ⟨rfl, .rfl, rfl, fun _ _ => .rfl⟩

theorem Spares.trans (h₁ : Spares s t q) (h₂ : Spares t u q) : Spares s u q where
  session := h₂.session.trans h₁.session
  listed := h₂.listed.trans h₁.listed
  alarms := h₂.alarms.trans h₁.alarms
  requests := fun entry howner => (h₂.requests entry howner).trans (h₁.requests entry howner)

/-- The first of the elements that pass, and the rest of them. -/
theorem all_take_succ {Owner : Type} {owners : List Owner} {test own : Owner → Bool}
    (h : ((owners.filter test).take (n + 1)).all own = true) :
    (∀ owner, owners.find? test = some owner → own owner = true) ∧
      (((owners.eraseP test).filter test).take n).all own = true := by
  rw [filter_eraseP_self]
  cases hfilter : owners.filter test with
  | nil =>
    constructor
    · intro owner hfound
      have hmem : owner ∈ owners.filter test :=
        List.mem_filter.mpr ⟨List.mem_of_find?_eq_some hfound, List.find?_some hfound⟩
      rw [hfilter] at hmem
      cases hmem
    · simp
  | cons first rest =>
    rw [hfilter, List.take_succ_cons, List.all_cons, Bool.and_eq_true] at h
    constructor
    · intro owner hfound
      rw [← List.head?_filter, hfilter] at hfound
      rw [← Option.some.inj hfound]
      exact h.1
    · exact h.2

theorem ownAlarms_congr (hid : t.sessionId = s.sessionId) (halarms : t.alarms = s.alarms) :
    ownAlarms t p n = ownAlarms s p n := by
  rw [ownAlarms, hid, halarms, ownAlarms]

theorem ownEntries_congr (hid : t.sessionId = s.sessionId) (hsessions : t.sessions = s.sessions) :
    ownEntries t p n = ownEntries s p n := by
  rw [ownEntries, hid, hsessions, ownEntries]

/-- An alarm of the session is taken out. -/
theorem cancelPostAlarm_spares (hq : q ≠ p) (hown : ownAlarms s p (n + 1) = true) :
    Spares s (cancelPostAlarm s (s.sessionId p)) q ∧
      ownAlarms (cancelPostAlarm s (s.sessionId p)) p n = true := by
  obtain ⟨hfirst, hrest⟩ := all_take_succ hown
  refine ⟨⟨rfl, .rfl, ?_, fun _ _ => .rfl⟩, hrest⟩
  apply filter_eraseP
  intro a hfound
  have howner : a.session = p := of_decide_eq_true (hfirst a hfound)
  rw [howner]
  exact decide_eq_false hq.symm

/-- An entry of the session is taken out. -/
theorem removeCoapEapSession_spares (hq : q ≠ p) (hown : ownEntries s p (n + 1) = true) :
    Spares s (removeCoapEapSession s (s.sessionId p)) q ∧
      ownEntries (removeCoapEapSession s (s.sessionId p)) p n = true := by
  obtain ⟨hfirst, hrest⟩ := all_take_succ hown
  have hkept : (removeCoapEapSession s (s.sessionId p)).sessions.filter (fun p => p = q) =
      s.sessions.filter fun p => p = q := by
    apply filter_eraseP
    intro other hfound
    have howner : other = p := of_decide_eq_true (hfirst other hfound)
    rw [howner]
    exact decide_eq_false hq.symm
  refine ⟨⟨rfl, ?_, rfl, fun _ _ => .rfl⟩, hrest⟩
  have hmem : ∀ sessions : List Ptr, q ∈ sessions ↔ q ∈ sessions.filter fun p => p = q := by
    intro sessions
    simp
  rw [hmem, hkept, ← hmem]

theorem addPostAlarm_spares (hq : q ≠ p) (now : Rat) : Spares s (addPostAlarm s p now) q := by
  refine ⟨rfl, .rfl, ?_, fun _ _ => .rfl⟩
  apply filter_addAlarmCoapEap
  exact decide_eq_false hq.symm

theorem setSession_spares (hq : q ≠ p) (session : Session) :
    Spares s (s.setSession p session) q :=
  ⟨Controller.setSession_heap_ne s session hq, .rfl, rfl, fun _ _ => .rfl⟩

theorem record_spares (new : List Occurrence) : Spares s (s.record new) q :=
  ⟨rfl, .rfl, rfl, fun _ _ => .rfl⟩

theorem armPost_spares {session : Session} {pdu : Bytes} {now : Rat} (hq : q ≠ p)
    (hid : session.sessionId = s.sessionId p) (hown : ownAlarms s p 1 = true) :
    Spares s (armPost s p session pdu now) q := by
  have hids : (s.setSession p (storePost session pdu)).sessionId = s.sessionId :=
    setSession_sessionId hid
  have hthere : ownAlarms (s.setSession p (storePost session pdu)) p 1 = true := by
    rw [ownAlarms_congr hids rfl]
    exact hown
  have hcancelled := (cancelPostAlarm_spares hq hthere).1
  rw [hids, ← hid] at hcancelled
  exact ((setSession_spares hq _).trans hcancelled).trans (addPostAlarm_spares hq now)

theorem eapAuthStep_requests {ctx : EapAuthCtx} {radius : RadiusClient} {r : EapStep}
    (h : eapAuthStep ctx radius p call = .ok r) :
    ∀ entry ∈ requestsBeside radius ctx call, entry ∈ r.radius.msgs := by
  simp only [eapAuthStep] at h
  split at h
  · simp at h
  · split at h
    · rename_i hresp
      split at h
      · simp at h
      · rename_i data hdata
        simp only [Except.ok.injEq] at h
        subst h
        have hhanded : handedResponse ctx call = some data := by
          simp [handedResponse, hresp, hdata]
        intro entry hentry
        simp only [requestsBeside, hhanded] at hentry
        simp only [eapAuthEncapsulateRadius]
        split
        · rename_i hlong
          have hfits : userNameFits ctx data = false := by
            simpa [userNameFits] using hlong
          simpa [waitingBeside, hfits] using hentry
        · rename_i hshort
          have hfits : userNameFits ctx data = true := by
            simpa [userNameFits] using hshort
          rw [hfits] at hentry
          by_cases hfull : radius.numMsgs ≥ radiusClientMaxEntries
          · simp only [waitingBeside, radiusClientGetId, hfull, decide_true, Bool.and_true,
              if_true] at hentry
            simp only [radiusClientListAdd, radiusClientGetId, hfull, if_true]
            exact List.mem_cons_of_mem _ hentry
          · simp only [waitingBeside, radiusClientGetId, hfull, decide_false, Bool.and_false,
              Bool.false_eq_true, if_false] at hentry
            simp only [radiusClientListAdd, radiusClientGetId, hfull, if_false]
            exact List.mem_cons_of_mem _ hentry
    · rename_i hresp
      simp only [Except.ok.injEq] at h
      subst h
      have hhanded : handedResponse ctx call = none := by
        simp [handedResponse, hresp]
      simp [requestsBeside, hhanded]

theorem stepSession_requests {session : Session} (h : stepSession s p session call = .ok t) :
    ∀ entry ∈ requestsBeside s.radius session.eapCtx call, entry ∈ t.radius.msgs := by
  obtain ⟨r, hr, rfl⟩ := stepSession_ok h
  exact eapAuthStep_requests hr

/-- Of the other sessions' requests only those go that the list has no room for. -/
theorem stepSession_spares {session : Session} (hq : q ≠ p)
    (h : stepSession s p session call = .ok t)
    (hroom : ∀ entry ∈ s.radius.msgs, entry.session = q →
      entry ∈ requestsBeside s.radius session.eapCtx call) : Spares s t q := by
  obtain ⟨-, hothers⟩ := stepSession_heap h
  obtain ⟨-, halarms, hsessions, -⟩ := stepSession_session h
  refine ⟨hothers q hq, by rw [hsessions], by rw [halarms], ?_⟩
  intro entry howner
  constructor
  · intro hafter
    obtain ⟨r, hr, rfl⟩ := stepSession_ok h
    rcases eapAuthStep_routing hr with ⟨-, -, hradius⟩ | ⟨data, -, -, hmsgs⟩
    · exact hradius ▸ hafter
    · rcases hmsgs entry hafter with hold | ⟨-, hnew, -⟩
      · exact (waitingBeside_ne hold).1
      · exact absurd (howner.symm.trans hnew) hq
  · exact fun hbefore => stepSession_requests h entry (hroom entry hbefore howner)

theorem processCoapMsg_spares {task : NetworkTask} (hq : q ≠ p)
    (hresult : processCoapMsg s task p call = .ok t) (hown : ownAlarms s p 1 = true)
    (hroom : ∀ entry ∈ s.radius.msgs, entry.session = q → entry ∈ requestsBeside s.radius
      { (s.heap p).eapCtx with eap := { (s.heap p).eapCtx.eap with eapRestart := true } } call) :
    Spares s t q := by
  obtain ⟨u, session, packet, htouches, ⟨request, -, hstep⟩, hsession, -, rfl⟩ :=
    processCoapMsg_ok hresult
  obtain ⟨-, halarms, -, -⟩ := stepSession_session hstep
  have hids : u.sessionId = s.sessionId := funext htouches.sessionId
  have hthere : ownAlarms u p 1 = true := by
    rw [ownAlarms_congr hids halarms]
    exact hown
  have hstepped : Spares s u q := stepSession_spares hq hstep hroom
  have hid : session.sessionId = u.sessionId p := by
    rw [hsession]
    rfl
  exact (hstepped.trans (armPost_spares hq hid hthere)).trans (record_spares _)

/-- An acknowledgment takes entries and alarms out only in state 3, and steps the EAP
layer only in state 2. -/
theorem processAcknowledgment_spares {task : NetworkTask} {post : Ptr × Nat} (hq : q ≠ p)
    (hresult : processAcknowledgment s task post p call = .ok t)
    (hown : (s.heap p).currentState = 3 → ownAlarms s p 2 = true ∧ ownEntries s p 2 = true)
    (hroom : (s.heap p).currentState = 2 → ∀ request, validate task.buf = some request →
      ∀ entry ∈ s.radius.msgs, entry.session = q → entry ∈ requestsBeside s.radius
        (setEapResponse (s.heap p).eapCtx (acknowledgedEap request.payload call.behind)) call) :
    Spares s t q := by
  obtain ⟨request, u, hrequest, hu, hcase⟩ := processAcknowledgment_ok hresult
  have hlocated : Spares s u q := by
    rw [hu]
    exact (setSession_spares hq _).trans (record_spares _)
  have hids : u.sessionId = s.sessionId := by
    rw [hu]
    exact setSession_sessionId (by rfl)
  rcases hcase with ⟨hstate, -, hstep⟩ | ⟨hstate, rfl⟩ | ⟨-, -, rfl⟩
  · have hsession : (u.heap p).eapCtx = (s.heap p).eapCtx := by
      rw [hu, Controller.record_heap, Controller.setSession_heap_self]
    have hradius : u.radius = s.radius := by rw [hu]; rfl
    have hfed : Spares (u.record [.fed p post]) t q := by
      apply stepSession_spares hq hstep
      rw [hsession, Controller.record_radius, hradius]
      exact hroom hstate request hrequest
    exact (hlocated.trans (record_spares _)).trans hfed
  · obtain ⟨halarms, hentries⟩ := hown hstate
    have hid : (s.heap p).sessionId = u.sessionId p := by
      rw [hids]
      rfl
    rw [hid]
    have hthere : ownAlarms u p 2 = true := by
      rw [ownAlarms_congr hids (by rw [hu]; rfl)]
      exact halarms
    obtain ⟨hcancelled, hleft⟩ := cancelPostAlarm_spares hq hthere
    obtain ⟨hcancelledTwice, -⟩ := cancelPostAlarm_spares hq hleft
    have hlisted : ownEntries u p 2 = true := by
      rw [ownEntries_congr hids (by rw [hu]; rfl)]
      exact hentries
    have hlisted : ownEntries (cancelPostAlarm (cancelPostAlarm u (u.sessionId p))
        (u.sessionId p)) p 2 = true :=
      hlisted
    obtain ⟨hremoved, hleft⟩ := removeCoapEapSession_spares hq hlisted
    obtain ⟨hremovedTwice, -⟩ := removeCoapEapSession_spares hq hleft
    have hcancels := hlocated.trans (hcancelled.trans hcancelledTwice)
    exact (hcancels.trans (hremoved.trans hremovedTwice)).trans (record_spares _)
  · exact hlocated

/-- An answer goes to the session alone. -/
theorem radiusClientReceive_spares {msg : RadiusMsg} (hq : q ≠ p)
    (h : radiusClientReceive digests s msg call = .ok t)
    (hown : reachesOwn digests s msg p = true) : Spares s t q := by
  have hremoved : ∀ entry, matching s.radius msg.identifier = some entry → entry.session = p →
      ∀ other, other.session = q →
        (other ∈ (removeMatching s.radius msg.identifier).msgs ↔ other ∈ s.radius.msgs) := by
    intro entry hmatch howner other hother
    have hkept : (removeMatching s.radius msg.identifier).msgs.filter
        (fun entry => entry.session = q) = s.radius.msgs.filter fun entry => entry.session = q := by
      apply filter_eraseP
      intro found hfound
      rw [← Option.some.inj (hmatch.symm.trans hfound), howner]
      exact decide_eq_false hq.symm
    have hmem : ∀ msgs : List RadiusMsgList,
        other ∈ msgs ↔ other ∈ msgs.filter fun entry => entry.session = q := by
      intro msgs
      simp [hother]
    rw [hmem, hkept, ← hmem]
  rcases radiusClientReceive_ok h with ⟨-, rfl⟩ | ⟨entry, hmatch, hcase⟩
  · exact .refl ..
  · simp only [reachesOwn, hmatch, Option.all_some, Bool.and_eq_true, Bool.or_eq_true,
      Bool.not_eq_true', decide_eq_true_eq] at hown
    obtain ⟨howner, hfound⟩ := hown
    rcases hcase with ⟨-, rfl⟩ | ⟨haccepted, q', eap, hsearch, -, -, rfl⟩
    · exact ⟨rfl, .rfl, rfl, hremoved entry hmatch howner⟩
    · have hfound := hfound.resolve_left (by rw [haccepted]; exact Bool.noConfusion)
      obtain rfl : q' = p := Option.some.inj (hsearch.symm.trans hfound)
      have htaken : Spares s { s with radius := removeMatching s.radius msg.identifier } q :=
        ⟨rfl, .rfl, rfl, hremoved entry hmatch howner⟩
      exact htaken.trans (setSession_spares hq _)

theorem sendRadiusPost_spares {packet : Bytes} (hq : q ≠ p)
    (h : sendRadiusPost s p packet call = .ok t) (hown : ownAlarms s p 1 = true) :
    Spares s t q := by
  rcases (sendRadiusPost_ok h).2 with ⟨-, rfl⟩ | ⟨-, rfl⟩
  · exact (armPost_spares hq (by rfl) hown).trans (record_spares _)
  · exact setSession_spares hq _

theorem identityWorkarround_spares (packet : Bytes) (hq : q ≠ p) (hown : ownAlarms s p 1 = true) :
    Spares s (identityWorkarround s p packet) q := by
  obtain ⟨hcancelled, -⟩ := cancelPostAlarm_spares hq hown
  have hset := hcancelled.trans (setSession_spares hq
    { s.heap p with
      eapWorkarround := (s.heap p).eapWorkarround + 1, userId := alphaUserId, mutex := true })
  exact ⟨hset.session, hset.listed, hset.alarms, hset.requests⟩

theorem processReceiveRadiusMsg_spares {msg : RadiusMsg} {identity : Bool} (hq : q ≠ p)
    (h : processReceiveRadiusMsg digests s msg p call = .ok (t, identity))
    (hreaches : reachesOwn digests s msg p = true) (hown : ownAlarms s p 1 = true) :
    Spares s t q := by
  obtain ⟨u, hu, -, hcase⟩ := processReceiveRadiusMsg_ok h
  have hreceived := radiusClientReceive_spares hq hu hreaches
  obtain ⟨-, halarms, -⟩ := radiusClientReceive_log hu
  have hthere : ownAlarms u p 1 = true := by
    rw [ownAlarms_congr (funext (touches_radiusClientReceive p hu).sessionId) halarms]
    exact hown
  rcases hcase with ⟨-, -, rfl, -⟩ | ⟨packet, -, ⟨-, rfl, -⟩ | ⟨-, hsend, -⟩⟩
  · exact hreceived
  · exact hreceived.trans (identityWorkarround_spares packet hq hthere)
  · exact hreceived.trans (sendRadiusPost_spares hq hsend hthere)

end CoapEap.Mainserver
