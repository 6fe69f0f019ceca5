import CoapEap.Controller.Completion
import CoapEap.Controller.Locations
import CoapEap.Controller.StoredPosts
import CoapEap.Controller.Success

/-!
The final POST and the key. Whether the POST is the final one is decided by the
success of the EAP machine, whether the session gets its key and goes into state
3 by the key of the machine. The two agree as long as every acceptance that finds
a machine waiting brings a key.
-/

namespace CoapEap.Mainserver

open Cantcoap EapServer Lalarm Radius Library.Runs Library.OptionFormat

/-- A POST with the OSCORE option and the OSCORE payload. -/
def isFinalPost (pdu : Bytes) : Bool :=
  match validate pdu with
  | none => false
  | some request =>
    (optionOscore, oscoreOption) ∈ getOptions pdu request && request.payload = payloadOscore

/-- Between two states of the controller a session was sent its final POST. -/
def sendsFinalPost (s t : Controller) (p : Ptr) : Bool :=
  (t.log.drop s.log.length).any (fun o => match o with
    | .sentPost q _ => q = p
    | _ => false) &&
  (t.heap p).lastSentMessage.any isFinalPost

/-- The key that `radius_msg_get_ms_keys` finds under a vendor type. -/
def mppeKey (digests : Digests) (msg : RadiusMsg) (req : AccessRequest) (subtype : Nat) :
    Option Bytes :=
  (radiusMsgGetVendorAttr msg vendorMicrosoft subtype).bind fun value =>
    digests.decryptMsKey value req.authenticator

/-- The Access-Accept in hand passes the checks and finds a machine waiting for
it: the session of the machine and the entry of the request it answers. -/
def acceptance (digests : Digests) (s : Controller) (msg : RadiusMsg) :
    Option (Ptr × RadiusMsgList) :=
  match matching s.radius msg.identifier, searchEapCtxRadClient s msg.identifier with
  | some entry, some q =>
    if acceptsAnswer digests msg entry.msg && msg.code = accessAccept &&
        (s.heap q).eapCtx.eap.eapState = .aaaIdle then
      some (q, entry)
    else none
  | _, _ => none

/-- An acceptance that finds a machine waiting answers a request of the session of
that machine and brings 64 bytes of key, and `sendto` does not fail for a session
that has a key. -/
def keyedSuccess (digests : Digests) (s : Controller) : Event → Bool
  | .handle i call =>
    match s.workers[i]? with
    | some (.receiveRadiusMsg msg p) =>
      let accepted := acceptance digests s msg
      accepted.all (fun a => a.2.session = a.1 &&
        (masterSessionKey digests msg a.2.msg).isSome) &&
      (call.sent ||
        !((s.heap p).eapCtx.eap.eapKeyAvailable || accepted.any fun a => a.1 = p))
    | _ => true
  | _ => true

/-- The handler takes in an Access-Accept that answers a request of the session,
and gets this key from it. -/
inductive AcceptsKey (digests : Digests) (s : Controller) (p : Ptr) (key : Bytes) : Event → Prop
  | takenIn (i : Nat) (call : Call) (msg : RadiusMsg) (holder : Ptr) (entry : RadiusMsgList)
      (recv : Bytes) (worker : s.workers[i]? = some (.receiveRadiusMsg msg holder))
      (waiting : matching s.radius msg.identifier = some entry) (own : entry.session = p)
      (found : searchEapCtxRadClient s msg.identifier = some p)
      (accepted : acceptsAnswer digests msg entry.msg = true) (code : msg.code = accessAccept)
      (received : mppeKey digests msg entry.msg msMppeRecvKey = some recv)
      (joined : key = recv ++ (mppeKey digests msg entry.msg msMppeSendKey).getD [])
      (whole : key.length = 64) :
      AcceptsKey digests s p key (.handle i call)

/-- The session got the key from one of the steps so far. -/
def GotKey (digests : Digests) (past : List (Controller × Event)) (p : Ptr) (key : Bytes) :
    Prop :=
  ∃ move ∈ past, AcceptsKey digests move.1 p key move.2

variable {digests : Digests} {s t u : Controller} {past : List (Controller × Event)} {e : Event}
variable {i : Nat} {p q : Ptr} {msg : RadiusMsg} {call : Call} {entry : RadiusMsgList}

theorem isFinalPost_post (session : Session) {options : List (Nat × Bytes)} (payload : Bytes)
    (hshort : Short 0 options) (hascending : Ascending 0 options)
    (hsmall : ∀ o ∈ options, o.1 < 65536) :
    isFinalPost (post session options payload) =
      (decide ((optionOscore, oscoreOption) ∈ options) && decide (payload = payloadOscore)) := by
  rw [isFinalPost, post_validate session payload hshort, post_eq_datagram]
  simp only [getOptions_datagram (token_length session) hshort hascending hsmall]

theorem isFinalPost_radiusPost {session : Session} (hlocation : ShortLocation session)
    (packet : Bytes) : isFinalPost (radiusPost session packet) =
      session.eapCtx.eap.eapSuccess := by
  obtain ⟨options, hbuilt, huri⟩ := setURI_post hlocation
  have hsmall : ∀ o ∈ options, optionOscore < o.1 ∧ o.1 < 65536 := by
    intro o ho
    rcases huri o ho with hpath | hquery
    · rw [hpath]
      decide
    · rw [hquery]
      decide
  unfold radiusPost
  cases session.eapCtx.eap.eapSuccess with
  | true =>
    obtain ⟨hpost, hshort, hascending⟩ := finalPost_eq hbuilt huri
    rw [if_pos rfl, hpost, isFinalPost_post session _ hshort hascending]
    · simp
    · intro o ho
      rcases List.mem_cons.mp ho with rfl | hmem
      · decide
      · exact (hsmall o hmem).2
  | false =>
    rw [if_neg Bool.false_ne_true, eapPost_eq hbuilt, isFinalPost_post session _ hbuilt.short
      hbuilt.ascending fun o ho => (hsmall o ho).2]
    have habsent : (optionOscore, oscoreOption) ∉ options := by
      intro hmem
      exact Nat.lt_irrefl _ (hsmall _ hmem).1
    simp [habsent]

theorem masterSessionKey_eq_some {req : AccessRequest} {key : Bytes}
    (h : masterSessionKey digests msg req = some key) :
    ∃ recv, mppeKey digests msg req msMppeRecvKey = some recv ∧
      key = recv ++ (mppeKey digests msg req msMppeSendKey).getD [] ∧ key.length = 64 := by
  unfold masterSessionKey at h
  simp only at h
  split at h
  · simp at h
  · rename_i recv hrecv
    simp only [Option.ite_none_right_eq_some, Option.some.injEq] at h
    obtain ⟨hwhole, rfl⟩ := h
    exact ⟨recv, hrecv, rfl, hwhole⟩

/-- The rounds of every machine are counted. -/
theorem counted {guard : Controller → Event → Prop}
    (h : ReachableUnder (step digests) guard initialController s) (p : Ptr) :
    Counted (s.heap p).eapCtx.eap := by
  have htaken : ∀ eap, Counted eap → Counted (responseTaken eap) := by
    intro eap heap
    unfold responseTaken
    split
    · exact heap
    · exact heap
  refine eap_invariant ⟨rfl, .inl (Nat.zero_le _)⟩ ?_ h p
  intro x y hchange hx
  cases hchange with
  | opened rand =>
    have hready : Counted { x with eapRestart := true } := hx
    exact htaken _ (hready.run 32)
  | responded data rand =>
    have hready : Counted { x with eapResp := true, eapRespData := some data } := hx
    exact htaken _ (hready.run 32)
  | answered msg req rand =>
    obtain ⟨_, _, _, _, _, _, heap⟩ := answerEap_eq digests msg req x
    have hready : Counted (answerEap digests msg req x) := by
      rw [heap]
      exact hx
    exact hready.run 32

variable {K : Bytes → Prop}

theorem successKeyed_responseTaken {eap : EapSm} (h : SuccessKeyed K eap) :
    SuccessKeyed K (responseTaken eap) := by
  unfold responseTaken
  split
  · exact h.of_input
  · exact h

/-- An answer that is no acceptance of a waiting machine. -/
theorem answerEap_successKeyed {eap : EapSm} {req : AccessRequest} (h : SuccessKeyed K eap)
    (hother : ¬ (msg.code = accessAccept ∧ eap.eapState = .aaaIdle)) :
    SuccessKeyed K (answerEap digests msg req eap) := by
  have hawaiting : (answerEap digests msg req eap).eapState = .aaaIdle →
      (answerEap digests msg req eap).aaaSuccess = false := by
    obtain ⟨_, _, _, _, _, _, heap⟩ := answerEap_eq digests msg req eap
    rw [heap]
    intro hidle
    have hidle : eap.eapState = .aaaIdle := hidle
    have hcode : msg.code ≠ accessAccept := fun hcode => hother ⟨hcode, hidle⟩
    have hsame : (answerEap digests msg req eap).aaaSuccess = eap.aaaSuccess := by
      simp only [answerEap, eapAuthDecapsulateRadius, hcode, if_false]
      repeat' split
      all_goals rfl
    rw [heap] at hsame
    rw [hsame]
    exact h.awaiting hidle
  obtain ⟨_, _, _, _, _, _, heap⟩ := answerEap_eq digests msg req eap
  rw [heap] at hawaiting ⊢
  exact ⟨h.portEnabled, h.passthrough, h.method, h.decision, hawaiting, h.succeeded, h.available⟩

/-- An acceptance with a key that finds its machine waiting. -/
theorem answerEap_keyAtHand {eap : EapSm} {req : AccessRequest} {key : Bytes}
    (h : SuccessKeyed K eap) (hcounted : Counted eap) (hcode : msg.code = accessAccept)
    (hidle : eap.eapState = .aaaIdle) (hkey : masterSessionKey digests msg req = some key)
    (hK : K key) : KeyAtHand K (answerEap digests msg req eap) := by
  have hnot : eap.eapSuccess = false := by
    rw [Bool.eq_false_iff]
    intro hsuccess
    rcases (h.succeeded hsuccess).1 with hstate | hstate <;> simp [hidle] at hstate
  have hnone : eap.eapKeyAvailable = false := by
    rw [Bool.eq_false_iff]
    intro hheld
    rw [h.available hheld] at hnot
    exact Bool.noConfusion hnot
  have hrounds : eap.numRounds ≤ eapMaxAuthRounds + 1 := by
    rcases hcounted.2 with hbound | hfailed
    · exact hbound
    · rw [hidle] at hfailed
      exact EapState.noConfusion hfailed
  have hdata : (answerEap digests msg req eap).aaaEapKeyAvailable = true ∧
      (answerEap digests msg req eap).aaaEapKeyData = some key := by
    simp only [answerEap, eapAuthDecapsulateRadius, hcode, hkey, if_true]
    repeat' split
    all_goals exact ⟨rfl, rfl⟩
  obtain ⟨_, _, _, _, _, _, heap⟩ := answerEap_eq digests msg req eap
  rw [heap] at hdata ⊢
  exact ⟨⟨h.portEnabled, h.method, hnot, hnone⟩, hidle, hrounds, hdata.1, key, hdata.2, hK⟩

/-- Every success of a machine came with a key that its session got, and a session
is in state 3 only past the identity workaround. -/
structure KeyedSoFar (digests : Digests) (past : List (Controller × Event)) (s : Controller) :
    Prop where
  machine : ∀ p, SuccessKeyed (GotKey digests past p) (s.heap p).eapCtx.eap
  workarround : ∀ p, (s.heap p).currentState = 3 → (s.heap p).eapWorkarround ≠ 0

theorem GotKey.later (move : Controller × Event) {key : Bytes} (h : GotKey digests past p key) :
    GotKey digests (past ++ [move]) p key := by
  obtain ⟨before, hmem, haccepts⟩ := h
  exact ⟨before, List.mem_append_left _ hmem, haccepts⟩

theorem AcceptsKey.length {key : Bytes} (h : AcceptsKey digests s p key e) : key.length = 64 := by
  cases h
  assumption

/-- The machine that takes an answer in. -/
theorem answered_successKeyed (hkeyed : SuccessKeyed (GotKey digests past q) (s.heap q).eapCtx.eap)
    (hcounted : Counted (s.heap q).eapCtx.eap)
    (hworker : s.workers[i]? = some (.receiveRadiusMsg msg p))
    (hguard : keyedSuccess digests s (.handle i call) = true)
    (hwaiting : matching s.radius msg.identifier = some entry)
    (haccepted : acceptsAnswer digests msg entry.msg = true)
    (hfound : searchEapCtxRadClient s msg.identifier = some q) :
    SuccessKeyed (GotKey digests (past ++ [(s, .handle i call)]) q)
      (eapServerSmStep (answerEap digests msg entry.msg (s.heap q).eapCtx.eap) call.rand) := by
  have hlater : SuccessKeyed (GotKey digests (past ++ [(s, .handle i call)]) q)
      (s.heap q).eapCtx.eap :=
    hkeyed.mono fun _ hgot => hgot.later _
  by_cases hacceptance : msg.code = accessAccept ∧ (s.heap q).eapCtx.eap.eapState = .aaaIdle
  · obtain ⟨hcode, hidle⟩ := hacceptance
    have haccepts : acceptance digests s msg = some (q, entry) := by
      simp [acceptance, hwaiting, hfound, haccepted, hcode, hidle]
    simp only [keyedSuccess, hworker, haccepts, Option.all_some, Bool.and_eq_true,
      decide_eq_true_eq] at hguard
    obtain ⟨⟨hown, hkey⟩, -⟩ := hguard
    obtain ⟨key, hkey⟩ := Option.isSome_iff_exists.mp hkey
    obtain ⟨recv, hrecv, hjoined, hwhole⟩ := masterSessionKey_eq_some hkey
    have hgot : GotKey digests (past ++ [(s, .handle i call)]) q key :=
      ⟨_, List.mem_append_right _ (List.mem_singleton_self _),
        .takenIn i call msg p entry recv hworker hwaiting hown hfound haccepted hcode hrecv
          hjoined hwhole⟩
    exact (answerEap_keyAtHand hlater hcounted hcode hidle hkey hgot).run
  · exact (answerEap_successKeyed hlater hacceptance).run 32

theorem step_successKeyed (hs : KeyedSoFar digests past s)
    (hreach : Reachable digests s) (hguard : keyedSuccess digests s e = true)
    (h : step digests s e = some t) (q : Ptr) :
    SuccessKeyed (GotKey digests (past ++ [(s, e)]) q) (t.heap q).eapCtx.eap := by
  have hlater : SuccessKeyed (GotKey digests (past ++ [(s, e)]) q) (s.heap q).eapCtx.eap :=
    (hs.machine q).mono fun _ hgot => hgot.later _
  have hmachine := step_machine h q
  generalize (t.heap q).eapCtx.eap = eap at hmachine ⊢
  cases hmachine with
  | created => exact successKeyed_initialSm
  | kept => exact hlater
  | opened i call task rand =>
    have hready : SuccessKeyed (GotKey digests (past ++ [(s, .handle i call)]) q)
        { (s.heap q).eapCtx.eap with eapRestart := true } :=
      hlater.of_input
    exact successKeyed_responseTaken (hready.run 32)
  | responded i call data rand =>
    have hready : SuccessKeyed (GotKey digests (past ++ [(s, .handle i call)]) q)
        { (s.heap q).eapCtx.eap with eapResp := true, eapRespData := some data } :=
      hlater.of_input
    exact successKeyed_responseTaken (hready.run 32)
  | answered i call msg p entry hworker hwaiting haccepted hfound =>
    exact answered_successKeyed (hs.machine q) (counted hreach q) hworker hguard hwaiting
      haccepted hfound

/-- State 3 is entered behind the workaround, and nothing goes back before it. -/
theorem step_workarround
    (hs : ∀ p, (s.heap p).currentState = 3 → (s.heap p).eapWorkarround ≠ 0)
    (h : step digests s e = some t) (q : Ptr) :
    (t.heap q).currentState = 3 → (t.heap q).eapWorkarround ≠ 0 := by
  have hsame : ∀ x : Session, x.currentState = (s.heap q).currentState →
      x.eapWorkarround = (s.heap q).eapWorkarround →
        x.currentState = 3 → x.eapWorkarround ≠ 0 := by
    intro x hstate hworkarround hthree
    rw [hworkarround]
    exact hs q (hstate.symm.trans hthree)
  have htouched : ∀ u p, Touches p s u → q ≠ p →
      (u.heap q).currentState = 3 → (u.heap q).eapWorkarround ≠ 0 := by
    intro u p htouches hq
    have hother := htouches.others q hq
    apply hsame <;> rw [hother]
  obtain ⟨-, hmove⟩ := step_move h
  cases hmove with
  | created datagram source arrival =>
    by_cases hq : q = s.nextPtr
    · subst hq
      intro hthree
      rw [newSession_heap_self] at hthree
      cases hthree
    · rw [newSession_heap_ne _ _ _ hq]
      exact hs q
  | queued task p =>
    simp only [addTask, Controller.record_heap, Controller.setSession_heap]
    split
    · subst q
      exact hsame _ rfl rfl
    · exact hs q
  | handledCoap i call task p u _ _ hresult =>
    by_cases hq : q = p
    · subst hq
      intro hthree
      have hthree : (u.heap q).currentState = 3 := hthree
      obtain ⟨v, session, packet, -, -, hsession, -, rfl⟩ := processCoapMsg_ok hresult
      rw [Controller.record_heap, armPost_session, hsession] at hthree
      simp [storePost] at hthree
    · exact htouched u p (touches_processCoapMsg hresult) hq
  | handledAcknowledgment i call task post p u _ _ hresult =>
    by_cases hq : q = p
    · subst hq
      obtain ⟨request, -, hsession⟩ := processAcknowledgment_session hresult
      have hheap : (endWorker u i).heap q = u.heap q := rfl
      apply hsame <;> rw [hheap, hsession]
    · exact htouched u p (touches_processAcknowledgment hresult) hq
  | handledRadius i call msg p u _ _ hresult =>
    by_cases hq : q = p
    · subst hq
      obtain ⟨v, hv, -, ⟨-, -, rfl, -⟩ | ⟨packet, -, ⟨-, -, hidentity⟩ | ⟨hbehind, hsend, -⟩⟩⟩ :=
        processReceiveRadiusMsg_ok hresult
      · have hsession := radiusClientReceive_session hv q
        have hheap : (endWorker u i).heap q = u.heap q := rfl
        apply hsame <;> rw [hheap, hsession]
      · exact Bool.noConfusion hidentity
      · intro _
        rcases (sendRadiusPost_ok hsend).2 with ⟨-, rfl⟩ | ⟨-, rfl⟩
        · simpa [endWorker, armPost_session, storePost, radiusPostSession] using hbehind
        · simpa [endWorker, radiusPostSession] using hbehind
    · exact htouched u p (touches_processReceiveRadiusMsg hresult) hq
  | wroteIdentity i call msg p u _ _ hresult =>
    by_cases hq : q = p
    · subst hq
      obtain ⟨v, hv, -, ⟨-, -, -, hidentity⟩ | ⟨packet, -, ⟨-, rfl, -⟩ | ⟨-, -, hidentity⟩⟩⟩ :=
        processReceiveRadiusMsg_ok hresult
      · exact Bool.noConfusion hidentity
      · intro _
        simp [setWorker, identityWorkarround]
      · exact Bool.noConfusion hidentity
    · exact htouched u p (touches_processReceiveRadiusMsg hresult) hq
  | handedIdentity i call p u _ hresult =>
    by_cases hq : q = p
    · subst hq
      have hsession := identityHandOver_session hresult
      have hheap : (endWorker u i).heap q = u.heap q := rfl
      apply hsame <;> rw [hheap, hsession]
    · exact htouched u p (touches_identityHandOver hresult) hq
  | handledRetr i call origin id p u _ _ hresult =>
    by_cases hq : q = p
    · subst hq
      have hsession := processRetrCoapEap_session hresult
      have hheap : (endWorker u i).heap q = u.heap q := rfl
      apply hsame <;> rw [hheap, hsession]
    · exact htouched u p (touches_processRetrCoapEap hresult) hq
  | _ => exact hs q

/-- The runs in which acceptances bring keys, with their past. -/
abbrev KeyedRun (digests : Digests) : Controller × List (Controller × Event) → Prop :=
  ReachableUnder (recording (step digests)) (fun here e => keyedSuccess digests here.1 e = true)
    (initialController, [])

theorem KeyedRun.reachable {here : Controller × List (Controller × Event)}
    (h : KeyedRun digests here) : Reachable digests here.1 := by
  have hrun : ReachableUnder (step digests) (fun s e => keyedSuccess digests s e = true)
      initialController here.1 :=
    ReachableUnder.forget h
  exact hrun.reachable

theorem keyedSoFar {here : Controller × List (Controller × Event)} (h : KeyedRun digests here) :
    KeyedSoFar digests here.2 here.1 := by
  induction h with
  | start =>
    exact ⟨fun _ => successKeyed_initialSm, by simp [initialController, initCoapEapSession]⟩
  | step hbefore hguard hstep hkeyed =>
    obtain ⟨t, ht, rfl⟩ := Option.map_eq_some_iff.mp hstep
    have hreach := KeyedRun.reachable hbefore
    exact ⟨fun q => step_successKeyed hkeyed hreach hguard ht q,
      fun q => step_workarround hkeyed.workarround ht q⟩

/-- A handler that returns has sent the final POST exactly when its session is in
state 3 then, and so only with a key that the session got from an acceptance of
its own request. -/
def FinalPostKeyed (digests : Digests) (past : List (Controller × Event)) (s t : Controller)
    (p : Ptr) : Prop :=
  (sendsFinalPost s t p = true ↔ (t.heap p).currentState = 3) ∧
    (sendsFinalPost s t p = true →
      ∃ key, (t.heap p).mskKey = some key ∧ GotKey digests past p key)

/-- The machine of the session when the answer has been taken in. -/
theorem radiusClientReceive_successKeyed (hs : KeyedSoFar digests past s)
    (hreach : Reachable digests s) (hworker : s.workers[i]? = some (.receiveRadiusMsg msg p))
    (hguard : keyedSuccess digests s (.handle i call) = true)
    (h : radiusClientReceive digests s msg call = .ok u) (q : Ptr) :
    SuccessKeyed (GotKey digests (past ++ [(s, .handle i call)]) q) (u.heap q).eapCtx.eap := by
  have hlater : SuccessKeyed (GotKey digests (past ++ [(s, .handle i call)]) q)
      (s.heap q).eapCtx.eap :=
    (hs.machine q).mono fun _ hgot => hgot.later _
  rcases radiusClientReceive_ok h with ⟨-, rfl⟩ | ⟨entry, hwaiting, ⟨-, rfl⟩ |
    ⟨haccepted, q', eap, hfound, rfl, -, rfl⟩⟩
  · exact hlater
  · exact hlater
  · by_cases hq : q = q'
    · subst hq
      rw [Controller.setSession_heap_self]
      exact answered_successKeyed (hs.machine q) (counted hreach q) hworker hguard hwaiting
        haccepted hfound
    · rw [Controller.setSession_heap_ne _ _ hq]
      exact hlater

/-- Without an acceptance of its own a session that has no key gets none. -/
theorem radiusClientReceive_unkeyed (hs : KeyedSoFar digests past s)
    (hnone : (s.heap p).eapCtx.eap.eapKeyAvailable = false)
    (hother : (acceptance digests s msg).any (fun a => a.1 = p) = false)
    (h : radiusClientReceive digests s msg call = .ok u) :
    (u.heap p).eapCtx.eap.eapKeyAvailable = false := by
  have hnot : (s.heap p).eapCtx.eap.eapSuccess = false := by
    rw [Bool.eq_false_iff]
    intro hsuccess
    have hheld := ((hs.machine p).succeeded hsuccess).2.1
    rw [hnone] at hheld
    exact Bool.noConfusion hheld
  -- a machine that has not succeeded is keyed with respect to no key at all
  have hkeyless : SuccessKeyed (fun _ => False) (s.heap p).eapCtx.eap := by
    have hbefore := hs.machine p
    exact ⟨hbefore.portEnabled, hbefore.passthrough, hbefore.method, hbefore.decision,
      hbefore.awaiting, by simp [hnot], hbefore.available⟩
  rcases radiusClientReceive_ok h with ⟨-, rfl⟩ | ⟨entry, hwaiting, ⟨-, rfl⟩ |
    ⟨haccepted, q', eap, hfound, rfl, -, rfl⟩⟩
  · exact hnone
  · exact hnone
  · by_cases hq : p = q'
    · subst hq
      have hnoAcceptance : ¬ (msg.code = accessAccept ∧
          (s.heap p).eapCtx.eap.eapState = .aaaIdle) := by
        rintro ⟨hcode, hidle⟩
        have haccepts : acceptance digests s msg = some (p, entry) := by
          simp [acceptance, hwaiting, hfound, haccepted, hcode, hidle]
        simp [haccepts] at hother
      have hafter : SuccessKeyed (fun _ => False) (eapServerSmStep
          (answerEap digests msg entry.msg (s.heap p).eapCtx.eap) call.rand) :=
        (answerEap_successKeyed hkeyless hnoAcceptance).run 32
      rw [Controller.setSession_heap_self, Bool.eq_false_iff]
      intro hheld
      obtain ⟨-, -, key, -, hfalse⟩ := hafter.succeeded (hafter.available hheld)
      exact hfalse
    · rw [Controller.setSession_heap_ne _ _ hq]
      exact hnone

/-- In every run in which acceptances bring keys, every call of the handler that
returns sends the final POST exactly when its session is then in state 3, and with
the key of an acceptance. -/
theorem final_post_for_keyed_success {identity : Bool} (h : KeyedRun digests (s, past))
    (hworker : s.workers[i]? = some (.receiveRadiusMsg msg p))
    (hguard : keyedSuccess digests s (.handle i call) = true)
    (hresult : processReceiveRadiusMsg digests s msg p call = .ok (t, identity)) :
    FinalPostKeyed digests (past ++ [(s, .handle i call)]) s t p := by
  have hkeyed : KeyedSoFar digests past s := keyedSoFar h
  have hreach : Reachable digests s := KeyedRun.reachable h
  obtain ⟨u, hu, -, hcase⟩ := processReceiveRadiusMsg_ok hresult
  have hmachine := radiusClientReceive_successKeyed hkeyed hreach hworker hguard hu p
  have hsession := radiusClientReceive_session hu p
  have hlog := (radiusClientReceive_log hu).1
  have hthree : (u.heap p).currentState = 3 → (u.heap p).eapCtx.eap.eapKeyAvailable = true := by
    rcases radiusClientReceive_change hu p with hsame | hchange
    · rw [hsame]
      exact (keyed hreach p).state
    · exact ((keyed hreach p).change hchange).state
  rcases hcase with ⟨-, hnot, rfl, -⟩ | ⟨packet, -, ⟨hfirst, rfl, -⟩ | ⟨-, hsend, -⟩⟩
  · have hidle : (t.heap p).currentState ≠ 3 := by
      intro hstate
      have hsuccess := hmachine.available (hthree hstate)
      rw [hnot] at hsuccess
      exact Bool.noConfusion hsuccess
    have hsilent : sendsFinalPost s t p = false := by simp [sendsFinalPost, hlog]
    simp [FinalPostKeyed, hsilent, hidle]
  · have hstate : ((identityWorkarround u p packet).heap p).currentState =
        (s.heap p).currentState := by
      simp only [identityWorkarround, Controller.setSession_heap_self]
      rw [hsession]
    have hbefore : (s.heap p).currentState ≠ 3 := by
      intro hstate
      have hbehind := hkeyed.workarround p hstate
      rw [hsession] at hfirst
      exact hbehind hfirst
    have hsilent : sendsFinalPost s (identityWorkarround u p packet) p = false := by
      simp [sendsFinalPost, identityWorkarround, cancelPostAlarm, hlog]
    simp [FinalPostKeyed, hsilent, hstate, hbefore]
  · have hagree : (u.heap p).eapCtx.eap.eapKeyAvailable = (u.heap p).eapCtx.eap.eapSuccess := by
      rw [Bool.eq_iff_iff]
      exact ⟨hmachine.available, fun hsuccess => (hmachine.succeeded hsuccess).2.1⟩
    have hstate : (radiusPostSession (u.heap p)).currentState = 3 ↔
        (u.heap p).eapCtx.eap.eapSuccess = true := by
      rw [← hagree]
      cases hheld : (u.heap p).eapCtx.eap.eapKeyAvailable with
      | true => simp [radiusPostSession, hheld]
      | false =>
        have hother : (u.heap p).currentState ≠ 3 := by
          intro hstate
          rw [hthree hstate] at hheld
          exact Bool.noConfusion hheld
        simp [radiusPostSession, hheld, hother]
    rcases (sendRadiusPost_ok hsend).2 with ⟨-, rfl⟩ | ⟨hcall, rfl⟩
    · have hlocation : ShortLocation (radiusPostSession (u.heap p)) := by
        have hshort := (storesPosts hreach p).location
        have hsame : (radiusPostSession (u.heap p)).location = (s.heap p).location := by
          simp only [radiusPostSession]
          rw [hsession]
        unfold ShortLocation
        rw [hsame]
        exact hshort
      have hsends : sendsFinalPost s ((armPost u p (radiusPostSession (u.heap p))
          (radiusPost (radiusPostSession (u.heap p)) packet) call.now).record
            [.sentPost p ((radiusPostSession (u.heap p)).posts + 1)]) p =
              (u.heap p).eapCtx.eap.eapSuccess := by
        simp only [sendsFinalPost, Controller.record_log, Controller.record_heap, armPost_log, hlog,
          armPost_session, storePost, List.drop_left, Option.any_some,
          isFinalPost_radiusPost hlocation]
        simp [radiusPostSession]
      unfold FinalPostKeyed
      rw [hsends, Controller.record_heap, armPost_session]
      refine ⟨hstate.symm, ?_⟩
      intro hsuccess
      obtain ⟨-, hheld, key, hkey, hgot⟩ := hmachine.succeeded hsuccess
      have hwhole : key.length ≤ 64 := by
        obtain ⟨move, -, haccepts⟩ := hgot
        exact Nat.le_of_eq haccepts.length
      refine ⟨key, ?_, hgot⟩
      simp [storePost, radiusPostSession, hheld, hkey, List.take_of_length_le hwhole]
    · -- `sendto` failed, so the session has no key
      have hnone : (u.heap p).eapCtx.eap.eapKeyAvailable = false := by
        simp only [keyedSuccess, hworker, hcall, Bool.false_or, Bool.and_eq_true,
          Bool.not_eq_true', Bool.or_eq_false_iff] at hguard
        exact radiusClientReceive_unkeyed hkeyed hguard.2.1 hguard.2.2 hu
      have hnot : (u.heap p).eapCtx.eap.eapSuccess ≠ true := by
        rw [← hagree, hnone]
        exact Bool.false_ne_true
      have hidle : (radiusPostSession (u.heap p)).currentState ≠ 3 := fun h => hnot (hstate.mp h)
      have hsilent : sendsFinalPost s
          (u.setSession p { radiusPostSession (u.heap p) with mutex := true }) p = false := by
        simp [sendsFinalPost, hlog]
      simp [FinalPostKeyed, hsilent, hidle]

/-- The first POST is acknowledged with an identity and the answer to the request
that makes arrives twice. The second copy is left in the worker's hands. -/
def answeredTwice (answer : Bytes) : List Event :=
  comesIn 1 ++
    [.recvCoap (ackDatagram 1 1) ⟨[1], 5683⟩ {}, .lockAcknowledgment, .getTask, .lookup 0 [],
      .handle 0 { authenticator := requestAuthenticator },
      .recvRadius answer, .getTask, .lookup 0 [], .handle 0 {}, .handle 0 {},
      .recvRadius answer, .getTask, .lookup 0 []]

/-- Handling the answer in the hands of the first worker sends a final POST and
leaves its session in that state. -/
def sendsFinalIn (digests : Digests) (state : Nat) (s : Controller) : Bool :=
  match s.workers[(0 : Nat)]? with
  | some (.receiveRadiusMsg msg p) =>
    match processReceiveRadiusMsg digests s msg p {} with
    | .ok (t, _) => sendsFinalPost s t p && (t.heap p).currentState = state
    | .error _ => false
  | _ => false

theorem sendsFinalIn_eq_true {state : Nat} (h : sendsFinalIn digests state s = true) :
    ∃ msg p t identity, s.workers[0]? = some (.receiveRadiusMsg msg p) ∧
      processReceiveRadiusMsg digests s msg p {} = .ok (t, identity) ∧
      sendsFinalPost s t p = true ∧ (t.heap p).currentState = state := by
  unfold sendsFinalIn at h
  split at h
  · rename_i msg p hworker
    split at h
    · rename_i t identity hresult
      simp only [Bool.and_eq_true, decide_eq_true_eq] at h
      exact ⟨msg, p, t, identity, hworker, hresult, h.1, h.2⟩
    · simp at h
  · simp at h

theorem accepted_key_sends_final_post : ∃ past s t p,
    KeyedRun acceptDigests (s, past) ∧ sendsFinalPost s t p = true ∧
      FinalPostKeyed acceptDigests (past ++ [(s, .handle 0 {})]) s t p := by
  have hrun : (run (guarded (step acceptDigests) fun s e => keyedSuccess acceptDigests s e = true)
      initialController (answeredTwice accessAcceptDatagram)).any (fun s =>
        sendsFinalIn acceptDigests 3 s && keyedSuccess acceptDigests s (.handle 0 {})) = true := by
    decide +kernel
  obtain ⟨s, hs, hcheck⟩ := exists_of_run hrun
  rw [Bool.and_eq_true] at hcheck
  obtain ⟨msg, p, t, identity, hworker, hresult, hsends, -⟩ := sendsFinalIn_eq_true hcheck.1
  obtain ⟨past, hpast⟩ := (reachableUnder_of_run hs).recorded
  exact ⟨past, s, t, p, hpast, hsends,
    final_post_for_keyed_success hpast hworker hcheck.2 hresult⟩

def keylessAuthenticator : Bytes :=
  [0xDC, 0x6C, 0x50, 0xA6, 0xBD, 0x43, 0x6B, 0xA9, 0x45, 0x20, 0xB2, 0x09, 0x24, 0xC1, 0x17, 0xE1]

def keylessMessageAuthenticator : Bytes :=
  [0x4E, 0x0E, 0x83, 0xAA, 0x79, 0xD6, 0x35, 0x2E, 0x2F, 0x99, 0xDA, 0x7A, 0x6B, 0x5E, 0xAC, 0x55]

/-- An Access-Accept with an EAP success and no key, for the same request. -/
def keylessAcceptDatagram : Bytes :=
  [0x02, 0x00, 0x00, 0x2C] ++ keylessAuthenticator ++ [0x4F, 0x06, 0x03, 0x01, 0x00, 0x04] ++
    [0x50, 0x12] ++ keylessMessageAuthenticator

def keylessDigests : Digests :=
  { messageAuthenticator := fun _ _ => keylessMessageAuthenticator
    responseAuthenticator := fun _ _ => keylessAuthenticator
    decryptMsKey := fun _ _ => none }

theorem keyless_acceptance_sends_final_post :
    ¬ ∀ digests past s t i msg p call identity,
      ReachableUnder (recording (step digests)) (fun _ _ => True) (initialController, [])
        (s, past) →
      s.workers[i]? = some (.receiveRadiusMsg msg p) →
      processReceiveRadiusMsg digests s msg p call = .ok (t, identity) →
      FinalPostKeyed digests (past ++ [(s, .handle i call)]) s t p := by
  intro hstated
  have hrun : (run (step keylessDigests) initialController
      (answeredTwice keylessAcceptDatagram)).any (sendsFinalIn keylessDigests 2) = true := by
    decide +kernel
  obtain ⟨s, hs, hcheck⟩ := exists_of_run hrun
  obtain ⟨msg, p, t, identity, hworker, hresult, hsends, hstate⟩ := sendsFinalIn_eq_true hcheck
  obtain ⟨past, hpast⟩ := (reachable_of_run hs).recorded
  have hkeyed := hstated keylessDigests past s t 0 msg p {} identity hpast hworker hresult
  rw [hkeyed.1, hstate] at hsends
  exact absurd hsends (by decide)

end CoapEap.Mainserver
