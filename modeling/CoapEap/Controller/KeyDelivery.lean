import CoapEap.Controller.FinalPost
import CoapEap.Controller.RadiusExchange
import CoapEap.Controller.Refusal

/-!
From the keys of a RADIUS server to the session. An Access-Accept that was built for
the request of a waiting session gives it exactly these keys, whatever happened before,
and the session is driven to its final POST.
-/

namespace CoapEap.EapServer

variable {sm : EapSm} {rand : Nat}

/-- The states that a failed machine is in. -/
def FailedOnly (sm : EapSm) : Prop :=
  sm.portEnabled = true ∧
    (sm.eapFail = true → sm.eapState = .failure ∨ sm.eapState = .failure2)

theorem FailedOnly.entry {state : EapState} {before : EapSm} {changed : Bool} (h : FailedOnly sm)
    (hentering : Entering sm state before) :
    FailedOnly (onEntry { before with changed, eapState := state } rand state) := by
  have hkept := onEntry_keeps { before with changed, eapState := state } rand state
  have hentered := onEntry_entered { before with changed, eapState := state } rand state
  cases hentering with
  | restarted => exact ⟨h.1, fun hfail => by cases hfail⟩
  | exhausted => exact ⟨h.1, fun _ => .inl rfl⟩
  | next state _ hnext =>
    refine ⟨hkept.portEnabled.trans h.1, ?_⟩
    intro hfail
    rw [hkept.eapState]
    have hleft : sm.eapFail = false := by
      rw [Bool.eq_false_iff]
      intro hfailed
      rcases h.2 hfailed with hstate | hstate <;> simp [nextState, hstate] at hnext
    by_cases hfirst : state = .initializeState
    · subst hfirst
      cases hfail
    · rw [hentered.eapFail hfirst] at hfail
      simpa [hleft] using hfail

theorem FailedOnly.run (h : FailedOnly sm) (fuel : Nat) : FailedOnly (smLoop fuel sm rand) :=
  smLoop_keeps (fun _ h => h.1) (fun _ _ h => h) (fun _ _ _ _ h hin => h.entry hin) fuel h

/-- A waiting machine that is told of the success takes the key that came with it. -/
theorem accepted_run (hidle : sm.eapState = .aaaIdle) (henabled : sm.portEnabled = true)
    (hpending : sm.eapRestart = false) (hrounds : sm.numRounds ≤ eapMaxAuthRounds)
    (hrefused : sm.aaaFail = false) (hsuccess : sm.aaaSuccess = true) (rand : Nat) :
    eapServerSmStep sm rand = { onEntry { sm with eapState := .success2 } rand .success2 with
      changed := false } := by
  have hfirst : step { sm with changed := false } rand = enter sm rand .success2 :=
    step_next henabled hpending hrounds (by simp [nextState, hidle, hrefused, hsuccess])
  have hlast : smLoop 31 (enter sm rand .success2) rand =
      { enter sm rand .success2 with changed := false } :=
    @smLoop_stays (enter sm rand .success2) rand henabled hpending hrounds rfl 30
  rw [eapServerSmStep, smLoop_enter hfirst rfl, hlast]
  rfl

end CoapEap.EapServer

namespace CoapEap.Mainserver

open Cantcoap EapServer Lalarm Radius Library.Runs

/-- A datagram that starts with an Access-Accept as `radius.c` builds it for a request,
with the two keys in it. -/
def BuiltAccept (md5 : Bytes → Bytes) (secret : Bytes) (req : AccessRequest)
    (sendKey recvKey datagram : Bytes) : Prop :=
  ∃ before after random m m' extra,
    (∀ part ∈ before ++ after, part.plain ∧ part.keyless) ∧
    addParts md5 secret (radiusMsgNew accessAccept req.identifier)
      (before ++ .mppeKeys req.authenticator sendKey recvKey random :: after) = some m ∧
    radiusMsgFinishSrv md5 m secret req.authenticator = some m' ∧ datagram = m'.buf ++ extra

variable {md5 : Bytes → Bytes} {secret sendKey recvKey key datagram : Bytes}
variable {digests : Digests} {s t u : Controller} {p q : Ptr} {msg : RadiusMsg}
variable {req : AccessRequest} {entry : RadiusMsgList} {eap : EapSm}

theorem EapChange.failedOnly {x y : EapSm} (h : EapChange digests x y) (hx : FailedOnly x) :
    FailedOnly y := by
  have htaken : ∀ sm, FailedOnly sm → FailedOnly (responseTaken sm) := by
    intro sm hsm
    unfold responseTaken
    split
    · exact hsm
    · exact hsm
  cases h with
  | opened rand =>
    have hready : FailedOnly { x with eapRestart := true } := hx
    exact htaken _ (hready.run 32)
  | responded data rand =>
    have hready : FailedOnly { x with eapResp := true, eapRespData := some data } := hx
    exact htaken _ (hready.run 32)
  | answered msg req rand =>
    obtain ⟨aaaSuccess, aaaFail, aaaEapReq, aaaEapReqData, keyData, keyAvailable, heap⟩ :=
      answerEap_eq digests msg req x
    have hready : FailedOnly (answerEap digests msg req x) := by
      rw [heap]
      exact hx
    exact hready.run 32

theorem EapChange.unfaulted {x y : EapSm} (h : EapChange digests x y) : y.faulted = false := by
  have htaken : ∀ sm : EapSm, sm.faulted = false → (responseTaken sm).faulted = false := by
    intro sm hsm
    unfold responseTaken
    split
    · exact hsm
    · exact hsm
  cases h with
  | opened rand hsurvives => exact htaken _ hsurvives.faulted
  | responded data rand hsurvives => exact htaken _ hsurvives.faulted
  | answered msg req rand _ hsound => exact hsound

/-- A machine that waits for the RADIUS server, in any state of the controller. -/
structure Waits (eap : EapSm) : Prop where
  eapState : eap.eapState = .aaaIdle
  portEnabled : eap.portEnabled = true
  eapRestart : eap.eapRestart = false
  numRounds : eap.numRounds ≤ eapMaxAuthRounds
  aaaFail : eap.aaaFail = false
  eapFail : eap.eapFail = false
  faulted : eap.faulted = false
  eapReqData : eap.eapReqData.isSome

theorem waits (hreach : Reachable digests s) (hidle : (s.heap p).eapCtx.eap.eapState = .aaaIdle) :
    Waits (s.heap p).eapCtx.eap := by
  have hasking : Asking (s.heap p).eapCtx.eap := by
    rcases unstarted_or_asking hreach p with hnew | hasking
    · rw [hnew.eapState] at hidle
      cases hidle
    · exact hasking
  have hrest : AtRest (s.heap p).eapCtx.eap := (rested hreach p).atRest (.inr hasking.eapReqData)
  have hfailed : FailedOnly (s.heap p).eapCtx.eap :=
    eap_invariant ⟨rfl, fun hfail => by cases hfail⟩ (fun _ _ hchange hx => hchange.failedOnly hx)
      hreach p
  have hfail : (s.heap p).eapCtx.eap.eapFail = false := by
    rw [Bool.eq_false_iff]
    intro hset
    rcases hfailed.2 hset with hstate | hstate <;> rw [hstate] at hidle <;> cases hidle
  have hsound : (s.heap p).eapCtx.eap.faulted = false :=
    eap_invariant (P := fun sm => sm.faulted = false) rfl (fun _ _ hchange _ => hchange.unfaulted)
      hreach p
  exact ⟨hidle, hrest.portEnabled, hrest.eapRestart,
    hrest.numRounds.resolve_right (by simp [hfail]), hrest.aaaFail hidle, hfail, hsound,
    hasking.eapReqData⟩

/-- What a keyed acceptance writes into the interface of the machine. -/
theorem answerEap_accept (eap : EapSm) (hcode : msg.code = accessAccept)
    (hkey : masterSessionKey digests msg req = some key) :
    ∃ aaaEapReqData, answerEap digests msg req eap =
      { eap with
        aaaSuccess := true, aaaEapKeyData := some key, aaaEapKeyAvailable := true
        aaaEapReq := false, aaaEapReqData } := by
  simp only [answerEap, hcode, if_true, hkey, true_or, eapAuthDecapsulateRadius]
  split
  · exact ⟨_, rfl⟩
  · split
    · exact ⟨_, rfl⟩
    · exact ⟨_, rfl⟩

/-- The machine after an acceptance with a key. -/
structure Accepted (key : Bytes) (eap : EapSm) : Prop where
  eapState : eap.eapState = .success2
  eapFail : eap.eapFail = false
  eapSuccess : eap.eapSuccess = true
  eapReqData : eap.eapReqData.isSome
  eapKeyAvailable : eap.eapKeyAvailable = true
  eapKeyData : eap.eapKeyData = some key
  faulted : eap.faulted = false

theorem Waits.accepted (h : Waits eap) (hcode : msg.code = accessAccept)
    (hkey : masterSessionKey digests msg req = some key) (rand : Nat) :
    Accepted key (eapServerSmStep (answerEap digests msg req eap) rand) := by
  obtain ⟨data, hanswer⟩ := answerEap_accept eap hcode hkey
  obtain ⟨packet, hpacket⟩ := Option.isSome_iff_exists.mp h.eapReqData
  rw [hanswer, accepted_run]
  · refine ⟨rfl, h.eapFail, rfl, ?_, rfl, rfl, h.faulted⟩
    cases data with
    | none => simp [onEntry, copyBuf, hpacket]
    | some data => simp [onEntry, copyBuf]
  · exact h.eapState
  · exact h.portEnabled
  · exact h.eapRestart
  · exact h.numRounds
  · exact h.aaaFail
  · rfl

theorem acceptsAnswer_verified (hcode : msg.code = accessAccept)
    (hverified : radiusMsgVerify digests msg req = true) :
    acceptsAnswer digests msg req = true := by
  simp [acceptsAnswer, hcode, hverified]

/-- What was built for a request passes the checks and has the keys in it. -/
theorem BuiltAccept.keys (h : BuiltAccept md5 secret req sendKey recvKey datagram)
    (hmd5 : ∀ data, (md5 data).length = md5MacLen) (hauth : req.authenticator.length = 16)
    (hrecv : recvKey ≠ []) (hwhole : recvKey.length + sendKey.length = 64)
    (hparse : radiusMsgParse datagram = some msg) :
    msg.code = accessAccept ∧ acceptsAnswer (digestsOf md5 secret) msg req = true ∧
      masterSessionKey (digestsOf md5 secret) msg req = some (recvKey ++ sendKey) := by
  obtain ⟨before, after, random, m, m', extra, hplain, hbuilt, hfinish, rfl⟩ := h
  have hcode : (UInt8.ofNat accessAccept).toNat = accessAccept := rfl
  rw [← hcode] at hbuilt
  rw [finished_answer hmd5 hauth hbuilt hfinish extra, Option.some.injEq] at hparse
  subst hparse
  have hparts : ∀ part ∈ before ++ .mppeKeys req.authenticator sendKey recvKey random :: after,
      part.plain := by
    intro part hpart
    rcases List.mem_append.mp hpart with hfront | hback
    · exact (hplain part (List.mem_append_left _ hfront)).1
    · rcases List.mem_cons.mp hback with rfl | hafter
      · exact trivial
      · exact (hplain part (List.mem_append_right _ hafter)).1
  have hverified : radiusMsgVerify (digestsOf md5 secret)
      (answerOf md5 secret (UInt8.ofNat accessAccept) req.identifier
        (before ++ .mppeKeys req.authenticator sendKey recvKey random :: after)
        req.authenticator) req = true :=
    radiusMsgVerify_answered hmd5 (not_msgAuth_partsAttrs hparts) req
  refine ⟨hcode, ?_, ?_⟩
  · exact acceptsAnswer_verified hcode hverified
  · rw [built_answer_keys md5 hmd5 secret (UInt8.ofNat accessAccept) req.identifier before after
      sendKey recvKey random req (fun part hpart => (hplain part hpart).2) (by omega) (by omega),
    if_pos ⟨hrecv, hwhole⟩]

/-- The answer finds the machine of the session waiting and gives it the key. -/
theorem radiusClientReceive_accepted (hreach : Reachable digests s)
    (hwaiting : matching s.radius msg.identifier = some entry)
    (hfound : searchEapCtxRadClient s msg.identifier = some p)
    (hidle : (s.heap p).eapCtx.eap.eapState = .aaaIdle) (hcode : msg.code = accessAccept)
    (haccepted : acceptsAnswer digests msg entry.msg = true)
    (hkey : masterSessionKey digests msg entry.msg = some key) (call : Call) :
    ∃ u eap, radiusClientReceive digests s msg call = .ok u ∧ Accepted key eap ∧
      u = Controller.setSession { s with radius := removeMatching s.radius msg.identifier } p
        { s.heap p with eapCtx := { (s.heap p).eapCtx with eap, lastRecvRadius := some msg } } := by
  have hran := (waits hreach hidle).accepted hcode hkey call.rand
  have hsearch : searchEapCtxRadClient
      { s with radius := removeMatching s.radius msg.identifier } msg.identifier = some p := hfound
  refine ⟨_, _, ?_, hran, rfl⟩
  simp only [radiusClientReceive, hwaiting, haccepted, Bool.true_eq_false, if_false, hsearch,
    hran.faulted, Bool.false_eq_true]

/-- A session with a key and a location sends its final POST. -/
theorem sendRadiusPost_accepted {packet : Bytes} {call : Call}
    (heap : Accepted key (s.heap p).eapCtx.eap) (hlocation : (s.heap p).location.isSome)
    (hsent : call.sent = true) :
    sendRadiusPost s p packet call =
      .ok ((armPost s p (radiusPostSession (s.heap p))
        (radiusPost (radiusPostSession (s.heap p)) packet) call.now).record
          [.sentPost p ((radiusPostSession (s.heap p)).posts + 1)]) := by
  have hlocated : (s.heap p).location ≠ none := Option.isSome_iff_ne_none.mp hlocation
  have hkeyed : ¬ ((s.heap p).eapCtx.eap.eapKeyAvailable = true ∧
      (s.heap p).eapCtx.eap.eapKeyData = none) := by
    simp [heap.eapKeyData]
  obtain ⟨t, ht⟩ : ∃ t, sendRadiusPost s p packet call = .ok t := by
    simp only [sendRadiusPost, if_neg hlocated, if_neg hkeyed, if_pos hsent]
    exact ⟨_, rfl⟩
  rcases (sendRadiusPost_ok ht).2 with ⟨-, rfl⟩ | ⟨hfailed, -⟩
  · exact ht
  · rw [hsent] at hfailed
    cases hfailed

/-- An Access-Accept that a server builds with the secret of the controller for a waiting
request gives the keys that the server put in to the session that is found under its
identifier, where that session's machine waits: it sends its final POST, and every other
session is left as it was. -/
theorem built_accept_keys_session (md5 : Bytes → Bytes)
    (hmd5 : ∀ data, (md5 data).length = md5MacLen) (secret : Bytes) (s : Controller)
    (hreach : Reachable (digestsOf md5 secret) s) (hrunning : s.halted = none) (i : Nat)
    (call : Call) (msg : RadiusMsg) (p : Ptr) (entry : RadiusMsgList)
    (sendKey recvKey datagram : Bytes)
    (hworker : s.workers[i]? = some (.receiveRadiusMsg msg p))
    (hfree : (s.heap p).mutex = false)
    (hwaiting : matching s.radius msg.identifier = some entry)
    (hfound : searchEapCtxRadClient s msg.identifier = some p)
    (hidle : (s.heap p).eapCtx.eap.eapState = .aaaIdle)
    (hseen : (s.heap p).eapWorkarround ≠ 0) (hlocation : (s.heap p).location.isSome)
    (hsent : call.sent = true) (hauth : entry.msg.authenticator.length = 16)
    (hbuilt : BuiltAccept md5 secret entry.msg sendKey recvKey datagram)
    (hparse : radiusMsgParse datagram = some msg)
    (hrecv : recvKey ≠ []) (hwhole : recvKey.length + sendKey.length = 64) :
    ∃ t, step (digestsOf md5 secret) s (.handle i call) = some t ∧ t.halted = none ∧
      (t.heap p).mskKey = some (recvKey ++ sendKey) ∧ (t.heap p).currentState = 3 ∧
      sendsFinalPost s t p = true ∧ t.radius = removeMatching s.radius msg.identifier ∧
      ∀ q ≠ p, t.heap q = s.heap q := by
  obtain ⟨hcode, haccepted, hkey⟩ := hbuilt.keys hmd5 hauth hrecv hwhole hparse
  obtain ⟨u, eap, hreceived, heap, hu⟩ :=
    radiusClientReceive_accepted hreach hwaiting hfound hidle hcode haccepted hkey call
  have hsession : u.heap p =
      { s.heap p with eapCtx := { (s.heap p).eapCtx with eap, lastRecvRadius := some msg } } := by
    rw [hu, Controller.setSession_heap_self]
  have hmachine : Accepted (recvKey ++ sendKey) (u.heap p).eapCtx.eap := by
    rw [hsession]
    exact heap
  have hlocated : (u.heap p).location.isSome := by
    rw [hsession]
    exact hlocation
  have hworkarround : (u.heap p).eapWorkarround ≠ 0 := by
    rw [hsession]
    exact hseen
  obtain ⟨packet, hpacket⟩ := Option.isSome_iff_exists.mp hmachine.eapReqData
  set session := radiusPostSession (u.heap p) with hpost
  set t := (armPost u p session (radiusPost session packet) call.now).record
    [.sentPost p (session.posts + 1)] with ht
  have hhandled : processReceiveRadiusMsg (digestsOf md5 secret) s msg p call =
      .ok (t, false) := by
    simp only [processReceiveRadiusMsg, hreceived, bind, Except.bind, hmachine.eapFail,
      Bool.false_eq_true, if_false, hmachine.eapSuccess, or_true, if_true, hpacket, hworkarround,
      sendRadiusPost_accepted hmachine hlocated hsent]
    rfl
  have hstored : t.heap p = storePost session (radiusPost session packet) := by
    rw [ht, Controller.record_heap, armPost_session]
  have hstep : step (digestsOf md5 secret) s (.handle i call) = some (endWorker t i) := by
    simp only [step, hrunning, Option.isSome_none, Bool.false_eq_true, if_false, hworker,
      Option.bind_some, handleStep, hfree, hhandled, Except.map, Option.map_some, conclude]
  have hlog : u.log = s.log := by
    rw [hu]
    rfl
  have hshort : ShortLocation session := by
    have hbefore := (storesPosts hreach p).location
    have hsame : session.location = (s.heap p).location := by
      rw [hpost, radiusPostSession, hsession]
    unfold ShortLocation
    rw [hsame]
    exact hbefore
  have hfinal : t.log = s.log ++ [.sentPost p (session.posts + 1)] := by
    rw [ht, Controller.record_log, armPost_log, hlog]
  have hsuccess : session.eapCtx.eap.eapSuccess = true := hmachine.eapSuccess
  have hkeyed : session.mskKey = some (recvKey ++ sendKey) := by
    have htake : (recvKey ++ sendKey).take 64 = recvKey ++ sendKey := by
      apply List.take_of_length_le
      rw [List.length_append, hwhole]
    simp only [hpost, radiusPostSession, hmachine.eapKeyAvailable, if_true, hmachine.eapKeyData,
      Option.map_some, htake]
  refine ⟨endWorker t i, hstep, ?_, ?_, ?_, ?_, ?_, ?_⟩
  · have hhalted : t.halted = u.halted := rfl
    rw [endWorker, hhalted, hu]
    exact hrunning
  · rw [endWorker, hstored]
    exact hkeyed
  · rw [endWorker, hstored]
    simp only [storePost, hpost, radiusPostSession, hmachine.eapKeyAvailable, if_true]
  · simp only [sendsFinalPost, endWorker, hfinal, List.drop_left, hstored, storePost,
      List.any_cons, Option.any_some, isFinalPost_radiusPost hshort, hsuccess]
    simp
  · have hradius : t.radius = u.radius := rfl
    rw [endWorker, hradius, hu]
    rfl
  · intro q hq
    have hothers : t.heap q = u.heap q := by
      simp only [ht, Controller.record_heap, armPost, addPostAlarm, cancelPostAlarm]
      exact Controller.setSession_heap_ne u _ hq
    rw [endWorker, hothers, hu, Controller.setSession_heap_ne _ _ hq]

/-- What a server with the secret sends back for the request with this authenticator. -/
def builtAnswer (code : Nat) (identifier : UInt8) (parts : List Part) : Option RadiusBuf :=
  (addParts Radius.md5 [0x73] (radiusMsgNew code identifier) parts).bind fun m =>
    radiusMsgFinishSrv Radius.md5 m [0x73] requestAuthenticator

/-- An EAP success and the keys. -/
def acceptParts : List Part :=
  [.eap [3, 1, 0, 4]] ++
    .mppeKeys requestAuthenticator (List.replicate 32 1) (List.replicate 32 2) 5 :: []

def acceptDatagram : Bytes :=
  ((builtAnswer accessAccept 1 acceptParts).map RadiusBuf.buf).getD []

/-- A device is challenged, answers with the identity of the controller, and is accepted.
The acceptance is left in the hands of the worker. -/
def challengedAndAccepted : List Event :=
  comesIn 1 ++
    [.recvCoap (ackDatagram 1 1) ⟨[1], 5683⟩ {}, .lockAcknowledgment, .getTask, .lookup 0 [],
      .handle 0 { authenticator := requestAuthenticator },
      .recvRadius (((builtAnswer accessChallenge 0 [.eap [1, 2, 0, 6, 4, 0]]).map
        RadiusBuf.buf).getD []), .getTask, .lookup 0 [], .handle 0 {},
      .handle 0 { authenticator := requestAuthenticator },
      .recvRadius acceptDatagram, .getTask, .lookup 0 []]

/-- The worker holds the parsed acceptance for a session that waits for it. -/
def holdsAcceptance (s : Controller) : Bool :=
  match s.workers[(0 : Nat)]? with
  | some (.receiveRadiusMsg msg p) =>
    s.halted = none && radiusMsgParse acceptDatagram = some msg &&
      (matching s.radius msg.identifier).any (fun entry =>
        entry.msg.identifier = 1 && entry.msg.authenticator = requestAuthenticator) &&
      searchEapCtxRadClient s msg.identifier = some p && !(s.heap p).mutex &&
      (s.heap p).eapCtx.eap.eapState = .aaaIdle && (s.heap p).eapWorkarround ≠ 0 &&
      (s.heap p).location.isSome
  | _ => false

theorem accepted_session_keyed : ∃ s t p, Reachable (digestsOf Radius.md5 [0x73]) s ∧
    step (digestsOf Radius.md5 [0x73]) s (.handle 0 {}) = some t ∧
    (t.heap p).mskKey = some (List.replicate 32 2 ++ List.replicate 32 1) ∧
    sendsFinalPost s t p = true := by
  have hrun : (run (step (digestsOf Radius.md5 [0x73])) initialController
      challengedAndAccepted).any holdsAcceptance = true := by
    decide +kernel
  obtain ⟨s, hs, hcheck⟩ := exists_of_run hrun
  unfold holdsAcceptance at hcheck
  split at hcheck
  · rename_i msg p hworker
    simp only [Bool.and_eq_true, decide_eq_true_eq, Bool.not_eq_true', Option.any_eq_true]
      at hcheck
    obtain ⟨⟨⟨⟨⟨⟨⟨hrunning, hparse⟩, entry, hwaiting, hid, hauth⟩, hfound⟩, hfree⟩, hidle⟩,
      hseen⟩, hlocation⟩ := hcheck
    have hanswer : ((addParts Radius.md5 [0x73] (radiusMsgNew accessAccept 1) acceptParts).bind
        fun m => radiusMsgFinishSrv Radius.md5 m [0x73] requestAuthenticator).isSome = true := by
      decide +kernel
    obtain ⟨m', hm'⟩ := Option.isSome_iff_exists.mp hanswer
    obtain ⟨m, hbuilt, hfinish⟩ := Option.bind_eq_some_iff.mp hm'
    have hdatagram : acceptDatagram = m'.buf ++ [] := by
      rw [List.append_nil, acceptDatagram, builtAnswer, hm']
      rfl
    have haccept : BuiltAccept Radius.md5 [0x73] entry.msg (List.replicate 32 1)
        (List.replicate 32 2) acceptDatagram := by
      refine ⟨[.eap [3, 1, 0, 4]], [], 5, m, m', [], ?_, ?_, ?_, hdatagram⟩
      · simp [Part.plain, Part.keyless]
      · rw [hid, hauth]
        exact hbuilt
      · rw [hauth]
        exact hfinish
    have hreach := reachable_of_run hs
    obtain ⟨t, hstep, -, hkey, -, hsends, -⟩ := built_accept_keys_session Radius.md5 md5_length
      [0x73] s hreach hrunning 0 {} msg p entry (List.replicate 32 1) (List.replicate 32 2)
      acceptDatagram hworker hfree hwaiting hfound hidle hseen hlocation rfl
      (by rw [hauth]; rfl) haccept hparse (by simp) rfl
    exact ⟨s, t, p, hreach, hstep, hkey, hsends⟩
  · simp at hcheck

end CoapEap.Mainserver
