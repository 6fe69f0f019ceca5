import CoapEap.Controller.EapResponses
import CoapEap.Controller.Stranding

/-!
The identity response that the controller makes for the first answer of the
RADIUS server. It is made by patching a copy of the EAP request in `eap_req_id`,
which all sessions share: the identifier, the high byte of the length and the
type are left as the request has them, and another session may write the buffer
before the response is read out of it.
-/

namespace CoapEap.Mainserver

open Cantcoap EapServer Lalarm Radius Library.Runs Relation

def HasHeader (data : Option Bytes) : Prop := ∀ packet, data = some packet → 4 ≤ packet.length

/-- Whatever a machine may send as a request has the four bytes of the header. -/
structure Headed (sm : EapSm) : Prop where
  portEnabled : sm.portEnabled = true
  eapReqData : HasHeader sm.eapReqData
  lastReqData : HasHeader sm.lastReqData
  aaaEapReqData : HasHeader sm.aaaEapReqData

theorem headed_initialSm : Headed initialSm where
  portEnabled := rfl
  eapReqData := by simp [HasHeader, initialSm]
  lastReqData := by simp [HasHeader, initialSm]
  aaaEapReqData := by simp [HasHeader, initialSm]

theorem hasHeader_none : HasHeader none := by
  intro packet h
  exact absurd h (by simp)

theorem hasHeader_of_length {packet : Bytes} (h : 4 ≤ packet.length) :
    HasHeader (some packet) := by
  intro other hother
  obtain rfl := Option.some.inj hother
  exact h

theorem hasHeader_copyBuf {dst src : Option Bytes} (hdst : HasHeader dst)
    (hsrc : HasHeader src) : HasHeader (copyBuf dst src) := by
  cases src with
  | none => exact hdst
  | some data => exact hsrc

theorem Headed.onEntry {sm : EapSm} {rand : Nat} {state : EapState} (hsm : Headed sm) :
    Headed (onEntry sm rand state) := by
  obtain ⟨henabled, hreq, hlast, haaa⟩ := hsm
  cases state with
  | received | received2 =>
    obtain ⟨rxResp, respId, respMethod, vendor, method, hparse⟩ :=
      parseEapResp_eq sm sm.eapRespData
    simp only [EapServer.onEntry, hparse]
    exact ⟨henabled, hreq, hlast, haaa⟩
  | selectAction =>
    obtain ⟨decision, startReauth, hdecision⟩ := getDecision_eq sm
    simp only [EapServer.onEntry, hdecision]
    exact ⟨henabled, hreq, hlast, haaa⟩
  | retransmit | retransmit2 =>
    simp only [EapServer.onEntry, retransmit]
    split
    · exact ⟨henabled, hlast, hlast, haaa⟩
    · exact ⟨henabled, hreq, hlast, haaa⟩
  | methodRequest =>
    simp only [EapServer.onEntry]
    split
    · exact ⟨henabled, hreq, hlast, haaa⟩
    · exact ⟨henabled, hasHeader_of_length (by simp [identityRequest]), hlast, haaa⟩
  | integrityCheck | methodResponse | proposeMethod =>
    simp only [EapServer.onEntry]
    repeat' split
    all_goals exact ⟨henabled, hreq, hlast, haaa⟩
  | sendRequest | sendRequest2 =>
    simp only [EapServer.onEntry, sendRequest]
    split
    · rename_i data hdata
      have hdata : sm.eapReqData = some data := hdata
      rw [hdata] at hreq
      exact ⟨henabled, hdata ▸ hreq, hreq, haaa⟩
    · exact ⟨henabled, hreq, hlast, haaa⟩
  | success | failure =>
    exact ⟨henabled, hasHeader_of_length (by simp), hasHeader_none, haaa⟩
  | aaaResponse | failure2 | success2 =>
    exact ⟨henabled, hasHeader_copyBuf hreq haaa, hlast, haaa⟩
  | _ => exact ⟨henabled, hreq, hlast, haaa⟩

theorem Headed.run {sm : EapSm} {rand : Nat} (hsm : Headed sm) :
    Headed (eapServerSmStep sm rand) := by
  refine smLoop_keeps (fun _ h => h.portEnabled) ?_ ?_ 32 hsm
  · intro sm changed h
    exact ⟨h.portEnabled, h.eapReqData, h.lastReqData, h.aaaEapReqData⟩
  · intro sm state before changed h hin
    have hbefore : Headed { before with changed, eapState := state } := by
      cases hin <;> exact ⟨h.portEnabled, h.eapReqData, h.lastReqData, h.aaaEapReqData⟩
    exact hbefore.onEntry

theorem headed_responseTaken {sm : EapSm} (h : Headed sm) : Headed (responseTaken sm) := by
  unfold responseTaken
  split
  · exact ⟨h.portEnabled, h.eapReqData, h.lastReqData, h.aaaEapReqData⟩
  · exact h

/-- What is too short for a header is not taken out of an answer. -/
theorem headed_answerEap {sm : EapSm} (h : Headed sm) (digests : Digests) (msg : RadiusMsg)
    (req : AccessRequest) : Headed (answerEap digests msg req sm) := by
  have hdata : HasHeader (answerEap digests msg req sm).aaaEapReqData := by
    simp only [answerEap, eapAuthDecapsulateRadius]
    cases masterSessionKey digests msg req <;> repeat' split
    all_goals first
      | exact h.aaaEapReqData
      | exact hasHeader_of_length (Nat.le_of_not_lt ‹_›)
  obtain ⟨aaaSuccess, aaaFail, aaaEapReq, aaaEapReqData, keyData, keyAvailable, heap⟩ :=
    answerEap_eq digests msg req sm
  rw [heap] at hdata ⊢
  exact ⟨h.portEnabled, h.eapReqData, h.lastReqData, hdata⟩

variable {digests : Digests}

theorem EapChange.headed {x y : EapSm} (h : EapChange digests x y) (hx : Headed x) :
    Headed y := by
  cases h with
  | opened rand =>
    have hready : Headed { x with eapRestart := true } :=
      ⟨hx.portEnabled, hx.eapReqData, hx.lastReqData, hx.aaaEapReqData⟩
    exact headed_responseTaken hready.run
  | responded data rand =>
    have hready : Headed { x with eapResp := true, eapRespData := some data } :=
      ⟨hx.portEnabled, hx.eapReqData, hx.lastReqData, hx.aaaEapReqData⟩
    exact headed_responseTaken hready.run
  | answered msg req rand => exact (headed_answerEap hx digests msg req).run

theorem headed {guard : Controller → Event → Prop} {s : Controller}
    (h : ReachableUnder (step digests) guard initialController s) (p : Ptr) :
    Headed (s.heap p).eapCtx.eap :=
  eap_invariant headed_initialSm (fun _ _ hchange hx => hchange.headed hx) h p

/-- The session that enters the identity workaround in a step, and the EAP request
it enters it with. -/
def answersIdentity (digests : Digests) (s : Controller) : Event → Option (Ptr × Bytes)
  | .handle i call =>
    match s.workers[i]? with
    | some (.receiveRadiusMsg msg p) =>
      match processReceiveRadiusMsg digests s msg p call,
          radiusClientReceive digests s msg call with
      | .ok (_, true), .ok u => (u.heap p).eapCtx.eap.eapReqData.map fun packet => (p, packet)
      | _, _ => none
    | _ => none
  | _ => none

/-- The session that is given its identity response in a step. -/
def handsIdentity (s : Controller) : Event → Option Ptr
  | .handle i _ =>
    match s.workers[i]? with
    | some (.radiusIdentity p) => some p
    | _ => none
  | _ => none

/-- The response as the hand-over reads it out of `eap_req_id`. -/
def handedIdentity (s : Controller) (p : Ptr) : Bytes :=
  s.eapReqId.take (5 + (s.heap p).userId.length)

/-- An EAP-Response of type Identity. -/
def identityAnswer (identifier : UInt8) (userId : Bytes) : Bytes :=
  [UInt8.ofNat eapCodeResponse, identifier] ++ be16 (5 + userId.length) ++
    [UInt8.ofNat eapTypeIdentity] ++ userId

/-- Where the writes to `eap_req_id` end: the copy of the request, the zeroes
behind the header, and the user name, which is copied with five bytes more than
it has. -/
def eapReqIdEnd (packet : Bytes) : Nat :=
  max packet.length (max (5 + 45) (5 + (5 + alphaUserId.length)))

/-- Every request was copied within `eap_req_id`, and every response handed over is
the answer to the request of its own session. -/
structure OwnIdentities (digests : Digests) (past : List (Controller × Event)) : Prop where
  inside : ∀ x ∈ past, ∀ p packet, answersIdentity digests x.1 x.2 = some (p, packet) →
    eapReqIdEnd packet ≤ 50
  asked : ∀ y ∈ past, ∀ p, handsIdentity y.1 y.2 = some p →
    ∃ x ∈ past, ∃ packet, answersIdentity digests x.1 x.2 = some (p, packet)
  own : ∀ y ∈ past, ∀ p, handsIdentity y.1 y.2 = some p →
    ∀ x ∈ past, ∀ packet, answersIdentity digests x.1 x.2 = some (p, packet) →
      handedIdentity y.1 p = identityAnswer (packet.getD 1 0) (y.1.heap p).userId

/-- The request is one of type Identity that fits the buffer, with a length below
256, and no other worker is inside the workaround. A request without a type
leaves the byte that the buffer held. -/
def patchesOwnRequest (digests : Digests) (s : Controller) (e : Event) : Bool :=
  match answersIdentity digests s e with
  | none => true
  | some (_, packet) =>
    packet.length ≤ 50 && packet.getD 2 0 = 0 &&
      (packet ++ s.eapReqId.drop packet.length).getD 4 0 = UInt8.ofNat eapTypeIdentity &&
      s.workers.all fun
        | .radiusIdentity _ => false
        | _ => true

variable {s t u : Controller} {e : Event} {p q : Ptr} {call : Call} {i : Nat}
variable {packet : Bytes} {msg : RadiusMsg}

/-- A handler that ends inside the workaround has patched its request. -/
theorem answersIdentity_of_wrote (hworker : s.workers[i]? = some (.receiveRadiusMsg msg p))
    (h : processReceiveRadiusMsg digests s msg p call = .ok (t, true)) :
    ∃ u packet, radiusClientReceive digests s msg call = .ok u ∧
      (u.heap p).eapCtx.eap.eapReqData = some packet ∧ (u.heap p).eapWorkarround = 0 ∧
      t = identityWorkarround u p packet ∧
      answersIdentity digests s (.handle i call) = some (p, packet) := by
  obtain ⟨u, hu, -, ⟨-, -, -, hidentity⟩ | ⟨packet, hpacket, ⟨hfirst, ht, -⟩ |
    ⟨-, -, hidentity⟩⟩⟩ := processReceiveRadiusMsg_ok h
  · exact Bool.noConfusion hidentity
  · refine ⟨u, packet, hu, hpacket, hfirst, ht, ?_⟩
    simp [answersIdentity, hworker, h, hu, hpacket]
  · exact Bool.noConfusion hidentity

/-- What is left in the buffer is the answer to the request when the request has no
high byte in its length and the type Identity. -/
theorem identityResponse_take {eapReqId : Bytes} (hlength : 4 ≤ packet.length)
    (hshort : packet.length ≤ 50) (hhigh : packet.getD 2 0 = 0)
    (htype : (packet ++ eapReqId.drop packet.length).getD 4 0 = UInt8.ofNat eapTypeIdentity) :
    (identityResponse eapReqId packet).take (5 + alphaUserId.length) =
      identityAnswer (packet.getD 1 0) alphaUserId := by
  have hwhole : packet.take 50 = packet := List.take_of_length_le hshort
  have hcopied : ∀ i < 4,
      (packet ++ eapReqId.drop packet.length).getD i 0 = packet.getD i 0 := by
    intro i hi
    have hinside : i < packet.length := by omega
    simp [List.getElem?_append_left hinside]
  simp only [identityResponse, hwhole, hcopied 1 (by omega), hcopied 2 (by omega), hhigh, htype]
  rfl

/-- The workaround steps its session's EAP layer with what it read. -/
theorem identityHandOver_stepsWith (s : Controller) (p : Ptr) (call : Call) :
    StepsWith s p call (handedIdentity s p) (identityHandOver s p call) :=
  stepSession_stepsWith rfl rfl

theorem radiusClientReceive_eapReqId (h : radiusClientReceive digests s msg call = .ok t) :
    t.eapReqId = s.eapReqId := by
  rcases radiusClientReceive_ok h with ⟨-, rfl⟩ | ⟨entry, -, ⟨-, rfl⟩ | ⟨-, q, eap, -, -, -, rfl⟩⟩
  · rfl
  · rfl
  · rfl

theorem radiusClientReceive_headed (hs : Headed (s.heap q).eapCtx.eap)
    (h : radiusClientReceive digests s msg call = .ok t) : Headed (t.heap q).eapCtx.eap := by
  rcases radiusClientReceive_change h q with hsame | hchange
  · rw [hsame]
    exact hs
  · rcases hchange.eapChange with hsame | hchange
    · rw [hsame]
      exact hs
    · exact hchange.headed hs

/-- A session enters the workaround: for the first time, with a request that has a
header, and the buffer is written. -/
structure Enters (s t : Controller) (p : Ptr) (packet : Bytes) : Prop where
  made : p < s.nextPtr
  header : 4 ≤ packet.length
  first : (s.heap p).eapWorkarround = 0
  counted : (t.heap p).eapWorkarround ≠ 0
  written : t.eapReqId = identityResponse s.eapReqId packet
  inside : ∀ q, .radiusIdentity q ∈ t.activities → q = p ∨ .radiusIdentity q ∈ s.activities

theorem answersIdentity_enters (hreach : Reachable digests s)
    (ha : answersIdentity digests s e = some (p, packet)) (h : step digests s e = some t) :
    Enters s t p packet := by
  cases e with
  | handle i call =>
    simp only [answersIdentity] at ha
    split at ha
    · rename_i msg q hworker
      split at ha
      · rename_i v u hresult hreceived
        obtain ⟨packet', hpacket, heq⟩ := Option.map_eq_some_iff.mp ha
        obtain ⟨rfl, rfl⟩ := Prod.mk.injEq .. ▸ heq
        obtain ⟨u', packet, hu', hpacket', hfirst, rfl, -⟩ :=
          answersIdentity_of_wrote hworker hresult
        obtain rfl : u = u' := Except.ok.inj (hreceived.symm.trans hu')
        obtain rfl := Option.some.inj (hpacket.symm.trans hpacket')
        have hrunning : s.halted.isSome = false := by
          simp [(step_move h).1]
        simp only [step, hrunning, Bool.false_eq_true, if_false, hworker, Option.bind_some,
          handleStep, hresult, Except.map, Option.map_eq_some_iff, Option.ite_none_left_eq_some,
          Option.some.injEq, if_true] at h
        obtain ⟨result, ⟨-, rfl⟩, hconclude⟩ := h
        obtain rfl : setWorker (identityWorkarround u q packet') i (.radiusIdentity q) = t :=
          hconclude
        have hmem := mem_activities_of_worker hworker
        have htouches := touches_radiusClientReceive q hreceived
        have hsession := radiusClientReceive_session hreceived q
        have hheaded := radiusClientReceive_headed (headed hreach q) hreceived
        have hbuffer := radiusClientReceive_eapReqId hreceived
        refine ⟨?_, hheaded.eapReqData _ hpacket, ?_, ?_, ?_, ?_⟩
        · exact (wellFormed hreach).activities _ hmem q (by simp [Worker.pointers])
        · rw [hsession] at hfirst
          exact hfirst
        · simp [setWorker, identityWorkarround, cancelPostAlarm]
        · rw [← hbuffer]
          rfl
        · intro r hr
          rcases mem_activities_setWorker hr with heq | hold
          · exact .inl (Worker.radiusIdentity.inj heq)
          · have hran := htouches.trans (touches_identityWorkarround u q packet')
            exact .inr (hran.activities ▸ hold)
      · simp at ha
    · simp at ha
  | _ => simp [answersIdentity] at ha

/-- Only entering the workaround writes the buffer. -/
theorem step_eapReqId (hnone : answersIdentity digests s e = none)
    (h : step digests s e = some t) :
    t.eapReqId = s.eapReqId ∧ ∀ q, .radiusIdentity q ∈ t.activities →
      .radiusIdentity q ∈ s.activities := by
  obtain ⟨-, hmove⟩ := step_move h
  constructor
  · cases hmove with
    | handledCoap i call task p u _ _ hresult =>
      obtain ⟨v, session, packet, -, ⟨_, -, hstep⟩, -, -, rfl⟩ := processCoapMsg_ok hresult
      have hsame := (stepSession_session hstep).2.2.2
      simpa [endWorker, armPost, addPostAlarm, cancelPostAlarm] using hsame
    | handledAcknowledgment i call task post p u _ _ hresult =>
      obtain ⟨request, v, -, rfl, ⟨-, -, hstep⟩ | ⟨-, rfl⟩ | ⟨-, -, rfl⟩⟩ :=
        processAcknowledgment_ok hresult
      · exact (stepSession_session hstep).2.2.2
      · rfl
      · rfl
    | handledRadius i call msg p u hworker _ hresult =>
      obtain ⟨v, hv, -, ⟨-, -, rfl, -⟩ | ⟨packet, -, ⟨-, -, hinside⟩ | ⟨-, hsend, -⟩⟩⟩ :=
        processReceiveRadiusMsg_ok hresult
      · have hsame := radiusClientReceive_eapReqId hv
        exact hsame
      · exact Bool.noConfusion hinside
      · have hsame := radiusClientReceive_eapReqId hv
        rcases (sendRadiusPost_ok hsend).2 with ⟨-, rfl⟩ | ⟨-, rfl⟩
        · exact hsame
        · exact hsame
    | wroteIdentity i call msg p u hworker _ hresult =>
      obtain ⟨v, packet, -, -, -, -, ha⟩ := answersIdentity_of_wrote hworker hresult
      simp [hnone] at ha
    | handedIdentity i call p u _ hresult => exact (stepSession_session hresult).2.2.2
    | handledRetr i call origin id p u _ _ hresult =>
      rcases processRetrCoapEap_ok hresult with ⟨-, rfl⟩ | ⟨-, session, v, rfl, rfl,
        ⟨-, -, rfl⟩ | ⟨-, pdu, -, -, rfl⟩ | ⟨-, rfl⟩⟩ <;> rfl
    | _ => rfl
  · intro q hq
    cases hmove with
    | wroteIdentity i call msg p u hworker _ hresult =>
      obtain ⟨v, packet, -, -, -, -, ha⟩ := answersIdentity_of_wrote hworker hresult
      simp [hnone] at ha
    | handledCoap i call task p u _ _ hresult =>
      exact (touches_processCoapMsg hresult).activities ▸ mem_activities_of_others hq
    | handledAcknowledgment i call task post p u _ _ hresult =>
      exact (touches_processAcknowledgment hresult).activities ▸ mem_activities_of_others hq
    | handledRadius i call msg p u _ _ hresult =>
      exact (touches_processReceiveRadiusMsg hresult).activities ▸ mem_activities_of_others hq
    | handedIdentity i call p u _ hresult =>
      exact (touches_identityHandOver hresult).activities ▸ mem_activities_of_others hq
    | handledRetr i call origin id p u _ _ hresult =>
      exact (touches_processRetrCoapEap hresult).activities ▸ mem_activities_of_others hq
    | ended => exact hq
    | ignored => exact hq
    | _ =>
      rcases step_activities h _ hq with hold | harises
      · exact hold
      · cases harises

theorem SessionChange.workarround {x y : Session} (h : SessionChange digests x y) :
    x.eapWorkarround ≤ y.eapWorkarround := by
  cases h with
  | wroteIdentity => exact Nat.le_succ _
  | posted packet => exact Nat.le_of_eq (by simp [storePost, radiusPostSession])
  | sendFailed => exact Nat.le_of_eq (by simp [radiusPostSession])
  | _ => exact Nat.le_refl _

/-- A session that entered the workaround never stands before it again. -/
theorem step_entered (hshort : ShortRequests s) (h : step digests s e = some t)
    (hmade : p < s.nextPtr) (hentered : (s.heap p).eapWorkarround ≠ 0) :
    (t.heap p).eapWorkarround ≠ 0 := by
  rcases step_session hshort h p with ⟨hnew, -⟩ | hchanges
  · exact absurd hnew (Nat.ne_of_lt hmade)
  · refine sessionChanges_keep (P := fun x => x.eapWorkarround ≠ 0) ?_ hchanges hentered
    intro x y hchange hx
    exact Nat.ne_of_gt (Nat.lt_of_lt_of_le (Nat.pos_of_ne_zero hx) hchange.workarround)

/-- The user name of a session that entered the workaround. -/
theorem userId_alpha {guard : Controller → Event → Prop}
    (h : ReachableUnder (step digests) guard initialController s)
    (hentered : (s.heap p).eapWorkarround ≠ 0) : (s.heap p).userId = alphaUserId := by
  have hkept : ∀ x y, SessionChange digests x y →
      (x.eapWorkarround = 0 ∨ x.userId = alphaUserId) →
        y.eapWorkarround = 0 ∨ y.userId = alphaUserId := by
    intro x y hchange hx
    cases hchange with
    | wroteIdentity => exact .inr rfl
    | posted packet => simpa [storePost, radiusPostSession] using hx
    | sendFailed => simpa [radiusPostSession] using hx
    | _ => exact hx
  rcases session_invariant (fun _ _ _ => .inl rfl) hkept h p with hzero | halpha
  · exact absurd hzero hentered
  · exact halpha

/-- What holds while a run goes on: who entered the workaround, once each, and that
the buffer holds the answer for whoever is still inside. -/
structure IdentityRun (digests : Digests) (s : Controller) (past : List (Controller × Event)) :
    Prop where
  entered : ∀ x ∈ past, ∀ p packet, answersIdentity digests x.1 x.2 = some (p, packet) →
    p < s.nextPtr ∧ (s.heap p).eapWorkarround ≠ 0
  once : ∀ x ∈ past, ∀ y ∈ past, ∀ p a b, answersIdentity digests x.1 x.2 = some (p, a) →
    answersIdentity digests y.1 y.2 = some (p, b) → a = b
  waiting : ∀ p, .radiusIdentity p ∈ s.activities →
    ∃ x ∈ past, ∃ packet, answersIdentity digests x.1 x.2 = some (p, packet) ∧
      s.eapReqId.take (5 + alphaUserId.length) = identityAnswer (packet.getD 1 0) alphaUserId

variable {past : List (Controller × Event)}

theorem radiusIdentity_of_hands (h : handsIdentity s e = some p) :
    .radiusIdentity p ∈ s.activities := by
  cases e with
  | handle i call =>
    simp only [handsIdentity] at h
    split at h
    · rename_i q hworker
      obtain rfl := Option.some.inj h
      exact mem_activities_of_worker hworker
    · simp at h
  | _ => simp [handsIdentity] at h

theorem worker_of_radiusIdentity (h : .radiusIdentity p ∈ s.activities) :
    .radiusIdentity p ∈ s.workers := by
  rcases List.mem_append.mp h with htask | hworker
  · obtain ⟨task, -, heq⟩ := List.mem_map.mp htask
    exact Worker.noConfusion heq
  · exact hworker

/-- The condition, taken apart. -/
theorem patchesOwnRequest_of_answers (ha : answersIdentity digests s e = some (p, packet))
    (h : patchesOwnRequest digests s e = true) :
    packet.length ≤ 50 ∧ packet.getD 2 0 = 0 ∧
      (packet ++ s.eapReqId.drop packet.length).getD 4 0 = UInt8.ofNat eapTypeIdentity ∧
      ∀ q, .radiusIdentity q ∉ s.activities := by
  simp only [patchesOwnRequest, ha, Bool.and_eq_true, decide_eq_true_eq, List.all_eq_true] at h
  obtain ⟨⟨⟨hshort, hhigh⟩, htype⟩, halone⟩ := h
  refine ⟨hshort, hhigh, htype, ?_⟩
  intro q hq
  exact Bool.noConfusion (halone _ (worker_of_radiusIdentity hq))

theorem IdentityRun.step (hs : IdentityRun digests s past) (hreach : Reachable digests s)
    (hguard : patchesOwnRequest digests s e = true) (h : step digests s e = some t) :
    IdentityRun digests t (past ++ [(s, e)]) := by
  have hgrows := step_grows h
  have hkept : ∀ x ∈ past, ∀ p packet, answersIdentity digests x.1 x.2 = some (p, packet) →
      p < t.nextPtr ∧ (t.heap p).eapWorkarround ≠ 0 := by
    intro x hx p packet ha
    obtain ⟨hmade, hentered⟩ := hs.entered x hx p packet ha
    exact ⟨Nat.lt_of_lt_of_le hmade hgrows.nextPtr,
      step_entered (shortRequests hreach) h hmade hentered⟩
  constructor
  · intro x hx p packet ha
    rcases List.mem_append.mp hx with hold | hnew
    · exact hkept x hold p packet ha
    · obtain rfl := List.mem_singleton.mp hnew
      have henters := answersIdentity_enters hreach ha h
      exact ⟨Nat.lt_of_lt_of_le henters.made hgrows.nextPtr, henters.counted⟩
  · intro x hx y hy p a b hxa hyb
    have hfirst : ∀ z ∈ past, ∀ c d, answersIdentity digests z.1 z.2 = some (p, c) →
        answersIdentity digests s e = some (p, d) → False := by
      intro z hz c d hzc hd
      exact (hs.entered z hz p c hzc).2 (answersIdentity_enters hreach hd h).first
    rcases List.mem_append.mp hx with hxold | hxnew <;>
      rcases List.mem_append.mp hy with hyold | hynew
    · exact hs.once x hxold y hyold p a b hxa hyb
    · obtain rfl := List.mem_singleton.mp hynew
      exact (hfirst x hxold a b hxa hyb).elim
    · obtain rfl := List.mem_singleton.mp hxnew
      exact (hfirst y hyold b a hyb hxa).elim
    · obtain rfl := List.mem_singleton.mp hxnew
      obtain rfl := List.mem_singleton.mp hynew
      rw [hxa] at hyb
      exact (Prod.mk.inj (Option.some.inj hyb)).2
  · intro p hp
    cases ha : answersIdentity digests s e with
    | none =>
      obtain ⟨hbuffer, hinside⟩ := step_eapReqId ha h
      obtain ⟨x, hx, packet, hpacket, hanswer⟩ := hs.waiting p (hinside p hp)
      exact ⟨x, List.mem_append_left _ hx, packet, hpacket, hbuffer ▸ hanswer⟩
    | some entry =>
      obtain ⟨q, packet⟩ := entry
      have henters := answersIdentity_enters hreach ha h
      obtain ⟨hshort, hhigh, htype, halone⟩ := patchesOwnRequest_of_answers ha hguard
      rcases henters.inside p hp with rfl | hold
      · refine ⟨(s, e), by simp, packet, ha, ?_⟩
        rw [henters.written]
        exact identityResponse_take henters.header hshort hhigh htype
      · exact absurd hold (halone p)

/-- The runs that meet the condition, with their past. -/
abbrev Patching (digests : Digests) : Controller × List (Controller × Event) → Prop :=
  ReachableUnder (recording (step digests))
    (fun here e => patchesOwnRequest digests here.1 e = true) (initialController, [])

theorem Patching.reachable {here : Controller × List (Controller × Event)}
    (h : Patching digests here) : Reachable digests here.1 := by
  have hunder : ReachableUnder (step digests) (fun s e => patchesOwnRequest digests s e = true)
      initialController here.1 :=
    ReachableUnder.forget h
  exact hunder.reachable

theorem identityRun {here : Controller × List (Controller × Event)}
    (h : Patching digests here) : IdentityRun digests here.1 here.2 := by
  induction h with
  | start =>
    constructor
    · simp
    · simp
    · simp [initialController, Controller.activities]
  | step hbefore hguard htaken ih =>
    obtain ⟨t, ht, rfl⟩ := Option.map_eq_some_iff.mp htaken
    exact ih.step (Patching.reachable hbefore) hguard ht

/-- In every run in which the requests are short ones of type Identity and no two
workers are inside the workaround, every session is given the answer to its own
request, and nothing is written behind the buffer. -/
theorem identities_answered_own {here : Controller × List (Controller × Event)}
    (h : Patching digests here) : OwnIdentities digests here.2 := by
  induction h with
  | start =>
    constructor
    · simp
    · simp
    · simp
  | step hbefore hguard htaken ih =>
    rename_i before after e
    obtain ⟨t, ht, rfl⟩ := Option.map_eq_some_iff.mp htaken
    have hrun := identityRun hbefore
    have hreach := Patching.reachable hbefore
    have hasked : ∀ y ∈ before.2 ++ [(before.1, e)], ∀ p, handsIdentity y.1 y.2 = some p →
        ∃ x ∈ before.2, ∃ packet, answersIdentity digests x.1 x.2 = some (p, packet) := by
      intro y hy p hp
      rcases List.mem_append.mp hy with hold | hnew
      · exact ih.asked y hold p hp
      · obtain rfl := List.mem_singleton.mp hnew
        obtain ⟨x, hx, packet, ha, -⟩ := hrun.waiting p (radiusIdentity_of_hands hp)
        exact ⟨x, hx, packet, ha⟩
    constructor
    · intro x hx p packet ha
      rcases List.mem_append.mp hx with hold | hnew
      · exact ih.inside x hold p packet ha
      · obtain rfl := List.mem_singleton.mp hnew
        obtain ⟨hshort, -⟩ := patchesOwnRequest_of_answers ha hguard
        simp only [eapReqIdEnd, alphaUserId, List.length_cons, List.length_nil]
        omega
    · intro y hy p hp
      obtain ⟨x, hx, packet, ha⟩ := hasked y hy p hp
      exact ⟨x, List.mem_append_left _ hx, packet, ha⟩
    · intro y hy p hp x hx packet ha
      -- a session that was given its response entered before, and enters only once
      have hxold : x ∈ before.2 := by
        rcases List.mem_append.mp hx with hold | hnew
        · exact hold
        · obtain rfl := List.mem_singleton.mp hnew
          obtain ⟨z, hz, earlier, hearlier⟩ := hasked y hy p hp
          exact absurd (answersIdentity_enters hreach ha ht).first
            (hrun.entered z hz p earlier hearlier).2
      rcases List.mem_append.mp hy with hold | hnew
      · exact ih.own y hold p hp x hxold packet ha
      · obtain rfl := List.mem_singleton.mp hnew
        obtain ⟨z, hz, earlier, hearlier, hanswer⟩ :=
          hrun.waiting p (radiusIdentity_of_hands hp)
        obtain rfl := hrun.once z hz x hxold p earlier packet hearlier ha
        have huser : (before.1.heap p).userId = alphaUserId :=
          userId_alpha hreach (hrun.entered z hz p earlier hearlier).2
        simp only [handedIdentity, huser]
        exact hanswer

def identityAuthenticator : Bytes :=
  [0x4A, 0x93, 0x57, 0x05, 0xBA, 0x4E, 0xAE, 0xE7, 0x67, 0xE7, 0x01, 0x0A, 0xA0, 0xA9, 0xB1,
    0xAA]

def identityMessageAuthenticator : Bytes :=
  [0xF8, 0x80, 0xE2, 0x93, 0xF4, 0x7F, 0x80, 0x83, 0x80, 0x6F, 0x35, 0x2A, 0x81, 0xBA, 0xDE,
    0xF5]

/-- An Access-Challenge with a request for the identity. -/
def identityChallenge : Bytes :=
  [0x0B, 0x00, 0x00, 0x2D] ++ identityAuthenticator ++
    [0x4F, 0x07, 0x01, 0x02, 0x00, 0x05, 0x01, 0x50, 0x12] ++ identityMessageAuthenticator

/-- What MD5 and HMAC give for that challenge under the secret `testing123` and the
authenticator of the request. -/
def identityDigests : Digests :=
  { messageAuthenticator := fun _ _ => identityMessageAuthenticator
    responseAuthenticator := fun _ _ => identityAuthenticator
    decryptMsKey := fun _ _ => none }

/-- A session sends its identity, and the server answers with that challenge. -/
def answersOnce (challenge : Bytes) : List Event :=
  comesIn 1 ++
    [.recvCoap (ackDatagram 1 1) ⟨[1], 5683⟩ {}, .lockAcknowledgment, .getTask, .lookup 0 [],
      .handle 0 { authenticator := requestAuthenticator }, .recvRadius challenge, .getTask,
      .lookup 0 [], .handle 0 {}, .handle 0 { authenticator := requestAuthenticator }]

/-- The type of a response that was handed over. -/
def handedType (x : Controller × Event) : Option UInt8 :=
  (handsIdentity x.1 x.2).map fun p => (handedIdentity x.1 p).getD 4 0

theorem identity_request_answered : ∃ here, Patching identityDigests here ∧
    here.2.filterMap handedType = [1] ∧ OwnIdentities identityDigests here.2 := by
  have hrun : (run (guarded (recording (step identityDigests)) fun here e =>
      patchesOwnRequest identityDigests here.1 e = true) (initialController, [])
        (answersOnce identityChallenge)).any (fun here => here.2.filterMap handedType == [1]) =
          true := by
    decide +kernel
  obtain ⟨here, hhere, hcheck⟩ := exists_of_run hrun
  have hreach : Patching identityDigests here := reachableUnder_of_run hhere
  exact ⟨here, hreach, by simpa using hcheck, identities_answered_own hreach⟩

/-- The answer to a request of another type is no identity response. -/
theorem other_type_answered_with_it :
    ¬ ∀ digests here,
      ReachableUnder (recording (step digests)) (fun _ _ => True) (initialController, []) here →
        OwnIdentities digests here.2 := by
  intro hstated
  have hrun : (run (recording (step challengeDigests)) (initialController, [])
      (answersOnce (accessChallengeDatagram false))).any
        (fun here => here.2.any fun x => handedType x == some 4) = true := by
    decide +kernel
  obtain ⟨here, hhere, hcheck⟩ := exists_of_run hrun
  have hrecorded : ReachableUnder (recording (step challengeDigests)) (fun _ _ => True)
      (initialController, []) here :=
    reachable_of_run hhere
  obtain ⟨y, hy, htype⟩ := List.any_eq_true.mp hcheck
  simp only [handedType, beq_iff_eq, Option.map_eq_some_iff] at htype
  obtain ⟨p, hp, hfour⟩ := htype
  have howned := hstated challengeDigests here hrecorded
  obtain ⟨x, hx, packet, ha⟩ := howned.asked y hy p hp
  rw [howned.own y hy p hp x hx packet ha] at hfour
  simp [identityAnswer, be16, eapTypeIdentity] at hfour

end CoapEap.Mainserver
