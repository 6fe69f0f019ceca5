import CoapEap.Controller.Authenticator
import CoapEap.Controller.Sessions

/-!
The EAP machine of a session. The handlers run it in three ways: restarted for a
new session, with a response of the device, and with an answer of the RADIUS
server.
-/

namespace CoapEap.Mainserver

open Cantcoap EapServer Lalarm Radius Library.Runs Relation

/-- The machine after `eap_auth_step` took its response for the RADIUS server. -/
def responseTaken (eap : EapSm) : EapSm :=
  if eap.aaaEapResp then { eap with aaaEapResp := false } else eap

/-- A run that `eap_auth_step` survives. -/
structure Survives (eap : EapSm) : Prop where
  faulted : eap.faulted = false
  aaaEapRespData : eap.aaaEapResp = true → eap.aaaEapRespData.isSome

inductive EapChange (digests : Digests) : EapSm → EapSm → Prop
  | opened (eap : EapSm) (rand : Nat)
      (survives : Survives (eapServerSmStep { eap with eapRestart := true } rand)) :
      EapChange digests eap (responseTaken (eapServerSmStep { eap with eapRestart := true } rand))
  | responded (eap : EapSm) (data : Bytes) (rand : Nat)
      (survives : Survives
        (eapServerSmStep { eap with eapResp := true, eapRespData := some data } rand)) :
      EapChange digests eap (responseTaken
        (eapServerSmStep { eap with eapResp := true, eapRespData := some data } rand))
  | answered (eap : EapSm) (msg : RadiusMsg) (req : AccessRequest) (rand : Nat)
      (accepted : acceptsAnswer digests msg req = true)
      (sound : (eapServerSmStep (answerEap digests msg req eap) rand).faulted = false) :
      EapChange digests eap (eapServerSmStep (answerEap digests msg req eap) rand)

variable {digests : Digests}

theorem eapAuthStep_ok {ctx : EapAuthCtx} {radius : RadiusClient} {p : Ptr} {call : Call}
    {r : EapStep} (h : eapAuthStep ctx radius p call = .ok r) :
    Survives (eapServerSmStep ctx.eap call.rand) ∧
      r.ctx.eap = responseTaken (eapServerSmStep ctx.eap call.rand) := by
  simp only [eapAuthStep] at h
  split at h
  · simp at h
  · rename_i hsound
    split at h
    · rename_i hresp
      split at h
      · simp at h
      · rename_i data hdata
        simp only [Except.ok.injEq] at h
        refine ⟨⟨by simpa using hsound, fun _ => by simp [hdata]⟩, ?_⟩
        rw [← h, responseTaken, if_pos hresp]
        simp only [eapAuthEncapsulateRadius]
        split <;> rfl
    · rename_i hresp
      simp only [Except.ok.injEq] at h
      refine ⟨⟨by simpa using hsound, fun hset => absurd hset hresp⟩, ?_⟩
      rw [← h, responseTaken, if_neg hresp]

theorem EapStepped.eap {ctx ctx' : EapAuthCtx} (h : EapStepped ctx ctx') :
    ∃ rand, Survives (eapServerSmStep ctx.eap rand) ∧
      ctx'.eap = responseTaken (eapServerSmStep ctx.eap rand) := by
  obtain ⟨radius, p, call, r, hstep, rfl⟩ := h
  exact ⟨call.rand, eapAuthStep_ok hstep⟩

/-- A change of a session leaves its machine alone or runs it once. -/
theorem SessionChange.eapChange {x y : Session} (h : SessionChange digests x y) :
    y.eapCtx.eap = x.eapCtx.eap ∨ EapChange digests x.eapCtx.eap y.eapCtx.eap := by
  cases h with
  | opened buf packet request ctx _ _ hstepped =>
    obtain ⟨rand, hsurvives, heap⟩ := hstepped.eap
    have hchange : EapChange digests x.eapCtx.eap ctx.eap := heap ▸ .opened _ rand hsurvives
    exact .inr hchange
  | fed buf data request ctx _ hstepped =>
    obtain ⟨rand, hsurvives, heap⟩ := hstepped.eap
    have hchange : EapChange digests x.eapCtx.eap ctx.eap := heap ▸ .responded _ data rand hsurvives
    exact .inr hchange
  | handedIdentity data ctx hstepped =>
    obtain ⟨rand, hsurvives, heap⟩ := hstepped.eap
    have hchange : EapChange digests x.eapCtx.eap ctx.eap := heap ▸ .responded _ data rand hsurvives
    exact .inr hchange
  | answered msg entry rand haccepted eap hstepped hsound =>
    subst hstepped
    exact .inr (.answered _ msg entry.msg rand haccepted hsound)
  | _ => exact .inl rfl

/-- The rule for what holds of every machine: it holds of a new one, and every
run keeps it. -/
theorem eap_invariant {guard : Controller → Event → Prop} {s : Controller} {P : EapSm → Prop}
    (hnew : P initialSm) (hchange : ∀ x y, EapChange digests x y → P x → P y)
    (h : ReachableUnder (step digests) guard initialController s) (p : Ptr) :
    P (s.heap p).eapCtx.eap := by
  have hkeeps : ∀ x y, SessionChange digests x y → P x.eapCtx.eap → P y.eapCtx.eap := by
    intro x y hxy hx
    rcases hxy.eapChange with hsame | heap
    · rw [hsame]
      exact hx
    · exact hchange _ _ heap hx
  exact session_invariant (fun _ _ _ => hnew) hkeeps h p

theorem answerEap_eq (digests : Digests) (msg : RadiusMsg) (req : AccessRequest) (eap : EapSm) :
    ∃ aaaSuccess aaaFail aaaEapReq aaaEapReqData aaaEapKeyData aaaEapKeyAvailable,
      answerEap digests msg req eap =
        { eap with
          aaaSuccess, aaaFail, aaaEapReq, aaaEapReqData, aaaEapKeyData, aaaEapKeyAvailable } := by
  simp only [answerEap, eapAuthDecapsulateRadius]
  repeat' split
  all_goals exact ⟨_, _, _, _, _, _, rfl⟩

theorem asking_responseTaken {eap : EapSm} (h : Asking eap) : Asking (responseTaken eap) := by
  unfold Mainserver.responseTaken
  split
  · exact ⟨h.eapState, h.portEnabled, h.eapReq, h.eapReqData⟩
  · exact h

/-- Whatever runs the machine, a request is out afterwards. -/
theorem EapChange.asking {x y : EapSm} (h : EapChange digests x y)
    (hx : Unstarted x ∨ Asking x) : Asking y := by
  cases h with
  | opened rand =>
    rcases hx with hnew | hasking
    · have hready : Unstarted { x with eapRestart := true } :=
        ⟨hnew.eapState, hnew.portEnabled, rfl, hnew.identity, hnew.eapReq, hnew.eapSuccess,
          hnew.eapFail⟩
      exact asking_responseTaken hready.run
    · have hready : Asking { x with eapRestart := true } :=
        ⟨hasking.eapState, hasking.portEnabled, hasking.eapReq, hasking.eapReqData⟩
      exact asking_responseTaken (hready.run 32)
  | responded data rand =>
    rcases hx with hnew | hasking
    · have hready : Unstarted { x with eapResp := true, eapRespData := some data } :=
        ⟨hnew.eapState, hnew.portEnabled, hnew.eapRestart, hnew.identity, hnew.eapReq,
          hnew.eapSuccess, hnew.eapFail⟩
      exact asking_responseTaken hready.run
    · have hready : Asking { x with eapResp := true, eapRespData := some data } :=
        ⟨hasking.eapState, hasking.portEnabled, hasking.eapReq, hasking.eapReqData⟩
      exact asking_responseTaken (hready.run 32)
  | answered msg req rand =>
    obtain ⟨aaaSuccess, aaaFail, aaaEapReq, aaaEapReqData, keyData, keyAvailable, heap⟩ :=
      answerEap_eq digests msg req x
    rcases hx with hnew | hasking
    · have hready : Unstarted (answerEap digests msg req x) := by
        rw [heap]
        exact ⟨hnew.eapState, hnew.portEnabled, hnew.eapRestart, hnew.identity, hnew.eapReq,
          hnew.eapSuccess, hnew.eapFail⟩
      exact hready.run
    · have hready : Asking (answerEap digests msg req x) := by
        rw [heap]
        exact ⟨hasking.eapState, hasking.portEnabled, hasking.eapReq, hasking.eapReqData⟩
      exact hready.run 32

/-- A machine has never run, or its request flag is set. -/
theorem unstarted_or_asking {guard : Controller → Event → Prop} {s : Controller}
    (h : ReachableUnder (step digests) guard initialController s) (p : Ptr) :
    Unstarted (s.heap p).eapCtx.eap ∨ Asking (s.heap p).eapCtx.eap := by
  have hkeeps : ∀ x y, EapChange digests x y → Unstarted x ∨ Asking x →
      Unstarted y ∨ Asking y :=
    fun _ _ hchange hx => .inr (hchange.asking hx)
  exact eap_invariant (.inl unstarted_initialSm) hkeeps h p

/-- What a step of the controller does with the machine of a session, and the
worker that does it. -/
inductive MachineMove (digests : Digests) (s : Controller) (q : Ptr) : Event → EapSm → Prop
  | created (e : Event) (new : q = s.nextPtr) : MachineMove digests s q e initialSm
  | kept (e : Event) : MachineMove digests s q e (s.heap q).eapCtx.eap
  | opened (i : Nat) (call : Call) (task : NetworkTask) (rand : Nat)
      (worker : s.workers[i]? = some (.coapMsg task q))
      (survives : Survives
        (eapServerSmStep { (s.heap q).eapCtx.eap with eapRestart := true } rand)) :
      MachineMove digests s q (.handle i call)
        (responseTaken (eapServerSmStep { (s.heap q).eapCtx.eap with eapRestart := true } rand))
  | responded (i : Nat) (call : Call) (data : Bytes) (rand : Nat)
      (worker : s.workers[i]? = some (.radiusIdentity q) ∨ (s.heap q).currentState = 2 ∧
        ∃ task post, s.workers[i]? = some (.acknowledgment task post q))
      (survives : Survives (eapServerSmStep
        { (s.heap q).eapCtx.eap with eapResp := true, eapRespData := some data } rand)) :
      MachineMove digests s q (.handle i call)
        (responseTaken (eapServerSmStep
          { (s.heap q).eapCtx.eap with eapResp := true, eapRespData := some data } rand))
  | answered (i : Nat) (call : Call) (msg : RadiusMsg) (p : Ptr) (entry : RadiusMsgList)
      (worker : s.workers[i]? = some (.receiveRadiusMsg msg p))
      (waiting : matching s.radius msg.identifier = some entry)
      (accepted : acceptsAnswer digests msg entry.msg = true)
      (found : searchEapCtxRadClient s msg.identifier = some q)
      (sound : (eapServerSmStep
        (answerEap digests msg entry.msg (s.heap q).eapCtx.eap) call.rand).faulted = false) :
      MachineMove digests s q (.handle i call)
        (eapServerSmStep (answerEap digests msg entry.msg (s.heap q).eapCtx.eap) call.rand)

variable {s t : Controller} {e : Event}

/-- What follows in `process_receive_radius_msg` after the answer was taken in
leaves the machines alone. -/
theorem processReceiveRadiusMsg_machine {msg : RadiusMsg} {p : Ptr} {call : Call}
    {identity : Bool} (h : processReceiveRadiusMsg digests s msg p call = .ok (t, identity)) :
    ∃ u, radiusClientReceive digests s msg call = .ok u ∧
      ∀ q, (t.heap q).eapCtx.eap = (u.heap q).eapCtx.eap := by
  obtain ⟨u, hu, -, ⟨-, -, rfl, -⟩ | ⟨packet, -, ⟨-, rfl, -⟩ | ⟨-, hsend, -⟩⟩⟩ :=
    processReceiveRadiusMsg_ok h
  · exact ⟨t, hu, fun _ => rfl⟩
  · refine ⟨u, hu, ?_⟩
    intro q
    simp only [identityWorkarround, Controller.setSession_heap]
    split
    · subst q
      rfl
    · rfl
  · refine ⟨u, hu, ?_⟩
    intro q
    by_cases hq : q = p
    · subst hq
      rcases (sendRadiusPost_ok hsend).2 with ⟨-, rfl⟩ | ⟨-, rfl⟩
      · rw [Controller.record_heap, armPost_session]
        rfl
      · rw [Controller.setSession_heap_self]
        rfl
    · rcases (sendRadiusPost_ok hsend).2 with ⟨-, rfl⟩ | ⟨-, rfl⟩
      · rw [Controller.record_heap, armPost_heap hq]
      · rw [Controller.setSession_heap_ne _ _ hq]

theorem step_machine (h : step digests s e = some t) (q : Ptr) :
    MachineMove digests s q e (t.heap q).eapCtx.eap := by
  have hkept : ∀ e, t.heap q = s.heap q →
      MachineMove digests s q e (t.heap q).eapCtx.eap := by
    intro e hsame
    rw [hsame]
    exact .kept e
  have hradius : ∀ i call msg p u identity, s.workers[i]? = some (.receiveRadiusMsg msg p) →
      processReceiveRadiusMsg digests s msg p call = .ok (u, identity) →
        MachineMove digests s q (.handle i call) (u.heap q).eapCtx.eap := by
    intro i call msg p u identity hworker hresult
    obtain ⟨v, hv, hsame⟩ := processReceiveRadiusMsg_machine hresult
    rw [hsame q]
    rcases radiusClientReceive_ok hv with ⟨-, rfl⟩ | ⟨entry, hwaiting, ⟨-, rfl⟩ |
      ⟨haccepted, q', eap, hfound, rfl, hsound, rfl⟩⟩
    · exact .kept _
    · exact .kept _
    · by_cases hq : q = q'
      · subst hq
        rw [Controller.setSession_heap_self]
        exact .answered i call msg p entry hworker hwaiting haccepted hfound hsound
      · rw [Controller.setSession_heap_ne _ _ hq]
        exact .kept _
  obtain ⟨-, hmove⟩ := step_move h
  cases hmove with
  | created datagram source arrival =>
    by_cases hq : q = s.nextPtr
    · subst hq
      rw [newSession_heap_self]
      exact .created _ rfl
    · exact hkept _ (newSession_heap_ne _ _ _ hq)
  | queued task p =>
    simp only [addTask, Controller.record_heap, setReceived_heap]
    exact .kept _
  | handledCoap i call task p u hworker _ hresult =>
    obtain ⟨v, session, packet, -, ⟨request, -, hstep⟩, rfl, -, rfl⟩ := processCoapMsg_ok hresult
    obtain ⟨⟨ctx, hstepped, hv⟩, hothers⟩ := stepSession_heap hstep
    by_cases hq : q = p
    · subst hq
      obtain ⟨rand, hsurvives, heap⟩ := hstepped.eap
      have hmachine : (v.heap q).eapCtx.eap = ctx.eap := by rw [hv]
      simp only [endWorker, Controller.record_heap, armPost_session, storePost, hmachine, heap]
      exact .opened i call task rand hworker hsurvives
    · apply hkept
      simp only [endWorker, Controller.record_heap, armPost_heap hq, hothers q hq]
  | handledAcknowledgment i call task post p u hworker _ hresult =>
    by_cases hq : q = p
    · subst hq
      obtain ⟨request, v, -, rfl, ⟨hstate, -, hstep⟩ | ⟨-, rfl⟩ | ⟨-, -, rfl⟩⟩ :=
        processAcknowledgment_ok hresult
      · obtain ⟨⟨ctx, hstepped, hu⟩, -⟩ := stepSession_heap hstep
        obtain ⟨rand, hsurvives, heap⟩ := hstepped.eap
        simp only [Controller.record_heap, Controller.setSession_heap_self, setEapResponse]
          at hsurvives heap
        have hmachine : ((endWorker u i).heap q).eapCtx.eap = ctx.eap := by
          simp only [endWorker, hu]
        rw [hmachine, heap]
        exact .responded i call _ rand (.inr ⟨hstate, task, post, hworker⟩) hsurvives
      · simp only [endWorker, removeCoapEapSession, cancelPostAlarm, Controller.record_heap,
          Controller.setSession_heap_self]
        exact .kept _
      · simp only [endWorker, Controller.record_heap, Controller.setSession_heap_self]
        exact .kept _
    · have hchange : SessionChange digests (s.heap p) (u.heap p) ∧
          ∀ q, q ≠ p → u.heap q = s.heap q :=
        processAcknowledgment_change hresult
      exact hkept _ (hchange.2 q hq)
  | handledRadius i call msg p u hworker _ hresult =>
    exact hradius i call msg p u false hworker hresult
  | wroteIdentity i call msg p u hworker _ hresult =>
    exact hradius i call msg p u true hworker hresult
  | handedIdentity i call p u hworker hresult =>
    obtain ⟨⟨ctx, hstepped, hu⟩, hothers⟩ := stepSession_heap hresult
    by_cases hq : q = p
    · subst hq
      obtain ⟨rand, hsurvives, heap⟩ := hstepped.eap
      have hmachine : ((endWorker u i).heap q).eapCtx.eap = ctx.eap := by
        simp only [endWorker, hu]
      rw [hmachine, heap]
      exact .responded i call _ rand (.inl hworker) hsurvives
    · exact hkept _ (hothers q hq)
  | handledRetr i call origin id p u hworker _ hresult =>
    by_cases hq : q = p
    · subst hq
      have hsession := processRetrCoapEap_session hresult
      have hmachine : ((endWorker u i).heap q).eapCtx.eap = (s.heap q).eapCtx.eap := by
        simp only [endWorker]
        rw [hsession]
      rw [hmachine]
      exact .kept _
    · have hchange : SessionChange digests (s.heap p) (u.heap p) ∧
          ∀ q, q ≠ p → u.heap q = s.heap q :=
        processRetrCoapEap_change hresult
      exact hkept _ (hchange.2 q hq)
  | _ => exact .kept _

/-- A key that came with an answer is kept with it. -/
theorem answerEap_keyHeld {eap : EapSm} (h : KeyHeld eap) (digests : Digests) (msg : RadiusMsg)
    (req : AccessRequest) : KeyHeld (answerEap digests msg req eap) := by
  have hdata : (answerEap digests msg req eap).aaaEapKeyAvailable = true →
      (answerEap digests msg req eap).aaaEapKeyData.isSome := by
    have haaa := h.aaaEapKeyData
    simp only [answerEap, eapAuthDecapsulateRadius]
    cases masterSessionKey digests msg req <;> repeat' split
    all_goals first | exact haaa | exact fun _ => rfl
  obtain ⟨aaaSuccess, aaaFail, aaaEapReq, aaaEapReqData, keyData, keyAvailable, heap⟩ :=
    answerEap_eq digests msg req eap
  rw [heap] at hdata ⊢
  exact ⟨h.portEnabled, h.eapSuccess, h.atEnd, h.eapKeyData, hdata⟩

theorem keyHeld_responseTaken {eap : EapSm} (h : KeyHeld eap) :
    KeyHeld (responseTaken eap) := by
  unfold Mainserver.responseTaken
  split
  · exact ⟨h.portEnabled, h.eapSuccess, h.atEnd, h.eapKeyData, h.aaaEapKeyData⟩
  · exact h

theorem EapChange.keyHeld {x y : EapSm} (h : EapChange digests x y) (hx : KeyHeld x) :
    KeyHeld y ∧ y.eapRestart = false := by
  have htaken : ∀ eap, (responseTaken eap).eapRestart = eap.eapRestart := by
    intro eap
    unfold responseTaken
    split <;> rfl
  cases h with
  | opened rand =>
    have hready : KeyHeld { x with eapRestart := true } :=
      ⟨hx.portEnabled, hx.eapSuccess, hx.atEnd, hx.eapKeyData, hx.aaaEapKeyData⟩
    rw [htaken]
    exact ⟨keyHeld_responseTaken hready.run, smLoop_eapRestart hready.portEnabled 31⟩
  | responded data rand =>
    have hready : KeyHeld { x with eapResp := true, eapRespData := some data } :=
      ⟨hx.portEnabled, hx.eapSuccess, hx.atEnd, hx.eapKeyData, hx.aaaEapKeyData⟩
    rw [htaken]
    exact ⟨keyHeld_responseTaken hready.run, smLoop_eapRestart hready.portEnabled 31⟩
  | answered msg req rand =>
    have hready := answerEap_keyHeld hx digests msg req
    exact ⟨hready.run, smLoop_eapRestart hready.portEnabled 31⟩

end CoapEap.Mainserver
