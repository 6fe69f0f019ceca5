import CoapEap.Controller.Completion
import CoapEap.Controller.Soundness

/-!
When a handler returns. Each ends the process on some paths, and here is what
keeps it from them: an EAP machine that is in order, a datagram that validates, and
what it reads of its session.
-/

namespace CoapEap.Mainserver

open Cantcoap EapServer Lalarm Radius

variable {digests : Digests} {eap : EapSm}

theorem inOrder_restarted (h : InOrder eap) (hnone : eap.identity = none) :
    InOrder { eap with eapRestart := true } :=
  h.kept ⟨rfl, rfl, rfl, rfl, rfl, rfl, rfl, rfl, id, id⟩ rfl rfl rfl fun _ => hnone

theorem inOrder_responded (h : InOrder eap) (data : Bytes) :
    InOrder { eap with eapResp := true, eapRespData := some data } :=
  h.kept ⟨rfl, rfl, rfl, rfl, rfl, rfl, rfl, rfl, id, fun _ => rfl⟩ rfl rfl rfl h.restarted

theorem inOrder_answered (h : InOrder eap) (digests : Digests) (msg : RadiusMsg)
    (req : AccessRequest) : InOrder (answerEap digests msg req eap) := by
  obtain ⟨aaaSuccess, aaaFail, aaaEapReq, aaaEapReqData, keyData, keyAvailable, heap⟩ :=
    answerEap_eq digests msg req eap
  rw [heap]
  exact h.kept ⟨rfl, rfl, rfl, rfl, rfl, rfl, rfl, rfl, id, id⟩ rfl rfl rfl h.restarted

theorem inOrder_taken (h : InOrder eap) : InOrder (responseTaken eap) := by
  unfold responseTaken
  split
  · exact h.kept ⟨rfl, rfl, rfl, rfl, rfl, rfl, rfl, rfl, fun _ => rfl, id⟩ rfl rfl rfl h.restarted
  · exact h

theorem eapAuthStep_total {ctx : EapAuthCtx} (h : InOrder ctx.eap) (radius : RadiusClient)
    (p : Ptr) (call : Call) : ∃ r, eapAuthStep ctx radius p call = .ok r := by
  have hrun := h.run call.rand
  simp only [eapAuthStep, hrun.faulted, Bool.false_eq_true, if_false]
  split
  · rename_i hresp
    obtain ⟨data, hdata⟩ := Option.isSome_iff_exists.mp (hrun.handed hresp).aaaEapRespData
    simp only [hdata]
    exact ⟨_, rfl⟩
  · exact ⟨_, rfl⟩

variable {s : Controller} {p : Ptr}

theorem stepSession_total {session : Session} (h : InOrder session.eapCtx.eap) (call : Call) :
    ∃ t, stepSession s p session call = .ok t := by
  obtain ⟨r, hr⟩ := eapAuthStep_total h s.radius p call
  rw [stepSession, hr]
  exact ⟨_, rfl⟩

theorem processCoapMsg_total {task : NetworkTask} (hvalid : (validate task.buf).isSome)
    (horder : InOrder (s.heap p).eapCtx.eap) (hnone : (s.heap p).eapCtx.eap.identity = none)
    (hran : Unstarted (s.heap p).eapCtx.eap ∨ Asking (s.heap p).eapCtx.eap) (call : Call) :
    ∃ t, processCoapMsg s task p call = .ok t := by
  obtain ⟨request, hrequest⟩ := Option.isSome_iff_exists.mp hvalid
  have hready : InOrder (openedSession (s.heap p) request).eapCtx.eap :=
    inOrder_restarted horder hnone
  obtain ⟨u, hu⟩ := stepSession_total (s := s) (p := p) hready call
  obtain ⟨⟨ctx, hstepped, hsession⟩, -⟩ := stepSession_heap hu
  obtain ⟨rand, hsurvives, heap⟩ := hstepped.eap
  have hasking : Asking ctx.eap := by
    have hchange : EapChange noAnswers (s.heap p).eapCtx.eap ctx.eap :=
      heap ▸ .opened _ rand hsurvives
    exact hchange.asking hran
  obtain ⟨packet, hpacket⟩ := Option.isSome_iff_exists.mp hasking.eapReqData
  have hdata : (u.heap p).eapCtx.eap.eapReqData = some packet := by
    rw [hsession]
    exact hpacket
  simp only [openedSession] at hu
  simp only [processCoapMsg, hrequest, hu, bind, Except.bind, hdata]
  exact ⟨_, rfl⟩

theorem processAcknowledgment_total {task : NetworkTask} (post : Ptr × Nat)
    (hvalid : (validate task.buf).isSome) (horder : InOrder (s.heap p).eapCtx.eap)
    (hauth : (s.heap p).currentState = 2 → ∀ request, validate task.buf = some request →
      hasOption task.buf request optionAuth = false) (call : Call) :
    ∃ t, processAcknowledgment s task post p call = .ok t := by
  obtain ⟨request, hrequest⟩ := Option.isSome_iff_exists.mp hvalid
  simp only [processAcknowledgment, hrequest, acknowledgmentSwitch, Controller.record_heap,
    Controller.setSession_heap_self]
  split
  · rename_i hstate
    rw [hauth hstate request hrequest]
    simp only [Bool.false_eq_true, if_false]
    apply stepSession_total
    exact inOrder_responded horder _
  · exact ⟨_, rfl⟩
  · exact ⟨_, rfl⟩

theorem identityHandOver_total (horder : InOrder (s.heap p).eapCtx.eap) (call : Call) :
    ∃ t, identityHandOver s p call = .ok t :=
  stepSession_total (inOrder_responded horder _) call

theorem sendRadiusPost_total (hlocation : (s.heap p).location.isSome)
    (hkey : KeyHeld (s.heap p).eapCtx.eap) (packet : Bytes) (call : Call) :
    ∃ t, sendRadiusPost s p packet call = .ok t := by
  have hlocated : (s.heap p).location ≠ none := Option.isSome_iff_ne_none.mp hlocation
  have hkeyed : ¬ ((s.heap p).eapCtx.eap.eapKeyAvailable = true ∧
      (s.heap p).eapCtx.eap.eapKeyData = none) := by
    rintro ⟨havailable, hnone⟩
    have hdata := hkey.eapKeyData havailable
    rw [hnone] at hdata
    cases hdata
  simp only [sendRadiusPost, if_neg hlocated, if_neg hkeyed]
  split
  · exact ⟨_, rfl⟩
  · exact ⟨_, rfl⟩

/-- The machine of a session after an answer for it was taken in. -/
def machineAfter (digests : Digests) (s : Controller) (msg : RadiusMsg) (p : Ptr) (call : Call) :
    EapSm :=
  let eap := (s.heap p).eapCtx.eap
  match matching s.radius msg.identifier with
  | none => eap
  | some entry =>
    if acceptsAnswer digests msg entry.msg then
      eapServerSmStep (answerEap digests msg entry.msg eap) call.rand
    else eap

/-- The answer comes for a request of the session, and what is accepted goes into its
context. -/
def reachesOwn (digests : Digests) (s : Controller) (msg : RadiusMsg) (p : Ptr) : Bool :=
  (matching s.radius msg.identifier).all fun entry =>
    entry.session = p &&
      (!acceptsAnswer digests msg entry.msg || searchEapCtxRadClient s msg.identifier = some p)

variable {msg : RadiusMsg}

/-- An answer for the session is taken in by its machine and by nothing else. -/
theorem radiusClientReceive_total (hown : reachesOwn digests s msg p = true)
    (horder : InOrder (s.heap p).eapCtx.eap) (call : Call) :
    ∃ u, radiusClientReceive digests s msg call = .ok u ∧
      u.heap p = { s.heap p with eapCtx := (u.heap p).eapCtx } ∧
        (u.heap p).eapCtx.eap = machineAfter digests s msg p call := by
  unfold reachesOwn at hown
  unfold machineAfter radiusClientReceive
  cases hmatch : matching s.radius msg.identifier with
  | none => exact ⟨s, rfl, rfl, rfl⟩
  | some entry =>
    simp only [hmatch, Option.all_some, Bool.and_eq_true, Bool.or_eq_true, Bool.not_eq_true',
      decide_eq_true_eq] at hown
    obtain ⟨-, hown⟩ := hown
    cases haccepts : acceptsAnswer digests msg entry.msg with
    | false =>
      simp only [haccepts, if_true, Bool.false_eq_true, if_false]
      exact ⟨_, rfl, rfl, rfl⟩
    | true =>
      have hfound : searchEapCtxRadClient
          { s with radius := removeMatching s.radius msg.identifier } msg.identifier = some p :=
        hown.resolve_left (by rw [haccepts]; exact Bool.noConfusion)
      have hsound := ((inOrder_answered horder digests msg entry.msg).run call.rand).faulted
      simp only [haccepts, hfound, hsound, Bool.true_eq_false, Bool.false_eq_true, if_false,
        if_true]
      refine ⟨_, rfl, ?_, ?_⟩
      · rw [Controller.setSession_heap_self]
      · rw [Controller.setSession_heap_self]

/-- The EAP machine of a session, once it runs, asks for something and knows where to
send it. -/
theorem processReceiveRadiusMsg_total {call : Call} (hown : reachesOwn digests s msg p = true)
    (horder : InOrder (s.heap p).eapCtx.eap)
    (hrunning : (machineAfter digests s msg p call).eapFail = false)
    (hran : Unstarted (machineAfter digests s msg p call) ∨
      Asking (machineAfter digests s msg p call) ∧ (s.heap p).location.isSome)
    (hkey : KeyHeld (machineAfter digests s msg p call)) :
    ∃ r, processReceiveRadiusMsg digests s msg p call = .ok r := by
  obtain ⟨u, hu, hsession, hmachine⟩ := radiusClientReceive_total hown horder call
  rw [← hmachine] at hrunning hran hkey
  simp only [processReceiveRadiusMsg, hu, hrunning, bind, Except.bind, Bool.false_eq_true, if_false]
  rcases hran with hnew | ⟨hasking, hlocation⟩
  · have hnothing : ¬ ((u.heap p).eapCtx.eap.eapReq = true ∨
        (u.heap p).eapCtx.eap.eapSuccess = true) := by
      simp [hnew.eapReq, hnew.eapSuccess]
    rw [if_neg hnothing]
    exact ⟨_, rfl⟩
  · rw [if_pos (.inl hasking.eapReq)]
    obtain ⟨packet, hpacket⟩ := Option.isSome_iff_exists.mp hasking.eapReqData
    have hlocated : (u.heap p).location.isSome := by
      rw [hsession]
      exact hlocation
    obtain ⟨v, hv⟩ := sendRadiusPost_total hlocated hkey packet call
    simp only [hpacket, hv]
    split
    · exact ⟨_, rfl⟩
    · exact ⟨_, rfl⟩

/-- An acknowledgment can be compared with the last message, or the length that says
there is none was set. -/
theorem checkAcknowledgment_total (task : NetworkTask)
    (hreceived : (s.heap p).lastReceivedMessage.isSome)
    (hsent : (s.heap p).lastSentMessage.isSome ∨ (s.heap p).lastSentMessageLen < 4) :
    ∃ t, checkAcknowledgment s task p = .ok t := by
  obtain ⟨lastReceived, hlast⟩ := Option.isSome_iff_exists.mp hreceived
  simp only [checkAcknowledgment, hlast]
  split
  · exact ⟨_, rfl⟩
  · split
    · rename_i hnone
      rcases hsent with hsome | hshort
      · rw [hnone] at hsome
        cases hsome
      · rw [if_pos hshort]
        exact ⟨_, rfl⟩
    · split
      · exact ⟨_, rfl⟩
      · split
        · exact ⟨_, rfl⟩
        · exact ⟨_, rfl⟩

end CoapEap.Mainserver
