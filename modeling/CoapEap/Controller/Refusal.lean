import CoapEap.Controller.Resting
import CoapEap.Controller.Totality

/-!
When an answer of the RADIUS server fails a session. The machine of a session that
sent a POST is at rest between two handlers, so what it was, what it waits for and
the code of the answer decide.
-/

namespace CoapEap.Mainserver

open Cantcoap EapServer Lalarm Radius Library.Runs

/-- The machine of the session has failed, or what it waits for is refused. -/
def failsOn (digests : Digests) (s : Controller) (msg : RadiusMsg) (p : Ptr) : Bool :=
  let eap := (s.heap p).eapCtx.eap
  eap.eapFail || (eap.eapState = .aaaIdle &&
    (matching s.radius msg.identifier).any fun entry =>
      acceptsAnswer digests msg entry.msg && msg.code = accessReject)

variable {digests : Digests} {s t : Controller} {p : Ptr} {call : Call} {x y : Session}

/-- The machine may be run again, and once there is something to send it is at rest. -/
structure Rested (x : Session) : Prop where
  bound : Bound x.eapCtx.eap
  eapState : x.eapCtx.eap.eapState ≠ .initializeState
  atRest : x.lastSentMessage.isSome ∨ x.eapCtx.eap.eapReqData.isSome → AtRest x.eapCtx.eap

theorem atRest_responseTaken {eap : EapSm} (h : Bound eap ∧ AtRest eap) :
    Bound (responseTaken eap) ∧ AtRest (responseTaken eap) := by
  obtain ⟨hbound, hrest⟩ := h
  unfold responseTaken
  split
  · exact ⟨⟨hbound.counted, hbound.eapFail, hbound.eapRestart⟩, hrest.portEnabled,
      hrest.eapRestart, hrest.quiet, hrest.numRounds⟩
  · exact ⟨hbound, hrest⟩

/-- However a machine was run, it is at rest. -/
theorem EapChange.atRest {a b : EapSm} (h : EapChange digests a b) (hbound : Bound a)
    (hrunning : a.eapState ≠ .initializeState) : Bound b ∧ AtRest b := by
  cases h with
  | opened rand =>
    have hready : Bound { a with eapRestart := true } :=
      ⟨hbound.counted, hbound.eapFail, fun _ => hrunning⟩
    exact atRest_responseTaken (hready.run rand)
  | responded data rand =>
    have hready : Bound { a with eapResp := true, eapRespData := some data } :=
      ⟨hbound.counted, hbound.eapFail, hbound.eapRestart⟩
    exact atRest_responseTaken (hready.run rand)
  | answered msg req rand =>
    obtain ⟨aaaSuccess, aaaFail, aaaEapReq, aaaEapReqData, keyData, keyAvailable, heap⟩ :=
      answerEap_eq digests msg req a
    have hready : Bound (answerEap digests msg req a) := by
      rw [heap]
      exact ⟨hbound.counted, hbound.eapFail, hbound.eapRestart⟩
    exact hready.run rand

/-- What is sent was asked for by the machine, now or before. -/
theorem SessionChange.post (h : SessionChange digests x y) (hsent : y.lastSentMessage.isSome) :
    x.lastSentMessage.isSome ∨ x.eapCtx.eap.eapReqData.isSome ∨
      EapChange digests x.eapCtx.eap y.eapCtx.eap := by
  cases h with
  | opened buf packet request ctx _ _ hstepped =>
    obtain ⟨rand, hsurvives, heap⟩ := hstepped.eap
    have hrun : EapChange digests x.eapCtx.eap ctx.eap := heap ▸ .opened _ rand hsurvives
    exact .inr (.inr hrun)
  | posted packet hasked =>
    exact .inr (.inl (Option.isSome_iff_exists.mpr ⟨packet, hasked⟩))
  | _ => exact .inl hsent

theorem Rested.change (hx : Rested x) (h : SessionChange digests x y) : Rested y := by
  have hrun : EapChange digests x.eapCtx.eap y.eapCtx.eap →
      Bound y.eapCtx.eap ∧ AtRest y.eapCtx.eap :=
    fun heap => heap.atRest hx.bound hx.eapState
  rcases h.eapChange with hsame | heap
  · refine ⟨hsame ▸ hx.bound, hsame ▸ hx.eapState, ?_⟩
    rintro (hsent | hasked)
    · rcases h.post hsent with hbefore | hasked | heap
      · exact hsame ▸ hx.atRest (.inl hbefore)
      · exact hsame ▸ hx.atRest (.inr hasked)
      · exact (hrun heap).2
    · rw [hsame] at hasked ⊢
      exact hx.atRest (.inr hasked)
  · obtain ⟨hbound, hrest⟩ := hrun heap
    exact ⟨hbound, hrest.running, fun _ => hrest⟩

theorem rested_new (buf : Bytes) (source : Endpoint) (arrival : Arrival) :
    Rested (initCoapEapSession buf source arrival) where
  bound := ⟨⟨rfl, .inl (Nat.zero_le _)⟩, EapState.noConfusion, fun _ => EapState.noConfusion⟩
  eapState := EapState.noConfusion
  atRest := by
    rintro (hsent | hasked)
    · cases hsent
    · cases hasked

theorem rested {guard : Controller → Event → Prop}
    (h : ReachableUnder (step digests) guard initialController s) (p : Ptr) : Rested (s.heap p) :=
  session_invariant rested_new (fun _ _ hchange hx => hx.change hchange) h p

variable {msg : RadiusMsg} {req : AccessRequest} {eap : EapSm}

theorem decapsulate_aaaFail : (eapAuthDecapsulateRadius eap msg).aaaFail = eap.aaaFail := by
  unfold eapAuthDecapsulateRadius
  split
  · rfl
  · split
    · rfl
    · rfl

/-- Only a reject says that the server refuses. -/
theorem answerEap_aaaFail : (answerEap digests msg req eap).aaaFail =
    (eap.aaaFail || msg.code = accessReject) := by
  unfold answerEap
  extract_lets said heard
  have hheard : heard.aaaFail = said.aaaFail := decapsulate_aaaFail
  have hsaid : said.aaaFail = (eap.aaaFail || msg.code = accessReject) := by
    unfold said
    split
    · rename_i haccept
      have hnot : msg.code ≠ accessReject := by
        rw [haccept]
        decide
      rw [decide_eq_false hnot, Bool.or_false]
      split
      · rfl
      · rfl
    · split
      · rename_i hreject
        rw [decide_eq_true hreject, Bool.or_true]
      · rename_i hnot
        rw [decide_eq_false hnot, Bool.or_false]
  rw [← hsaid, ← hheard]
  split
  · rfl
  · rfl

theorem answerWritten_answerEap : AnswerWritten eap (answerEap digests msg req eap) := by
  obtain ⟨aaaSuccess, aaaFail, aaaEapReq, aaaEapReqData, keyData, keyAvailable, heap⟩ :=
    answerEap_eq digests msg req eap
  rw [heap]
  refine ⟨rfl, rfl, rfl, rfl, rfl, ?_⟩
  intro hnot
  unfold nextState
  cases hstate : eap.eapState with
  | aaaIdle => exact absurd hstate hnot
  | _ => rfl

/-- An answer fails the machine of a session where it is said to. -/
theorem machineAfter_eapFail (hrest : AtRest (s.heap p).eapCtx.eap) :
    (machineAfter digests s msg p call).eapFail = failsOn digests s msg p := by
  unfold machineAfter failsOn
  cases hmatch : matching s.radius msg.identifier with
  | none => simp
  | some entry =>
    cases haccepted : acceptsAnswer digests msg entry.msg with
    | false => simp [haccepted]
    | true =>
      simp only [haccepted, if_true, Option.any_some, Bool.true_and]
      rw [hrest.answered_eapFail answerWritten_answerEap call.rand, answerEap_aaaFail]
      cases hidle : decide ((s.heap p).eapCtx.eap.eapState = .aaaIdle) with
      | false => rfl
      | true => rw [hrest.aaaFail (of_decide_eq_true hidle), Bool.false_or]

end CoapEap.Mainserver
