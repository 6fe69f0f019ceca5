import CoapEap.Controller.Machines
import CoapEap.Controller.Retransmission

/-!
A RADIUS datagram that the client drops. `process_receive_radius_msg` is not told
and goes on with the flags and the request that an earlier step left.
-/

namespace CoapEap.Mainserver

open Cantcoap EapServer Lalarm Radius Library.Runs

/-- `radius_client_receive` drops the datagram: no request waits under its
identifier, or it is no valid answer to the request that does. -/
def drops (digests : Digests) (s : Controller) (msg : RadiusMsg) : Bool :=
  match matching s.radius msg.identifier with
  | none => true
  | some entry => !acceptsAnswer digests msg entry.msg

/-- The controller runs on, the session and the alarm list are as they were, and
nothing was sent. -/
structure SessionIntact (s t : Controller) (p : Ptr) : Prop where
  running : t.halted = none
  session : t.heap p = s.heap p
  alarms : t.alarms = s.alarms
  log : t.log = s.log

variable {digests : Digests} {s t : Controller} {i : Nat} {msg : RadiusMsg} {p : Ptr}
variable {call : Call}

/-- A dropped datagram takes at most its request off the list. -/
theorem radiusClientReceive_dropped (call : Call) (hdrops : drops digests s msg = true) :
    ∃ radius, radiusClientReceive digests s msg call = .ok { s with radius } := by
  unfold drops at hdrops
  unfold radiusClientReceive
  cases hmatch : matching s.radius msg.identifier with
  | none => exact ⟨s.radius, rfl⟩
  | some entry =>
    have hrejected : acceptsAnswer digests msg entry.msg = false := by
      simpa [hmatch] using hdrops
    exact ⟨_, by simp [hrejected]; rfl⟩

/-- With no flag set the handler has nothing to do. -/
theorem processReceiveRadiusMsg_idle (call : Call) (hdrops : drops digests s msg = true)
    (hfail : (s.heap p).eapCtx.eap.eapFail = false)
    (hreq : (s.heap p).eapCtx.eap.eapReq = false)
    (hsuccess : (s.heap p).eapCtx.eap.eapSuccess = false) :
    ∃ radius, processReceiveRadiusMsg digests s msg p call = .ok ({ s with radius }, false) := by
  obtain ⟨radius, hreceived⟩ := radiusClientReceive_dropped call hdrops
  refine ⟨radius, ?_⟩
  simp [processReceiveRadiusMsg, hreceived, bind, Except.bind, hfail, hreq, hsuccess]

/-- With a flag set the handler ends the process or moves its session on: the
identity workaround counts itself, and a POST takes a message identifier also
when `sendto` fails. -/
theorem processReceiveRadiusMsg_moves (hdrops : drops digests s msg = true)
    (hreq : (s.heap p).eapCtx.eap.eapReq = true) {identity : Bool}
    (h : processReceiveRadiusMsg digests s msg p call = .ok (t, identity)) :
    t.heap p ≠ s.heap p := by
  obtain ⟨radius, hreceived⟩ := radiusClientReceive_dropped call hdrops
  obtain ⟨u, hu, -, ⟨hidle, -⟩ | ⟨packet, -, ⟨-, rfl, -⟩ | ⟨-, hsend, -⟩⟩⟩ :=
    processReceiveRadiusMsg_ok h
  · rw [hreceived] at hu
    cases hu
    rw [hreq] at hidle
    exact Bool.noConfusion hidle
  · rw [hreceived] at hu
    cases hu
    intro hsame
    have hcount := congrArg Session.eapWorkarround hsame
    simp [identityWorkarround, cancelPostAlarm] at hcount
  · rw [hreceived] at hu
    cases hu
    intro hsame
    have hid := congrArg Session.messageId hsame
    rcases (sendRadiusPost_ok hsend).2 with ⟨-, rfl⟩ | ⟨-, rfl⟩
    · simp [armPost_session, radiusPostSession, storePost] at hid
    · simp [radiusPostSession] at hid

theorem handle_radius (hworker : s.workers[i]? = some (.receiveRadiusMsg msg p))
    (h : step digests s (.handle i call) = some t) :
    s.halted = none ∧
      t = conclude s ((processReceiveRadiusMsg digests s msg p call).map fun result =>
        if result.2 then setWorker result.1 i (.radiusIdentity p) else endWorker result.1 i) := by
  unfold step at h
  split at h
  · simp at h
  · rename_i hrunning
    simp only [hworker, Option.bind_some, handleStep] at h
    split at h
    · simp at h
    · refine ⟨by simpa using hrunning, ?_⟩
      simpa using h.symm

/-- A dropped datagram leaves its session intact exactly when the EAP machine of
the session has never run. -/
theorem rejected_datagram_leaves_session_iff (hreach : Reachable digests s)
    (hworker : s.workers[i]? = some (.receiveRadiusMsg msg p))
    (hdrops : drops digests s msg = true)
    (hstep : step digests s (.handle i call) = some t) :
    SessionIntact s t p ↔ (s.heap p).eapCtx.eap.eapState = .disabled := by
  obtain ⟨hrunning, ht⟩ := handle_radius hworker hstep
  constructor
  · intro hintact
    rcases unstarted_or_asking hreach p with hunstarted | hasking
    · exact hunstarted.eapState
    · exfalso
      cases hresult : processReceiveRadiusMsg digests s msg p call with
      | error reason =>
        have hhalted := hintact.running
        rw [ht, hresult] at hhalted
        simp [conclude, Except.map] at hhalted
      | ok result =>
        have hmoved : result.1.heap p ≠ s.heap p :=
          processReceiveRadiusMsg_moves hdrops hasking.eapReq hresult
        apply hmoved
        rw [← hintact.session, ht, hresult]
        obtain ⟨u, identity⟩ := result
        cases identity <;> rfl
  · intro hdisabled
    have hunstarted : Unstarted (s.heap p).eapCtx.eap := by
      rcases unstarted_or_asking hreach p with hunstarted | hasking
      · exact hunstarted
      · exact absurd hdisabled hasking.eapState
    obtain ⟨radius, hresult⟩ := processReceiveRadiusMsg_idle call hdrops hunstarted.eapFail
      hunstarted.eapReq hunstarted.eapSuccess
    rw [hresult] at ht
    subst ht
    exact ⟨hrunning, rfl, rfl, rfl⟩

/-- An Access-Challenge with this identifier and a State of 22 bytes that no secret was
used for. -/
def forgedRadius (identifier : UInt8) : Bytes :=
  [11, identifier, 0, 44] ++ List.replicate 16 0 ++ [24, 24] ++ List.replicate 22 0

/-- A forged datagram comes before the first run of a new session's machine. -/
def forgedEarly : List Event :=
  [.recvCoap [0x40, 0x02, 0x00, 0x09] ⟨[1], 5683⟩ {}, .recvRadius (forgedRadius 0), .getTask,
    .getTask, .lookup 1 []]

/-- The same datagram, with the first POST outstanding. -/
def forgedLate : List Event :=
  comesIn 1 ++ [.recvRadius (forgedRadius 0), .getTask, .lookup 0 []]

def forgedMsg : RadiusMsg := ⟨11, 0, List.replicate 16 0, [(attrState, List.replicate 22 0)]⟩

/-- The state that a schedule reaches and its next step, both checked. -/
theorem exists_step_of_run {es : List Event} {e : Event} {check : Controller → Bool}
    (h : ((run (step digests) initialController es).any fun s =>
      check s && (step digests s e).isSome) = true) :
    ∃ s t, Reachable digests s ∧ check s = true ∧ step digests s e = some t := by
  obtain ⟨s, hs, hcheck⟩ := exists_of_run h
  rw [Bool.and_eq_true] at hcheck
  obtain ⟨t, ht⟩ := Option.isSome_iff_exists.mp hcheck.2
  exact ⟨s, t, reachable_of_run hs, hcheck.1, ht⟩

theorem early_datagram_leaves_session : ∃ s t, Reachable noAnswers s ∧
    step noAnswers s (.handle 1 {}) = some t ∧ SessionIntact s t 0 := by
  have hrun : ((run (step noAnswers) initialController forgedEarly).any fun s =>
      (s.workers[1]? = some (.receiveRadiusMsg forgedMsg 0) && drops noAnswers s forgedMsg &&
        (s.heap 0).eapCtx.eap.eapState = .disabled) &&
          (step noAnswers s (.handle 1 {})).isSome) = true := by
    decide +kernel
  obtain ⟨s, t, hreach, hcheck, hstep⟩ := exists_step_of_run hrun
  rw [Bool.and_eq_true, Bool.and_eq_true, decide_eq_true_eq, decide_eq_true_eq] at hcheck
  obtain ⟨⟨hworker, hdrops⟩, hdisabled⟩ := hcheck
  exact ⟨s, t, hreach, hstep,
    (rejected_datagram_leaves_session_iff hreach hworker hdrops hstep).mpr hdisabled⟩

/-- A forged datagram takes the alarm of the outstanding POST off the list. -/
theorem forged_datagram_moves_session :
    ¬ ∀ digests s t i call msg p, Reachable digests s →
      s.workers[i]? = some (.receiveRadiusMsg msg p) → drops digests s msg = true →
        step digests s (.handle i call) = some t → SessionIntact s t p := by
  intro hstated
  have hrun : ((run (step noAnswers) initialController forgedLate).any fun s =>
      (s.workers[0]? = some (.receiveRadiusMsg forgedMsg 0) && drops noAnswers s forgedMsg &&
        (step noAnswers s (.handle 0 {})).any fun t => t.alarms ≠ s.alarms) &&
          (step noAnswers s (.handle 0 {})).isSome) = true := by
    decide +kernel
  obtain ⟨s, t, hreach, hcheck, hstep⟩ := exists_step_of_run hrun
  rw [Bool.and_eq_true, Bool.and_eq_true, decide_eq_true_eq, hstep] at hcheck
  have hintact := hstated noAnswers s t 0 {} forgedMsg 0 hreach hcheck.1.1 hcheck.1.2 hstep
  simpa [hintact.alarms] using hcheck.2

end CoapEap.Mainserver
