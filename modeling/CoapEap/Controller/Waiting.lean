import CoapEap.Controller.Requests

/-!
Where the EAP machines of the sessions come to rest. The loop of `eap_server_sm_step`
ends in every state of the controller. A machine that handed a response over stays in
`AAA_IDLE` whatever a device sends meanwhile, so while its request waits a session sends
no other, in any interleaving of the threads.
-/

namespace CoapEap.EapServer

/-- The machine waits for what the RADIUS server says to the response it handed over. -/
structure Awaiting (sm : EapSm) : Prop where
  eapState : sm.eapState = .aaaIdle
  portEnabled : sm.portEnabled = true
  eapRestart : sm.eapRestart = false
  numRounds : sm.numRounds ≤ eapMaxAuthRounds
  quiet : nextState sm = none

variable {sm : EapSm} {rand : Nat}

theorem Awaiting.step (h : Awaiting sm) (rand : Nat) : step sm rand = sm := by
  have hrounds : ¬ sm.numRounds > eapMaxAuthRounds := Nat.not_lt.mpr h.numRounds
  simp [EapServer.step, h.eapRestart, h.portEnabled, hrounds, h.quiet]

/-- A round of the loop finds nothing to do. -/
theorem Awaiting.loop (h : Awaiting sm) (rand fuel : Nat) :
    smLoop (fuel + 1) sm rand = { sm with changed := false } := by
  have hreset : Awaiting { sm with changed := false } :=
    ⟨h.eapState, h.portEnabled, h.eapRestart, h.numRounds, h.quiet⟩
  simp only [smLoop, hreset.step]
  rfl

theorem Awaiting.kept (h : Awaiting sm) (rand fuel : Nat) : Awaiting (smLoop fuel sm rand) := by
  cases fuel with
  | zero => exact h
  | succ fuel =>
    rw [h.loop]
    exact ⟨h.eapState, h.portEnabled, h.eapRestart, h.numRounds, h.quiet⟩

/-- Only the entry of `AAA_IDLE` hands a response over. -/
theorem step_awaits (henabled : sm.portEnabled = true) (htimeout : sm.aaaTimeout = false)
    (hbefore : sm.aaaEapResp = false) (hafter : (step sm rand).aaaEapResp = true) :
    Awaiting (step sm rand) := by
  have hnothing : sm.aaaEapResp ≠ true := by simp [hbefore]
  unfold step at hafter ⊢
  split at hafter
  · exact absurd hafter hnothing
  · rename_i hrestart
    have hpending : sm.eapRestart = false := by simpa [henabled] using hrestart
    rw [if_neg (by simp [henabled])] at hafter
    rw [if_neg hrestart, if_neg (by simp [henabled])]
    split at hafter
    · split at hafter
      · exact absurd hafter hnothing
      · exact absurd hafter hnothing
    · rename_i hrounds
      rw [if_neg hrounds]
      cases hnext : nextState sm with
      | none =>
        simp only [hnext] at hafter
        exact absurd hafter hnothing
      | some state =>
        simp only [hnext] at hafter ⊢
        have hidle : state = .aaaIdle := by
          by_contra hother
          have hkept := (onEntry_responseKept { sm with changed := true, eapState := state } rand
            state).aaaEapResp hother
          exact hnothing (hkept.symm.trans hafter)
        subst hidle
        have hquiet : nextState (enter sm rand .aaaIdle) = none := by
          simp [enter, onEntry, nextState, htimeout]
        exact ⟨rfl, henabled, hpending, Nat.le_of_not_lt hrounds, hquiet⟩

/-- The port and the timer of the RADIUS server are the interface's. -/
theorem step_interface (henabled : sm.portEnabled = true) (rand : Nat) :
    (step sm rand).portEnabled = true ∧ (step sm rand).aaaTimeout = sm.aaaTimeout := by
  rcases step_enters rand henabled with hsame | ⟨state, before, changed, hin, hon⟩
  · rw [hsame]
    exact ⟨henabled, rfl⟩
  · have hkept := onEntry_responseKept { before with changed, eapState := state } rand state
    rw [hon, hkept.portEnabled, hkept.aaaTimeout]
    cases hin with
    | restarted | exhausted | next => exact ⟨henabled, rfl⟩

/-- A run that hands a response over ends with the machine waiting. -/
theorem smLoop_awaits (fuel : Nat) (henabled : sm.portEnabled = true)
    (htimeout : sm.aaaTimeout = false) (hbefore : sm.aaaEapResp = false)
    (hafter : (smLoop fuel sm rand).aaaEapResp = true) : Awaiting (smLoop fuel sm rand) := by
  induction fuel generalizing sm with
  | zero =>
    rw [smLoop, hbefore] at hafter
    cases hafter
  | succ fuel ih =>
    have hfresh : ({ sm with changed := false } : EapSm).portEnabled = true := henabled
    have hinterface := step_interface hfresh rand
    simp only [smLoop] at hafter ⊢
    by_cases hhanded : (step { sm with changed := false } rand).aaaEapResp = true
    · have hawaiting := step_awaits hfresh htimeout hbefore hhanded
      split
      · exact hawaiting.kept rand fuel
      · exact hawaiting
    · split at hafter
      · rename_i hchanged
        rw [if_pos hchanged]
        exact ih hinterface.1 (hinterface.2.trans htimeout) (by simpa using hhanded) hafter
      · exact absurd hafter hhanded

/-- The condition of the loop becomes false, and more rounds would change nothing. -/
theorem Bound.ends (h : Bound sm) (rand : Nat) {fuel : Nat} (hfuel : left sm < fuel) :
    (smLoop fuel sm rand).changed = false ∧
      ∀ more, smLoop (fuel + more) sm rand = smLoop fuel sm rand := by
  induction fuel generalizing sm with
  | zero => exact absurd hfuel (Nat.not_lt_zero _)
  | succ fuel ih =>
    have hreset : Bound { sm with changed := false } := ⟨h.counted, h.eapFail, h.eapRestart⟩
    have hsame : left { sm with changed := false } = left sm := rfl
    simp only [Nat.succ_add, smLoop]
    cases hreset.step_settles rfl rand with
    | moved hchanged hlower =>
      simp only [hchanged, if_true]
      exact ih (hreset.step rand) (by omega)
    | rested hunchanged =>
      simp only [hunchanged, Bool.false_eq_true, if_false, implies_true, and_self]

end CoapEap.EapServer

namespace CoapEap.Mainserver

open Cantcoap EapServer Lalarm Radius Library.Runs

/-- The EAP layer of a session waits for the answer to a request. -/
structure AwaitsAnswer (ctx : EapAuthCtx) (req : AccessRequest) : Prop where
  identifier : ctx.radiusIdentifier = req.identifier
  machine : Awaiting ctx.eap
  response : ctx.eap.aaaEapRespData = some req.eapMessage

/-- Every request that waits is the one its session waits for. -/
def RequestsAwaited (s : Controller) : Prop :=
  ∀ entry ∈ s.radius.msgs,
    entry.session < s.nextPtr ∧ AwaitsAnswer (s.heap entry.session).eapCtx entry.msg

/-- No session is opened again while a request of it waits. -/
def opensIdle (s : Controller) : Event → Bool
  | .handle i _ =>
    match s.workers[i]? with
    | some (.coapMsg _ p) => s.radius.msgs.all fun entry => entry.session ≠ p
    | _ => true
  | _ => true

variable {digests : Digests} {s t : Controller} {e : Event} {p : Ptr} {call : Call}
variable {ctx : EapAuthCtx} {r : EapStep} {radius : RadiusClient} {req : AccessRequest}

/-- The ways in which the interface of a machine is written before it is run. -/
inductive Written (digests : Digests) (eap : EapSm) : EapSm → Prop
  | restarted : Written digests eap { eap with eapRestart := true }
  | responded (data : Bytes) :
      Written digests eap { eap with eapResp := true, eapRespData := some data }
  | answered (msg : RadiusMsg) (req : AccessRequest) :
      Written digests eap (answerEap digests msg req eap)

theorem Written.bound {eap written : EapSm} (h : Written digests eap written) (hbound : Bound eap)
    (hrunning : eap.eapState ≠ .initializeState) : Bound written := by
  cases h with
  | restarted => exact ⟨hbound.counted, hbound.eapFail, fun _ => hrunning⟩
  | responded data => exact ⟨hbound.counted, hbound.eapFail, hbound.eapRestart⟩
  | answered msg req =>
    obtain ⟨aaaSuccess, aaaFail, aaaEapReq, aaaEapReqData, keyData, keyAvailable, hwritten⟩ :=
      answerEap_eq digests msg req eap
    rw [hwritten]
    exact ⟨hbound.counted, hbound.eapFail, hbound.eapRestart⟩

/-- In every reachable state, however the interface of a session's machine is written and
whatever bytes a device or the RADIUS server sent, the loop of `eap_server_sm_step` comes
to its end after at most 32 states, and leaves the machine at rest. -/
theorem eap_server_sm_step_ends (digests : Digests) (s : Controller)
    (hreach : Reachable digests s) (p : Ptr) (written : EapSm)
    (hwritten : Written digests (s.heap p).eapCtx.eap written) (rand : Nat) :
    AtRest (eapServerSmStep written rand) ∧ (eapServerSmStep written rand).changed = false ∧
      ∀ fuel ≥ 32, smLoop fuel written rand = eapServerSmStep written rand := by
  have hconversing := conversing hreach p
  have hbound := hwritten.bound hconversing.bound hconversing.running
  obtain ⟨hends, hmore⟩ := hbound.ends rand (left_lt written)
  refine ⟨hbound.rests rand (left_lt written), hends, fun fuel hfuel => ?_⟩
  obtain ⟨more, rfl⟩ := Nat.exists_eq_add_of_le hfuel
  exact hmore more

/-- A device answers the identity request. -/
theorem identity_run_ends : ∃ s, Reachable noAnswers s ∧
    ((s.heap 0).eapCtx.eap.eapState = .idle ∧
      (eapServerSmStep { (s.heap 0).eapCtx.eap with
        eapResp := true, eapRespData := some [2, 1, 0, 6, 1, 0x61] } 0).changed = false) := by
  have hrun : (run (step noAnswers) initialController (comesIn 1)).any
      (fun s => (s.heap 0).eapCtx.eap.eapState = .idle) = true := by
    decide +kernel
  obtain ⟨s, hs, hidle⟩ := exists_of_run hrun
  have hreach := reachable_of_run hs
  exact ⟨s, hreach, of_decide_eq_true hidle,
    (eap_server_sm_step_ends noAnswers s hreach 0 _ (.responded [2, 1, 0, 6, 1, 0x61]) 0).2.1⟩

/-- What a device sends does not move a machine that waits. -/
theorem AwaitsAnswer.responded {data : Bytes} (h : AwaitsAnswer ctx req)
    (hbetween : Between ctx.eap)
    (hstep : eapAuthStep (setEapResponse ctx data) radius p call = .ok r) :
    r.radius = radius ∧ AwaitsAnswer r.ctx req := by
  have hfed : Awaiting (setEapResponse ctx data).eap := by
    obtain ⟨hstate, henabled, hpending, hrounds, hquiet⟩ := h.machine
    refine ⟨hstate, henabled, hpending, hrounds, ?_⟩
    simp only [nextState, hstate] at hquiet
    simp only [setEapResponse, nextState, hstate]
    exact hquiet
  have hrun : eapServerSmStep (setEapResponse ctx data).eap call.rand =
      { (setEapResponse ctx data).eap with changed := false } := hfed.loop call.rand 31
  have hnothing : (setEapResponse ctx data).eap.aaaEapResp = false := hbetween.aaaEapResp
  simp only [eapAuthStep, hrun, hnothing, Bool.false_eq_true, if_false] at hstep
  split at hstep
  · cases hstep
  · simp only [Except.ok.injEq] at hstep
    subst hstep
    exact ⟨rfl, h.identifier, ⟨hfed.eapState, hfed.portEnabled, hfed.eapRestart, hfed.numRounds,
      hfed.quiet⟩, h.response⟩

theorem Sent.awaits {rand : Nat} {entry : RadiusMsgList} (h : Sent ctx radius p rand r entry)
    (hready : Forwards ctx.eap) (hnothing : ctx.eap.aaaEapResp = false) :
    AwaitsAnswer r.ctx entry.msg := by
  have hmachine : Awaiting (eapServerSmStep ctx.eap rand) :=
    smLoop_awaits 32 hready.portEnabled hready.aaaTimeout hnothing h.handed
  refine ⟨h.current, ?_, ?_⟩
  · rw [h.machine]
    exact ⟨hmachine.eapState, hmachine.portEnabled, hmachine.eapRestart, hmachine.numRounds,
      hmachine.quiet⟩
  · rw [h.machine]
    exact h.eapMessage

/-- A request in the list after a step of the EAP layer was there before or is what the
session waits for now. -/
theorem Asks.entries (h : Asks s t p ctx call r) (hready : Forwards ctx.eap)
    (hnothing : ctx.eap.aaaEapResp = false) {entry : RadiusMsgList}
    (hentry : entry ∈ t.radius.msgs) :
    entry ∈ s.radius.msgs ∨ entry.session = p ∧ AwaitsAnswer (t.heap p).eapCtx entry.msg := by
  have hsub : ∀ {other}, other ∈ (radiusClientGetId s.radius).2.msgs → other ∈ s.radius.msgs :=
    fun hother => List.mem_of_mem_filter hother
  rw [h.radius] at hentry
  rcases (eapAuthStep_client h.step).2 with ⟨-, hsame | htaken⟩ | ⟨sent, hsent⟩
  · exact .inl (hsame ▸ hentry)
  · rw [htaken] at hentry
    exact .inl (hsub hentry)
  · rw [hsent.waiting] at hentry
    have hcases : entry = sent ∨ entry ∈ (radiusClientGetId s.radius).2.msgs := by
      unfold radiusClientListAdd at hentry
      split at hentry
      · rcases List.mem_cons.mp hentry with hnew | hold
        · exact .inl hnew
        · exact .inr ((List.dropLast_sublist _).subset hold)
      · exact List.mem_cons.mp hentry
    rcases hcases with rfl | hold
    · refine .inr ⟨hsent.session, ?_⟩
      rw [h.eapCtx]
      exact hsent.awaits hready hnothing
    · exact .inl (hsub hold)

/-- An answer takes its request off the list before the session goes on. -/
theorem RequestsAwaited.answered {msg : RadiusMsg} (hs : RequestsAwaited s)
    (hpending : PendingRequests s.radius) (hgrows : s.nextPtr ≤ t.nextPtr)
    (h : AnswerMove digests msg s t) : RequestsAwaited t := by
  intro entry hentry
  rcases h with ⟨hradius, hctx⟩ | ⟨-, hradius, hctx⟩
  · rw [hradius] at hentry
    obtain ⟨hmade, hawaits⟩ := hs entry hentry
    exact ⟨Nat.lt_of_lt_of_le hmade hgrows, hctx entry.session ▸ hawaits⟩
  · rw [hradius, hpending.removed_msgs] at hentry
    obtain ⟨hmem, hother⟩ := List.mem_filter.mp hentry
    obtain ⟨hmade, hawaits⟩ := hs entry hmem
    refine ⟨Nat.lt_of_lt_of_le hmade hgrows, ?_⟩
    rcases hctx entry.session with hsame | ⟨hid, -⟩
    · exact hsame ▸ hawaits
    · rw [hawaits.identifier] at hid
      simp [hid] at hother

theorem RequestsAwaited.step (hs : RequestsAwaited s) (hreach : Reachable digests s)
    (hguard : opensIdle s e = true) (h : step digests s e = some t) : RequestsAwaited t := by
  have hgrows := (step_grows h).nextPtr
  have hkept : ∀ entry ∈ s.radius.msgs,
      (t.heap entry.session).eapCtx = (s.heap entry.session).eapCtx →
      entry.session < t.nextPtr ∧ AwaitsAnswer (t.heap entry.session).eapCtx entry.msg := by
    intro entry hentry hsame
    obtain ⟨hmade, hawaits⟩ := hs entry hentry
    exact ⟨Nat.lt_of_lt_of_le hmade hgrows, hsame ▸ hawaits⟩
  cases step_client hreach h with
  | unasked hsame =>
    intro entry hentry
    rw [hsame.radius] at hentry
    exact hkept entry hentry (hsame.eapCtx _)
  | created hradius hnext hnew hothers =>
    intro entry hentry
    rw [hradius] at hentry
    exact hkept entry hentry (hothers _ (Nat.ne_of_lt (hs entry hentry).1))
  | answered i msg p hworker htaken =>
    exact hs.answered (pendingRequests hreach) hgrows htaken
  | asks p ctx call r hmade hfeeds hasked =>
    have hconversing := conversing hreach p
    have haddressed := hfeeds.addressed
    have hready : Forwards ctx.eap := hconversing.between.forwards haddressed.eapState
      haddressed.portEnabled haddressed.aaaTimeout haddressed.aaaEapResp
    have hnothing : ctx.eap.aaaEapResp = false :=
      haddressed.aaaEapResp.trans hconversing.between.aaaEapResp
    intro entry hentry
    rcases hasked.entries hready hnothing hentry with hold | ⟨howner, hawaits⟩
    · by_cases howner : entry.session = p
      · cases hfeeds with
        | opened i call' task hevent hworker =>
          -- the guard: nothing of this session waits
          have hidle : s.radius.msgs.all (fun entry => entry.session ≠ p) = true := by
            simpa [opensIdle, hevent, hworker] using hguard
          exact absurd howner (by simpa using List.all_eq_true.mp hidle entry hold)
        | responded data =>
          obtain ⟨-, hawaits⟩ := hs entry hold
          rw [howner] at hawaits ⊢
          refine ⟨Nat.lt_of_lt_of_le hmade hgrows, ?_⟩
          rw [hasked.eapCtx]
          exact (hawaits.responded hconversing.between hasked.step).2
      · exact hkept entry hold (hasked.others _ howner)
    · rw [howner]
      exact ⟨Nat.lt_of_lt_of_le hmade hgrows, hawaits⟩

theorem requestsAwaited
    (h : ReachableUnder (step digests) (fun s e => opensIdle s e = true) initialController s) :
    RequestsAwaited s := by
  refine h.invariant ?_ fun _ _ _ hbefore hs hguard hstep =>
    hs.step hbefore.reachable hguard hstep
  intro entry hentry
  cases hentry

/-- In every run in which no session is opened again while a request of it waits, no two
Access-Requests of one session wait at the same time. A session whose request waits is
known by the identifier of this request, its machine is in `AAA_IDLE`, and the response in
the request is the one that the machine handed over. The runs are those in which an answer
and a request are not in the list together (`reachable_iff_alone`). -/
theorem one_request_per_session (digests : Digests) (s : Controller)
    (h : ReachableUnder (step digests) (fun s e => opensIdle s e = true) initialController s) :
    s.radius.msgs.Pairwise (fun a b => a.session ≠ b.session) ∧
      ∀ entry ∈ s.radius.msgs,
        (s.heap entry.session).eapCtx.radiusIdentifier = entry.msg.identifier ∧
        (s.heap entry.session).eapCtx.eap.eapState = .aaaIdle ∧
        (s.heap entry.session).eapCtx.eap.aaaEapRespData = some entry.msg.eapMessage := by
  have hawaited := requestsAwaited h
  have hpending := pendingRequests h.reachable
  constructor
  · refine hpending.apart.imp_of_mem fun {a b} ha hb hne hsame => hne ?_
    rw [← (hawaited a ha).2.identifier, ← (hawaited b hb).2.identifier, hsame]
  · intro entry hentry
    obtain ⟨-, hawaits⟩ := hawaited entry hentry
    exact ⟨hawaits.identifier, hawaits.machine.eapState, hawaits.response⟩

/-- Two sessions whose requests wait side by side. -/
theorem two_sessions_wait : ∃ s,
    ReachableUnder (step noAnswers) (fun s e => opensIdle s e = true) initialController s ∧
      s.radius.msgs.map RadiusMsgList.session = [0, 1] ∧
      ∀ entry ∈ s.radius.msgs, (s.heap entry.session).eapCtx.eap.eapState = .aaaIdle := by
  have hrun : (run (guarded (step noAnswers) fun s e => opensIdle s e = true) initialController
      (comesIn 1 ++ comesIn 2 ++ acknowledges 2 1 ++ acknowledges 1 1)).any
        (fun s => s.radius.msgs.map RadiusMsgList.session = [0, 1]) = true := by
    decide +kernel
  obtain ⟨s, hs, hwaiting⟩ := exists_of_run hrun
  have hreach := reachableUnder_of_run hs
  exact ⟨s, hreach, of_decide_eq_true hwaiting,
    fun entry hentry => ((one_request_per_session noAnswers s hreach).2 entry hentry).2.1⟩

end CoapEap.Mainserver
