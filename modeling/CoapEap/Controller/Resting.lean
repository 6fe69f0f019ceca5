import CoapEap.Controller.Success

/-!
The loop of `eap_server_sm_step` ends by itself. The states are ordered so that a
machine only goes down from one to the next, and it rests before the rounds that the
model gives the loop are used up.
-/

namespace CoapEap.EapServer

/-- How high a state stands. Above the states that wait for a response are those that
the machine goes through with one. -/
def height (eapResp : Bool) : EapState → Nat
  | .failure => 0
  | .success | .timeoutFailure | .success2 | .failure2 | .timeoutFailure2 => 1
  | .idle => if eapResp then 21 else 1
  | .retransmit => if eapResp then 22 else 2
  | .received => 20
  | .integrityCheck | .pickUpMethod => 19
  | .methodResponse | .disabled => 18
  | .nak | .initializeState => 17
  | .selectAction => 16
  | .proposeMethod | .initializePassthrough => 15
  | .methodRequest => 14
  | .sendRequest | .discard => if eapResp then 22 else 13
  | .idle2 => if eapResp then 11 else 1
  | .retransmit2 => if eapResp then 12 else 2
  | .received2 => 10
  | .aaaRequest => 9
  | .aaaIdle => 8
  | .aaaResponse => 7
  | .sendRequest2 | .discard2 => if eapResp then 12 else 6

/-- The states that have done with the response. -/
def takesResponse : EapState → Bool
  | .sendRequest | .discard | .sendRequest2 | .discard2 => true
  | _ => false

/-- A machine that waits is higher while its timer stands at zero. -/
def rank (sm : EapSm) : Nat :=
  height sm.eapResp sm.eapState +
    if (sm.eapState = .idle ∨ sm.eapState = .idle2) ∧ sm.retransWhile = 0 then 2 else 0

variable {sm : EapSm} {rand : Nat} {state : EapState}

/-- What the entry of a state does to the variables that move the machine. -/
structure Entered (sm sm' : EapSm) (state : EapState) : Prop where
  changed : sm'.changed = sm.changed
  eapResp : sm'.eapResp = (sm.eapResp && !takesResponse state)
  retransWhile : state = .idle ∨ state = .idle2 → sm'.retransWhile ≠ 0
  eapFail : state ≠ .initializeState →
    sm'.eapFail = (sm.eapFail || state = .failure || state = .failure2)
  numRounds : state ≠ .disabled → state ≠ .initializeState → state ≠ .received →
    sm'.numRounds = sm.numRounds
  aaaFail : sm'.aaaFail = (sm.aaaFail && state ≠ .aaaIdle)

theorem calculateTimeout_ne_zero (retransCount : Nat) : calculateTimeout retransCount ≠ 0 := by
  unfold calculateTimeout
  split <;> simp

theorem onEntry_entered (sm : EapSm) (rand : Nat) (state : EapState) :
    Entered sm (onEntry sm rand state) state := by
  have htimeout := calculateTimeout_ne_zero sm.retransCount
  cases state with
  | received | received2 =>
    obtain ⟨rxResp, respId, respMethod, vendor, method, hparse⟩ :=
      parseEapResp_eq sm sm.eapRespData
    simp only [onEntry, hparse]
    exact ⟨rfl, by simp [takesResponse], by simp, by simp, by simp, by simp⟩
  | selectAction =>
    obtain ⟨decision, startReauth, hdecision⟩ := getDecision_eq sm
    simp only [onEntry, hdecision]
    exact ⟨rfl, by simp [takesResponse], by simp, by simp, by simp, by simp⟩
  | retransmit | retransmit2 =>
    simp only [onEntry, retransmit]
    split <;> exact ⟨rfl, by simp [takesResponse], by simp, by simp, by simp, by simp⟩
  | sendRequest | sendRequest2 =>
    simp only [onEntry, sendRequest]
    split <;> exact ⟨rfl, by simp [takesResponse], by simp, by simp, by simp, by simp⟩
  | integrityCheck | methodRequest | methodResponse | proposeMethod =>
    simp only [onEntry]
    repeat' split
    all_goals exact ⟨rfl, by simp [takesResponse], by simp, by simp, by simp, by simp⟩
  | idle | idle2 =>
    exact ⟨rfl, by simp [onEntry, takesResponse], fun _ => htimeout, by simp [onEntry],
      by simp [onEntry], by simp [onEntry]⟩
  | _ =>
    exact ⟨rfl, by simp [onEntry, takesResponse, discard], by simp, by simp [onEntry, discard],
      by simp [onEntry, discard], by simp [onEntry, discard]⟩

/-- Where the variables lead a machine is below the place it comes from. -/
theorem nextState_height (hnext : nextState sm = some state) :
    height (sm.eapResp && !takesResponse state) state < rank sm := by
  unfold rank
  cases hstate : sm.eapState with
  | idle | idle2 =>
    simp only [nextState, hstate] at hnext
    cases hresp : sm.eapResp <;> cases hwhile : sm.retransWhile <;>
      simp [hresp, hwhile] at hnext <;> subst hnext <;> simp [height, takesResponse]
  | _ =>
    simp only [nextState, hstate] at hnext
    cases hresp : sm.eapResp <;> repeat' split at hnext
    all_goals simp only [Option.some.injEq, reduceCtorEq] at hnext
    all_goals subst hnext
    all_goals simp [height, takesResponse]

theorem Entered.rank {sm' : EapSm} (h : Entered sm sm' state) (hkept : sm'.eapState = state) :
    rank sm' = height (sm.eapResp && !takesResponse state) state := by
  have hwaits : ¬ ((state = .idle ∨ state = .idle2) ∧ sm'.retransWhile = 0) :=
    fun hzero => h.retransWhile hzero.1 hzero.2
  rw [EapServer.rank, hkept, h.eapResp, if_neg hwaits, Nat.add_zero]

/-- Nothing moves the machine until its interface is written. -/
structure AtRest (sm : EapSm) : Prop where
  portEnabled : sm.portEnabled = true
  eapRestart : sm.eapRestart = false
  quiet : nextState sm = none
  numRounds : sm.numRounds ≤ eapMaxAuthRounds ∨ sm.eapFail = true

/-- A machine on the way to rest: its rounds are counted, a failure shows, and no
restart is asked for where it has just been restarted. -/
structure Bound (sm : EapSm) : Prop where
  counted : Counted sm
  eapFail : sm.eapState = .failure → sm.eapFail = true
  eapRestart : sm.eapRestart = true → sm.eapState ≠ .initializeState

/-- The states that a run may still enter. -/
def left (sm : EapSm) : Nat := if sm.eapRestart then 24 else rank sm

theorem left_lt (sm : EapSm) : left sm < 32 := by
  unfold left rank height
  split
  · omega
  · cases sm.eapState <;> simp only <;> repeat' split
    all_goals omega

theorem rank_pos (h : sm.eapState ≠ .failure) : 0 < rank sm := by
  unfold rank height
  cases hstate : sm.eapState with
  | failure => exact absurd hstate h
  | _ =>
    simp only
    repeat' split
    all_goals omega

theorem Bound.step (h : Bound sm) (rand : Nat) : Bound (step sm rand) := by
  have henabled := h.counted.1
  refine ⟨h.counted.step, ?_, ?_⟩
  · intro hfailed
    rcases step_enters rand henabled with hsame | ⟨state, before, changed, -, hon⟩
    · rw [hsame] at hfailed ⊢
      exact h.eapFail hfailed
    · rw [hon] at hfailed ⊢
      have hentered := onEntry_entered { before with changed, eapState := state } rand state
      have hkept := onEntry_keeps { before with changed, eapState := state } rand state
      obtain rfl : state = .failure := hkept.eapState.symm.trans hfailed
      rw [hentered.eapFail EapState.noConfusion]
      simp
  · intro hrestart
    rw [(step_eapRestart henabled).2] at hrestart
    cases hrestart

/-- What a round of the loop comes to. -/
inductive Settles (sm sm' : EapSm) : Prop
  | moved (changed : sm'.changed = true) (lower : left sm' < left sm)
  | rested (unchanged : sm'.changed = false) (atRest : AtRest sm')

theorem left_eq_rank (hpending : sm.eapRestart = false) : left sm = rank sm := by
  rw [left, hpending]
  rfl

theorem enter_rank (sm : EapSm) (rand : Nat) (state : EapState) :
    rank (enter sm rand state) = height (sm.eapResp && !takesResponse state) state :=
  have hentered := onEntry_entered { sm with changed := true, eapState := state } rand state
  have hkept := onEntry_keeps { sm with changed := true, eapState := state } rand state
  hentered.rank hkept.eapState

/-- A step of a machine that goes on brings it down, and another leaves it at rest. -/
theorem Bound.step_settles (h : Bound sm) (hfresh : sm.changed = false) (rand : Nat) :
    Settles sm (EapServer.step sm rand) := by
  have henabled := h.counted.1
  have hover : (EapServer.step sm rand).eapRestart = false := (step_eapRestart henabled).2
  by_cases hrestart : sm.eapRestart = true
  · have hfirst : EapServer.step sm rand = enter sm rand .initializeState := by
      simp [EapServer.step, hrestart, henabled, enterGlobal, enter, h.eapRestart hrestart]
    rw [hfirst] at hover ⊢
    refine .moved rfl ?_
    rw [left_eq_rank hover, enter_rank, left, if_pos hrestart, height]
    decide
  · have hpending : sm.eapRestart = false := by simpa using hrestart
    unfold EapServer.step at hover ⊢
    rw [if_neg fun hboth => hrestart hboth.1, if_neg (by simp [henabled])] at hover ⊢
    split
    · rename_i hrounds
      split
      · -- the last round has been made
        have hcases := Bool.eq_false_or_eq_true (enterGlobal
          { sm with numRounds := sm.numRounds + 1 } rand .failure).changed
        rcases hcases with hchanged | hchanged
        · have hbefore : sm.eapState ≠ .failure := by
            simpa [enterGlobal, onEntry, hfresh] using hchanged
          refine .moved hchanged ?_
          rw [left_eq_rank hpending, left_eq_rank (by exact hpending)]
          exact rank_pos hbefore
        · exact .rested hchanged ⟨henabled, hpending, rfl, .inr rfl⟩
      · have hfailed : sm.eapState = .failure := h.counted.2.resolve_left (by omega)
        exact .rested hfresh
          ⟨henabled, hpending, by simp [nextState, hfailed], .inr (h.eapFail hfailed)⟩
    · rename_i hrounds
      rw [if_neg hrounds] at hover
      split
      · rename_i hnext
        exact .rested hfresh ⟨henabled, hpending, hnext, .inl (by omega)⟩
      · rename_i state hnext
        simp only [hnext] at hover
        refine .moved (onEntry_entered _ rand state).changed ?_
        rw [left_eq_rank hover, left_eq_rank hpending, enter_rank]
        exact nextState_height hnext

theorem Bound.rests (h : Bound sm) (rand : Nat) {fuel : Nat} (hfuel : left sm < fuel) :
    AtRest (smLoop fuel sm rand) := by
  induction fuel generalizing sm with
  | zero => omega
  | succ fuel ih =>
    have hreset : Bound { sm with changed := false } := ⟨h.counted, h.eapFail, h.eapRestart⟩
    have hsame : left { sm with changed := false } = left sm := rfl
    simp only [smLoop]
    cases hreset.step_settles rfl rand with
    | moved hchanged hlower =>
      rw [if_pos hchanged]
      exact ih (hreset.step rand) (by omega)
    | rested hunchanged hrest =>
      rw [if_neg (by simp [hunchanged])]
      exact hrest

theorem Bound.kept (h : Bound sm) (rand fuel : Nat) : Bound (smLoop fuel sm rand) := by
  induction fuel generalizing sm with
  | zero => exact h
  | succ fuel ih =>
    have hreset : Bound { sm with changed := false } := ⟨h.counted, h.eapFail, h.eapRestart⟩
    simp only [smLoop]
    split
    · exact ih (hreset.step rand)
    · exact hreset.step rand

/-- `eap_server_sm_step` leaves the machine at rest. -/
theorem Bound.run (h : Bound sm) (rand : Nat) :
    Bound (eapServerSmStep sm rand) ∧ AtRest (eapServerSmStep sm rand) :=
  ⟨h.kept rand 32, h.rests rand (left_lt sm)⟩

theorem AtRest.running (h : AtRest sm) : sm.eapState ≠ .initializeState := by
  intro hstate
  have hquiet := h.quiet
  simp [nextState, hstate] at hquiet

theorem AtRest.aaaFail (h : AtRest sm) (hidle : sm.eapState = .aaaIdle) : sm.aaaFail = false := by
  have hquiet := h.quiet
  rw [Bool.eq_false_iff]
  intro hrefused
  simp [nextState, hidle, hrefused] at hquiet

/-- The states behind which the machine passes responses through. -/
def passesThrough : EapState → Bool
  | .idle2 | .retransmit2 | .received2 | .discard2 | .sendRequest2 | .aaaRequest | .aaaIdle
  | .aaaResponse | .success2 | .timeoutFailure2 => true
  | _ => false

/-- The machine passes responses through and no refusal has come. -/
structure Unrefused (sm : EapSm) : Prop where
  portEnabled : sm.portEnabled = true
  eapRestart : sm.eapRestart = false
  numRounds : sm.numRounds ≤ eapMaxAuthRounds
  passing : passesThrough sm.eapState = true
  eapFail : sm.eapFail = false
  aaaFail : sm.eapState = .aaaIdle → sm.aaaFail = false

theorem Unrefused.passes (h : Unrefused sm) (hnext : nextState sm = some state) :
    passesThrough state = true := by
  have hpassing := h.passing
  cases hstate : sm.eapState with
  | aaaIdle =>
    simp only [nextState, hstate, h.aaaFail hstate, Bool.false_eq_true, if_false] at hnext
    repeat' split at hnext
    all_goals simp only [Option.some.injEq, reduceCtorEq] at hnext
    all_goals exact hnext ▸ rfl
  | idle2 | retransmit2 | received2 | discard2 | sendRequest2 | aaaRequest | aaaResponse | success2
  | timeoutFailure2 =>
    simp only [nextState, hstate] at hnext
    repeat' split at hnext
    all_goals simp only [Option.some.injEq, reduceCtorEq] at hnext
    all_goals exact hnext ▸ rfl
  | _ => simp [passesThrough, hstate] at hpassing

theorem Unrefused.entry {before : EapSm} {changed : Bool} (h : Unrefused sm)
    (hentering : Entering sm state before) :
    Unrefused (onEntry { before with changed, eapState := state } rand state) := by
  cases hentering with
  | restarted hrestart =>
    rw [h.eapRestart] at hrestart
    cases hrestart
  | exhausted hrounds =>
    have hbound := h.numRounds
    omega
  | next state hpending hnext =>
    have hpassing := h.passes hnext
    have hentered := onEntry_entered { sm with changed, eapState := state } rand state
    have hkept := onEntry_keeps { sm with changed, eapState := state } rand state
    have hother : ∀ other, passesThrough other = false → state ≠ other := by
      rintro other hnot rfl
      rw [hpassing] at hnot
      cases hnot
    have hrounds := hentered.numRounds (hother _ rfl) (hother _ rfl) (hother _ rfl)
    refine ⟨hkept.portEnabled.trans h.portEnabled, ?_, ?_, ?_, ?_, ?_⟩
    · exact (hkept.eapRestart (hother _ rfl)).trans hpending
    · rw [hrounds]
      exact h.numRounds
    · rw [hkept.eapState]
      exact hpassing
    · rw [hentered.eapFail (hother _ rfl)]
      simp [h.eapFail, hother .failure rfl, hother .failure2 rfl]
    · intro hidle
      obtain rfl : state = .aaaIdle := hkept.eapState.symm.trans hidle
      rw [hentered.aaaFail]
      simp

theorem Unrefused.run (h : Unrefused sm) (fuel : Nat) : Unrefused (smLoop fuel sm rand) :=
  smLoop_keeps (fun _ h => h.portEnabled)
    (fun _ _ h => ⟨h.portEnabled, h.eapRestart, h.numRounds, h.passing, h.eapFail, h.aaaFail⟩)
    (fun _ _ _ _ h hin => h.entry hin) fuel h

/-- The machine has failed, and only a restart takes that back. -/
structure Failed (sm : EapSm) : Prop where
  portEnabled : sm.portEnabled = true
  eapRestart : sm.eapRestart = false
  eapState : sm.eapState ≠ .disabled
  eapFail : sm.eapFail = true

theorem nextState_ne_initializeState (hstate : sm.eapState ≠ .disabled)
    (hnext : nextState sm = some state) : state ≠ .initializeState := by
  rintro rfl
  cases hfrom : sm.eapState with
  | disabled => exact hstate hfrom
  | _ =>
    simp only [nextState, hfrom] at hnext
    repeat' split at hnext
    all_goals simp at hnext

theorem Failed.entry {before : EapSm} {changed : Bool} (h : Failed sm)
    (hentering : Entering sm state before) :
    Failed (onEntry { before with changed, eapState := state } rand state) := by
  have hentered := onEntry_entered { before with changed, eapState := state } rand state
  have hkept := onEntry_keeps { before with changed, eapState := state } rand state
  have hcases : state ≠ .initializeState ∧ state ≠ .disabled ∧ before.portEnabled = true ∧
      before.eapRestart = false ∧ before.eapFail = true := by
    cases hentering with
    | restarted hrestart =>
      rw [h.eapRestart] at hrestart
      cases hrestart
    | exhausted =>
      exact ⟨EapState.noConfusion, EapState.noConfusion, h.portEnabled, h.eapRestart, h.eapFail⟩
    | next state _ hnext =>
      exact ⟨nextState_ne_initializeState h.eapState hnext, nextState_ne_disabled hnext,
        h.portEnabled, h.eapRestart, h.eapFail⟩
  obtain ⟨hfirst, hdisabled, henabled, hpending, hfailed⟩ := hcases
  refine ⟨hkept.portEnabled.trans henabled, (hkept.eapRestart hfirst).trans hpending, ?_, ?_⟩
  · rw [hkept.eapState]
    exact hdisabled
  · rw [hentered.eapFail hfirst]
    simp [hfailed]

theorem Failed.run (h : Failed sm) (fuel : Nat) : Failed (smLoop fuel sm rand) :=
  smLoop_keeps (fun _ h => h.portEnabled)
    (fun _ _ h => ⟨h.portEnabled, h.eapRestart, h.eapState, h.eapFail⟩)
    (fun _ _ _ _ h hin => h.entry hin) fuel h

/-- A machine that nothing moves stays as it is. -/
theorem smLoop_stays (henabled : sm.portEnabled = true) (hpending : sm.eapRestart = false)
    (hrounds : sm.numRounds ≤ eapMaxAuthRounds) (hnext : nextState sm = none) (fuel : Nat) :
    smLoop (fuel + 1) sm rand = { sm with changed := false } := by
  have hsame : step { sm with changed := false } rand = { sm with changed := false } :=
    step_stays henabled hpending hrounds hnext
  simp only [smLoop, hsame]
  rfl

/-- The machine is written to as by an answer of the RADIUS server, which only a machine
that waits for one looks at. -/
structure AnswerWritten (sm sm' : EapSm) : Prop where
  portEnabled : sm'.portEnabled = sm.portEnabled
  eapRestart : sm'.eapRestart = sm.eapRestart
  eapState : sm'.eapState = sm.eapState
  eapFail : sm'.eapFail = sm.eapFail
  numRounds : sm'.numRounds = sm.numRounds
  unseen : sm.eapState ≠ .aaaIdle → nextState sm' = nextState sm

/-- An answer fails a machine at rest when it refuses what the machine waits for. -/
theorem AtRest.answered_eapFail {sm' : EapSm} (h : AtRest sm) (hwritten : AnswerWritten sm sm')
    (rand : Nat) : (eapServerSmStep sm' rand).eapFail =
      (sm.eapFail || (sm.eapState = .aaaIdle && sm'.aaaFail)) := by
  have henabled : sm'.portEnabled = true := hwritten.portEnabled.trans h.portEnabled
  have hpending : sm'.eapRestart = false := hwritten.eapRestart.trans h.eapRestart
  have hrunning : sm'.eapState ≠ .disabled := by
    intro hdisabled
    have hnone := h.quiet
    simp [nextState, hwritten.eapState.symm.trans hdisabled, h.portEnabled] at hnone
  cases hfail : sm.eapFail with
  | true =>
    have hfailed : Failed sm' :=
      ⟨henabled, hpending, hrunning, hwritten.eapFail.trans hfail⟩
    rw [eapServerSmStep, (hfailed.run 32).eapFail, Bool.true_or]
  | false =>
    have hrounds : sm'.numRounds ≤ eapMaxAuthRounds := by
      rw [hwritten.numRounds]
      exact h.numRounds.resolve_right (by simp [hfail])
    rw [Bool.false_or]
    by_cases hidle : sm.eapState = .aaaIdle
    · have hwaits : sm'.eapState = .aaaIdle := hwritten.eapState.trans hidle
      cases hrefused : sm'.aaaFail with
      | true =>
        have hfirst : step { sm' with changed := false } rand = enter sm' rand .failure2 :=
          step_next henabled hpending hrounds (by simp [nextState, hwaits, hrefused])
        have hfailed : Failed (enter sm' rand .failure2) :=
          ⟨henabled, hpending, EapState.noConfusion, rfl⟩
        rw [eapServerSmStep, smLoop_enter hfirst rfl, (hfailed.run 31).eapFail]
        simp [hidle]
      | false =>
        have hunrefused : Unrefused sm' :=
          ⟨henabled, hpending, hrounds, by rw [hwaits]; rfl, hwritten.eapFail.trans hfail,
            fun _ => hrefused⟩
        rw [eapServerSmStep, (hunrefused.run 32).eapFail, Bool.and_false]
    · have hnext : nextState sm' = none := (hwritten.unseen hidle).trans h.quiet
      rw [eapServerSmStep, smLoop_stays henabled hpending hrounds hnext 31]
      simp [hidle, hwritten.eapFail.trans hfail]

end CoapEap.EapServer
