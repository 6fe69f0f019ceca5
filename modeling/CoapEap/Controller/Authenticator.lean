import CoapEap.Controller.EapServer

/-!
What runs of the EAP authenticator keep. A step of the state machine enters at
most one state, so an invariant has one case for each state that is entered;
`eapServerSmStep_keeps` carries it over the loop.
-/

namespace CoapEap.EapServer

/-- The state that a step enters, and the variables it is entered with. -/
inductive Entering (sm : EapSm) : EapState → EapSm → Prop
  | restarted (restart : sm.eapRestart = true) : Entering sm .initializeState sm
  | exhausted (rounds : sm.numRounds > eapMaxAuthRounds) :
      Entering sm .failure { sm with numRounds := sm.numRounds + 1 }
  | next (state : EapState) (pending : sm.eapRestart = false)
      (found : nextState sm = some state) : Entering sm state sm

/-- A step of a machine whose port is enabled stays where it is or enters a
state. -/
theorem step_enters {sm : EapSm} (rand : Nat) (henabled : sm.portEnabled = true) :
    step sm rand = sm ∨ ∃ state before changed, Entering sm state before ∧
      step sm rand = onEntry { before with changed, eapState := state } rand state := by
  unfold step
  split
  · rename_i hrestart
    exact .inr ⟨_, _, _, .restarted hrestart.1, rfl⟩
  · rename_i hrestart
    rw [if_neg (by simp [henabled])]
    split
    · rename_i hrounds
      split
      · exact .inr ⟨_, _, _, .exhausted hrounds, rfl⟩
      · exact .inl rfl
    · split
      · exact .inl rfl
      · rename_i state hnext
        have hpending : sm.eapRestart = false := by
          simpa [henabled] using hrestart
        exact .inr ⟨state, _, _, .next state hpending hnext, rfl⟩

variable {P : EapSm → Prop} {sm : EapSm} {rand : Nat}

/-- Where neither a restart nor the rounds intervene, the variables decide. -/
theorem step_next {state : EapState} (henabled : sm.portEnabled = true)
    (hpending : sm.eapRestart = false) (hrounds : sm.numRounds ≤ eapMaxAuthRounds)
    (hnext : nextState sm = some state) : step sm rand = enter sm rand state := by
  have hrestart : ¬ (sm.eapRestart = true ∧ sm.portEnabled = true) := by simp [hpending]
  have hdisabled : ¬ sm.portEnabled = false := by simp [henabled]
  unfold step
  rw [if_neg hrestart, if_neg hdisabled, if_neg (by omega), hnext]

theorem step_stays (henabled : sm.portEnabled = true) (hpending : sm.eapRestart = false)
    (hrounds : sm.numRounds ≤ eapMaxAuthRounds) (hnext : nextState sm = none) :
    step sm rand = sm := by
  have hrestart : ¬ (sm.eapRestart = true ∧ sm.portEnabled = true) := by simp [hpending]
  have hdisabled : ¬ sm.portEnabled = false := by simp [henabled]
  unfold step
  rw [if_neg hrestart, if_neg hdisabled, if_neg (by omega), hnext]

/-- The rule for the loop: what every entered state keeps, a run of the machine
keeps. -/
theorem smLoop_keeps (henabled : ∀ sm, P sm → sm.portEnabled = true)
    (hchanged : ∀ sm changed, P sm → P { sm with changed })
    (hentry : ∀ sm state before changed, P sm → Entering sm state before →
      P (onEntry { before with changed, eapState := state } rand state))
    (fuel : Nat) (hsm : P sm) : P (smLoop fuel sm rand) := by
  induction fuel generalizing sm with
  | zero => exact hsm
  | succ fuel ih =>
    have hreset : P { sm with changed := false } := hchanged sm false hsm
    have hstep : P (step { sm with changed := false } rand) := by
      rcases step_enters rand (henabled _ hreset) with hsame | ⟨state, before, changed, hin, hon⟩
      · rw [hsame]
        exact hreset
      · rw [hon]
        exact hentry _ state before changed hreset hin
    simp only [smLoop]
    split
    · exact ih hstep
    · exact hstep

/-- A run that starts with the entry of a state. -/
theorem smLoop_enter {fuel : Nat} {entered : EapSm}
    (hstep : step { sm with changed := false } rand = entered) (hchanged : entered.changed = true) :
    smLoop (fuel + 1) sm rand = smLoop fuel entered rand := by
  simp [smLoop, hstep, hchanged]

/-- No run of the machine was made yet: it is as `eap_auth_init` left it, but for
the variables of its interface. -/
structure Unstarted (sm : EapSm) : Prop where
  eapState : sm.eapState = .disabled
  portEnabled : sm.portEnabled = true
  eapRestart : sm.eapRestart = true
  identity : sm.identity = none
  eapReq : sm.eapReq = false
  eapSuccess : sm.eapSuccess = false
  eapFail : sm.eapFail = false

/-- The machine asks: a request is out, and it stays there for the lower layer
although it was sent long ago. -/
structure Asking (sm : EapSm) : Prop where
  eapState : sm.eapState ≠ .disabled
  portEnabled : sm.portEnabled = true
  eapReq : sm.eapReq = true
  eapReqData : sm.eapReqData.isSome

theorem unstarted_initialSm : Unstarted initialSm :=
  ⟨rfl, rfl, rfl, rfl, rfl, rfl, rfl⟩

theorem copyBuf_isSome {dst src : Option Bytes} (h : dst.isSome) : (copyBuf dst src).isSome := by
  cases src <;> simp [copyBuf, h]

/-- Parsing a response sets the variables that describe it and no others. -/
theorem parseEapResp_eq (sm : EapSm) (resp : Option Bytes) :
    ∃ rxResp respId respMethod respVendor respVendorMethod, parseEapResp sm resp =
      { sm with rxResp, respId, respMethod, respVendor, respVendorMethod } := by
  unfold parseEapResp
  split
  · exact ⟨_, _, _, _, _, rfl⟩
  · split
    · exact ⟨_, _, _, _, _, rfl⟩
    · simp only
      repeat' split
      all_goals exact ⟨_, _, _, _, _, rfl⟩

theorem getDecision_eq (sm : EapSm) : ∃ decision startReauth,
    getDecision sm = { sm with decision, startReauth } := by
  unfold getDecision
  simp only
  repeat' split
  all_goals exact ⟨_, _, rfl⟩

/-- The states that a machine with its port enabled enters. -/
theorem nextState_ne_disabled {state : EapState} (h : nextState sm = some state) :
    state ≠ .disabled := by
  rintro rfl
  unfold nextState at h
  repeat' split at h
  all_goals simp at h

/-- No state takes a request back. -/
theorem Asking.onEntry {state : EapState} (hsm : Asking sm) (hstate : sm.eapState = state) :
    Asking (onEntry sm rand state) := by
  obtain ⟨hrunning, henabled, hreq, hdata⟩ := hsm
  obtain ⟨packet, hpacket⟩ := Option.isSome_iff_exists.mp hdata
  cases state with
  | disabled => exact absurd hstate hrunning
  | received | received2 =>
    obtain ⟨rxResp, respId, respMethod, vendor, method, hparse⟩ :=
      parseEapResp_eq sm sm.eapRespData
    simp only [EapServer.onEntry, hparse]
    exact ⟨hrunning, henabled, hreq, hdata⟩
  | selectAction =>
    obtain ⟨decision, startReauth, hdecision⟩ := getDecision_eq sm
    simp only [EapServer.onEntry, hdecision]
    exact ⟨hrunning, henabled, hreq, hdata⟩
  | retransmit | retransmit2 =>
    simp only [EapServer.onEntry, retransmit]
    split
    · rename_i hcount
      exact ⟨hrunning, henabled, rfl, hcount.2⟩
    · exact ⟨hrunning, henabled, hreq, hdata⟩
  | methodRequest =>
    simp only [EapServer.onEntry]
    split
    · exact ⟨hrunning, henabled, hreq, hdata⟩
    · exact ⟨hrunning, henabled, hreq, rfl⟩
  | integrityCheck | methodResponse | proposeMethod =>
    simp only [EapServer.onEntry]
    repeat' split
    all_goals exact ⟨hrunning, henabled, hreq, hdata⟩
  | sendRequest | sendRequest2 =>
    simp only [EapServer.onEntry, sendRequest, hpacket]
    exact ⟨hrunning, henabled, rfl, rfl⟩
  | success | failure => exact ⟨hrunning, henabled, hreq, rfl⟩
  | aaaResponse | failure2 | success2 =>
    exact ⟨hrunning, henabled, hreq, copyBuf_isSome hdata⟩
  | _ => exact ⟨hrunning, henabled, hreq, hdata⟩

theorem Asking.entry {state : EapState} {before : EapSm} {changed : Bool} (hsm : Asking sm)
    (h : Entering sm state before) :
    Asking (EapServer.onEntry { before with changed, eapState := state } rand state) := by
  have hstate : state ≠ .disabled := by
    cases h with
    | restarted => exact EapState.noConfusion
    | exhausted => exact EapState.noConfusion
    | next state _ hfound => exact nextState_ne_disabled hfound
  have hbefore : Asking { before with changed, eapState := state } := by
    cases h <;> exact ⟨hstate, hsm.portEnabled, hsm.eapReq, hsm.eapReqData⟩
  exact hbefore.onEntry rfl

theorem Asking.run (hsm : Asking sm) (fuel : Nat) : Asking (smLoop fuel sm rand) :=
  smLoop_keeps (fun _ h => h.portEnabled)
    (fun _ _ h => ⟨h.eapState, h.portEnabled, h.eapReq, h.eapReqData⟩)
    (fun _ _ _ _ h hin => h.entry hin) fuel hsm

/-- The machine is in a state of its first run. -/
structure Opening (sm : EapSm) (state : EapState) : Prop where
  eapState : sm.eapState = state
  portEnabled : sm.portEnabled = true
  eapRestart : sm.eapRestart = false
  numRounds : sm.numRounds = 0

theorem Opening.step {state next : EapState} (h : Opening sm state)
    (hnext : nextState { sm with changed := false } = some next) :
    step { sm with changed := false } rand = enter sm rand next := by
  have hrounds : sm.numRounds ≤ eapMaxAuthRounds := by simp [h.numRounds]
  exact step_next h.portEnabled h.eapRestart hrounds hnext

theorem Opening.methodRequest (h : Opening sm .methodRequest) (hdata : sm.eapReqData.isSome)
    (fuel : Nat) : Asking (smLoop (fuel + 1) sm rand) := by
  obtain ⟨packet, hpacket⟩ := Option.isSome_iff_exists.mp hdata
  have hsent : EapServer.step { sm with changed := false } rand = enter sm rand .sendRequest :=
    h.step (by simp [nextState, h.eapState])
  have hasking : Asking (enter sm rand .sendRequest) := by
    simp only [enter, onEntry, sendRequest, hpacket]
    exact ⟨EapState.noConfusion, h.portEnabled, rfl, rfl⟩
  have hchanged : (enter sm rand .sendRequest).changed = true := by
    simp [enter, onEntry, sendRequest, hpacket]
  rw [smLoop_enter hsent hchanged]
  exact hasking.run fuel

theorem Opening.proposeMethod (h : Opening sm .proposeMethod) (hm : sm.m.isSome) (fuel : Nat) :
    Asking (smLoop (fuel + 2) sm rand) := by
  obtain ⟨method, hmethod⟩ := Option.isSome_iff_exists.mp hm
  have hentered : EapServer.step { sm with changed := false } rand =
      enter sm rand .methodRequest :=
    h.step (by simp [nextState, h.eapState])
  have hchanged : (enter sm rand .methodRequest).changed = true := by
    simp [enter, onEntry, hmethod]
  rw [smLoop_enter hentered hchanged]
  refine Opening.methodRequest ?_ ?_ fuel
  · simp only [enter, onEntry, hmethod]
    exact ⟨rfl, h.portEnabled, h.eapRestart, h.numRounds⟩
  · simp [enter, onEntry, hmethod]

theorem Opening.selectAction (h : Opening sm .selectAction) (hdecision : sm.decision = .continue)
    (hidentity : sm.identity = none) (fuel : Nat) : Asking (smLoop (fuel + 3) sm rand) := by
  have hentered : EapServer.step { sm with changed := false } rand =
      enter sm rand .proposeMethod :=
    h.step (by simp [nextState, h.eapState, hdecision])
  have hchanged : (enter sm rand .proposeMethod).changed = true := by
    simp [enter, onEntry, hidentity]
  rw [smLoop_enter hentered hchanged]
  refine Opening.proposeMethod ?_ ?_ fuel
  · simp only [enter, onEntry, hidentity]
    exact ⟨rfl, h.portEnabled, h.eapRestart, h.numRounds⟩
  · simp [enter, onEntry, hidentity]

/-- The first run of a machine proposes Identity and ends with a request out. -/
theorem Unstarted.run (hsm : Unstarted sm) : Asking (eapServerSmStep sm rand) := by
  obtain ⟨hstate, henabled, hrestart, hidentity, -⟩ := hsm
  have hfirst : smLoop 32 sm rand =
      smLoop 31 (enter sm rand .initializeState) rand :=
    smLoop_enter (by simp [step, henabled, hrestart, enterGlobal, enter, hstate]) rfl
  have hopening : Opening (enter sm rand .initializeState) .initializeState :=
    ⟨rfl, henabled, rfl, rfl⟩
  have hselect : step { enter sm rand .initializeState with changed := false } rand =
      enter (enter sm rand .initializeState) rand .selectAction :=
    hopening.step rfl
  have hdecision : enter (enter sm rand .initializeState) rand .selectAction =
      { enter sm rand .initializeState with
        eapState := .selectAction, decision := .continue, startReauth := false } := by
    simp [enter, onEntry, getDecision, hidentity]
  rw [eapServerSmStep, hfirst, smLoop_enter hselect (by rw [hdecision]; rfl), hdecision]
  have hselecting : Opening { enter sm rand .initializeState with
      eapState := .selectAction, decision := .continue, startReauth := false } .selectAction :=
    ⟨rfl, henabled, rfl, rfl⟩
  exact hselecting.selectAction rfl hidentity 27

/-- What the states leave alone: the switches of the lower layer, the key that
came from the RADIUS server, and outside three states the key of the machine. -/
structure Keeps (sm sm' : EapSm) (state : EapState) : Prop where
  eapState : sm'.eapState = sm.eapState
  portEnabled : sm'.portEnabled = sm.portEnabled
  aaaEapKeyAvailable : sm'.aaaEapKeyAvailable = sm.aaaEapKeyAvailable
  aaaEapKeyData : sm'.aaaEapKeyData = sm.aaaEapKeyData
  eapRestart : state ≠ .initializeState → sm'.eapRestart = sm.eapRestart
  eapKeyAvailable : state ≠ .initializeState → state ≠ .success → state ≠ .success2 →
    sm'.eapKeyAvailable = sm.eapKeyAvailable

theorem onEntry_keeps (sm : EapSm) (rand : Nat) (state : EapState) :
    Keeps sm (onEntry sm rand state) state := by
  cases state with
  | initializeState =>
    exact ⟨rfl, rfl, rfl, rfl, fun h => absurd rfl h, fun h => absurd rfl h⟩
  | success => exact ⟨rfl, rfl, rfl, rfl, fun _ => rfl, fun _ h => absurd rfl h⟩
  | success2 => exact ⟨rfl, rfl, rfl, rfl, fun _ => rfl, fun _ _ h => absurd rfl h⟩
  | received | received2 =>
    obtain ⟨rxResp, respId, respMethod, vendor, method, hparse⟩ :=
      parseEapResp_eq sm sm.eapRespData
    simp only [onEntry, hparse]
    exact ⟨rfl, rfl, rfl, rfl, fun _ => rfl, fun _ _ _ => rfl⟩
  | selectAction =>
    obtain ⟨decision, startReauth, hdecision⟩ := getDecision_eq sm
    simp only [onEntry, hdecision]
    exact ⟨rfl, rfl, rfl, rfl, fun _ => rfl, fun _ _ _ => rfl⟩
  | retransmit | retransmit2 =>
    simp only [onEntry, retransmit]
    split <;> exact ⟨rfl, rfl, rfl, rfl, fun _ => rfl, fun _ _ _ => rfl⟩
  | sendRequest | sendRequest2 =>
    simp only [onEntry, sendRequest]
    split <;> exact ⟨rfl, rfl, rfl, rfl, fun _ => rfl, fun _ _ _ => rfl⟩
  | integrityCheck | methodRequest | methodResponse | proposeMethod =>
    simp only [onEntry]
    repeat' split
    all_goals exact ⟨rfl, rfl, rfl, rfl, fun _ => rfl, fun _ _ _ => rfl⟩
  | _ => exact ⟨rfl, rfl, rfl, rfl, fun _ => rfl, fun _ _ _ => rfl⟩

/-- A restart is over after one step. -/
theorem step_eapRestart (henabled : sm.portEnabled = true) :
    (step sm rand).portEnabled = true ∧ (step sm rand).eapRestart = false := by
  by_cases hrestart : sm.eapRestart = true
  · have hfirst : step sm rand = enterGlobal sm rand .initializeState := by
      simp [step, hrestart, henabled]
    rw [hfirst]
    exact ⟨henabled, rfl⟩
  · have hpending : sm.eapRestart = false := by simpa using hrestart
    rcases step_enters rand henabled with hsame | ⟨state, before, changed, hin, hon⟩
    · rw [hsame]
      exact ⟨henabled, hpending⟩
    · have hkeeps := onEntry_keeps { before with changed, eapState := state } rand state
      have hbefore : before.portEnabled = true ∧ before.eapRestart = false := by
        cases hin <;> exact ⟨henabled, hpending⟩
      rw [hon, hkeeps.portEnabled]
      refine ⟨hbefore.1, ?_⟩
      by_cases hstate : state = .initializeState
      · subst hstate
        rfl
      · rw [hkeeps.eapRestart hstate]
        exact hbefore.2

theorem smLoop_eapRestart (henabled : sm.portEnabled = true) (fuel : Nat) :
    (smLoop (fuel + 1) sm rand).eapRestart = false := by
  induction fuel generalizing sm with
  | zero =>
    have hreset : EapSm.portEnabled { sm with changed := false } = true := henabled
    simp only [smLoop]
    split <;> exact (step_eapRestart hreset).2
  | succ fuel ih =>
    have hreset : EapSm.portEnabled { sm with changed := false } = true := henabled
    rw [smLoop]
    split
    · exact ih (step_eapRestart hreset).1
    · exact (step_eapRestart hreset).2

/-- A key is held only at the end of an exchange, after a success, and it is
there. -/
structure KeyHeld (sm : EapSm) : Prop where
  portEnabled : sm.portEnabled = true
  eapSuccess : sm.eapKeyAvailable = true → sm.eapSuccess = true
  atEnd : sm.eapKeyAvailable = true →
    sm.eapState = .success ∨ sm.eapState = .success2 ∨ sm.eapState = .failure
  eapKeyData : sm.eapKeyAvailable = true → sm.eapKeyData.isSome
  aaaEapKeyData : sm.aaaEapKeyAvailable = true → sm.aaaEapKeyData.isSome

theorem KeyHeld.of_none (henabled : sm.portEnabled = true) (hnone : sm.eapKeyAvailable = false)
    (haaa : sm.aaaEapKeyAvailable = true → sm.aaaEapKeyData.isSome) : KeyHeld sm where
  portEnabled := henabled
  eapSuccess := by simp [hnone]
  atEnd := by simp [hnone]
  eapKeyData := by simp [hnone]
  aaaEapKeyData := haaa

theorem KeyHeld.entry {state : EapState} {before : EapSm} {changed : Bool} (hsm : KeyHeld sm)
    (h : Entering sm state before) :
    KeyHeld (onEntry { before with changed, eapState := state } rand state) := by
  cases h with
  | restarted => exact .of_none hsm.portEnabled rfl hsm.aaaEapKeyData
  | exhausted =>
    exact ⟨hsm.portEnabled, hsm.eapSuccess, fun _ => .inr (.inr rfl), hsm.eapKeyData,
      hsm.aaaEapKeyData⟩
  | next state _ hfound =>
    have hnone : sm.eapKeyAvailable = false := by
      rw [Bool.eq_false_iff]
      intro hheld
      rcases hsm.atEnd hheld with hstate | hstate | hstate <;> simp [nextState, hstate] at hfound
    have hkeeps := onEntry_keeps { sm with changed, eapState := state } rand state
    have haaa : (onEntry { sm with changed, eapState := state } rand state).aaaEapKeyAvailable =
        true →
          (onEntry { sm with changed, eapState := state } rand state).aaaEapKeyData.isSome := by
      rw [hkeeps.aaaEapKeyAvailable, hkeeps.aaaEapKeyData]
      exact hsm.aaaEapKeyData
    by_cases hsuccess : state = .success
    · subst hsuccess
      refine ⟨hsm.portEnabled, fun _ => rfl, fun _ => .inl rfl, ?_, haaa⟩
      simp [onEntry, hnone]
    · by_cases hsuccess2 : state = .success2
      · subst hsuccess2
        refine ⟨hsm.portEnabled, fun _ => rfl, fun _ => .inr (.inl rfl), ?_, haaa⟩
        intro hheld
        have hheld : sm.aaaEapKeyAvailable = true := hheld
        obtain ⟨key, hkey⟩ := Option.isSome_iff_exists.mp (hsm.aaaEapKeyData hheld)
        simp [onEntry, hheld, hkey, copyBuf]
      · by_cases hfirst : state = .initializeState
        · subst hfirst
          exact .of_none hsm.portEnabled rfl haaa
        · exact .of_none (hkeeps.portEnabled.trans hsm.portEnabled)
            ((hkeeps.eapKeyAvailable hfirst hsuccess hsuccess2).trans hnone) haaa

theorem KeyHeld.run (hsm : KeyHeld sm) : KeyHeld (eapServerSmStep sm rand) :=
  smLoop_keeps (fun _ h => h.portEnabled)
    (fun _ _ h => ⟨h.portEnabled, h.eapSuccess, h.atEnd, h.eapKeyData, h.aaaEapKeyData⟩)
    (fun _ _ _ _ h hin => h.entry hin) 32 hsm

/-- Without a restart a key that is held stays. -/
theorem KeyHeld.run_keeps (hsm : KeyHeld sm) (rand : Nat) (hpending : sm.eapRestart = false)
    (hheld : sm.eapKeyAvailable = true) : (eapServerSmStep sm rand).eapKeyAvailable = true := by
  have hrun : KeyHeld (eapServerSmStep sm rand) ∧
      (eapServerSmStep sm rand).eapRestart = false ∧
        (eapServerSmStep sm rand).eapKeyAvailable = true := by
    refine smLoop_keeps (P := fun sm => KeyHeld sm ∧ sm.eapRestart = false ∧
      sm.eapKeyAvailable = true) (fun _ h => h.1.portEnabled) ?_ ?_ 32 ⟨hsm, hpending, hheld⟩
    · rintro sm changed ⟨hkey, hpending, hheld⟩
      exact ⟨⟨hkey.portEnabled, hkey.eapSuccess, hkey.atEnd, hkey.eapKeyData,
        hkey.aaaEapKeyData⟩, hpending, hheld⟩
    · rintro sm state before changed ⟨hkey, hpending, hheld⟩ hin
      refine ⟨hkey.entry hin, ?_⟩
      cases hin with
      | restarted hrestart =>
        rw [hpending] at hrestart
        exact Bool.noConfusion hrestart
      | exhausted => exact ⟨hpending, hheld⟩
      | next state _ hfound =>
        rcases hkey.atEnd hheld with hstate | hstate | hstate <;>
          simp [nextState, hstate] at hfound
  exact hrun.2.2

end CoapEap.EapServer
