import CoapEap.Controller.Authenticator

/-!
Where a success of the EAP authenticator comes from. The configuration leaves
one way to a success, through an Access-Accept that finds the machine waiting for
it, and whether a key comes with the success is decided there.
-/

namespace CoapEap.EapServer

variable {K : Bytes → Prop} {sm : EapSm} {rand : Nat}

/-- A machine that has succeeded only with a key of `K`: it rests in no state from
which its variables lead to a success, and once it succeeded it holds the key. -/
structure SuccessKeyed (K : Bytes → Prop) (sm : EapSm) : Prop where
  portEnabled : sm.portEnabled = true
  passthrough : sm.eapState ≠ .success
  method : sm.m.isSome → sm.currentMethod = eapTypeIdentity
  decision : sm.eapState = .selectAction → sm.decision ≠ .success
  awaiting : sm.eapState = .aaaIdle → sm.aaaSuccess = false
  succeeded : sm.eapSuccess = true → (sm.eapState = .success2 ∨ sm.eapState = .failure) ∧
    sm.eapKeyAvailable = true ∧ ∃ key, sm.eapKeyData = some key ∧ K key
  available : sm.eapKeyAvailable = true → sm.eapSuccess = true

/-- The machine has not succeeded, and Identity is the only method it knows. -/
structure Unaccepted (sm : EapSm) : Prop where
  portEnabled : sm.portEnabled = true
  method : sm.m.isSome → sm.currentMethod = eapTypeIdentity
  eapSuccess : sm.eapSuccess = false
  eapKeyAvailable : sm.eapKeyAvailable = false

/-- Such a machine is keyed in every state but those that look at the acceptance. -/
theorem Unaccepted.successKeyed (h : Unaccepted sm) (hpassthrough : sm.eapState ≠ .success)
    (hdecision : sm.eapState = .selectAction → sm.decision ≠ .success)
    (hawaiting : sm.eapState = .aaaIdle → sm.aaaSuccess = false) : SuccessKeyed K sm where
  portEnabled := h.portEnabled
  passthrough := hpassthrough
  method := h.method
  decision := hdecision
  awaiting := hawaiting
  succeeded := by simp [h.eapSuccess]
  available := by simp [h.eapKeyAvailable]

theorem successKeyed_initialSm : SuccessKeyed K initialSm := by
  have hunaccepted : Unaccepted initialSm := ⟨rfl, by simp [initialSm], rfl, rfl⟩
  exact hunaccepted.successKeyed EapState.noConfusion EapState.noConfusion EapState.noConfusion

/-- A machine that leaves its state by its variables has not succeeded. -/
theorem SuccessKeyed.unaccepted {state : EapState} (hsm : SuccessKeyed K sm)
    (hnext : nextState sm = some state) : Unaccepted sm := by
  have hnot : sm.eapSuccess = false := by
    rw [Bool.eq_false_iff]
    intro hsuccess
    rcases (hsm.succeeded hsuccess).1 with hstate | hstate <;> simp [nextState, hstate] at hnext
  refine ⟨hsm.portEnabled, hsm.method, hnot, ?_⟩
  rw [Bool.eq_false_iff]
  intro hheld
  rw [hsm.available hheld] at hnot
  exact Bool.noConfusion hnot

/-- A success of a local method is out of reach. -/
theorem SuccessKeyed.nextState_ne_success (hsm : SuccessKeyed K sm) :
    nextState sm ≠ some .success := by
  intro hnext
  cases hstate : sm.eapState with
  | selectAction =>
    have hdecision := hsm.decision hstate
    cases hdecided : sm.decision with
    | success => exact hdecision hdecided
    | _ => simp [nextState, hstate, hdecided] at hnext
  | _ =>
    simp only [nextState, hstate] at hnext
    repeat' split at hnext
    all_goals simp at hnext

/-- The success of the RADIUS server is found where it was waited for. -/
theorem SuccessKeyed.nextState_ne_success2 (hsm : SuccessKeyed K sm) :
    nextState sm ≠ some .success2 := by
  intro hnext
  cases hstate : sm.eapState with
  | aaaIdle =>
    simp only [nextState, hstate, hsm.awaiting hstate, Bool.false_eq_true, if_false] at hnext
    repeat' split at hnext
    all_goals simp at hnext
  | _ =>
    simp only [nextState, hstate] at hnext
    repeat' split at hnext
    all_goals simp at hnext

theorem getDecision_ne_success (hmethod : sm.m.isSome → sm.currentMethod = eapTypeIdentity) :
    (getDecision sm).decision ≠ .success := by
  unfold getDecision
  split
  · exact Decision.noConfusion
  · rw [if_neg]
    · split
      · exact Decision.noConfusion
      · simp only
        split <;> exact Decision.noConfusion
    · rintro ⟨hsome, hother, -⟩
      exact hother (hmethod hsome)

/-- The states other than the two of a success do not make one. -/
theorem Unaccepted.onEntry {state : EapState} (h : Unaccepted sm) (rand : Nat)
    (hsuccess : state ≠ .success) (hsuccess2 : state ≠ .success2) :
    Unaccepted (onEntry sm rand state) := by
  obtain ⟨henabled, hmethod, hnot, hnone⟩ := h
  cases state with
  | success => exact absurd rfl hsuccess
  | success2 => exact absurd rfl hsuccess2
  | initializeState => exact ⟨henabled, by simp [EapServer.onEntry], rfl, rfl⟩
  | nak => exact ⟨henabled, by simp [EapServer.onEntry], hnot, hnone⟩
  | received | received2 =>
    obtain ⟨rxResp, respId, respMethod, vendor, method, hparse⟩ :=
      parseEapResp_eq sm sm.eapRespData
    simp only [EapServer.onEntry, hparse]
    exact ⟨henabled, hmethod, hnot, hnone⟩
  | selectAction =>
    obtain ⟨decision, startReauth, hdecision⟩ := getDecision_eq sm
    simp only [EapServer.onEntry, hdecision]
    exact ⟨henabled, hmethod, hnot, hnone⟩
  | retransmit | retransmit2 =>
    simp only [EapServer.onEntry, retransmit]
    split <;> exact ⟨henabled, hmethod, hnot, hnone⟩
  | sendRequest | sendRequest2 =>
    simp only [EapServer.onEntry, sendRequest]
    split <;> exact ⟨henabled, hmethod, hnot, hnone⟩
  | integrityCheck | methodRequest =>
    simp only [EapServer.onEntry]
    split <;> exact ⟨henabled, hmethod, hnot, hnone⟩
  | methodResponse =>
    simp only [EapServer.onEntry]
    cases hm : sm.m with
    | none => exact ⟨henabled, by simp, hnot, hnone⟩
    | some before =>
      have hidentity : sm.currentMethod = eapTypeIdentity := hmethod (by simp [hm])
      cases identityData sm.eapRespData <;> simp only <;> split <;>
        exact ⟨henabled, fun _ => hidentity, hnot, hnone⟩
  | proposeMethod =>
    simp only [EapServer.onEntry]
    split
    · exact ⟨henabled, fun _ => rfl, hnot, hnone⟩
    · exact ⟨henabled, by simp, hnot, hnone⟩
  | _ => exact ⟨henabled, hmethod, hnot, hnone⟩

theorem SuccessKeyed.entry {state : EapState} {before : EapSm} {changed : Bool}
    (hsm : SuccessKeyed K sm) (h : Entering sm state before) :
    SuccessKeyed K (onEntry { before with changed, eapState := state } rand state) := by
  cases h with
  | restarted =>
    have hunaccepted : Unaccepted
        (onEntry { sm with changed, eapState := .initializeState } rand .initializeState) :=
      ⟨hsm.portEnabled, by simp [onEntry], rfl, rfl⟩
    exact hunaccepted.successKeyed EapState.noConfusion EapState.noConfusion EapState.noConfusion
  | exhausted =>
    exact ⟨hsm.portEnabled, EapState.noConfusion, hsm.method, EapState.noConfusion,
      EapState.noConfusion, fun hsuccess => ⟨.inr rfl, (hsm.succeeded hsuccess).2⟩, hsm.available⟩
  | next state _ hfound =>
    have hbefore := hsm.unaccepted hfound
    have hready : Unaccepted { sm with changed, eapState := state } :=
      ⟨hbefore.portEnabled, hbefore.method, hbefore.eapSuccess, hbefore.eapKeyAvailable⟩
    by_cases hsuccess : state = .success
    · subst hsuccess
      exact absurd hfound hsm.nextState_ne_success
    · by_cases hsuccess2 : state = .success2
      · subst hsuccess2
        exact absurd hfound hsm.nextState_ne_success2
      · have hkeeps := onEntry_keeps { sm with changed, eapState := state } rand state
        have hafter := hready.onEntry rand hsuccess hsuccess2
        refine hafter.successKeyed ?_ ?_ ?_
        · rw [hkeeps.eapState]
          exact hsuccess
        · intro hselect
          rw [hkeeps.eapState] at hselect
          have hselect : state = .selectAction := hselect
          subst hselect
          exact getDecision_ne_success hready.method
        · intro hidle
          rw [hkeeps.eapState] at hidle
          have hidle : state = .aaaIdle := hidle
          subst hidle
          rfl

theorem SuccessKeyed.run (hsm : SuccessKeyed K sm) (fuel : Nat) :
    SuccessKeyed K (smLoop fuel sm rand) :=
  smLoop_keeps (fun _ h => h.portEnabled)
    (fun _ _ h => ⟨h.portEnabled, h.passthrough, h.method, h.decision, h.awaiting, h.succeeded,
      h.available⟩)
    (fun _ _ _ _ h hin => h.entry hin) fuel hsm

/-- A larger set of keys allows more. -/
theorem SuccessKeyed.mono {K' : Bytes → Prop} (hK : ∀ key, K key → K' key)
    (hsm : SuccessKeyed K sm) : SuccessKeyed K' sm where
  portEnabled := hsm.portEnabled
  passthrough := hsm.passthrough
  method := hsm.method
  decision := hsm.decision
  awaiting := hsm.awaiting
  succeeded := by
    intro hsuccess
    obtain ⟨hstate, havailable, key, hkey, hin⟩ := hsm.succeeded hsuccess
    exact ⟨hstate, havailable, key, hkey, hK key hin⟩
  available := hsm.available

/-- A restart or a response does not touch what a success is made from. -/
theorem SuccessKeyed.of_input {eapRestart eapResp : Bool} {eapRespData : Option Bytes}
    {aaaEapResp : Bool} (hsm : SuccessKeyed K sm) :
    SuccessKeyed K { sm with eapRestart, eapResp, eapRespData, aaaEapResp } :=
  ⟨hsm.portEnabled, hsm.passthrough, hsm.method, hsm.decision, hsm.awaiting, hsm.succeeded,
    hsm.available⟩

theorem onEntry_numRounds (sm : EapSm) (rand : Nat) (state : EapState) :
    (onEntry sm rand state).numRounds ≤ sm.numRounds + 1 := by
  cases state with
  | received | received2 =>
    obtain ⟨rxResp, respId, respMethod, vendor, method, hparse⟩ :=
      parseEapResp_eq sm sm.eapRespData
    simp only [onEntry, hparse]
    omega
  | selectAction =>
    obtain ⟨decision, startReauth, hdecision⟩ := getDecision_eq sm
    simp only [onEntry, hdecision]
    omega
  | retransmit | retransmit2 =>
    simp only [onEntry, retransmit]
    split <;> exact Nat.le_succ _
  | sendRequest | sendRequest2 =>
    simp only [onEntry, sendRequest]
    split <;> exact Nat.le_succ _
  | integrityCheck | methodRequest | methodResponse | proposeMethod =>
    simp only [onEntry]
    repeat' split
    all_goals exact Nat.le_succ _
  | disabled | initializeState => exact Nat.zero_le _
  | _ => exact Nat.le_succ _

/-- The rounds are counted up to the failure that ends them. -/
def Counted (sm : EapSm) : Prop :=
  sm.portEnabled = true ∧ (sm.numRounds ≤ eapMaxAuthRounds + 1 ∨ sm.eapState = .failure)

theorem Counted.step (hsm : Counted sm) : Counted (step sm rand) := by
  obtain ⟨henabled, hcounted⟩ := hsm
  unfold EapServer.step
  split
  · exact ⟨henabled, .inl (Nat.zero_le _)⟩
  · rw [if_neg (by simp [henabled])]
    split
    · split
      · exact ⟨henabled, .inr rfl⟩
      · exact ⟨henabled, hcounted⟩
    · rename_i hrounds
      split
      · exact ⟨henabled, hcounted⟩
      · rename_i state hnext
        have hkeeps := onEntry_keeps { sm with changed := true, eapState := state } rand state
        have hbound := onEntry_numRounds { sm with changed := true, eapState := state } rand state
        refine ⟨hkeeps.portEnabled.trans henabled, .inl ?_⟩
        simp only [enter] at hbound ⊢
        omega

theorem Counted.run (hsm : Counted sm) (fuel : Nat) : Counted (smLoop fuel sm rand) := by
  induction fuel generalizing sm with
  | zero => exact hsm
  | succ fuel ih =>
    have hreset : Counted { sm with changed := false } := hsm
    simp only [smLoop]
    split
    · exact ih hreset.step
    · exact hreset.step

/-- A machine that waits has a key of `K` at hand, should it be accepted. -/
structure KeyAtHand (K : Bytes → Prop) (sm : EapSm) : Prop where
  unaccepted : Unaccepted sm
  eapState : sm.eapState = .aaaIdle
  numRounds : sm.numRounds ≤ eapMaxAuthRounds + 1
  aaaEapKeyAvailable : sm.aaaEapKeyAvailable = true
  aaaEapKeyData : ∃ key, sm.aaaEapKeyData = some key ∧ K key

/-- The state that is entered from the waiting one. -/
theorem KeyAtHand.enter {state : EapState} (h : KeyAtHand K sm)
    (hnext : nextState sm = some state) : SuccessKeyed K (enter sm rand state) := by
  have hready : Unaccepted { sm with changed := true, eapState := state } :=
    ⟨h.unaccepted.portEnabled, h.unaccepted.method, h.unaccepted.eapSuccess,
      h.unaccepted.eapKeyAvailable⟩
  simp only [nextState, h.eapState] at hnext
  split at hnext
  · obtain rfl := Option.some.inj hnext
    exact (hready.onEntry rand EapState.noConfusion EapState.noConfusion).successKeyed
      EapState.noConfusion EapState.noConfusion EapState.noConfusion
  · split at hnext
    · obtain rfl := Option.some.inj hnext
      obtain ⟨key, hkey, hK⟩ := h.aaaEapKeyData
      have hdata : (EapServer.enter sm rand .success2).eapKeyData = some key := by
        simp [EapServer.enter, onEntry, h.aaaEapKeyAvailable, hkey, copyBuf]
      exact ⟨h.unaccepted.portEnabled, EapState.noConfusion, h.unaccepted.method,
        EapState.noConfusion, EapState.noConfusion,
        fun _ => ⟨.inl rfl, h.aaaEapKeyAvailable, key, hdata, hK⟩, fun _ => rfl⟩
    · split at hnext
      · obtain rfl := Option.some.inj hnext
        exact (hready.onEntry rand EapState.noConfusion EapState.noConfusion).successKeyed
          EapState.noConfusion EapState.noConfusion EapState.noConfusion
      · simp only [Option.ite_none_right_eq_some, Option.some.injEq] at hnext
        obtain ⟨-, rfl⟩ := hnext
        exact (hready.onEntry rand EapState.noConfusion EapState.noConfusion).successKeyed
          EapState.noConfusion EapState.noConfusion EapState.noConfusion

theorem KeyAtHand.step (h : KeyAtHand K sm) : SuccessKeyed K (step sm rand) := by
  have henabled := h.unaccepted.portEnabled
  unfold EapServer.step
  split
  · have hopened : Unaccepted (enterGlobal sm rand .initializeState) :=
      ⟨henabled, by simp [enterGlobal, onEntry], rfl, rfl⟩
    exact hopened.successKeyed EapState.noConfusion EapState.noConfusion EapState.noConfusion
  · rw [if_neg (by simp [henabled])]
    split
    · split
      · have hfailed : Unaccepted
            (enterGlobal { sm with numRounds := sm.numRounds + 1 } rand .failure) :=
          ⟨henabled, h.unaccepted.method, h.unaccepted.eapSuccess, h.unaccepted.eapKeyAvailable⟩
        exact hfailed.successKeyed EapState.noConfusion EapState.noConfusion EapState.noConfusion
      · have hrounds := h.numRounds
        omega
    · split
      · rename_i hnext
        refine h.unaccepted.successKeyed ?_ ?_ ?_
        · rw [h.eapState]
          exact EapState.noConfusion
        · rw [h.eapState]
          exact EapState.noConfusion
        · intro _
          simp only [nextState, h.eapState] at hnext
          split at hnext
          · simp at hnext
          · split at hnext
            · simp at hnext
            · rename_i hnot
              simpa using hnot
      · rename_i state hnext
        exact h.enter hnext

/-- A machine that waited takes an acceptance in, and its key. -/
theorem KeyAtHand.run (h : KeyAtHand K sm) : SuccessKeyed K (eapServerSmStep sm rand) := by
  have hreset : KeyAtHand K { sm with changed := false } :=
    ⟨⟨h.unaccepted.portEnabled, h.unaccepted.method, h.unaccepted.eapSuccess,
      h.unaccepted.eapKeyAvailable⟩, h.eapState, h.numRounds, h.aaaEapKeyAvailable,
      h.aaaEapKeyData⟩
  unfold eapServerSmStep
  rw [smLoop]
  split
  · exact hreset.step.run 31
  · exact hreset.step

end CoapEap.EapServer
