import CoapEap.Controller.Authenticator

/-!
Runs of the EAP authenticator that never call a method that is not there and never
hand over a response that is not there. `Place` says what holds of a machine in each
of its states, and `Ready` what has to hold for a state to be entered.

A restart spoils it once an identity is known: the machine then passes through
without a response, so only machines without an identity are restarted here.
-/

namespace CoapEap.EapServer

/-- The machine has a method under way and nothing for the RADIUS server. -/
structure Proposing (sm : EapSm) : Prop where
  m : sm.m.isSome
  methodState : sm.methodState ≠ .proposed
  aaaEapResp : sm.aaaEapResp = false

/-- The machine passes responses through, and has one. -/
structure Passing (sm : EapSm) : Prop where
  identity : sm.identity.isSome
  aaaEapRespData : sm.aaaEapRespData.isSome

/-- There is a response that answers the outstanding request. -/
structure Answered (sm : EapSm) : Prop where
  currentId : sm.currentId ≠ -1
  eapRespData : sm.eapRespData.isSome

def Place (sm : EapSm) : EapState → Prop
  | .disabled | .initializeState => sm.identity = none
  | .selectAction =>
    sm.aaaEapResp = false ∧
      (sm.decision = .continue → sm.identity = none ∨ sm.currentId = -1) ∧
      (sm.decision = .passthrough → sm.identity.isSome ∧ Answered sm)
  | .proposeMethod | .methodRequest | .sendRequest | .idle | .retransmit | .discard => Proposing sm
  | .received =>
    Proposing sm ∧ (sm.rxResp = true → sm.respId ≠ -1 ∧ sm.eapRespData.isSome)
  | .integrityCheck | .methodResponse => Proposing sm ∧ Answered sm
  | .initializePassthrough => sm.aaaEapResp = false ∧ sm.identity.isSome ∧ Answered sm
  | .received2 => Passing sm ∧ (sm.rxResp = true → sm.eapRespData.isSome)
  | .aaaRequest | .aaaIdle | .aaaResponse | .sendRequest2 | .idle2 | .retransmit2 | .discard2
  | .success2 | .failure2 | .timeoutFailure2 => Passing sm
  | .success | .failure | .timeoutFailure => True
  | .nak | .pickUpMethod => False

def Ready (sm : EapSm) : EapState → Prop
  | .initializeState => sm.identity = none
  | .selectAction => sm.aaaEapResp = false ∧ (sm.identity.isSome → Answered sm)
  | .proposeMethod => sm.aaaEapResp = false ∧ (sm.identity = none ∨ sm.currentId = -1)
  | .methodRequest | .sendRequest | .idle | .retransmit | .discard | .received => Proposing sm
  | .integrityCheck | .methodResponse => Proposing sm ∧ Answered sm
  | .initializePassthrough => sm.aaaEapResp = false ∧ sm.identity.isSome ∧ Answered sm
  | .aaaRequest => sm.identity.isSome ∧ sm.eapRespData.isSome
  | .aaaIdle | .aaaResponse | .sendRequest2 | .idle2 | .retransmit2 | .received2 | .discard2
  | .success2 | .failure2 | .timeoutFailure2 => Passing sm
  | .success | .failure | .timeoutFailure => True
  | .disabled | .nak | .pickUpMethod => False

/-- The machine has called nothing that is not there, and what it hands to the RADIUS
server is there. -/
structure Steady (sm : EapSm) : Prop where
  portEnabled : sm.portEnabled = true
  faulted : sm.faulted = false
  restarted : sm.eapRestart = true → sm.identity = none
  handed : sm.aaaEapResp = true → Passing sm

structure InOrder (sm : EapSm) : Prop extends Steady sm where
  place : Place sm sm.eapState

variable {sm : EapSm} {rand : Nat}

theorem inOrder_initialSm : InOrder initialSm where
  portEnabled := rfl
  faulted := rfl
  restarted := fun _ => rfl
  handed := fun h => by cases h
  place := rfl

theorem Steady.nothingHanded (h : Steady sm) (hnone : sm.identity = none) :
    sm.aaaEapResp = false := by
  cases hresp : sm.aaaEapResp with
  | false => rfl
  | true =>
    have hidentity := (h.handed hresp).identity
    rw [hnone] at hidentity
    cases hidentity

theorem answered_of_answers {method : Nat} (h : answers sm method = true)
    (hresponse : sm.rxResp = true → sm.respId ≠ -1 ∧ sm.eapRespData.isSome) : Answered sm := by
  simp only [answers, Bool.and_eq_true, decide_eq_true_eq] at h
  obtain ⟨⟨hrx, hid⟩, -⟩ := h
  obtain ⟨hvalid, hdata⟩ := hresponse hrx
  exact ⟨hid ▸ hvalid, hdata⟩

/-- Where a machine goes next is ready for it. -/
theorem InOrder.ready {state : EapState} (h : InOrder sm) (hfound : nextState sm = some state) :
    Ready sm state := by
  have hplace := h.place
  unfold nextState at hfound
  cases hstate : sm.eapState with
  | disabled =>
    simp only [hstate, h.portEnabled, if_true, Option.some.injEq] at hfound
    rw [hstate] at hplace
    subst hfound
    exact hplace
  | initializeState =>
    simp only [hstate, Option.some.injEq] at hfound
    have hnone : sm.identity = none := by
      rw [hstate] at hplace
      exact hplace
    subst hfound
    refine ⟨h.nothingHanded hnone, fun hsome => ?_⟩
    rw [hnone] at hsome
    cases hsome
  | selectAction =>
    rw [hstate] at hplace
    obtain ⟨hnothing, hcontinue, hpassthrough⟩ := hplace
    cases hdecision : sm.decision with
    | failure =>
      simp only [hstate, hdecision, Option.some.injEq] at hfound
      subst hfound
      trivial
    | success =>
      simp only [hstate, hdecision, Option.some.injEq] at hfound
      subst hfound
      trivial
    | «continue» =>
      simp only [hstate, hdecision, Option.some.injEq] at hfound
      subst hfound
      exact ⟨hnothing, hcontinue hdecision⟩
    | passthrough =>
      simp only [hstate, hdecision, Option.some.injEq] at hfound
      subst hfound
      exact ⟨hnothing, hpassthrough hdecision⟩
  | received =>
    rw [hstate] at hplace
    obtain ⟨hproposing, hresponse⟩ := hplace
    simp only [hstate] at hfound
    split at hfound
    · rename_i hnak
      exact absurd hnak.2 hproposing.methodState
    · split at hfound
      · rename_i hanswers
        obtain rfl := Option.some.inj hfound
        exact ⟨hproposing, answered_of_answers hanswers hresponse⟩
      · obtain rfl := Option.some.inj hfound
        exact hproposing
  | integrityCheck =>
    rw [hstate] at hplace
    simp only [hstate] at hfound
    split at hfound
    · obtain rfl := Option.some.inj hfound
      exact hplace.1
    · obtain rfl := Option.some.inj hfound
      exact hplace
  | methodResponse =>
    rw [hstate] at hplace
    simp only [hstate] at hfound
    split at hfound
    · obtain rfl := Option.some.inj hfound
      exact ⟨hplace.1.aaaEapResp, fun _ => hplace.2⟩
    · obtain rfl := Option.some.inj hfound
      exact hplace.1
  | initializePassthrough =>
    rw [hstate] at hplace
    obtain ⟨-, hidentity, hanswered⟩ := hplace
    simp only [hstate, if_neg hanswered.currentId, Option.some.injEq] at hfound
    subst hfound
    exact ⟨hidentity, hanswered.eapRespData⟩
  | received2 =>
    rw [hstate] at hplace
    obtain ⟨hpassing, hresponse⟩ := hplace
    simp only [hstate] at hfound
    split at hfound
    · rename_i hanswers
      obtain rfl := Option.some.inj hfound
      exact ⟨hpassing.identity, hresponse hanswers.1⟩
    · obtain rfl := Option.some.inj hfound
      exact hpassing
  | nak | pickUpMethod =>
    rw [hstate] at hplace
    exact hplace.elim
  | timeoutFailure | failure | success | timeoutFailure2 | failure2 | success2 =>
    simp only [hstate, reduceCtorEq] at hfound
  | proposeMethod | methodRequest | sendRequest | discard =>
    simp only [hstate, Option.some.injEq] at hfound
    rw [hstate] at hplace
    subst hfound
    exact hplace
  | aaaRequest | aaaResponse | sendRequest2 | discard2 =>
    simp only [hstate, Option.some.injEq] at hfound
    rw [hstate] at hplace
    subst hfound
    exact hplace
  | idle | idle2 =>
    rw [hstate] at hplace
    simp only [hstate] at hfound
    split at hfound
    · obtain rfl := Option.some.inj hfound
      exact hplace
    · split at hfound
      · obtain rfl := Option.some.inj hfound
        exact hplace
      · cases hfound
  | retransmit =>
    rw [hstate] at hplace
    simp only [hstate] at hfound
    split at hfound
    · obtain rfl := Option.some.inj hfound
      trivial
    · obtain rfl := Option.some.inj hfound
      exact hplace
  | retransmit2 =>
    rw [hstate] at hplace
    simp only [hstate] at hfound
    split at hfound
    · obtain rfl := Option.some.inj hfound
      exact hplace
    · obtain rfl := Option.some.inj hfound
      exact hplace
  | aaaIdle =>
    rw [hstate] at hplace
    simp only [hstate] at hfound
    repeat' split at hfound
    · obtain rfl := Option.some.inj hfound
      exact hplace
    · obtain rfl := Option.some.inj hfound
      exact hplace
    · obtain rfl := Option.some.inj hfound
      exact hplace
    · obtain rfl := Option.some.inj hfound
      exact hplace
    · cases hfound

theorem parseEapResp_valid (sm : EapSm) (resp : Option Bytes)
    (h : (parseEapResp sm resp).rxResp = true) :
    (parseEapResp sm resp).respId ≠ -1 ∧ resp.isSome := by
  cases resp with
  | none => cases h
  | some resp =>
    simp only [parseEapResp] at h ⊢
    split at h
    · cases h
    · rename_i hlong
      rw [if_neg hlong]
      split at h
      · cases h
      · rename_i hwhole
        rw [if_neg hwhole]
        have hid : ((byteAt resp 1 : Nat) : Int) ≠ -1 := by omega
        repeat' split
        all_goals exact ⟨hid, rfl⟩

/-- What the policy decides, as far as the next state depends on it. -/
theorem getDecision_cases (sm : EapSm) :
    ((getDecision sm).decision = .continue → sm.identity = none ∨ sm.currentId = -1) ∧
      ((getDecision sm).decision = .passthrough → sm.identity.isSome) := by
  by_cases hknown : sm.identity.isSome ∧ sm.startReauth = false
  · simp [getDecision, hknown]
  · by_cases hsuccess :
        sm.m.isSome ∧ sm.currentMethod ≠ eapTypeIdentity ∧ sm.m = some .success
    · simp only [getDecision, if_neg hknown, if_pos hsuccess, reduceCtorEq, false_imp_iff,
        and_self]
    · by_cases hfailure : sm.m = some .failure
      · simp only [getDecision, if_neg hknown, if_neg hsuccess, if_pos hfailure, reduceCtorEq,
          false_imp_iff, and_self]
      · by_cases hasks : sm.identity = none ∨ sm.currentId = -1
        · simp only [getDecision, if_neg hknown, if_neg hsuccess, if_neg hfailure, if_pos hasks,
            reduceCtorEq, false_imp_iff, and_true]
          exact fun _ => hasks
        · simp only [getDecision, if_neg hknown, if_neg hsuccess, if_neg hfailure, if_neg hasks,
            reduceCtorEq, false_imp_iff, and_self]

/-- What most states leave alone of what a steady machine is about. -/
structure LeavesSteady (sm sm' : EapSm) : Prop where
  portEnabled : sm'.portEnabled = sm.portEnabled
  faulted : sm'.faulted = sm.faulted
  eapRestart : sm'.eapRestart = sm.eapRestart
  identity : sm'.identity = sm.identity
  aaaEapResp : sm'.aaaEapResp = sm.aaaEapResp
  aaaEapRespData : sm'.aaaEapRespData = sm.aaaEapRespData

theorem Passing.of_leaves {sm' : EapSm} (h : Passing sm) (hleaves : LeavesSteady sm sm') :
    Passing sm' := by
  constructor
  · rw [hleaves.identity]
    exact h.identity
  · rw [hleaves.aaaEapRespData]
    exact h.aaaEapRespData

theorem Steady.of_leaves {sm' : EapSm} (h : Steady sm) (hleaves : LeavesSteady sm sm') :
    Steady sm' where
  portEnabled := hleaves.portEnabled.trans h.portEnabled
  faulted := hleaves.faulted.trans h.faulted
  restarted := by
    rw [hleaves.eapRestart, hleaves.identity]
    exact h.restarted
  handed := by
    intro hresp
    rw [hleaves.aaaEapResp] at hresp
    exact (h.handed hresp).of_leaves hleaves

/-- The common part of the states that a method is under way in. -/
theorem Proposing.entered {state : EapState} {sm' : EapSm} (h : Steady sm)
    (hleaves : LeavesSteady sm sm') (hstate : sm'.eapState = state)
    (hplace : ∀ {sm}, Proposing sm → Place sm state) (hproposing : Proposing sm') :
    InOrder sm' where
  toSteady := h.of_leaves hleaves
  place := hstate ▸ hplace hproposing

theorem Passing.entered {state : EapState} {sm' : EapSm} (h : Steady sm)
    (hleaves : LeavesSteady sm sm') (hstate : sm'.eapState = state)
    (hplace : ∀ {sm}, Passing sm → Place sm state) (hpassing : Passing sm) :
    InOrder sm' where
  toSteady := h.of_leaves hleaves
  place := hstate ▸ hplace (hpassing.of_leaves hleaves)

/-- What the method leaves alone when it takes a response. -/
structure LeavesAnswered (sm sm' : EapSm) : Prop where
  portEnabled : sm'.portEnabled = sm.portEnabled
  faulted : sm'.faulted = sm.faulted
  eapRestart : sm'.eapRestart = sm.eapRestart
  aaaEapResp : sm'.aaaEapResp = sm.aaaEapResp
  currentId : sm'.currentId = sm.currentId
  eapRespData : sm'.eapRespData = sm.eapRespData

theorem answered_entered {sm' : EapSm} (h : Steady sm) (hpending : sm.eapRestart = false)
    (hproposing : Proposing sm) (hanswered : Answered sm) (hleaves : LeavesAnswered sm sm')
    (hstate : sm'.eapState = .methodResponse) (hm : sm'.m.isSome)
    (hmethodState : sm'.methodState ≠ .proposed) : InOrder sm' := by
  have hnothing : sm'.aaaEapResp = false := hleaves.aaaEapResp.trans hproposing.aaaEapResp
  refine ⟨⟨hleaves.portEnabled.trans h.portEnabled, hleaves.faulted.trans h.faulted, ?_, ?_⟩, ?_⟩
  · intro hset
    rw [hleaves.eapRestart, hpending] at hset
    cases hset
  · intro hset
    rw [hnothing] at hset
    cases hset
  · rw [hstate]
    refine ⟨⟨hm, hmethodState, hnothing⟩, ?_, ?_⟩
    · rw [hleaves.currentId]
      exact hanswered.currentId
    · rw [hleaves.eapRespData]
      exact hanswered.eapRespData

/-- A state that is ready is entered in order. -/
theorem Steady.entry {state : EapState} {changed : Bool} (h : Steady sm) (hready : Ready sm state)
    (hpending : state = .methodResponse → sm.eapRestart = false) :
    InOrder (onEntry { sm with changed, eapState := state } rand state) := by
  cases state with
  | initializeState =>
    have hnone : sm.identity = none := hready
    refine ⟨⟨h.portEnabled, h.faulted, fun _ => hnone, fun hresp => ?_⟩, hnone⟩
    have hnothing := h.nothingHanded hnone
    rw [onEntry, hnothing] at hresp
    cases hresp
  | disabled => exact hready.elim
  | nak => exact hready.elim
  | pickUpMethod => exact hready.elim
  | selectAction =>
    have hcases := getDecision_cases { sm with changed, eapState := .selectAction }
    obtain ⟨decision, startReauth, hdecision⟩ :=
      getDecision_eq { sm with changed, eapState := .selectAction }
    rw [hdecision] at hcases
    simp only [onEntry, hdecision]
    refine ⟨h.of_leaves ⟨rfl, rfl, rfl, rfl, rfl, rfl⟩, ?_⟩
    refine ⟨hready.1, hcases.1, fun hpass => ⟨hcases.2 hpass, ?_⟩⟩
    have hanswered := hready.2 (hcases.2 hpass)
    exact ⟨hanswered.currentId, hanswered.eapRespData⟩
  | proposeMethod =>
    simp only [onEntry, if_pos hready.2]
    exact Proposing.entered h ⟨rfl, rfl, rfl, rfl, rfl, rfl⟩ rfl id
      ⟨rfl, MethodState.noConfusion, hready.1⟩
  | methodRequest =>
    obtain ⟨method, hmethod⟩ := Option.isSome_iff_exists.mp hready.m
    simp only [onEntry, hmethod]
    exact Proposing.entered h ⟨rfl, rfl, rfl, rfl, rfl, rfl⟩ rfl id
      ⟨rfl, hready.methodState, hready.aaaEapResp⟩
  | received =>
    have hvalid := parseEapResp_valid { sm with changed, eapState := .received } sm.eapRespData
    obtain ⟨rxResp, respId, respMethod, vendor, method, hparse⟩ :=
      parseEapResp_eq { sm with changed, eapState := .received } sm.eapRespData
    rw [hparse] at hvalid
    simp only [onEntry, hparse]
    refine ⟨h.of_leaves ⟨rfl, rfl, rfl, rfl, rfl, rfl⟩, ?_⟩
    exact ⟨⟨hready.m, hready.methodState, hready.aaaEapResp⟩, hvalid⟩
  | received2 =>
    have hvalid := parseEapResp_valid { sm with changed, eapState := .received2 } sm.eapRespData
    obtain ⟨rxResp, respId, respMethod, vendor, method, hparse⟩ :=
      parseEapResp_eq { sm with changed, eapState := .received2 } sm.eapRespData
    rw [hparse] at hvalid
    simp only [onEntry, hparse]
    refine ⟨h.of_leaves ⟨rfl, rfl, rfl, rfl, rfl, rfl⟩, ?_⟩
    exact ⟨⟨hready.identity, hready.aaaEapRespData⟩, fun hrx => (hvalid hrx).2⟩
  | integrityCheck =>
    obtain ⟨hproposing, hanswered⟩ := hready
    obtain ⟨method, hmethod⟩ := Option.isSome_iff_exists.mp hproposing.m
    simp only [onEntry, hmethod]
    refine ⟨h.of_leaves ⟨rfl, rfl, rfl, rfl, rfl, rfl⟩, ?_⟩
    exact ⟨⟨rfl, hproposing.methodState, hproposing.aaaEapResp⟩,
      ⟨hanswered.currentId, hanswered.eapRespData⟩⟩
  | methodResponse =>
    obtain ⟨hproposing, hanswered⟩ := hready
    obtain ⟨before, hmethod⟩ := Option.isSome_iff_exists.mp hproposing.m
    simp only [onEntry, hmethod]
    cases hidentity : identityData sm.eapRespData with
    | none =>
      simp only
      split
      · exact answered_entered h (hpending rfl) hproposing hanswered ⟨rfl, rfl, rfl, rfl, rfl, rfl⟩
          rfl rfl MethodState.noConfusion
      · exact answered_entered h (hpending rfl) hproposing hanswered ⟨rfl, rfl, rfl, rfl, rfl, rfl⟩
          rfl rfl MethodState.noConfusion
    | some data =>
      simp only
      split
      · exact answered_entered h (hpending rfl) hproposing hanswered ⟨rfl, rfl, rfl, rfl, rfl, rfl⟩
          rfl rfl MethodState.noConfusion
      · exact answered_entered h (hpending rfl) hproposing hanswered ⟨rfl, rfl, rfl, rfl, rfl, rfl⟩
          rfl rfl MethodState.noConfusion
  | idle | discard =>
    exact Proposing.entered h ⟨rfl, rfl, rfl, rfl, rfl, rfl⟩ rfl id
      ⟨hready.m, hready.methodState, hready.aaaEapResp⟩
  | sendRequest =>
    simp only [onEntry, sendRequest]
    split
    · exact Proposing.entered h ⟨rfl, rfl, rfl, rfl, rfl, rfl⟩ rfl id
        ⟨hready.m, hready.methodState, hready.aaaEapResp⟩
    · exact Proposing.entered h ⟨rfl, rfl, rfl, rfl, rfl, rfl⟩ rfl id
        ⟨hready.m, hready.methodState, hready.aaaEapResp⟩
  | retransmit =>
    simp only [onEntry, retransmit]
    split
    · exact Proposing.entered h ⟨rfl, rfl, rfl, rfl, rfl, rfl⟩ rfl id
        ⟨hready.m, hready.methodState, hready.aaaEapResp⟩
    · exact Proposing.entered h ⟨rfl, rfl, rfl, rfl, rfl, rfl⟩ rfl id
        ⟨hready.m, hready.methodState, hready.aaaEapResp⟩
  | initializePassthrough =>
    obtain ⟨hnothing, hidentity, hanswered⟩ := hready
    refine ⟨⟨h.portEnabled, h.faulted, h.restarted, fun hresp => ?_⟩, ?_⟩
    · rw [onEntry, hnothing] at hresp
      cases hresp
    · exact ⟨hnothing, hidentity, ⟨hanswered.currentId, hanswered.eapRespData⟩⟩
  | aaaRequest =>
    obtain ⟨hidentity, hdata⟩ := hready
    obtain ⟨data, hdata⟩ := Option.isSome_iff_exists.mp hdata
    have hpassing :
        Passing (onEntry { sm with changed, eapState := .aaaRequest } rand .aaaRequest) :=
      ⟨hidentity, by simp [onEntry, copyBuf, hdata]⟩
    exact ⟨⟨h.portEnabled, h.faulted, h.restarted, fun _ => hpassing⟩, hpassing⟩
  | aaaIdle =>
    have hpassing : Passing (onEntry { sm with changed, eapState := .aaaIdle } rand .aaaIdle) :=
      ⟨hready.identity, hready.aaaEapRespData⟩
    exact ⟨⟨h.portEnabled, h.faulted, h.restarted, fun _ => hpassing⟩, hpassing⟩
  | sendRequest2 =>
    simp only [onEntry, sendRequest]
    split
    · exact Passing.entered h ⟨rfl, rfl, rfl, rfl, rfl, rfl⟩ rfl id hready
    · exact Passing.entered h ⟨rfl, rfl, rfl, rfl, rfl, rfl⟩ rfl id hready
  | retransmit2 =>
    simp only [onEntry, retransmit]
    split
    · exact Passing.entered h ⟨rfl, rfl, rfl, rfl, rfl, rfl⟩ rfl id hready
    · exact Passing.entered h ⟨rfl, rfl, rfl, rfl, rfl, rfl⟩ rfl id hready
  | idle2 | discard2 | aaaResponse | failure2 | success2 | timeoutFailure2 =>
    exact Passing.entered h ⟨rfl, rfl, rfl, rfl, rfl, rfl⟩ rfl id hready
  | success | failure | timeoutFailure =>
    exact ⟨h.of_leaves ⟨rfl, rfl, rfl, rfl, rfl, rfl⟩, trivial⟩

/-- What a step enters it leaves in order. -/
theorem InOrder.entry {state : EapState} {before : EapSm} {changed : Bool} (h : InOrder sm)
    (hin : Entering sm state before) :
    InOrder (onEntry { before with changed, eapState := state } rand state) := by
  cases hin with
  | restarted hrestart => exact h.toSteady.entry (h.restarted hrestart) EapState.noConfusion
  | exhausted =>
    have hsteady : Steady { sm with numRounds := sm.numRounds + 1 } :=
      h.toSteady.of_leaves ⟨rfl, rfl, rfl, rfl, rfl, rfl⟩
    have hready : Ready { sm with numRounds := sm.numRounds + 1 } .failure := trivial
    exact hsteady.entry hready EapState.noConfusion
  | next state hpending hfound =>
    exact h.toSteady.entry (h.ready hfound) fun _ => hpending

/-- What the place of a machine depends on, and how the controller may change it. -/
structure KeepsPlace (sm sm' : EapSm) : Prop where
  identity : sm'.identity = sm.identity
  aaaEapRespData : sm'.aaaEapRespData = sm.aaaEapRespData
  m : sm'.m = sm.m
  methodState : sm'.methodState = sm.methodState
  decision : sm'.decision = sm.decision
  currentId : sm'.currentId = sm.currentId
  rxResp : sm'.rxResp = sm.rxResp
  respId : sm'.respId = sm.respId
  aaaEapResp : sm.aaaEapResp = false → sm'.aaaEapResp = false
  eapRespData : sm.eapRespData.isSome → sm'.eapRespData.isSome

section

variable {sm' : EapSm} (hkeeps : KeepsPlace sm sm')
include hkeeps

theorem Proposing.kept (h : Proposing sm) : Proposing sm' :=
  ⟨hkeeps.m ▸ h.m, hkeeps.methodState ▸ h.methodState, hkeeps.aaaEapResp h.aaaEapResp⟩

theorem Passing.kept (h : Passing sm) : Passing sm' :=
  ⟨hkeeps.identity ▸ h.identity, hkeeps.aaaEapRespData ▸ h.aaaEapRespData⟩

theorem Answered.kept (h : Answered sm) : Answered sm' :=
  ⟨hkeeps.currentId ▸ h.currentId, hkeeps.eapRespData h.eapRespData⟩

theorem Place.kept {state : EapState} (h : Place sm state) : Place sm' state := by
  cases state with
  | disabled | initializeState => exact hkeeps.identity.trans h
  | selectAction =>
    obtain ⟨hnothing, hcontinue, hpassthrough⟩ := h
    refine ⟨hkeeps.aaaEapResp hnothing, ?_, ?_⟩
    · rw [hkeeps.decision, hkeeps.identity, hkeeps.currentId]
      exact hcontinue
    · rw [hkeeps.decision, hkeeps.identity]
      exact fun hpass => ⟨(hpassthrough hpass).1, (hpassthrough hpass).2.kept hkeeps⟩
  | received =>
    refine ⟨h.1.kept hkeeps, ?_⟩
    rw [hkeeps.rxResp, hkeeps.respId]
    exact fun hrx => ⟨(h.2 hrx).1, hkeeps.eapRespData (h.2 hrx).2⟩
  | received2 =>
    refine ⟨h.1.kept hkeeps, ?_⟩
    rw [hkeeps.rxResp]
    exact fun hrx => hkeeps.eapRespData (h.2 hrx)
  | integrityCheck | methodResponse => exact ⟨h.1.kept hkeeps, h.2.kept hkeeps⟩
  | initializePassthrough =>
    exact ⟨hkeeps.aaaEapResp h.1, hkeeps.identity ▸ h.2.1, h.2.2.kept hkeeps⟩
  | proposeMethod | methodRequest | sendRequest | idle | retransmit | discard =>
    exact Proposing.kept hkeeps h
  | aaaRequest | aaaIdle | aaaResponse | sendRequest2 | idle2 | retransmit2 | discard2 | success2
  | failure2 | timeoutFailure2 => exact Passing.kept hkeeps h
  | success | failure | timeoutFailure => trivial
  | nak | pickUpMethod => exact h.elim

end

/-- The rule for a change between two runs. -/
theorem InOrder.kept {sm' : EapSm} (h : InOrder sm) (hkeeps : KeepsPlace sm sm')
    (henabled : sm'.portEnabled = sm.portEnabled) (hfaulted : sm'.faulted = sm.faulted)
    (hstate : sm'.eapState = sm.eapState)
    (hrestarted : sm'.eapRestart = true → sm.identity = none) : InOrder sm' where
  portEnabled := henabled.trans h.portEnabled
  faulted := hfaulted.trans h.faulted
  restarted := fun hset => hkeeps.identity.trans (hrestarted hset)
  handed := by
    intro hset
    cases hresp : sm.aaaEapResp with
    | false =>
      rw [hkeeps.aaaEapResp hresp] at hset
      cases hset
    | true => exact (h.handed hresp).kept hkeeps
  place := by
    rw [hstate]
    exact h.place.kept hkeeps

theorem InOrder.run (h : InOrder sm) (rand : Nat) : InOrder (eapServerSmStep sm rand) := by
  apply smLoop_keeps (fun _ h => h.portEnabled) ?_ (fun _ _ _ _ h hin => h.entry hin) 32 h
  intro sm changed h
  exact h.kept ⟨rfl, rfl, rfl, rfl, rfl, rfl, rfl, rfl, id, id⟩ rfl rfl rfl h.restarted

end CoapEap.EapServer
