import CoapEap.Controller.Refusal

/-!
What the EAP machine hands over for the RADIUS server: only a whole EAP response, and
only one that answers the request it sent last. `Stage` says what is known of the
response that waits in each state on the way there.
-/

namespace CoapEap.EapServer

/-- An EAP response to the request with this identifier, whose length is there. -/
structure IsResponse (id : Int) (data : Bytes) : Prop where
  header : 4 ≤ data.length
  code : byteAt data 0 = eapCodeResponse
  identifier : (byteAt data 1 : Int) = id
  length : be16At data 2 ≤ data.length

/-- The response that waits was found to be one. -/
def Heard (sm : EapSm) : Prop :=
  sm.rxResp = true → ∃ data, sm.eapRespData = some data ∧ IsResponse sm.respId data

/-- The response that waits answers the outstanding request. -/
def Answering (sm : EapSm) : Prop :=
  ∃ data, sm.eapRespData = some data ∧ IsResponse sm.currentId data

def Stage (sm : EapSm) : EapState → Prop
  | .initializeState => sm.currentId = -1
  | .received | .received2 => Heard sm
  | .nak | .integrityCheck | .methodResponse => Answering sm
  | .selectAction => sm.currentId = -1 ∨ Answering sm
  | .initializePassthrough => (sm.currentId = -1 ∨ Answering sm) ∧ sm.aaaEapRespData = none
  | .aaaRequest => ∃ data, sm.aaaEapRespData = some data ∧ IsResponse sm.currentId data
  | .pickUpMethod => False
  | _ => True

/-- The machine has handed out a request in these states, and nothing since. -/
def hasAsked : EapState → Bool
  | .disabled | .failure2 | .success2 => false
  | _ => true

/-- A run so far: what is handed over answers the request, and ends the run. -/
structure Forwards (sm : EapSm) : Prop where
  portEnabled : sm.portEnabled = true
  aaaTimeout : sm.aaaTimeout = false
  stage : Stage sm sm.eapState
  handed : sm.aaaEapResp = true →
    sm.eapRestart = false ∧ nextState sm = none ∧ hasAsked sm.eapState = true
  forwarded : sm.aaaEapResp = true → ∀ data, sm.aaaEapRespData = some data →
    IsResponse sm.currentId data

variable {sm : EapSm} {rand : Nat} {state : EapState}

theorem heard_parseEapResp (sm : EapSm) : Heard (parseEapResp sm sm.eapRespData) := by
  unfold Heard parseEapResp
  intro hrx
  cases hdata : sm.eapRespData with
  | none => simp [hdata] at hrx
  | some data =>
    simp only [hdata] at hrx ⊢
    by_cases hshort : data.length < 4
    · rw [if_pos hshort] at hrx
      cases hrx
    · rw [if_neg hshort] at hrx ⊢
      by_cases hlong : be16At data 2 > data.length
      · rw [if_pos hlong] at hrx
        cases hrx
      · rw [if_neg hlong] at hrx ⊢
        have hcode : byteAt data 0 = eapCodeResponse := by
          repeat' split at hrx
          all_goals exact of_decide_eq_true hrx
        refine ⟨data, ?_, Nat.le_of_not_lt hshort, hcode, ?_, Nat.le_of_not_lt hlong⟩
        · repeat' split
          all_goals rfl
        · repeat' split
          all_goals rfl

theorem answering_of_heard (h : Heard sm) (hrx : sm.rxResp = true)
    (hid : sm.respId = sm.currentId) : Answering sm := by
  obtain ⟨data, hdata, hresponse⟩ := h hrx
  exact ⟨data, hdata, hid ▸ hresponse⟩

theorem answering_of_answers {method : Nat} (h : Heard sm) (hanswers : answers sm method = true) :
    Answering sm := by
  simp only [answers, Bool.and_eq_true, decide_eq_true_eq] at hanswers
  exact answering_of_heard h hanswers.1.1 hanswers.1.2

/-- What a state needs when it is entered. -/
def Enters (sm : EapSm) : EapState → Prop
  | .nak | .integrityCheck | .methodResponse | .aaaRequest => Answering sm
  | .selectAction | .initializePassthrough => sm.currentId = -1 ∨ Answering sm
  | .aaaIdle => ∀ data, sm.aaaEapRespData = some data → IsResponse sm.currentId data
  | .pickUpMethod => False
  | _ => True

theorem Forwards.enters (h : Forwards sm) (hnext : nextState sm = some state) :
    Enters sm state := by
  have hstage := h.stage
  cases hstate : sm.eapState with
  | received =>
    rw [hstate] at hstage
    simp only [nextState, hstate] at hnext
    split at hnext
    · rename_i hnak
      obtain rfl := Option.some.inj hnext
      exact answering_of_answers hstage hnak.1
    · split at hnext
      · rename_i hanswers
        obtain rfl := Option.some.inj hnext
        exact answering_of_answers hstage hanswers
      · obtain rfl := Option.some.inj hnext
        trivial
  | received2 =>
    rw [hstate] at hstage
    simp only [nextState, hstate] at hnext
    split at hnext
    · rename_i hresponse
      obtain rfl := Option.some.inj hnext
      exact answering_of_heard hstage hresponse.1 hresponse.2
    · obtain rfl := Option.some.inj hnext
      trivial
  | initializePassthrough =>
    rw [hstate] at hstage
    obtain ⟨hknown, hnone⟩ := hstage
    simp only [nextState, hstate] at hnext
    split at hnext
    · obtain rfl := Option.some.inj hnext
      intro data hdata
      rw [hnone] at hdata
      cases hdata
    · rename_i hid
      obtain rfl := Option.some.inj hnext
      exact hknown.resolve_left hid
  | aaaRequest =>
    rw [hstate] at hstage
    obtain ⟨response, hresponse, his⟩ := hstage
    simp only [nextState, hstate, Option.some.injEq] at hnext
    subst hnext
    intro data hdata
    rw [hresponse, Option.some.injEq] at hdata
    exact hdata ▸ his
  | selectAction =>
    rw [hstate] at hstage
    simp only [nextState, hstate] at hnext
    split at hnext
    all_goals
      obtain rfl := Option.some.inj hnext
      trivial
  | nak =>
    rw [hstate] at hstage
    simp only [nextState, hstate, Option.some.injEq] at hnext
    subst hnext
    exact .inr hstage
  | integrityCheck =>
    rw [hstate] at hstage
    simp only [nextState, hstate] at hnext
    split at hnext
    all_goals
      obtain rfl := Option.some.inj hnext
      trivial
  | methodResponse =>
    rw [hstate] at hstage
    simp only [nextState, hstate] at hnext
    split at hnext
    · obtain rfl := Option.some.inj hnext
      exact .inr hstage
    · obtain rfl := Option.some.inj hnext
      trivial
  | initializeState =>
    rw [hstate] at hstage
    simp only [nextState, hstate, Option.some.injEq] at hnext
    subst hnext
    exact .inl hstage
  | pickUpMethod =>
    rw [hstate] at hstage
    exact hstage.elim
  | _ =>
    simp only [nextState, hstate] at hnext
    repeat' split at hnext
    all_goals simp only [Option.some.injEq, reduceCtorEq] at hnext
    all_goals
      subst hnext
      trivial

/-- What the entry of a state does to the variables that the response passes through. -/
structure ResponseKept (sm sm' : EapSm) (state : EapState) : Prop where
  eapState : sm'.eapState = sm.eapState
  portEnabled : sm'.portEnabled = sm.portEnabled
  aaaTimeout : sm'.aaaTimeout = sm.aaaTimeout
  eapRespData : sm'.eapRespData = sm.eapRespData
  eapRestart : sm'.eapRestart = true → sm.eapRestart = true
  currentId : state ≠ .initializeState → state ≠ .methodRequest → state ≠ .aaaResponse →
    sm'.currentId = sm.currentId
  aaaEapResp : state ≠ .aaaIdle → sm'.aaaEapResp = sm.aaaEapResp
  aaaEapRespData : state ≠ .initializePassthrough → state ≠ .aaaRequest →
    sm'.aaaEapRespData = sm.aaaEapRespData

theorem onEntry_responseKept (sm : EapSm) (rand : Nat) (state : EapState) :
    ResponseKept sm (onEntry sm rand state) state := by
  cases state with
  | received | received2 =>
    obtain ⟨rxResp, respId, respMethod, vendor, method, hparse⟩ :=
      parseEapResp_eq sm sm.eapRespData
    simp only [onEntry, hparse]
    exact ⟨rfl, rfl, rfl, rfl, id, fun _ _ _ => rfl, fun _ => rfl, fun _ _ => rfl⟩
  | selectAction =>
    obtain ⟨decision, startReauth, hdecision⟩ := getDecision_eq sm
    simp only [onEntry, hdecision]
    exact ⟨rfl, rfl, rfl, rfl, id, fun _ _ _ => rfl, fun _ => rfl, fun _ _ => rfl⟩
  | retransmit | retransmit2 =>
    simp only [onEntry, retransmit]
    split <;> exact ⟨rfl, rfl, rfl, rfl, id, fun _ _ _ => rfl, fun _ => rfl, fun _ _ => rfl⟩
  | sendRequest | sendRequest2 =>
    simp only [onEntry, sendRequest]
    split <;> exact ⟨rfl, rfl, rfl, rfl, id, fun _ _ _ => rfl, fun _ => rfl, fun _ _ => rfl⟩
  | integrityCheck | proposeMethod =>
    simp only [onEntry]
    split <;> exact ⟨rfl, rfl, rfl, rfl, id, fun _ _ _ => rfl, fun _ => rfl, fun _ _ => rfl⟩
  | methodResponse =>
    simp only [onEntry]
    repeat' split
    all_goals exact ⟨rfl, rfl, rfl, rfl, id, fun _ _ _ => rfl, fun _ => rfl, fun _ _ => rfl⟩
  | methodRequest =>
    simp only [onEntry]
    split
    all_goals
      exact ⟨rfl, rfl, rfl, rfl, id, fun _ h _ => absurd rfl h, fun _ => rfl, fun _ _ => rfl⟩
  | initializeState =>
    exact ⟨rfl, rfl, rfl, rfl, fun h => Bool.noConfusion h, fun h _ _ => absurd rfl h,
      fun _ => rfl, fun _ _ => rfl⟩
  | aaaResponse =>
    exact ⟨rfl, rfl, rfl, rfl, id, fun _ _ h => absurd rfl h, fun _ => rfl, fun _ _ => rfl⟩
  | aaaIdle =>
    exact ⟨rfl, rfl, rfl, rfl, id, fun _ _ _ => rfl, fun h => absurd rfl h, fun _ _ => rfl⟩
  | initializePassthrough =>
    exact ⟨rfl, rfl, rfl, rfl, id, fun _ _ _ => rfl, fun _ => rfl, fun h _ => absurd rfl h⟩
  | aaaRequest =>
    exact ⟨rfl, rfl, rfl, rfl, id, fun _ _ _ => rfl, fun _ => rfl, fun _ h => absurd rfl h⟩
  | _ => exact ⟨rfl, rfl, rfl, rfl, id, fun _ _ _ => rfl, fun _ => rfl, fun _ _ => rfl⟩

theorem Answering.kept {sm' : EapSm} (h : Answering sm) (hdata : sm'.eapRespData = sm.eapRespData)
    (hid : sm'.currentId = sm.currentId) : Answering sm' := by
  obtain ⟨data, hsome, hresponse⟩ := h
  exact ⟨data, hdata.trans hsome, hid ▸ hresponse⟩

/-- What a state makes of the variables that hold the response. -/
theorem stage_onEntry (henters : Enters sm state) (changed : Bool) :
    Stage (onEntry { sm with changed, eapState := state } rand state) state := by
  have hkept := onEntry_responseKept { sm with changed, eapState := state } rand state
  have hbefore (h : Answering sm) : Answering { sm with changed, eapState := state } := h
  cases state with
  | initializeState => rfl
  | received | received2 => exact heard_parseEapResp _
  | nak | integrityCheck | methodResponse =>
    exact (hbefore henters).kept hkept.eapRespData
      (hkept.currentId (by decide) (by decide) (by decide))
  | selectAction =>
    have hid := hkept.currentId (by decide) (by decide) (by decide)
    rcases henters with hnone | hanswering
    · exact .inl (hid.trans hnone)
    · exact .inr (hanswering.kept hkept.eapRespData hid)
  | initializePassthrough => exact ⟨henters, rfl⟩
  | aaaRequest =>
    obtain ⟨data, hdata, hresponse⟩ := henters
    exact ⟨data, by simp [onEntry, copyBuf, hdata], hresponse⟩
  | pickUpMethod => exact henters
  | _ => trivial

/-- The states in which the last request may be sent again. -/
def mayRetransmit : EapState → Bool
  | .idle | .retransmit | .received | .discard | .sendRequest | .integrityCheck
  | .idle2 | .retransmit2 | .received2 | .discard2 | .sendRequest2 => true
  | _ => false

/-- The identifier that a response must have is that of the request handed out. -/
structure Outstanding (sm : EapSm) : Prop where
  range : -1 ≤ sm.currentId ∧ sm.currentId < 256
  request : hasAsked sm.eapState → sm.currentId = -1 ∨ getId sm.eapReqData = sm.currentId
  lastReqData : mayRetransmit sm.eapState → ∀ data, sm.lastReqData = some data →
    sm.eapReqData = some data
  nothing : sm.eapReqData = none → sm.lastReqData = none

theorem getId_range (data : Option Bytes) : -1 ≤ getId data ∧ getId data < 256 := by
  cases data with
  | none => simp [getId]
  | some data =>
    have hbyte := byteAt_lt data 1
    simp only [getId]
    split
    · decide
    · omega

theorem nextId_range (sm : EapSm) (rand : Nat) : 0 ≤ nextId sm rand ∧ nextId sm rand < 256 := by
  simp only [nextId]
  repeat' split
  all_goals omega

/-- A message of four bytes or more with an identifier in its second. -/
theorem getId_cons (code : UInt8) {id : Int} (hid : 0 ≤ id ∧ id < 256) (a b : UInt8)
    (rest : Bytes) : getId (some (code :: UInt8.ofNat id.toNat :: a :: b :: rest)) = id := by
  have hbyte : (UInt8.ofNat id.toNat).toNat = id.toNat := by
    rw [UInt8.toNat_ofNat']
    omega
  have hlong : ¬ (code :: UInt8.ofNat id.toNat :: a :: b :: rest).length < 4 := by
    simp
  simp only [getId, if_neg hlong, byteAt_cons_succ, byteAt_cons_zero, hbyte]
  omega

theorem copyBuf_eq_none {dst src : Option Bytes} (h : copyBuf dst src = none) : dst = none :=
  (Option.or_eq_none_iff.mp h).2

/-- Where a state is entered from. -/
theorem nextState_asked (hnext : nextState sm = some state) :
    (state ≠ .initializeState → state ≠ .failure2 → state ≠ .success2 →
        hasAsked sm.eapState = true) ∧
      (mayRetransmit state = true → state ≠ .sendRequest → state ≠ .sendRequest2 →
        mayRetransmit sm.eapState = true) := by
  cases hstate : sm.eapState with
  | _ =>
    simp only [nextState, hstate] at hnext
    repeat' split at hnext
    all_goals simp only [Option.some.injEq, reduceCtorEq] at hnext
    all_goals subst hnext
    all_goals simp [hasAsked, mayRetransmit]

/-- A state that leaves the requests alone. -/
theorem Outstanding.left {sm' : EapSm} (h : Outstanding sm) (hstate : sm'.eapState = state)
    (hid : sm'.currentId = sm.currentId) (hasked : sm'.eapReqData = sm.eapReqData)
    (hlast : sm'.lastReqData = sm.lastReqData)
    (hfrom : hasAsked state = true → hasAsked sm.eapState = true)
    (hmay : mayRetransmit state = true → mayRetransmit sm.eapState = true) :
    Outstanding sm' := by
  refine ⟨hid ▸ h.range, ?_, ?_, hasked ▸ hlast ▸ h.nothing⟩
  · intro hnow
    rw [hstate] at hnow
    rw [hid, hasked]
    exact h.request (hfrom hnow)
  · intro hnow data hdata
    rw [hstate] at hnow
    rw [hlast] at hdata
    rw [hasked]
    exact h.lastReqData (hmay hnow) data hdata

theorem Outstanding.parsed (h : Outstanding sm) (resp : Option Bytes) :
    Outstanding (parseEapResp sm resp) := by
  obtain ⟨rxResp, respId, respMethod, vendor, method, hparse⟩ := parseEapResp_eq sm resp
  rw [hparse]
  exact ⟨h.range, h.request, h.lastReqData, h.nothing⟩

/-- The last message of a conversation has the identifier of the last request. -/
theorem getId_last (code : UInt8) {id : Int} (hrange : -1 ≤ id ∧ id < 256) :
    id = -1 ∨ getId (some [code, UInt8.ofNat (id % 256).toNat, 0, 4]) = id := by
  by_cases hnone : id = -1
  · exact .inl hnone
  · right
    have hmod : id % 256 = id := by omega
    rw [hmod]
    exact getId_cons code (by omega) 0 4 []

/-- A state in which nothing is sent again. -/
theorem outstanding_of_quiet (hstate : mayRetransmit sm.eapState = false)
    (hrange : -1 ≤ sm.currentId ∧ sm.currentId < 256)
    (hrequest : hasAsked sm.eapState → sm.currentId = -1 ∨ getId sm.eapReqData = sm.currentId)
    (hnothing : sm.eapReqData = none → sm.lastReqData = none) : Outstanding sm :=
  ⟨hrange, hrequest, fun hmay => absurd hmay (by simp [hstate]), hnothing⟩

theorem Outstanding.entry {before : EapSm} {changed : Bool} (h : Outstanding sm)
    (hentering : Entering sm state before) :
    Outstanding (onEntry { before with changed, eapState := state } rand state) := by
  cases hentering with
  | restarted hrestart =>
    exact outstanding_of_quiet rfl ⟨Int.le_refl _, by simp [onEntry]⟩ (fun _ => .inl rfl)
      h.nothing
  | exhausted =>
    exact outstanding_of_quiet rfl h.range (fun _ => getId_last 4 h.range) fun hnot => by
      simp [onEntry] at hnot
  | next state hpending hnext =>
    obtain ⟨hfrom, hmay⟩ := nextState_asked hnext
    cases state with
    | initializeState =>
      exact outstanding_of_quiet rfl ⟨Int.le_refl _, by simp [onEntry]⟩ (fun _ => .inl rfl)
        h.nothing
    | success =>
      exact outstanding_of_quiet rfl h.range (fun _ => getId_last 3 h.range) fun hnot => by
        simp [onEntry] at hnot
    | failure =>
      exact outstanding_of_quiet rfl h.range (fun _ => getId_last 4 h.range) fun hnot => by
        simp [onEntry] at hnot
    | success2 | failure2 =>
      refine outstanding_of_quiet rfl h.range (fun hnot => Bool.noConfusion hnot) ?_
      intro hnone
      exact h.nothing (copyBuf_eq_none hnone)
    | aaaResponse =>
      refine outstanding_of_quiet rfl (getId_range _) (fun _ => .inr rfl) ?_
      intro hnone
      exact h.nothing (copyBuf_eq_none hnone)
    | methodRequest =>
      have hasked := hfrom (by decide) (by decide) (by decide)
      simp only [onEntry]
      split
      · exact outstanding_of_quiet rfl h.range (fun _ => h.request hasked) h.nothing
      · have hid := nextId_range { sm with changed, eapState := EapState.methodRequest } rand
        have hlow : (-1 : Int) ≤ nextId { sm with changed, eapState := .methodRequest } rand :=
          Int.le_trans (by decide) hid.1
        refine outstanding_of_quiet rfl ⟨hlow, hid.2⟩ ?_ fun hnone => by simp at hnone
        exact fun _ => .inr (getId_cons _ hid 0 5 _)
    | sendRequest | sendRequest2 =>
      have hasked := h.request (hfrom (by decide) (by decide) (by decide))
      simp only [onEntry, sendRequest]
      split
      · rename_i data hdata
        refine ⟨h.range, fun _ => hasked, fun _ last hlast => hdata.trans hlast, ?_⟩
        intro hnone
        rw [hnone] at hdata
        cases hdata
      · rename_i hnone
        refine ⟨h.range, fun _ => hasked, fun _ last hlast => ?_, h.nothing⟩
        rw [h.nothing hnone] at hlast
        cases hlast
    | retransmit | retransmit2 =>
      have hasked := h.request (hfrom (by decide) (by decide) (by decide))
      have hlast := h.lastReqData (hmay (by decide) (by decide) (by decide))
      simp only [onEntry, retransmit]
      split
      · rename_i hagain
        obtain ⟨data, hdata⟩ := Option.isSome_iff_exists.mp hagain.2
        have hsame : sm.lastReqData = sm.eapReqData := hdata.trans (hlast data hdata).symm
        exact ⟨h.range, fun _ => hsame ▸ hasked, fun _ last hkept => hkept, fun hnone => hnone⟩
      · exact ⟨h.range, fun _ => hasked, fun _ => hlast, h.nothing⟩
    | received =>
      have hthere : Outstanding { sm with changed, eapState := .received } :=
        h.left rfl rfl rfl rfl (fun _ => hfrom (by decide) (by decide) (by decide))
          fun _ => hmay (by decide) (by decide) (by decide)
      have hparsed := hthere.parsed sm.eapRespData
      exact ⟨hparsed.range, hparsed.request, hparsed.lastReqData, hparsed.nothing⟩
    | received2 =>
      have hthere : Outstanding { sm with changed, eapState := .received2 } :=
        h.left rfl rfl rfl rfl (fun _ => hfrom (by decide) (by decide) (by decide))
          fun _ => hmay (by decide) (by decide) (by decide)
      exact hthere.parsed sm.eapRespData
    | selectAction =>
      obtain ⟨decision, startReauth, hdecision⟩ :=
        getDecision_eq { sm with changed, eapState := .selectAction }
      have hasked := h.request (hfrom (by decide) (by decide) (by decide))
      simp only [onEntry, hdecision]
      exact outstanding_of_quiet rfl h.range (fun _ => hasked) h.nothing
    | integrityCheck =>
      simp only [onEntry]
      split
      all_goals
        exact h.left rfl rfl rfl rfl (fun _ => hfrom (by decide) (by decide) (by decide))
          fun _ => hmay (by decide) (by decide) (by decide)
    | methodResponse | proposeMethod =>
      have hasked := h.request (hfrom (by decide) (by decide) (by decide))
      simp only [onEntry]
      repeat' split
      all_goals exact outstanding_of_quiet rfl h.range (fun _ => hasked) h.nothing
    | idle | idle2 | discard | discard2 =>
      exact h.left rfl rfl rfl rfl (fun _ => hfrom (by decide) (by decide) (by decide))
        fun _ => hmay (by decide) (by decide) (by decide)
    | disabled =>
      exact outstanding_of_quiet rfl h.range (fun hnot => Bool.noConfusion hnot) h.nothing
    | _ =>
      have hasked := h.request (hfrom (by decide) (by decide) (by decide))
      exact outstanding_of_quiet rfl h.range (fun _ => hasked) h.nothing

theorem Forwards.entry {before : EapSm} {changed : Bool} (h : Forwards sm)
    (hentering : Entering sm state before) :
    Forwards (onEntry { before with changed, eapState := state } rand state) := by
  have hkept := onEntry_responseKept { before with changed, eapState := state } rand state
  cases hentering with
  | restarted hrestart =>
    have hnothing : sm.aaaEapResp = false := by
      rw [Bool.eq_false_iff]
      intro hresp
      rw [(h.handed hresp).1] at hrestart
      cases hrestart
    refine ⟨h.portEnabled, h.aaaTimeout, rfl, fun hresp => ?_, fun hresp => ?_⟩
    · rw [hkept.aaaEapResp (by decide), hnothing] at hresp
      cases hresp
    · rw [hkept.aaaEapResp (by decide), hnothing] at hresp
      cases hresp
  | exhausted =>
    exact ⟨h.portEnabled, h.aaaTimeout, trivial, fun hresp => ⟨(h.handed hresp).1, rfl, rfl⟩,
      h.forwarded⟩
  | next state hpending hnext =>
    have henters := h.enters hnext
    have hnothing : sm.aaaEapResp = false := by
      rw [Bool.eq_false_iff]
      intro hresp
      rw [(h.handed hresp).2.1] at hnext
      cases hnext
    have hstage : Stage (onEntry { sm with changed, eapState := state } rand state) state :=
      stage_onEntry henters changed
    have hresp : (onEntry { sm with changed, eapState := state } rand state).aaaEapResp = true →
        state = .aaaIdle := by
      intro hset
      by_contra hother
      rw [hkept.aaaEapResp hother] at hset
      rw [hnothing] at hset
      cases hset
    refine ⟨hkept.portEnabled.trans h.portEnabled, hkept.aaaTimeout.trans h.aaaTimeout, ?_, ?_, ?_⟩
    · rw [hkept.eapState]
      exact hstage
    · intro hset
      obtain rfl := hresp hset
      exact ⟨hpending, by simp [onEntry, nextState, h.aaaTimeout], rfl⟩
    · intro hset
      obtain rfl := hresp hset
      exact henters

theorem Outstanding.run (h : Outstanding sm) (henabled : sm.portEnabled = true) (rand : Nat) :
    Outstanding (eapServerSmStep sm rand) := by
  have hboth : (eapServerSmStep sm rand).portEnabled = true ∧
      Outstanding (eapServerSmStep sm rand) := by
    refine smLoop_keeps (P := fun sm => sm.portEnabled = true ∧ Outstanding sm) (fun _ h => h.1)
      (fun _ _ h => ⟨h.1, h.2.range, h.2.request, h.2.lastReqData, h.2.nothing⟩)
      (fun sm state before changed h hin => ⟨?_, h.2.entry hin⟩) 32 ⟨henabled, h⟩
    have hkept := onEntry_keeps { before with changed, eapState := state } rand state
    rw [hkept.portEnabled]
    cases hin with
    | restarted | exhausted | next => exact h.1
  exact hboth.2

theorem Forwards.run (h : Forwards sm) (rand : Nat) : Forwards (eapServerSmStep sm rand) :=
  smLoop_keeps (fun _ h => h.portEnabled)
    (fun _ _ h => ⟨h.portEnabled, h.aaaTimeout, h.stage, h.handed, h.forwarded⟩)
    (fun _ _ _ _ h hin => h.entry hin) 32 h

/-- What holds in the states of such a run. It comes to no other states. -/
def SilentPlace (sm : EapSm) : EapState → Prop
  | .disabled | .initializeState => sm.identity = none
  | .selectAction => sm.decision ≠ .passthrough
  | .idle | .retransmit | .sendRequest | .idle2 | .retransmit2 | .sendRequest2 =>
    sm.eapResp = false
  | .proposeMethod | .methodRequest | .aaaIdle | .aaaResponse | .success | .failure
  | .timeoutFailure | .success2 | .failure2 | .timeoutFailure2 => True
  | _ => False

/-- A run that hands nothing over. -/
structure Silent (sm : EapSm) : Prop where
  portEnabled : sm.portEnabled = true
  restarted : sm.eapRestart = true → sm.identity = none
  aaaEapResp : sm.aaaEapResp = false
  place : SilentPlace sm sm.eapState

def SilentEnters (sm : EapSm) : EapState → Prop
  | .initializeState | .selectAction => sm.identity = none
  | .idle | .retransmit | .idle2 | .retransmit2 => sm.eapResp = false
  | .proposeMethod | .methodRequest | .sendRequest | .sendRequest2 | .aaaResponse | .success
  | .failure | .timeoutFailure | .success2 | .failure2 | .timeoutFailure2 => True
  | _ => False

theorem Silent.enters (h : Silent sm) (hnext : nextState sm = some state) :
    SilentEnters sm state := by
  have hplace := h.place
  cases hstate : sm.eapState with
  | disabled | initializeState =>
    rw [hstate] at hplace
    simp only [nextState, hstate, h.portEnabled, if_true, Option.some.injEq] at hnext
    subst hnext
    exact hplace
  | selectAction =>
    rw [hstate] at hplace
    simp only [nextState, hstate] at hnext
    split at hnext
    all_goals simp only [Option.some.injEq] at hnext
    all_goals subst hnext
    · trivial
    · trivial
    · rename_i hpass
      exact hplace hpass
    · trivial
  | idle | retransmit | sendRequest | idle2 | retransmit2 | sendRequest2 =>
    rw [hstate] at hplace
    have hresp : sm.eapResp = false := hplace
    simp only [nextState, hstate, hresp, Bool.false_eq_true, if_false] at hnext
    repeat' split at hnext
    all_goals simp only [Option.some.injEq, reduceCtorEq] at hnext
    all_goals subst hnext
    all_goals first | exact hresp | trivial
  | received | integrityCheck | methodResponse | discard | nak | pickUpMethod
  | initializePassthrough | received2 | discard2 | aaaRequest =>
    rw [hstate] at hplace
    exact hplace.elim
  | _ =>
    simp only [nextState, hstate] at hnext
    repeat' split at hnext
    all_goals simp only [Option.some.injEq, reduceCtorEq] at hnext
    all_goals
      subst hnext
      trivial

theorem silentPlace_onEntry (henters : SilentEnters sm state) (changed : Bool) :
    SilentPlace (onEntry { sm with changed, eapState := state } rand state) state ∧
      state ≠ .aaaIdle := by
  have hresp := (onEntry_entered { sm with changed, eapState := state } rand state).eapResp
  cases state with
  | initializeState => exact ⟨henters, EapState.noConfusion⟩
  | selectAction =>
    refine ⟨fun hpass => ?_, EapState.noConfusion⟩
    have hknown := (getDecision_cases { sm with changed, eapState := .selectAction }).2 hpass
    have hnone : sm.identity = none := henters
    rw [hnone] at hknown
    cases hknown
  | idle | retransmit | idle2 | retransmit2 =>
    have hbefore : sm.eapResp = false := henters
    refine ⟨?_, EapState.noConfusion⟩
    exact hresp.trans (by simp [hbefore])
  | sendRequest | sendRequest2 =>
    refine ⟨?_, EapState.noConfusion⟩
    exact hresp.trans (by simp [takesResponse])
  | proposeMethod | methodRequest | aaaResponse | success | failure | timeoutFailure | success2
  | failure2 | timeoutFailure2 => exact ⟨trivial, EapState.noConfusion⟩
  | _ => exact henters.elim

theorem Silent.entry {before : EapSm} {changed : Bool} (h : Silent sm)
    (hentering : Entering sm state before) :
    Silent (onEntry { before with changed, eapState := state } rand state) := by
  cases hentering with
  | restarted hrestart =>
    exact ⟨h.portEnabled, fun hagain => Bool.noConfusion hagain, h.aaaEapResp,
      h.restarted hrestart⟩
  | exhausted => exact ⟨h.portEnabled, h.restarted, h.aaaEapResp, trivial⟩
  | next state hpending hnext =>
    have hkept := onEntry_responseKept { sm with changed, eapState := state } rand state
    have hentry : SilentPlace (onEntry { sm with changed, eapState := state } rand state) state ∧
        state ≠ .aaaIdle := silentPlace_onEntry (h.enters hnext) changed
    refine ⟨hkept.portEnabled.trans h.portEnabled, fun hagain => ?_,
      (hkept.aaaEapResp hentry.2).trans h.aaaEapResp, hkept.eapState ▸ hentry.1⟩
    have hbefore : sm.eapRestart = true := hkept.eapRestart hagain
    rw [hpending] at hbefore
    cases hbefore

theorem Silent.run (h : Silent sm) (rand : Nat) : (eapServerSmStep sm rand).aaaEapResp = false :=
  have hsilent : Silent (eapServerSmStep sm rand) :=
    smLoop_keeps (fun _ h => h.portEnabled)
      (fun _ _ h => ⟨h.portEnabled, h.restarted, h.aaaEapResp, h.place⟩)
      (fun _ _ _ _ h hin => h.entry hin) 32 h
  hsilent.aaaEapResp

/-- A machine between two runs has handed over what it had to. -/
structure Between (sm : EapSm) : Prop where
  portEnabled : sm.portEnabled = true
  aaaTimeout : sm.aaaTimeout = false
  aaaEapResp : sm.aaaEapResp = false
  place : sm.eapState = .disabled ∨ nextState sm = none

theorem Between.stage (h : Between sm) {sm' : EapSm} (hsame : sm'.eapState = sm.eapState) :
    Stage sm' sm'.eapState := by
  rw [hsame]
  rcases h.place with hnew | hquiet
  · rw [hnew]
    trivial
  · cases hstate : sm.eapState with
    | received | received2 | nak | integrityCheck | methodResponse | selectAction
    | initializePassthrough | aaaRequest | pickUpMethod | initializeState =>
      simp only [nextState, hstate] at hquiet
      repeat' split at hquiet
      all_goals simp at hquiet
    | _ => trivial

/-- Between two runs the interface may be written, but for what is handed over. -/
theorem Between.forwards (h : Between sm) {sm' : EapSm} (hsame : sm'.eapState = sm.eapState)
    (henabled : sm'.portEnabled = sm.portEnabled) (htimeout : sm'.aaaTimeout = sm.aaaTimeout)
    (hresp : sm'.aaaEapResp = sm.aaaEapResp) : Forwards sm' where
  portEnabled := henabled.trans h.portEnabled
  aaaTimeout := htimeout.trans h.aaaTimeout
  stage := h.stage hsame
  handed hset := by rw [hresp, h.aaaEapResp] at hset; cases hset
  forwarded hset := by rw [hresp, h.aaaEapResp] at hset; cases hset

end CoapEap.EapServer
