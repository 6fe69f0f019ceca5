import CoapEap.Bytes

/-!
The EAP authenticator of a session (`eap_server.c`, `eap_server_identity.c`) as
`eap_auth_init` configures it: no local EAP server, no backend authentication,
and Identity the only method that is ever proposed. The user database is only
asked where an identity is known and pass-through is not chosen, which the
absent local server excludes, so `sm->user` stays `NULL` and is not kept.

`step` is `SM_STEP(EAP)` with the states it enters, and `eapServerSmStep` the
loop around it that runs until no state is entered any more.
-/

namespace CoapEap.EapServer

inductive EapState
  | disabled | initializeState | idle | received | integrityCheck | methodResponse | methodRequest
  | proposeMethod | selectAction | sendRequest | discard | nak | retransmit | success | failure
  | timeoutFailure | pickUpMethod | initializePassthrough | idle2 | retransmit2 | received2
  | discard2 | sendRequest2 | aaaRequest | aaaResponse | aaaIdle | timeoutFailure2 | failure2
  | success2
  deriving DecidableEq, Repr

inductive Decision
  | success | failure | continue | passthrough
  deriving DecidableEq, Repr

inductive MethodState
  | proposed | continue | end
  deriving DecidableEq, Repr

/-- `struct eap_identity_data`. -/
inductive IdentityState
  | continue | success | failure
  deriving DecidableEq, Repr

def eapCodeRequest : UInt8 := 1
def eapCodeResponse : Nat := 2
def eapTypeNone : Nat := 0
def eapTypeIdentity : Nat := 1
def eapTypeNak : Nat := 3
def eapTypeExpanded : Nat := 254
def eapMaxAuthRounds : Nat := 50

/-- `struct eap_sm` with its `eap_eapol_interface`. Buffers that may be `NULL`
are options; `currentId` and `respId` are -1 when no identifier is known. -/
structure EapSm where
  eapResp : Bool := false
  eapRespData : Option Bytes := none
  portEnabled : Bool := false
  retransWhile : Nat := 0
  eapRestart : Bool := false
  eapReq : Bool := false
  eapNoReq : Bool := false
  eapSuccess : Bool := false
  eapFail : Bool := false
  eapTimeout : Bool := false
  eapReqData : Option Bytes := none
  eapKeyData : Option Bytes := none
  eapKeyAvailable : Bool := false
  aaaEapReq : Bool := false
  aaaEapNoReq : Bool := false
  aaaSuccess : Bool := false
  aaaFail : Bool := false
  aaaEapReqData : Option Bytes := none
  aaaEapKeyData : Option Bytes := none
  aaaEapKeyAvailable : Bool := false
  aaaEapResp : Bool := false
  aaaEapRespData : Option Bytes := none
  aaaTimeout : Bool := false
  eapState : EapState := .disabled
  changed : Bool := false
  currentMethod : Nat := eapTypeNone
  currentId : Int := 0
  lastId : Int := 0
  lastReqData : Option Bytes := none
  methodState : MethodState := .proposed
  retransCount : Nat := 0
  rxResp : Bool := false
  respId : Int := 0
  respMethod : Nat := eapTypeNone
  respVendor : Nat := 0
  respVendorMethod : Nat := 0
  ignore : Bool := false
  decision : Decision := .success
  m : Option IdentityState := none
  identity : Option Bytes := none
  startReauth : Bool := false
  numRounds : Nat := 0
  /-- A method was called while `sm->m` was `NULL`. -/
  faulted : Bool := false
  deriving DecidableEq, Repr

/-- `eap_sm_calculateTimeout` without a method timeout; no method gives one. -/
def calculateTimeout (retransCount : Nat) : Nat :=
  match retransCount with
  | 0 => 3
  | 1 => 6
  | 2 => 12
  | _ => 20

/-- `eap_sm_parseEapResp`. -/
def parseEapResp (sm : EapSm) (resp : Option Bytes) : EapSm :=
  let sm := { sm with
    rxResp := false, respId := -1, respMethod := eapTypeNone, respVendor := 0,
    respVendorMethod := eapTypeNone }
  match resp with
  | none => sm
  | some resp =>
    if resp.length < 4 then sm
    else
      let plen := be16At resp 2
      if plen > resp.length then sm
      else
        let sm := { sm with
          respId := byteAt resp 1, rxResp := byteAt resp 0 = eapCodeResponse }
        if plen > 4 then
          let sm := { sm with respMethod := byteAt resp 4 }
          if sm.respMethod = eapTypeExpanded then
            if plen < 12 then sm
            else
              { sm with
                respVendor := 65536 * byteAt resp 5 + be16At resp 6
                respVendorMethod := 65536 * be16At resp 8 + be16At resp 10 }
          else sm
        else sm

/-- `eap_hdr_validate` for the Identity method: the data behind the type. -/
def identityData (resp : Option Bytes) : Option Bytes :=
  match resp with
  | none => none
  | some resp =>
    let len := be16At resp 2
    if resp.length < 4 then none
    else if len < 5 ∨ len > resp.length then none
    else if byteAt resp 4 = eapTypeExpanded then
      if len < 12 then none
      else if 65536 * byteAt resp 5 + be16At resp 6 ≠ 0 ∨
          65536 * be16At resp 8 + be16At resp 10 ≠ eapTypeIdentity then none
      else some ((resp.drop 12).take (len - 12))
    else if byteAt resp 4 ≠ eapTypeIdentity then none
    else some ((resp.drop 5).take (len - 5))

/-- `eap_sm_getId`. -/
def getId (data : Option Bytes) : Int :=
  match data with
  | none => -1
  | some data => if data.length < 4 then -1 else byteAt data 1

/-- `eap_sm_nextId`; `rand` is what `rand()` returns. -/
def nextId (sm : EapSm) (rand : Nat) : Int :=
  if sm.currentId < 0 then
    let id : Int := (rand % 256 : Nat)
    if id ≠ sm.lastId then id else (id + 1) % 256
  else (sm.currentId + 1) % 256

/-- `eap_identity_buildReq`: a request of five bytes, without a prompt. -/
def identityRequest (id : Int) : Bytes :=
  [eapCodeRequest, UInt8.ofNat id.toNat, 0, 5, UInt8.ofNat eapTypeIdentity]

/-- `eap_sm_Policy_getDecision` with `eap_server = 0` and no user. -/
def getDecision (sm : EapSm) : EapSm :=
  if sm.identity.isSome ∧ sm.startReauth = false then { sm with decision := .passthrough }
  else if sm.m.isSome ∧ sm.currentMethod ≠ eapTypeIdentity ∧ sm.m = some .success then
    { sm with decision := .success }
  else if sm.m = some .failure then { sm with decision := .failure }
  else
    let sm := { sm with startReauth := false }
    if sm.identity = none ∨ sm.currentId = -1 then { sm with decision := .continue }
    else { sm with decision := .failure }

/-- The method state machine is told that a request went out or not: the common
body of `SEND_REQUEST` and `SEND_REQUEST2`. -/
def sendRequest (sm : EapSm) : EapSm :=
  let sm := { sm with retransCount := 0 }
  match sm.eapReqData with
  | some data => { sm with lastReqData := some data, eapResp := false, eapReq := true }
  | none => { sm with eapResp := false, eapReq := false, eapNoReq := true }

/-- The common body of `RETRANSMIT` and `RETRANSMIT2`; `MaxRetrans` is 5. -/
def retransmit (sm : EapSm) : EapSm :=
  let sm := { sm with retransCount := sm.retransCount + 1 }
  if sm.retransCount ≤ 5 ∧ sm.lastReqData.isSome then
    { sm with eapReqData := sm.lastReqData, eapReq := true }
  else sm

/-- The common body of `DISCARD` and `DISCARD2`. -/
def discard (sm : EapSm) : EapSm := { sm with eapResp := false, eapNoReq := true }

/-- `eap_copy_buf`: a `NULL` source leaves the destination. -/
def copyBuf (dst src : Option Bytes) : Option Bytes := src.or dst

/-- The body of the `SM_STATE` function of a state, after its `SM_ENTRY`. -/
def onEntry (sm : EapSm) (rand : Nat) : EapState → EapSm
  | .disabled => { sm with numRounds := 0 }
  | .initializeState =>
    { sm with
      currentId := -1, eapSuccess := false, eapFail := false, eapTimeout := false,
      eapKeyData := none, eapKeyAvailable := false, eapRestart := false, m := none,
      numRounds := 0 }
  | .idle | .idle2 => { sm with retransWhile := calculateTimeout sm.retransCount }
  | .received =>
    let sm := parseEapResp sm sm.eapRespData
    { sm with numRounds := sm.numRounds + 1 }
  | .received2 => parseEapResp sm sm.eapRespData
  | .integrityCheck =>
    match sm.m with
    | none => { sm with faulted := true }
    | some _ => { sm with ignore := (identityData sm.eapRespData).isNone }
  | .methodRequest =>
    match sm.m with
    | none => sm
    | some _ =>
      let id := nextId sm rand
      { sm with currentId := id, lastId := id, eapReqData := some (identityRequest id) }
  | .methodResponse =>
    match sm.m with
    | none => { sm with faulted := true }
    | some before =>
      let sm : EapSm := match identityData sm.eapRespData with
        | none => sm
        | some data => { sm with identity := some data, m := some .success }
      let done : Bool := (identityData sm.eapRespData).isSome || before ≠ .continue
      if done then { sm with eapKeyData := none, methodState := .end }
      else { sm with methodState := .continue }
  | .proposeMethod =>
    if sm.identity = none ∨ sm.currentId = -1 then
      { sm with currentMethod := eapTypeIdentity, m := some .continue, methodState := .continue }
    else { sm with currentMethod := eapTypeNone, m := none, methodState := .proposed }
  | .selectAction => getDecision sm
  | .sendRequest | .sendRequest2 => sendRequest sm
  | .discard | .discard2 => discard sm
  | .nak => { sm with m := none }
  | .retransmit | .retransmit2 => retransmit sm
  | .success =>
    { sm with
      eapReqData := some [3, UInt8.ofNat (sm.currentId % 256).toNat, 0, 4], lastReqData := none
      eapKeyAvailable := sm.eapKeyAvailable || sm.eapKeyData.isSome, eapSuccess := true }
  | .failure =>
    { sm with
      eapReqData := some [4, UInt8.ofNat (sm.currentId % 256).toNat, 0, 4], lastReqData := none
      eapFail := true }
  | .timeoutFailure | .timeoutFailure2 => { sm with eapTimeout := true }
  | .pickUpMethod => sm
  | .initializePassthrough => { sm with aaaEapRespData := none }
  | .aaaRequest => { sm with aaaEapRespData := copyBuf sm.aaaEapRespData sm.eapRespData }
  | .aaaResponse =>
    let data := copyBuf sm.eapReqData sm.aaaEapReqData
    { sm with eapReqData := data, currentId := getId data }
  | .aaaIdle =>
    { sm with
      aaaFail := false, aaaSuccess := false, aaaEapReq := false, aaaEapNoReq := false
      aaaEapResp := true }
  | .failure2 => { sm with eapReqData := copyBuf sm.eapReqData sm.aaaEapReqData, eapFail := true }
  | .success2 =>
    { sm with
      eapReqData := copyBuf sm.eapReqData sm.aaaEapReqData
      eapKeyAvailable := sm.aaaEapKeyAvailable
      eapKeyData :=
        if sm.aaaEapKeyAvailable then copyBuf sm.eapKeyData sm.aaaEapKeyData else none
      eapSuccess := true, startReauth := true }

/-- `SM_ENTER`. -/
def enter (sm : EapSm) (rand : Nat) (state : EapState) : EapSm :=
  onEntry { sm with changed := true, eapState := state } rand state

/-- `SM_ENTER_GLOBAL`: staying in the state is not a change. -/
def enterGlobal (sm : EapSm) (rand : Nat) (state : EapState) : EapSm :=
  onEntry { sm with changed := sm.changed || sm.eapState ≠ state, eapState := state } rand state

/-- The response answers the outstanding request with a method of that type. -/
def answers (sm : EapSm) (method : Nat) : Bool :=
  sm.rxResp && sm.respId = sm.currentId &&
    (sm.respMethod = method || (sm.respMethod = eapTypeExpanded && sm.respVendor = 0 &&
      sm.respVendorMethod = method))

/-- The state that the current one is left for, by the variables alone. -/
def nextState (sm : EapSm) : Option EapState :=
  match sm.eapState with
  | .initializeState => some .selectAction
  | .pickUpMethod =>
    if sm.currentMethod = eapTypeNone then some .selectAction else some .methodResponse
  | .disabled => if sm.portEnabled then some .initializeState else none
  | .idle =>
    if sm.retransWhile = 0 then some .retransmit
    else if sm.eapResp then some .received else none
  | .retransmit => if sm.retransCount > 5 then some .timeoutFailure else some .idle
  | .received =>
    if answers sm eapTypeNak ∧ sm.methodState = .proposed then some .nak
    else if answers sm sm.currentMethod then some .integrityCheck
    else some .discard
  | .discard => some .idle
  | .sendRequest => some .idle
  | .integrityCheck => if sm.ignore then some .discard else some .methodResponse
  | .methodRequest => some .sendRequest
  | .methodResponse => if sm.methodState = .end then some .selectAction else some .methodRequest
  | .proposeMethod => some .methodRequest
  | .nak => some .selectAction
  | .selectAction =>
    match sm.decision with
    | .failure => some .failure
    | .success => some .success
    | .passthrough => some .initializePassthrough
    | .continue => some .proposeMethod
  | .timeoutFailure | .failure | .success => none
  | .initializePassthrough => if sm.currentId = -1 then some .aaaIdle else some .aaaRequest
  | .idle2 =>
    if sm.eapResp then some .received2
    else if sm.retransWhile = 0 then some .retransmit2 else none
  | .retransmit2 => if sm.retransCount > 5 then some .timeoutFailure2 else some .idle2
  | .received2 =>
    if sm.rxResp ∧ sm.respId = sm.currentId then some .aaaRequest else some .discard2
  | .discard2 => some .idle2
  | .sendRequest2 => some .idle2
  | .aaaRequest => some .aaaIdle
  | .aaaResponse => some .sendRequest2
  | .aaaIdle =>
    if sm.aaaFail then some .failure2
    else if sm.aaaSuccess then some .success2
    else if sm.aaaEapReq then some .aaaResponse
    else if sm.aaaTimeout then some .timeoutFailure2
    else none
  | .timeoutFailure2 | .failure2 | .success2 => none

/-- `SM_STEP(EAP)`. -/
def step (sm : EapSm) (rand : Nat) : EapSm :=
  if sm.eapRestart ∧ sm.portEnabled then enterGlobal sm rand .initializeState
  else if sm.portEnabled = false then enterGlobal sm rand .disabled
  else if sm.numRounds > eapMaxAuthRounds then
    if sm.numRounds = eapMaxAuthRounds + 1 then
      enterGlobal { sm with numRounds := sm.numRounds + 1 } rand .failure
    else sm
  else
    match nextState sm with
    | none => sm
    | some state => enter sm rand state

/-- The loop of `eap_server_sm_step`. -/
def smLoop : Nat → EapSm → Nat → EapSm
  | 0, sm, _ => sm
  | fuel + 1, sm, rand =>
    let sm := step { sm with changed := false } rand
    if sm.changed then smLoop fuel sm rand else sm

/-- `eap_server_sm_step`. No run of the loop enters more than 32 states. -/
def eapServerSmStep (sm : EapSm) (rand : Nat) : EapSm := smLoop 32 sm rand

/-- `eap_server_sm_init` and the flags that `eap_auth_init` sets afterwards. -/
def initialSm : EapSm := { portEnabled := true, eapRestart := true }

end CoapEap.EapServer
