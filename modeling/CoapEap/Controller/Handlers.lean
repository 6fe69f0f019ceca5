import CoapEap.Controller.State

/-!
The handlers that the workers run (`mainserver.cpp`), each from the point where
it holds the mutex of its session up to where it leaves it, and the calls into
the EAP layer they make (`eap_auth_interface.c`).

A handler returns the state after it or the reason why the process ended. What
the environment decides is in a `Call`: the clock, the outcome of `sendto`, what
`rand()` returns, the authenticator made for an Access-Request, and the memory
behind a received payload.
-/

namespace CoapEap.Mainserver

open Cantcoap EapServer Lalarm Radius

/-- What one execution of a handler takes from its environment. -/
structure Call where
  now : Rat := 0
  sent : Bool := true
  rand : Nat := 0
  authenticator : Bytes := []
  behind : Bytes := []
  deriving Repr

def maxRetransmit : UInt16 := 4

/-- `"/.well-known/a"`. -/
def defaultLocation : Bytes :=
  [0x2F, 0x2E, 0x77, 0x65, 0x6C, 0x6C, 0x2D, 0x6B, 0x6E, 0x6F, 0x77, 0x6E, 0x2F, 0x61]

def cborCryptosuite : Bytes := [0x83, 0x00, 0x01, 0x02]

def oscoreOption : Bytes := [0x09, 0x00]

def payloadOscore : Bytes :=
  [0xad, 0x88, 0x3c, 0x74, 0x28, 0x13, 0x2e, 0x52, 0xbe, 0x82, 0x57, 0x65, 0xb2, 0x61, 0x86,
    0xf5, 0x35, 0x84, 0x82, 0x49, 0xa7, 0x45]

/-- `"alpha.t.eu.org"`. -/
def alphaUserId : Bytes :=
  [0x61, 0x6C, 0x70, 0x68, 0x61, 0x2E, 0x74, 0x2E, 0x65, 0x75, 0x2E, 0x6F, 0x72, 0x67]

/-- `search_eap_ctx_rad_client`: the first context with that identifier. -/
def searchEapCtxRadClient (s : Controller) (identifier : UInt8) : Option Ptr :=
  s.radCtx.find? fun p => (s.heap p).eapCtx.radiusIdentifier = identifier

/-- The identity that `eap_auth_encapsulate_radius` learns from a response. -/
def learnedIdentity (eap : Bytes) : Option Bytes :=
  if eap.length > 4 ∧ byteAt eap 0 = eapCodeResponse ∧ byteAt eap 4 = eapTypeIdentity then
    some (eap.drop 5)
  else none

/-- A context, the RADIUS client and the identifier of the request sent, if any. -/
structure EapStep where
  ctx : EapAuthCtx
  radius : RadiusClient
  request : Option UInt8
  deriving DecidableEq, Repr

/-- `eap_auth_encapsulate_radius`. The identifier is taken before the request is
complete, also when a user name of more than 253 bytes then stops it. -/
def eapAuthEncapsulateRadius (ctx : EapAuthCtx) (radius : RadiusClient) (p : Ptr) (eap : Bytes)
    (authenticator : Bytes) : EapStep :=
  let (identifier, radius) := radiusClientGetId radius
  let ctx := { ctx with
    radiusIdentifier := identifier, eapIdentity := (learnedIdentity eap).or ctx.eapIdentity }
  if (ctx.eapIdentity.getD []).length > radiusMaxAttrLen then ⟨ctx, radius, none⟩
  else
    let state := match ctx.lastRecvRadius with
      | some msg => if msg.code = accessChallenge then attrValues msg attrState else []
      | none => []
    let request : AccessRequest :=
      { identifier, authenticator, userName := ctx.eapIdentity, eapMessage := eap, state }
    ⟨ctx, radiusClientListAdd radius ⟨request, p⟩, some identifier⟩

/-- `eap_auth_step`. -/
def eapAuthStep (ctx : EapAuthCtx) (radius : RadiusClient) (p : Ptr) (call : Call) :
    Except Halt EapStep :=
  let eap := eapServerSmStep ctx.eap call.rand
  if eap.faulted then .error .nullDereference
  else if eap.aaaEapResp then
    match eap.aaaEapRespData with
    | none => .error .nullDereference
    | some data =>
      .ok (eapAuthEncapsulateRadius { ctx with eap := { eap with aaaEapResp := false } } radius p
        data call.authenticator)
  else .ok ⟨{ ctx with eap }, radius, none⟩

/-- The step of a session's EAP layer, put back into the session. -/
def stepSession (s : Controller) (p : Ptr) (session : Session) (call : Call) :
    Except Halt Controller :=
  (eapAuthStep session.eapCtx s.radius p call).map fun step =>
    let s := { s.setSession p { session with eapCtx := step.ctx } with radius := step.radius }
    s.record (step.request.toList.map (.accessRequest p))

/-- `eap_auth_set_eapResp` with `TRUE` and `eap_auth_set_eapRespData`. -/
def setEapResponse (ctx : EapAuthCtx) (data : Bytes) : EapAuthCtx :=
  { ctx with eap := { ctx.eap with eapResp := true, eapRespData := some data } }

/-- The checks of `eap_auth_receive_radius` on an answer and its request. -/
def acceptsAnswer (digests : Digests) (msg : RadiusMsg) (req : AccessRequest) : Bool :=
  let bareReject : Bool := msg.code = accessReject &&
    attrValues msg attrMessageAuthenticator = [] && attrValues msg attrEapMessage = []
  (bareReject || radiusMsgVerify digests msg req) &&
    (msg.code = accessAccept || msg.code = accessReject || msg.code = accessChallenge)

/-- `eap_auth_decapsulate_radius`. -/
def eapAuthDecapsulateRadius (eap : EapSm) (msg : RadiusMsg) : EapSm :=
  match radiusMsgGetEap msg with
  | none => eap
  | some data =>
    if data.length < 4 then eap
    else { eap with aaaEapReq := true, aaaEapReqData := some data }

/-- What an accepted answer sets in the EAP interface before the step. -/
def answerEap (digests : Digests) (msg : RadiusMsg) (req : AccessRequest) (eap : EapSm) :
    EapSm :=
  let eap : EapSm :=
    if msg.code = accessAccept then
      match masterSessionKey digests msg req with
      | some key =>
        { eap with aaaSuccess := true, aaaEapKeyData := some key, aaaEapKeyAvailable := true }
      | none => { eap with aaaSuccess := true }
    else if msg.code = accessReject then { eap with aaaFail := true }
    else eap
  let eap := eapAuthDecapsulateRadius eap msg
  if msg.code = accessAccept ∨ msg.code = accessReject then { eap with aaaEapReq := false }
  else eap

/-- `radius_client_receive` with its handler `eap_auth_receive_radius`. A matched
request leaves the list before the handler sees the answer, and stays away if
the handler drops it. -/
def radiusClientReceive (digests : Digests) (s : Controller) (msg : RadiusMsg) (call : Call) :
    Except Halt Controller :=
  match matching s.radius msg.identifier with
  | none => .ok s
  | some entry =>
    let s := { s with radius := removeMatching s.radius msg.identifier }
    if acceptsAnswer digests msg entry.msg = false then .ok s
    else
      match searchEapCtxRadClient s msg.identifier with
      | none => .error .nullDereference
      | some q =>
        let session := s.heap q
        let eap := eapServerSmStep (answerEap digests msg entry.msg session.eapCtx.eap) call.rand
        if eap.faulted then .error .nullDereference
        else
          .ok (s.setSession q { session with
            eapCtx := { session.eapCtx with eap, lastRecvRadius := some msg } })

/-- The request both POST builders start from, before its URI. -/
def newPost (session : Session) : CoapPDU :=
  setType (setCode (setToken (setMessageId newPDU session.messageId) (le32 session.sessionId))
    coapPost) .confirmable

/-- The POST of `process_coap_msg`. The length of the EAP request goes through
`uint8_t`. -/
def firstPost (session : Session) (packet : Bytes) : Bytes :=
  let payload := packet.take (packet.length % 256) ++ cborCryptosuite
  (setPayload (setURI (newPost session) (cString (session.location.getD []))) payload).pdu

/-- The POST of `process_receive_radius_msg` while the exchange goes on. -/
def eapPost (session : Session) (packet : Bytes) : Bytes :=
  (setPayload (setURI (newPost session) (cString (session.location.getD []))) packet).pdu

/-- The POST of `process_receive_radius_msg` after a success. -/
def finalPost (session : Session) : Bytes :=
  (setPayload (addOption (setURI (newPost session) (cString (session.location.getD [])))
    optionOscore oscoreOption) payloadOscore).pdu

/-- `storeLastSentMessageInSession`, and the reset of the retransmission that
both senders do with it. -/
def storePost (session : Session) (pdu : Bytes) : Session :=
  { session with
    lastSentMessage := some pdu, lastSentMessageLen := pdu.length
    rtxCounter := 0, rt := session.rtInit, posts := session.posts + 1 }

/-- `get_alarm_coap_eap_session` of the POST alarm of a session identifier. -/
def cancelPostAlarm (s : Controller) (id : UInt32) : Controller :=
  { s with alarms := getAlarmCoapEapSession s.sessionId s.alarms id postAlarm }

/-- `add_alarm_coap_eap` for the POST outstanding in a session. -/
def addPostAlarm (s : Controller) (p : Ptr) (now : Rat) : Controller :=
  let session := s.heap p
  let alarm : Alarm :=
    { session := p, tmp := now + session.rt, id := postAlarm, post := session.posts }
  { s with alarms := addAlarmCoapEap s.alarms alarm }

/-- The POST is stored and its alarm takes the place of the old one. -/
def armPost (s : Controller) (p : Ptr) (session : Session) (pdu : Bytes) (now : Rat) :
    Controller :=
  let session := storePost session pdu
  addPostAlarm (cancelPostAlarm (s.setSession p session) session.sessionId) p now

/-- `remove_coap_eap_session`: the first entry with the identifier. -/
def removeCoapEapSession (s : Controller) (id : UInt32) : Controller :=
  { s with sessions := s.sessions.eraseP fun p => s.sessionId p = id }

/-- `get_coap_eap_session`. -/
def getCoapEapSession (s : Controller) (id : UInt32) : Except Halt Ptr :=
  match s.sessions.find? fun p => s.sessionId p = id with
  | none => .error .exit
  | some p => .ok p

/-- The `session_id` that `memcpy` fills from the token of an acknowledgment:
bytes the token does not reach keep what the stack held. What a token of more than four
bytes writes behind `session_id` is left out. -/
def tokenSessionId (pdu : Bytes) (stack : Bytes) : UInt32 :=
  let token := (getToken pdu).take 4
  fromLe32 (token ++ stack.drop token.length)

/-- `process_coap_msg`. -/
def processCoapMsg (s : Controller) (task : NetworkTask) (p : Ptr) (call : Call) :
    Except Halt Controller :=
  match validate task.buf with
  | none => .error .exit
  | some request => do
    let session := s.heap p
    let location := if request.payload = [] then defaultLocation else request.payload
    let ctx := session.eapCtx
    let session := { session with
      location := some location
      eapCtx := { ctx with eap := { ctx.eap with eapRestart := true } } }
    let s ← stepSession s p session call
    let session := s.heap p
    match session.eapCtx.eap.eapReqData with
    | none => .error .nullDereference
    | some packet =>
      let session := { session with
        currentState := 2, lastReceivedMessage := some task.buf }
      let s := armPost s p session (firstPost session packet) call.now
      .ok (s.record [.sentPost p (session.posts + 1)])

/-- What `process_acknowledgment` hands over as EAP response: as many bytes as
it computes from the length field, also where the payload is shorter. -/
def acknowledgedEap (payload behind : Bytes) : Bytes :=
  let lengthEap := byteAt payload 2 * 10 + byteAt payload 3
  readBehind payload (0 :: behind) lengthEap

/-- The switch over `CURRENT_STATE` in `process_acknowledgment`. -/
def acknowledgmentSwitch (s : Controller) (task : NetworkTask) (request : Validated)
    (post : Ptr × Nat) (p : Ptr) (call : Call) : Except Halt Controller :=
  let session := s.heap p
  match session.currentState with
  | 2 =>
    if hasOption task.buf request optionAuth then .error .exit
    else
      let data := acknowledgedEap request.payload call.behind
      stepSession (s.record [.fed p post]) p
        { session with eapCtx := setEapResponse session.eapCtx data } call
  | 3 =>
    let id := session.sessionId
    let s := cancelPostAlarm (cancelPostAlarm s id) id
    let s := removeCoapEapSession (removeCoapEapSession s id) id
    .ok (s.record [.completed p task.buf session.lastSentMessage])
  | _ => .ok s

/-- Whether an acknowledgment has the message identifier of the POST outstanding
in a session. The source does not ask; the log notes it. -/
def answersOutstanding (session : Session) (ack : Bytes) : Bool :=
  session.lastSentMessage.any fun pdu => getMessageId pdu = getMessageId ack

/-- `process_acknowledgment`. -/
def processAcknowledgment (s : Controller) (task : NetworkTask) (post : Ptr × Nat) (p : Ptr)
    (call : Call) : Except Halt Controller :=
  match validate task.buf with
  | none => .error .exit
  | some request =>
    let session := s.heap p
    let noted : List Occurrence :=
      if answersOutstanding session task.buf then [.acknowledged p session.posts] else []
    let s := s.setSession p { session with location := some (getLocation task.buf request 30) }
    acknowledgmentSwitch (s.record noted) task request post p call

/-- The bytes of `eap_req_id` after the request was copied into it and turned
into the identity response. What a request of more than 50 bytes writes behind the array
is left out. -/
def identityResponse (eapReqId packet : Bytes) : Bytes :=
  let copied := packet.take 50 ++ eapReqId.drop packet.length
  let length := 5 + alphaUserId.length
  [UInt8.ofNat eapCodeResponse, copied.getD 1 0, copied.getD 2 0, UInt8.ofNat length,
    copied.getD 4 0] ++ alphaUserId ++ List.replicate (45 - alphaUserId.length) 0

/-- The workaround of `process_receive_radius_msg` up to the point where
`eap_req_id` is handed over. -/
def identityWorkarround (s : Controller) (p : Ptr) (packet : Bytes) : Controller :=
  let session := s.heap p
  let s := cancelPostAlarm s session.sessionId
  let s := s.setSession p { session with
    eapWorkarround := session.eapWorkarround + 1, userId := alphaUserId, mutex := true }
  { s with eapReqId := identityResponse s.eapReqId packet }

/-- The rest of the workaround: the response is read from `eap_req_id`. -/
def identityHandOver (s : Controller) (p : Ptr) (call : Call) : Except Halt Controller :=
  let session := s.heap p
  let data := s.eapReqId.take (5 + session.userId.length)
  stepSession s p
    { session with mutex := false, eapCtx := setEapResponse session.eapCtx data } call

/-- The second half of `process_receive_radius_msg`, which builds and sends the
next POST. When `sendto` fails it returns with the mutex held. -/
def sendRadiusPost (s : Controller) (p : Ptr) (packet : Bytes) (call : Call) :
    Except Halt Controller :=
  let session := s.heap p
  let session := { session with messageId := session.messageId + 1 }
  if session.location = none then .error .nullDereference
  else if session.eapCtx.eap.eapKeyAvailable ∧ session.eapCtx.eap.eapKeyData = none then
    .error .nullDereference
  else
    let session :=
      if session.eapCtx.eap.eapKeyAvailable then
        { session with
          mskKey := session.eapCtx.eap.eapKeyData.map (List.take 64), keyLen := 64
          currentState := 3 }
      else session
    let pdu :=
      if session.eapCtx.eap.eapSuccess then finalPost session else eapPost session packet
    if call.sent then
      .ok ((armPost s p session pdu call.now).record [.sentPost p (session.posts + 1)])
    else .ok (s.setSession p { session with mutex := true })

/-- `process_receive_radius_msg` from its mutex on: the state after it, and
whether the handler stands in the middle of the identity workaround. -/
def processReceiveRadiusMsg (digests : Digests) (s : Controller) (msg : RadiusMsg) (p : Ptr)
    (call : Call) : Except Halt (Controller × Bool) := do
  let s ← radiusClientReceive digests s msg call
  let session := s.heap p
  let eap := session.eapCtx.eap
  if eap.eapFail then .error .exit
  else if eap.eapReq ∨ eap.eapSuccess then
    match eap.eapReqData with
    | none => .error .nullDereference
    | some packet =>
      if session.eapWorkarround = 0 then .ok (identityWorkarround s p packet, true)
      else
        let s ← sendRadiusPost s p packet call
        .ok (s, false)
  else .ok (s, false)

/-- `coapRetransmitLastSentMessage`. -/
def coapRetransmitLastSentMessage (s : Controller) (p : Ptr) (lastSent : Bytes) (now : Rat) :
    Except Halt Controller :=
  if (validate lastSent).isNone then .error .exit
  else
    let session := s.heap p
    let session := { session with rt := session.rt * 2 }
    let s := cancelPostAlarm (s.setSession p session) session.sessionId
    .ok ((addPostAlarm s p now).record [.retransmitted p session.posts])

/-- `process_retr_coap_eap` with the identifier and the session it read. -/
def processRetrCoapEap (s : Controller) (id : Nat) (p : Ptr) (call : Call) :
    Except Halt Controller :=
  if id = postAlarm then
    let session := s.heap p
    let s := cancelPostAlarm s session.sessionId
    let session := { session with rtxCounter := session.rtxCounter + 1 }
    let s := s.setSession p session
    if session.rtxCounter < maxRetransmit then
      match session.lastSentMessage with
      | some pdu => coapRetransmitLastSentMessage s p pdu call.now
      | none => .ok s
    else
      let id := session.sessionId
      .ok ((removeCoapEapSession (removeCoapEapSession s id) id).record [.timedOut p])
  else .ok s

end CoapEap.Mainserver
