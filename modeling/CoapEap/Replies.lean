import CoapEap.Codecs
import CoapEap.Device.Duplicates

/-!
What the device sends. Every packet that its codec serialises with a code the controller
knows is the encoding of a well-formed message, so the controller reads back what was
set. Every datagram the device answers with is such a packet, and is either a response
with the token of the request or an error message without one.
-/

namespace CoapEap.ErCoap

open Library.OptionFormat Cantcoap

theorem stringOptions_number (number : Nat) (splitChar : UInt8) (field : Option Bytes) :
    ∀ o ∈ stringOptions number splitChar field, o.1 = number := by
  cases field with
  | none => simp [stringOptions]
  | some text => simp [stringOptions]

theorem intOptions_number (number : Nat) (field : Option Nat) :
    ∀ o ∈ intOptions number field, o.1 = number := by
  cases field with
  | none => simp [intOptions]
  | some value => simp [intOptions]

theorem setOptions_ascending (pkt : CoapPacket) : Ascending 0 (setOptions pkt) := by
  rw [← List.append_nil (setOptions pkt)]
  simp only [setOptions, List.append_assoc]
  refine ascending_group (by decide) (stringOptions_number _ _ _) ?_
  refine ascending_group (by decide) (stringOptions_number _ _ _) ?_
  refine ascending_group (by decide) (intOptions_number _ _) ?_
  refine ascending_group (by decide) (stringOptions_number _ _ _) ?_
  refine ascending_group (by decide) (stringOptions_number _ _ _) ?_
  refine ascending_group (by decide) (intOptions_number _ _) ?_
  exact ascending_group (by decide) (intOptions_number _ _) trivial

theorem setOptions_number (pkt : CoapPacket) : ∀ o ∈ setOptions pkt, o.1 ≤ optionBlock1 := by
  intro o ho
  have hlast : ∀ number, o.1 = number → number ≤ optionBlock1 → o.1 ≤ optionBlock1 :=
    fun _ hnumber hle => hnumber ▸ hle
  simp only [setOptions, List.mem_append] at ho
  rcases ho with (((((h | h) | h) | h) | h) | h) | h
  · exact hlast _ (stringOptions_number _ _ _ o h) (by decide)
  · exact hlast _ (stringOptions_number _ _ _ o h) (by decide)
  · exact hlast _ (intOptions_number _ _ o h) (by decide)
  · exact hlast _ (stringOptions_number _ _ _ o h) (by decide)
  · exact hlast _ (stringOptions_number _ _ _ o h) (by decide)
  · exact hlast _ (intOptions_number _ _ o h) (by decide)
  · exact hlast _ (intOptions_number _ _ o h) (by decide)

/-- The message has the parts of the packet. -/
structure Carries (m : WellFormedPdu) (pkt : CoapPacket) : Prop where
  type : deviceType m.type = pkt.type
  code : m.code.toNat = pkt.code
  mid : m.mid = pkt.mid
  token : m.token = pkt.token
  options : m.options = setOptions pkt
  payload : m.payload = readBehind (pkt.payload.getD []) [] pkt.payloadLen

/-- The type in the words of the controller. -/
def pduType : MessageType → PduType
  | .con => .confirmable
  | .non => .nonConfirmable
  | .ack => .acknowledgement
  | .rst => .reset

theorem deviceType_pduType (type : MessageType) : deviceType (pduType type) = type := by
  cases type <;> rfl

theorem pduType_bits (type : MessageType) : (pduType type).bits = typeBits type := by
  cases type <;> rfl

theorem deviceType_injective : Function.Injective deviceType := by
  have hleft : Function.LeftInverse pduType deviceType := by
    intro type
    cases type <;> rfl
  exact hleft.injective

theorem validCode_le {code : Nat} (h : validCode code = true) : code ≤ 0xA5 := by
  by_contra hlarge
  have hover : 0xA5 < code := by omega
  simp [validCode, hover] at h

/-- What passes the header check is read by the controller as it was set. -/
theorem coapSerializeMessage_carries {pkt : CoapPacket} {sent : Bytes}
    (htoken : pkt.token.length ≤ coapTokenLen) (hcode : validCode pkt.code = true)
    (h : coapSerializeMessage pkt = some sent) :
    ∃ m : WellFormedPdu, m.bytes = sent ∧ Carries m pkt := by
  have hbyte : (UInt8.ofNat pkt.code).toNat = pkt.code := by
    have hle := validCode_le hcode
    rw [UInt8.toNat_ofNat']
    omega
  have hfits : (serializedHeader pkt).length ≤ coapMaxHeaderSize ∧ serialized pkt = sent := by
    unfold coapSerializeMessage at h
    split at h
    · rename_i hfits
      exact ⟨hfits, Option.some.inj h⟩
    · cases h
  have hoptions : (encodeOptions 0 (setOptions pkt)).length ≤ coapMaxHeaderSize := by
    have hheader := hfits.1
    rw [serializedHeader, serializeOptions_eq, List.length_append] at hheader
    omega
  have hnarrow : ∀ o ∈ setOptions pkt, o.1 < 65536 ∧ o.2.length < 65536 := by
    intro o ho
    have hnumber := setOptions_number pkt o ho
    have hvalue : o.2.length ≤ (encodeOptions 0 (setOptions pkt)).length := value_length_le ho
    unfold optionBlock1 at hnumber
    unfold coapMaxHeaderSize coapEtagLen coapTokenLen at hoptions
    omega
  have hbyteCode : validCode (UInt8.ofNat pkt.code).toNat = true := by
    rw [hbyte]
    exact hcode
  refine ⟨⟨pduType pkt.type, UInt8.ofNat pkt.code, pkt.mid, pkt.token, setOptions pkt,
    readBehind (pkt.payload.getD []) [] pkt.payloadLen, hbyteCode, htoken,
    setOptions_ascending pkt, hnarrow⟩, ?_,
    ⟨deviceType_pduType pkt.type, hbyte, rfl, rfl, rfl, rfl⟩⟩
  rw [← hfits.2, serialized_eq_datagram pkt htoken, WellFormedPdu.bytes, WellFormedPdu.first,
    pduType_bits]

end CoapEap.ErCoap

namespace CoapEap.Hateoas

open ErCoap Cantcoap Library.OptionFormat

variable {Peer Random : Type} {P : Platform Peer Random} {d : Device Peer Random}

/-- The fields of the header are the same. -/
structure SameHeader (pkt pkt' : CoapPacket) : Prop where
  type : pkt'.type = pkt.type
  code : pkt'.code = pkt.code
  mid : pkt'.mid = pkt.mid
  token : pkt'.token = pkt.token

theorem SameHeader.trans {pkt₁ pkt₂ pkt₃ : CoapPacket} (h : SameHeader pkt₁ pkt₂)
    (h' : SameHeader pkt₂ pkt₃) : SameHeader pkt₁ pkt₃ where
  type := h'.type.trans h.type
  code := h'.code.trans h.code
  mid := h'.mid.trans h.mid
  token := h'.token.trans h.token

/-- What is known of a result, and of the status of an error. -/
def Yields {α : Type} (ok : α → Prop) (refused : Nat → Prop) : Except CoapError α → Prop
  | .ok result => ok result
  | .error e => refused e.status

theorem Yields.mono {α : Type} {ok ok' : α → Prop} {refused refused' : Nat → Prop}
    {result : Except CoapError α} (h : Yields ok refused result) (hok : ∀ a, ok a → ok' a)
    (hrefused : ∀ status, refused status → refused' status) : Yields ok' refused' result := by
  cases result with
  | ok a => exact hok a h
  | error e => exact hrefused e.status h

/-- The statuses that the parser refuses a datagram with. -/
def isRefusal (status : Nat) : Prop :=
  status = badRequest ∨ status = badOption ∨ status = proxyingNotSupported

theorem parseOption_yields (pkt : CoapPacket) (number : Nat) (value : Bytes) :
    Yields (SameHeader pkt) isRefusal (parseOption pkt number value) := by
  unfold parseOption
  repeat' split
  all_goals first
    | exact ⟨rfl, rfl, rfl, rfl⟩
    | exact .inr (.inl rfl)
    | exact .inr (.inr rfl)

theorem parseOptions_yields (fuel : Nat) (memory : Bytes) (left optionNumber : Nat)
    (pkt : CoapPacket) :
    Yields (SameHeader pkt) isRefusal (parseOptions fuel memory left optionNumber pkt) := by
  induction fuel generalizing memory left optionNumber pkt with
  | zero => exact ⟨rfl, rfl, rfl, rfl⟩
  | succ fuel ih =>
      unfold parseOptions
      split
      · exact ⟨rfl, rfl, rfl, rfl⟩
      split
      · exact ⟨rfl, rfl, rfl, rfl⟩
      simp only
      generalize hread : parseOption pkt _ _ = read
      have hyields := hread ▸ parseOption_yields pkt _ _
      cases read with
      | error e => exact hyields
      | ok next => exact (ih _ _ _ next).mono (fun _ => hyields.trans) (fun _ => id)

/-- Whatever is received, its header is read before anything is refused. -/
theorem coapParseMessage_yields (memory : Bytes) (dataLen : Nat) :
    Yields (SameHeader (parseHeader memory)) isRefusal (coapParseMessage memory dataLen) := by
  unfold coapParseMessage
  simp only
  split
  · exact .inl rfl
  · exact parseOptions_yields _ _ _ _ _

/-- What a handler makes of the response that was prepared. -/
structure KeepsResponse (prepared response : CoapPacket) : Prop where
  type : response.type = prepared.type
  mid : response.mid = prepared.mid
  token : response.token = prepared.token
  code : validCode prepared.code = true → validCode response.code = true

theorem KeepsResponse.refl (pkt : CoapPacket) : KeepsResponse pkt pkt := ⟨rfl, rfl, rfl, id⟩

theorem KeepsResponse.trans {pkt₁ pkt₂ pkt₃ : CoapPacket} (h : KeepsResponse pkt₁ pkt₂)
    (h' : KeepsResponse pkt₂ pkt₃) : KeepsResponse pkt₁ pkt₃ where
  type := h'.type.trans h.type
  mid := h'.mid.trans h.mid
  token := h'.token.trans h.token
  code := fun hcode => h'.code (h.code hcode)

theorem keepsResponse_status (response : CoapPacket) {status : Nat}
    (hstatus : validCode status = true) :
    KeepsResponse response (coapSetStatusCode response status) := by
  have hle := validCode_le hstatus
  have hset : coapSetStatusCode response status = { response with code := status } := by
    rw [coapSetStatusCode, if_pos (by omega)]
  rw [hset]
  exact ⟨rfl, rfl, rfl, fun _ => hstatus⟩

theorem keepsResponse_payload (response : CoapPacket) (memory : Bytes) (length : Nat) :
    KeepsResponse response (coapSetPayload response memory length) := ⟨rfl, rfl, rfl, id⟩

theorem keepsResponse_block2 (response : CoapPacket) (num : Nat) (more : Bool) (size : Nat) :
    KeepsResponse response (coapSetHeaderBlock2 response num more size) := by
  rw [coapSetHeaderBlock2_eq]
  exact ⟨rfl, rfl, rfl, id⟩

theorem keepsResponse_created (response : CoapPacket) (url : Bytes) :
    KeepsResponse response (setCreated response url) := by
  have hstatus : KeepsResponse response (coapSetStatusCode response created) :=
    keepsResponse_status response (by decide)
  refine hstatus.trans ?_
  unfold setCreated coapSetHeaderLocationPath
  simp only
  split
  · exact ⟨rfl, rfl, rfl, id⟩
  · exact ⟨rfl, rfl, rfl, id⟩

theorem keepsResponse_hateoasHandler (request response : CoapPacket) :
    KeepsResponse response (hateoasHandler P d request response).2 := by
  simp only [hateoasHandler]
  split
  · exact KeepsResponse.refl response
  split
  · exact (keepsResponse_created response _).trans (keepsResponse_payload _ _ _)
  · exact (keepsResponse_payload response _ _).trans (keepsResponse_created _ _)

/-- The handler of the discovery resource keeps the response to its request. -/
def DiscoveryKeeps (P : Platform Peer Random) : Prop :=
  ∀ url request response offset,
    KeepsResponse response (P.wellKnownCoreHandler url request response offset).1

theorem keepsResponse_invokeService (hdiscovery : DiscoveryKeeps P)
    (request response : CoapPacket) (offset : Int) :
    KeepsResponse response (invokeService P d request response offset).2.response := by
  have hmethod : KeepsResponse response (coapSetStatusCode response methodNotAllowed) :=
    keepsResponse_status response (by decide)
  have hresource : KeepsResponse response (coapSetStatusCode response notFound) :=
    keepsResponse_status response (by decide)
  simp only [invokeService]
  split
  · split
    · exact keepsResponse_hateoasHandler request response
    · exact hmethod
  split
  · split
    · exact hdiscovery _ request response offset
    · exact hmethod
  · exact hresource

theorem invokeService_currentMid (request response : CoapPacket) (offset : Int) :
    (invokeService P d request response offset).1.currentMid = d.currentMid := by
  simp only [invokeService]
  split
  · split
    · exact hateoasHandler_keeps_mid request response
    · rfl
  split
  · split
    · rfl
    · rfl
  · rfl

theorem applyBlockwise_yields (message response : CoapPacket) (offset : Int) :
    Yields (KeepsResponse response) (· = notImplemented)
      (applyBlockwise message response offset) := by
  unfold applyBlockwise
  split
  · rfl
  split
  · simp only
    split
    · split
      · exact ⟨rfl, rfl, rfl, fun _ => (by decide : validCode badOption = true)⟩
      · exact (keepsResponse_block2 response _ _ _).trans (keepsResponse_payload _ _ _)
    · split
      · exact (keepsResponse_block2 response _ _ _).trans (keepsResponse_payload _ _ _)
      · exact keepsResponse_block2 response _ _ _
  · split
    · exact (keepsResponse_block2 response _ _ _).trans (keepsResponse_payload _ _ _)
    · exact KeepsResponse.refl response

/-- What is sent as a response keeps to the one that was prepared. -/
theorem finishResponse_yields {prepared message : CoapPacket} {service : Service}
    (htoken : prepared.token.length ≤ coapTokenLen) (hcode : validCode prepared.code = true)
    (hkeeps : KeepsResponse prepared service.response) :
    Yields (fun sent => ∃ pkt, KeepsResponse prepared pkt ∧
        ∃ m : WellFormedPdu, m.bytes = sent ∧ Carries m pkt)
      (fun status => status = notImplemented ∨ status = packetSerializationError)
      (finishResponse message service) := by
  have hchecked : Yields (KeepsResponse prepared) (· = notImplemented)
      (if service.allowed then applyBlockwise message service.response service.newOffset
        else .ok service.response) := by
    split
    · exact (applyBlockwise_yields message service.response service.newOffset).mono
        (fun _ => hkeeps.trans) (fun _ => id)
    · exact hkeeps
  unfold finishResponse
  simp only
  revert hchecked
  generalize (if service.allowed then applyBlockwise message service.response service.newOffset
    else .ok service.response : Except CoapError CoapPacket) = checked
  intro hchecked
  cases checked with
  | error e => exact .inl hchecked
  | ok pkt =>
      simp only
      cases hsent : coapSerializeMessage pkt with
      | none => exact .inr rfl
      | some sent =>
          have hshort : pkt.token.length ≤ coapTokenLen := by
            rw [hchecked.token]
            exact htoken
          exact ⟨pkt, hchecked, coapSerializeMessage_carries hshort (hchecked.code hcode) hsent⟩

/-- An error message of the device: it has the identifier of what was received, whatever
that was, and the text that the device keeps. -/
structure Reports (after : Device Peer Random) (received : CoapPacket) (m : WellFormedPdu) :
    Prop where
  type : m.type = .acknowledgement
  code : 128 ≤ m.code.toNat
  mid : m.mid = received.mid
  token : m.token = []
  options : m.options = []
  payload : m.payload = after.coapErrorMessage.take restMaxChunkSize

/-- The statuses that are sent as they are, and those that are replaced. -/
def isReported (status : Nat) : Prop := (128 ≤ status ∧ validCode status = true) ∨ 192 ≤ status

theorem isReported_of_isRefusal {status : Nat} (h : isRefusal status) : isReported status := by
  rcases h with rfl | rfl | rfl
  · exact .inl (by decide)
  · exact .inl (by decide)
  · exact .inl (by decide)

/-- The code that a status is sent with. -/
def sentCode (status : Nat) : Nat := if status ≥ 192 then internalServerError else status

theorem sentCode_valid {status : Nat} (h : isReported status) :
    128 ≤ sentCode status ∧ validCode (sentCode status) = true := by
  unfold sentCode
  split
  · decide
  · rename_i hsmall
    exact h.resolve_right hsmall

def errorPacket (mid : UInt16) (e : CoapError) : CoapPacket :=
  coapSetPayload (coapInitMessage .ack (sentCode e.status) mid) e.message e.message.length

theorem coapSerializeMessage_errorPacket (mid : UInt16) {e : CoapError}
    (h : isReported e.status) :
    coapSerializeMessage (errorPacket mid e) = some (errorDatagram mid e) := by
  have hping : ¬ sentCode e.status = pingResponse := by
    have hle := validCode_le (sentCode_valid h).2
    unfold pingResponse
    omega
  have hsent : coapSerializeMessage (errorPacket mid e) = some (serialized (errorPacket mid e)) :=
    coapSerializeMessage_bare (Nat.zero_le _) rfl
  have hpacket : errorDatagram mid e = (coapSerializeMessage (errorPacket mid e)).getD [] := by
    unfold sentCode at hping
    simp only [errorDatagram, if_neg hping]
    rfl
  rw [hpacket, hsent, Option.getD_some]

theorem errorDatagram_reports (d : Device Peer Random) (received : CoapPacket) {e : CoapError}
    (h : isReported e.status) :
    ∃ m : WellFormedPdu, m.bytes = errorDatagram received.mid e ∧
      Reports { d with coapErrorMessage := e.message } received m := by
  obtain ⟨hlarge, hvalid⟩ := sentCode_valid h
  have htoken : (errorPacket received.mid e).token.length ≤ coapTokenLen := Nat.zero_le _
  obtain ⟨m, hbytes, hcarries⟩ := coapSerializeMessage_carries htoken hvalid
    (coapSerializeMessage_errorPacket received.mid h)
  have hpayload : m.payload = readBehind e.message [] (min restMaxChunkSize e.message.length) :=
    hcarries.payload
  rw [readBehind_min, readBehind_self] at hpayload
  refine ⟨m, hbytes, ?_⟩
  constructor
  case type => exact deviceType_injective (hcarries.type : deviceType m.type = .ack)
  case code =>
    rw [hcarries.code]
    exact hlarge
  case mid => exact hcarries.mid
  case token => exact hcarries.token
  case options => exact hcarries.options
  case payload => exact hpayload

/-- A response of the device: it has the token of the request, and its identifier when
it is confirmable, or else the next one of the device. -/
structure Responds (d after : Device Peer Random) (request : CoapPacket) (m : WellFormedPdu) :
    Prop where
  asked : isRequest request = true
  type : m.type = if request.type = .con then .acknowledgement else .nonConfirmable
  mid : m.mid = if request.type = .con then request.mid else d.currentMid + 1
  next : after.currentMid = if request.type = .con then d.currentMid else d.currentMid + 1
  token : m.token = request.token

theorem prepareResponse_type (message : CoapPacket) (mid : UInt16) :
    (prepareResponse message mid).type = if message.type = .con then .ack else .non := by
  unfold prepareResponse
  split
  · rfl
  · rfl

/-- A response that was prepared for a request and sent. -/
theorem responds_of_keeps {after : Device Peer Random} {request message pkt : CoapPacket}
    {m : WellFormedPdu} (hrequest : isRequest request = true) (hsame : SameHeader request message)
    (hshort : request.token.length ≤ coapTokenLen)
    (hnext : after.currentMid = if message.type = .con then d.currentMid else d.currentMid + 1)
    (hkeeps : KeepsResponse (prepareResponse message (d.currentMid + 1)) pkt)
    (hcarries : Carries m pkt) : Responds d after request m := by
  obtain ⟨-, htoken, hmid, -⟩ := prepareResponse_bare message (d.currentMid + 1)
  refine ⟨hrequest, deviceType_injective ?_, ?_, ?_, ?_⟩
  · rw [hcarries.type, hkeeps.type, prepareResponse_type, hsame.type]
    split
    · rfl
    · rfl
  · rw [hcarries.mid, hkeeps.mid, hmid, hsame.type, hsame.mid]
  · rw [hnext, hsame.type]
  · rw [hcarries.token, hkeeps.token, htoken, hsame.token, List.take_of_length_le hshort]

theorem parseHeader_token_length (memory : Bytes) :
    (parseHeader memory).token.length ≤ coapTokenLen := by
  simp only [parseHeader, List.length_take]
  omega

/-- The controller accepts this datagram, and what it reads answers what was received. -/
def Answered (d after : Device Peer Random) (received : CoapPacket) (reply : Bytes) : Prop :=
  ∃ (m : WellFormedPdu) (v : Validated), validate reply = some v ∧ m.ReadFrom reply v ∧
    (Responds d after received m ∨ Reports after received m)

theorem answered_of_bytes {after : Device Peer Random} {received : CoapPacket} {reply : Bytes}
    {m : WellFormedPdu} (hbytes : m.bytes = reply)
    (h : Responds d after received m ∨ Reports after received m) :
    Answered d after received reply := by
  rw [← hbytes]
  exact ⟨m, _, m.validate_bytes.1, m.readFrom_bytes, h⟩

theorem coapReceive_error {datagram behind : Bytes} {e : CoapError}
    (h : coapParseMessage (datagram ++ behind) datagram.length = .error e) :
    coapReceive P d datagram behind = ({ d with coapErrorMessage := e.message },
      some (errorDatagram (parseHeader (datagram ++ behind)).mid e)) := by
  simp only [coapReceive, h]

/-- The device with the message identifier of the response counted. -/
def counted (d : Device Peer Random) (message : CoapPacket) : Device Peer Random :=
  if message.type = .con then d else { d with currentMid := d.currentMid + 1 }

/-- What the service callback makes of a request. -/
def serve (P : Platform Peer Random) (d : Device Peer Random) (message : CoapPacket) :
    Device Peer Random × Service :=
  invokeService P (counted d message) message (prepareResponse message (d.currentMid + 1))
    (blockOffset message)

theorem serve_currentMid (message : CoapPacket) : (serve P d message).1.currentMid =
    if message.type = .con then d.currentMid else d.currentMid + 1 := by
  rw [serve, invokeService_currentMid, counted]
  split
  · rfl
  · rfl

theorem coapReceive_request {datagram behind : Bytes} {message : CoapPacket}
    (h : coapParseMessage (datagram ++ behind) datagram.length = .ok message)
    (hrequest : isRequest message = true) :
    (∃ sent, finishResponse message (serve P d message).2 = .ok sent ∧
      coapReceive P d datagram behind = ((serve P d message).1, some sent)) ∨
        ∃ e, finishResponse message (serve P d message).2 = .error e ∧
          coapReceive P d datagram behind =
            ({ (serve P d message).1 with coapErrorMessage := e.message },
              some (errorDatagram message.mid e)) := by
  cases hfinish : finishResponse message (serve P d message).2 with
  | ok sent =>
      refine .inl ⟨sent, rfl, ?_⟩
      unfold serve counted at hfinish ⊢
      simp only [coapReceive, h, hrequest, if_true, hfinish]
  | error e =>
      refine .inr ⟨e, rfl, ?_⟩
      unfold serve counted at hfinish ⊢
      simp only [coapReceive, h, hrequest, if_true, hfinish]

/-- A request is answered, with a response or with the reason why there is none. -/
theorem request_answered (hdiscovery : DiscoveryKeeps P) {datagram behind : Bytes}
    {message : CoapPacket}
    (h : coapParseMessage (datagram ++ behind) datagram.length = .ok message)
    (hsame : SameHeader (parseHeader (datagram ++ behind)) message)
    (hrequest : isRequest message = true) :
    ∃ reply, (coapReceive P d datagram behind).2 = some reply ∧
      Answered d (coapReceive P d datagram behind).1 (parseHeader (datagram ++ behind)) reply := by
  have hcode : validCode (prepareResponse message (d.currentMid + 1)).code = true := by
    rw [(prepareResponse_bare message (d.currentMid + 1)).1]
    decide
  have hkeeps : KeepsResponse (prepareResponse message (d.currentMid + 1))
      (serve P d message).2.response :=
    keepsResponse_invokeService hdiscovery _ _ _
  have hyields : Yields _ _ (finishResponse message (serve P d message).2) :=
    finishResponse_yields (prepareResponse_token_length _ _) hcode hkeeps
  rcases coapReceive_request (P := P) (d := d) h hrequest with
    ⟨sent, hfinish, hresult⟩ | ⟨e, hfinish, hresult⟩
  · rw [hfinish] at hyields
    obtain ⟨pkt, hpkt, m, hbytes, hcarries⟩ := hyields
    rw [hresult]
    have hasked : isRequest (parseHeader (datagram ++ behind)) = true := by
      rw [isRequest, hsame.code] at hrequest
      exact hrequest
    exact ⟨sent, rfl, answered_of_bytes hbytes (.inl (responds_of_keeps hasked hsame
      (parseHeader_token_length _) (serve_currentMid message) hpkt hcarries))⟩
  · rw [hfinish] at hyields
    have hreported : isReported e.status := by
      rcases (hyields : e.status = notImplemented ∨ e.status = packetSerializationError) with
        hstatus | hstatus
      · rw [hstatus]
        exact .inl (by decide)
      · rw [hstatus]
        exact .inr (by decide)
    obtain ⟨m, hbytes, hreports⟩ := errorDatagram_reports (serve P d message).1
      (parseHeader (datagram ++ behind)) hreported
    rw [hresult, hsame.mid]
    exact ⟨_, rfl, answered_of_bytes hbytes (.inr hreports)⟩

/-- What the device is silent on: a message that it has parsed and that is neither a
request nor a confirmable message without a code. -/
structure Ignored (r : Received) : Prop where
  parsed : ∃ message,
    coapParseMarked (r.datagram ++ r.behind) r.datagram.length = some (.ok message)
  noRequest : isRequest (parseHeader (r.datagram ++ r.behind)) = false
  noPing : ¬ ((parseHeader (r.datagram ++ r.behind)).type = .con ∧
    (parseHeader (r.datagram ++ r.behind)).code = 0)

/-- Each option that the parser comes to has its bit in the map of options, so that no
`SET_OPTION` writes behind the map. -/
def StaysInMap (r : Received) : Prop :=
  (coapParseMarked (r.datagram ++ r.behind) r.datagram.length).isSome

instance (r : Received) : Decidable (StaysInMap r) :=
  inferInstanceAs (Decidable ((coapParseMarked (r.datagram ++ r.behind)
    r.datagram.length).isSome = true))

end CoapEap.Hateoas
