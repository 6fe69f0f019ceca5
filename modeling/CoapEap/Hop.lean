import CoapEap.Hypermedia
import CoapEap.Device.Duplicates

/-!
EAP messages over the CoAP hop. A POST of the controller carries a request to the
EAP peer, the acknowledgment carries the response back. The two ends cut a long
message in different places, and neither is told that the other did.
-/

namespace CoapEap.Hop

open Library.OptionFormat Cantcoap Mainserver Hateoas

/-- An EAP message: its length field counts its bytes. -/
structure EapMessage where
  bytes : Bytes
  header : 4 ≤ bytes.length
  lengthField : be16At bytes 2 = bytes.length

/-- What becomes of a message that one EAP layer hands over: the bytes that the
other gets, a failure that is seen, or neither. -/
inductive Transfer
  | received (message : Bytes)
  | failed
  | unheard
  deriving DecidableEq, Repr

/-- The other layer gets the message, or the failure is seen. -/
def Transfer.Intact (transfer : Transfer) (m : EapMessage) : Prop :=
  transfer = .received m.bytes ∨ transfer = .failed

/-- The response codes 4.00 and above. -/
def isErrorCode (datagram : Bytes) : Bool := 128 ≤ byteAt datagram 1

/-- The message that the EAP peer finds where it is pointed to. It is not told a
length and has that of the message itself. -/
def messageAt (payloadData : Option Bytes) : Bytes :=
  let memory := payloadData.getD []
  readBehind memory [] (be16At memory 2)

variable {Peer Random : Type}

/-- The way of a POST into the EAP peer. Datagrams that are longer than the buffer
of the IP stack are dropped there. -/
def toDevice (P : Platform Peer Random) (d : Device Peer Random) (ipBuffer : Nat)
    (r : Received) : Transfer :=
  if ipBuffer < r.datagram.length then .failed
  else
    let result := coapReceive P d r.datagram r.behind
    match result.1.fed.drop d.fed.length with
    | payloadData :: _ => .received (messageAt payloadData)
    | [] =>
      match result.2 with
      | none => .failed
      | some reply => if isErrorCode reply then .failed else .unheard

/-- The way of the answer to a POST into the EAP layer of the controller:
`recvfrom`, `validate` and the payload that `process_acknowledgment` hands over.
`memory` is what lies behind the datagram. -/
def toController (P : Platform Peer Random) (d : Device Peer Random) (r : Received)
    (memory : Bytes) : Transfer :=
  match (coapReceive P d r.datagram r.behind).2 with
  | none => .failed
  | some reply =>
    if isErrorCode reply then .failed
    else
      match validate (reply.take (maxBufLen - 1)) with
      | none => .failed
      | some request => .received (acknowledgedEap request.payload memory)

/-- The path that a POST asks for. -/
def requestPath (pdu : Bytes) : Bytes :=
  match ErCoap.coapParseMessage pdu pdu.length with
  | .ok message => message.uriPath.getD []
  | .error _ => []

/-- The response that the EAP peer hands over when it is stepped with a POST: as
many bytes as its header says. -/
def handedOver (P : Platform Peer Random) (d : Device Peer Random) (r : Received) : Bytes :=
  match ErCoap.coapParseMessage (r.datagram ++ r.behind) r.datagram.length with
  | .ok message =>
    let eapRespData := P.eapRespData (P.eapPeerSmStep d.peer (ErCoap.coapGetPayload message).1)
    readBehind eapRespData [] (be16At eapRespData 2)
  | .error _ => []

variable {P : Platform Peer Random} {d : Device Peer Random}

/-- A message is found where its bytes are. -/
theorem messageAt_eq_iff (m : EapMessage) (memory : Bytes) :
    messageAt (some memory) = m.bytes ↔
      ∀ i < m.bytes.length, byteAt memory i = byteAt m.bytes i := by
  have hheader := m.header
  simp only [messageAt, Option.getD_some, readBehind_eq_iff, List.append_nil]
  constructor
  · exact fun h => h.2
  · intro h
    refine ⟨?_, h⟩
    have hfield := m.lengthField
    unfold be16At at hfield ⊢
    rw [h 2 (by omega), h 3 (by omega)]
    exact hfield

/-- The parser writes one zero byte and nothing else. -/
theorem byteAt_zeroed {memory : Bytes} {n : Nat} (hn : n ≤ memory.length) (i : Nat) :
    byteAt (memory.take n ++ 0 :: memory.drop (n + 1)) i =
      if i = n then 0 else byteAt memory i := by
  have hlength : (memory.take n).length = n := List.length_take_of_le hn
  rcases Nat.lt_trichotomy i n with hbefore | rfl | hafter
  · rw [byteAt_append_left (by omega), if_neg (by omega)]
    simp [byteAt, hbefore]
  · rw [byteAt_append_right (by omega), hlength, Nat.sub_self, if_pos rfl]
    rfl
  · obtain ⟨k, rfl⟩ : ∃ k, i = n + 1 + k := ⟨i - (n + 1), by omega⟩
    have hindex : n + 1 + k - n = k + 1 := by omega
    rw [byteAt_append_right (by omega), hlength, hindex, byteAt_cons_succ, if_neg (by omega)]
    simp [byteAt, List.getElem?_drop]

/-- The options of the POSTs set path and query of a packet and nothing else. -/
theorem applyOptions_post {options : List (Nat × Bytes)}
    (hkinds : ∀ o ∈ options, uriOption o ∨ o.1 = optionOscore) (pkt : ErCoap.CoapPacket) :
    ∃ uriPath uriQuery, ErCoap.applyOptions pkt options = .ok { pkt with uriPath, uriQuery } := by
  induction options generalizing pkt with
  | nil => exact ⟨_, _, rfl⟩
  | cons option rest ih =>
    obtain ⟨number, value⟩ := option
    have hrest := fun pkt => ih (fun o ho => hkinds o (List.mem_cons_of_mem _ ho)) pkt
    rcases hkinds _ (List.mem_cons_self ..) with (hpath | hquery) | hoscore
    · have hnumber : number = ErCoap.optionUriPath := hpath
      subst hnumber
      exact hrest _
    · have hnumber : number = ErCoap.optionUriQuery := hquery
      subst hnumber
      exact hrest _
    · have hnumber : number = optionOscore := hoscore
      subst hnumber
      exact hrest pkt

/-- What the device's parser makes of a POST, whatever lies behind it. -/
structure ReadsPost (pdu payload : Bytes) (request : ErCoap.CoapPacket) : Prop where
  parsed : ∀ behind, ErCoap.coapParseMessage (pdu ++ behind) pdu.length =
    .ok (ErCoap.withPayload request payload behind)
  type : request.type = .con
  code : request.code = ErCoap.coapPost
  token : request.token.length ≤ ErCoap.coapTokenLen
  block1 : request.block1 = none
  block2 : request.block2 = none
  payload : request.payload = none

variable {session : Session} {payload pdu : Bytes} {request : ErCoap.CoapPacket}

theorem PostOf.reads (hlocation : ShortLocation session) (hpost : PostOf session payload pdu) :
    ∃ request, ReadsPost pdu payload request := by
  obtain ⟨options, hbuilt, huri⟩ := setURI_post hlocation
  have hread : ∀ options payload, Short 0 options → Ascending 0 options →
      (∀ o ∈ options, uriOption o ∨ o.1 = optionOscore) →
        ∃ request, ReadsPost (post session options payload) payload request := by
    intro options payload hshort hascending hkinds
    obtain ⟨uriPath, uriQuery, happly⟩ := applyOptions_post hkinds
      { type := .con, code := ErCoap.coapPost, mid := session.messageId
        token := le32 session.sessionId }
    let read : ErCoap.CoapPacket :=
      { type := .con, code := ErCoap.coapPost, mid := session.messageId
        token := le32 session.sessionId, uriPath, uriQuery }
    refine ⟨read, ?_, rfl, rfl, Nat.le_of_ble_eq_true rfl, rfl, rfl, rfl⟩
    intro behind
    rw [post_eq_datagram]
    exact ErCoap.coapParseMessage_datagram (by decide) (token_length session)
      (Nat.le_of_ble_eq_true rfl) hshort hascending happly
  cases hpost with
  | first packet =>
    rw [firstPost_eq hbuilt]
    exact hread _ _ hbuilt.short hbuilt.ascending fun o ho => .inl (huri o ho)
  | next =>
    rw [eapPost_eq hbuilt]
    exact hread _ _ hbuilt.short hbuilt.ascending fun o ho => .inl (huri o ho)
  | final =>
    obtain ⟨hpdu, hshort, hascending⟩ := finalPost_eq hbuilt huri
    rw [hpdu]
    refine hread _ _ hshort hascending ?_
    intro o ho
    rcases List.mem_cons.mp ho with rfl | hmem
    · exact .inr rfl
    · exact .inl (huri o hmem)

namespace ReadsPost

theorem requestPath (h : ReadsPost pdu payload request) :
    requestPath pdu = request.uriPath.getD [] := by
  have hparsed := h.parsed []
  rw [List.append_nil] at hparsed
  rw [Hop.requestPath, hparsed, ErCoap.withPayload_eq]

variable (behind : Bytes)

/-- The message that the handler gets. -/
theorem message (h : ReadsPost pdu payload request) :
    (ErCoap.withPayload request payload behind).type = .con ∧
      (ErCoap.withPayload request payload behind).code = ErCoap.coapPost ∧
      (ErCoap.withPayload request payload behind).token = request.token ∧
      (ErCoap.withPayload request payload behind).block1 = none ∧
      (ErCoap.withPayload request payload behind).block2 = none ∧
      (ErCoap.withPayload request payload behind).uriPath.getD [] = Hop.requestPath pdu := by
  rw [h.requestPath, ErCoap.withPayload_eq]
  exact ⟨h.type, h.code, rfl, h.block1, h.block2, rfl⟩

/-- A POST to the name of the resource is served. -/
theorem served (h : ReadsPost pdu payload request) (hpath : Hop.requestPath pdu = d.url) :
    Served P d (ErCoap.withPayload request payload behind) (coapReceive P d pdu behind) := by
  obtain ⟨-, hcode, -, -, -, huri⟩ := h.message behind
  exact coapReceive_served (h.parsed behind) hcode (huri.trans hpath)

/-- A POST elsewhere is refused with an error code. -/
theorem refused (h : ReadsPost pdu payload request) (hpath : Hop.requestPath pdu ≠ d.url) :
    (coapReceive P d pdu behind).1.fed = d.fed ∧
      ∃ reply, (coapReceive P d pdu behind).2 = some reply ∧ isErrorCode reply = true := by
  obtain ⟨-, hcode, -, -, -, huri⟩ := h.message behind
  have hother : (ErCoap.withPayload request payload behind).uriPath.getD [] ≠ d.url := by
    rw [huri]
    exact hpath
  obtain ⟨hsame, reply, hreply, hstatus⟩ :=
    coapReceive_refused (P := P) (h.parsed behind) hcode hother
  refine ⟨hsame.fed, reply, hreply, ?_⟩
  rcases hstatus with hstatus | hstatus
  · rw [isErrorCode, hstatus]
    decide
  · rw [isErrorCode, hstatus]
    decide

/-- A keyed device does not step its peer, and answers with success. -/
theorem keyed (h : ReadsPost pdu payload request) (hpath : Hop.requestPath pdu = d.url)
    (hkey : P.eapKeyAvailable d.peer = true) :
    (coapReceive P d pdu behind).1.fed = d.fed ∧
      ∃ reply, (coapReceive P d pdu behind).2 = some reply ∧ isErrorCode reply = false := by
  have hserved := h.served (P := P) behind hpath
  obtain ⟨-, -, -, hblock1, hblock2, -⟩ := h.message behind
  have happlication := hserved.application.fed
  have hresponse := hserved.response
  rw [hateoasHandler_keyed hkey] at happlication hresponse
  refine ⟨happlication.trans (renameResource_keeps P d).2.1, _, hresponse, ?_⟩
  generalize ErCoap.withPayload request payload behind = message at hblock1 hblock2 ⊢
  obtain ⟨hcode, -, -, -, -, hnone⟩ := prepareResponse_bare message (d.currentMid + 1)
  have hserialized := coapSerializeMessage_bare
    (prepareResponse_token_length message (d.currentMid + 1)) hnone
  have hfinish : finishResponse message
      ⟨prepareResponse message (d.currentMid + 1), blockOffset message, true⟩ =
        .ok (ErCoap.serialized (prepareResponse message (d.currentMid + 1))) := by
    simp [finishResponse, applyBlockwise, hblock1, hblock2, blockOffset, hserialized]
  rw [hfinish, answer, isErrorCode, serialized_code, hcode]
  decide

/-- A device without its key steps its peer with the payload. -/
theorem stepped (h : ReadsPost pdu payload request) (hpath : Hop.requestPath pdu = d.url)
    (hkey : P.eapKeyAvailable d.peer = false) :
    (coapReceive P d pdu behind).1.fed =
      d.fed ++ [(ErCoap.coapGetPayload (ErCoap.withPayload request payload behind)).1] := by
  have hserved := h.served (P := P) behind hpath
  rw [hserved.application.fed, (hateoasHandler_unkeyed hkey).1]

/-- The memory that the peer is pointed to. -/
theorem pointer (_ : ReadsPost pdu payload request) (hpayload : payload ≠ []) :
    (ErCoap.coapGetPayload (ErCoap.withPayload request payload behind)).1 =
      some ((payload ++ behind).take (min 64 payload.length) ++
        0 :: (payload ++ behind).drop (min 64 payload.length + 1)) := by
  simp [ErCoap.withPayload, hpayload, ErCoap.setReceivedPayload, ErCoap.coapGetPayload,
    ErCoap.restMaxChunkSize]

end ReadsPost

/-- What becomes of a message in a POST. -/
theorem toDevice_intact_iff (h : ReadsPost pdu payload request) (hpayload : payload ≠ [])
    (ipBuffer : Nat) (behind : Bytes) (m : EapMessage) :
    (toDevice P d ipBuffer ⟨pdu, behind⟩).Intact m ↔
      ipBuffer < pdu.length ∨ requestPath pdu ≠ d.url ∨
        (P.eapKeyAvailable d.peer = false ∧ ∀ i < m.bytes.length,
          (if i = min 64 payload.length then 0 else byteAt (payload ++ behind) i) =
            byteAt m.bytes i) := by
  unfold toDevice Transfer.Intact
  by_cases hlong : ipBuffer < pdu.length
  · simp [hlong]
  by_cases hpath : requestPath pdu = d.url
  · cases hkey : P.eapKeyAvailable d.peer with
    | true =>
      obtain ⟨hfed, reply, hreply, herror⟩ := h.keyed behind hpath hkey
      simp [hlong, hpath, hfed, hreply, herror]
    | false =>
      have hfed := h.stepped behind hpath hkey
      have hread := messageAt_eq_iff m ((payload ++ behind).take (min 64 payload.length) ++
        0 :: (payload ++ behind).drop (min 64 payload.length + 1))
      have hfits : min 64 payload.length ≤ (payload ++ behind).length := by
        rw [List.length_append]
        omega
      simp only [byteAt_zeroed hfits] at hread
      simp [hlong, hpath, hfed, h.pointer behind hpayload, hread]
  · obtain ⟨hfed, reply, hreply, herror⟩ := h.refused (P := P) behind hpath
    simp [hlong, hpath, hfed, hreply, herror]

/-- The message fits the chunk of the device, or the byte that is lost was zero. -/
def fitsChunk (m : EapMessage) : Bool := m.bytes.length ≤ 64 || byteAt m.bytes 64 = 0

/-- A request arrives as it is, or fails to be seen. -/
def CarriesRequest (P : Platform Peer Random) (d : Device Peer Random) (ipBuffer : Nat)
    (pdu : Bytes) (m : EapMessage) : Prop :=
  ∀ behind, (toDevice P d ipBuffer ⟨pdu, behind⟩).Intact m

theorem carriesRequest_iff (h : ReadsPost pdu payload request) (hpayload : payload ≠ [])
    (ipBuffer : Nat) (m : EapMessage) :
    CarriesRequest P d ipBuffer pdu m ↔
      ipBuffer < pdu.length ∨ requestPath pdu ≠ d.url ∨
        (P.eapKeyAvailable d.peer = false ∧ ∀ behind, ∀ i < m.bytes.length,
          (if i = min 64 payload.length then 0 else byteAt (payload ++ behind) i) =
            byteAt m.bytes i) := by
  simp only [CarriesRequest, toDevice_intact_iff h hpayload]
  constructor
  · intro hall
    by_cases hlong : ipBuffer < pdu.length
    · exact .inl hlong
    by_cases hpath : requestPath pdu = d.url
    · simp only [hlong, hpath, ne_eq, not_true_eq_false, false_or] at hall
      exact .inr (.inr ⟨(hall []).1, fun behind => (hall behind).2⟩)
    · exact .inr (.inl hpath)
  · rintro (hlong | hpath | ⟨hkey, hbytes⟩) behind
    · exact .inl hlong
    · exact .inr (.inl hpath)
    · exact .inr (.inr ⟨hkey, hbytes behind⟩)

/-- A payload that starts with the message. -/
theorem zeroed_front_iff (m : EapMessage) (tail : Bytes) :
    (∀ behind, ∀ i < m.bytes.length,
      (if i = min 64 (m.bytes ++ tail).length then 0
        else byteAt ((m.bytes ++ tail) ++ behind) i) = byteAt m.bytes i) ↔ fitsChunk m = true := by
  have hfront : ∀ behind, ∀ i < m.bytes.length,
      byteAt ((m.bytes ++ tail) ++ behind) i = byteAt m.bytes i := by
    intro behind i hi
    rw [List.append_assoc, byteAt_append_left hi]
  simp only [fitsChunk, Bool.or_eq_true, decide_eq_true_eq, List.length_append]
  constructor
  · intro hall
    by_cases hshort : m.bytes.length ≤ 64
    · exact .inl hshort
    · have hlost := hall [] 64 (by omega)
      rw [if_pos (by omega)] at hlost
      exact .inr hlost.symm
  · intro hfits behind i hi
    split
    · rename_i hzeroed
      rcases hfits with hshort | hlost
      · omega
      · by_cases hlast : i = 64
        · rw [hlast]
          exact hlost.symm
        · omega
    · exact hfront behind i hi

/-- The payload of the first POST, whose length went through a byte. -/
theorem zeroed_first_iff (m : EapMessage) :
    (∀ behind, ∀ i < m.bytes.length,
      (if i = min 64 (m.bytes.take (m.bytes.length % 256) ++ cborCryptosuite).length then 0
        else byteAt ((m.bytes.take (m.bytes.length % 256) ++ cborCryptosuite) ++ behind) i) =
          byteAt m.bytes i) ↔ m.bytes.length < 256 ∧ fitsChunk m = true := by
  by_cases hshort : m.bytes.length < 256
  · have hwhole : m.bytes.take (m.bytes.length % 256) = m.bytes := by
      rw [Nat.mod_eq_of_lt hshort, List.take_length]
    rw [hwhole, zeroed_front_iff m cborCryptosuite]
    simp [hshort]
  · simp only [hshort, false_and, iff_false]
    intro hall
    -- the last byte is read from behind the datagram
    have hlength : (m.bytes.take (m.bytes.length % 256) ++ cborCryptosuite).length =
        m.bytes.length % 256 + 4 := by
      rw [List.length_append, List.length_take_of_le (Nat.mod_le _ _)]
      rfl
    have hlast : ∀ behind, byteAt behind (m.bytes.length - 1 - (m.bytes.length % 256 + 4)) =
        byteAt m.bytes (m.bytes.length - 1) := by
      intro behind
      have hbyte := hall behind (m.bytes.length - 1) (by omega)
      rw [if_neg (by omega), byteAt_append_right (by omega), hlength] at hbyte
      exact hbyte
    have hzero := hlast []
    have hone := hlast (List.replicate (m.bytes.length - 1 - (m.bytes.length % 256 + 4)) 0 ++ [1])
    rw [byteAt_append_right (by simp)] at hone
    rw [← hzero] at hone
    simp [byteAt] at hone

/-- The name of the resource is a plain segment that is not long. -/
structure ShortName (url : Bytes) : Prop where
  plain : PlainSegment url
  short : url.length ≤ initialUrl.length

theorem shortName_initialUrl : ShortName initialUrl where
  plain := ⟨by decide, by decide, by decide +kernel⟩
  short := Nat.le_refl _

theorem randomLetters_plain (count : Nat) (random : Random) :
    ∀ c ∈ (randomLetters P count random).1, c ≠ 0x2F ∧ c ≠ 0x3F ∧ c ≠ 0x26 ∧ c ≠ 0 := by
  induction count generalizing random with
  | zero => simp [randomLetters]
  | succ count ih =>
    intro c hc
    simp only [randomLetters, List.mem_cons] at hc
    rcases hc with rfl | hmem
    · have hletter : ∀ n < 26, UInt8.ofNat (0x41 + n) ≠ 0x2F ∧ UInt8.ofNat (0x41 + n) ≠ 0x3F ∧
          UInt8.ofNat (0x41 + n) ≠ 0x26 ∧ UInt8.ofNat (0x41 + n) ≠ 0 := by
        decide
      exact hletter _ (Nat.mod_lt _ (by decide))
    · exact ih _ c hmem

theorem shortName_renamed {peer : Peer} {random : Random} {mid : UInt16}
    (hd : Hateoas.Reachable P (initialDevice peer random mid) d) :
    ShortName (renameResource P d).url := by
  cases hcalled : d.skipFirstHandlerCall with
  | false =>
    have hsame : (renameResource P d).url = d.url := by
      rw [renameResource_first hcalled, Device.url, Device.url]
    rw [hsame, url_before_first_call hd hcalled]
    exact shortName_initialUrl
  | true =>
    rw [renameResource_url hcalled]
    have hlength : (drawnLetters P d).length = 5 := randomLetters_length 5 d.random
    refine ⟨⟨?_, ?_, randomLetters_plain 5 d.random⟩, ?_⟩
    · intro hempty
      rw [hempty] at hlength
      simp at hlength
    · omega
    · rw [hlength]
      decide

theorem setCreated_eq (response : ErCoap.CoapPacket) {url : Bytes} (h : PlainSegment url) :
    setCreated response url = { response with
      code := ErCoap.created, contentType := some ErCoap.textPlain, locationPath := some url } := by
  obtain ⟨c, rest, rfl, hslash⟩ := h.eq_cons
  have hfront : (c :: rest).dropWhile (· = 0x2F) = c :: rest := by
    simp [hslash]
  have hquery := h.query_not_mem
  simp only [setCreated, ErCoap.coapSetHeaderLocationPath, hfront, hquery, if_false]
  rfl

/-- The memory that the payload of a response is taken from when it is serialised:
that of the message, or for the first response what is left of `tempPayload`. -/
def responseMemory (P : Platform Peer Random) (d : Device Peer Random) (m : EapMessage) :
    Bytes :=
  if d.cipherSuitesSent then m.bytes else P.deadStack (m.bytes ++ cborcryptosuite)

/-- The bytes of a response that are sent: the first time there are two more for the
suites, and never more than a chunk. -/
def sentPayload (P : Platform Peer Random) (d : Device Peer Random) (m : EapMessage) : Bytes :=
  let length := m.bytes.length + if d.cipherSuitesSent then 0 else cborcryptosuite.length
  readBehind (responseMemory P d m) [] (min ErCoap.restMaxChunkSize length)

theorem sentPayload_length_le (P : Platform Peer Random) (d : Device Peer Random)
    (m : EapMessage) : (sentPayload P d m).length ≤ ErCoap.restMaxChunkSize := by
  rw [sentPayload, readBehind_length]
  exact Nat.min_le_left _ _

/-- The response that the handler fills. -/
theorem hateoasHandler_response {message : ErCoap.CoapPacket} (response : ErCoap.CoapPacket)
    {data : Bytes} {m : EapMessage} (hkey : P.eapKeyAvailable d.peer = false)
    (hname : PlainSegment (renameResource P d).url)
    (hdata : P.eapRespData (P.eapPeerSmStep d.peer (ErCoap.coapGetPayload message).1) = data)
    (hm : readBehind data [] (be16At data 2) = m.bytes) :
    ∃ memory length, (hateoasHandler P d message response).2 = { response with
        code := ErCoap.created, contentType := some ErCoap.textPlain
        locationPath := some (renameResource P d).url, payload := some memory
        payloadLen := length } ∧
      readBehind memory [] length = sentPayload P d m := by
  obtain ⟨hpeer, -, hsuites⟩ := renameResource_keeps P d
  have hlength : be16At data 2 = m.bytes.length := by
    rw [← hm, readBehind_length]
  cases hsent : d.cipherSuitesSent with
  | true =>
    have hafter : (renameResource P d).cipherSuitesSent = true := hsuites.trans hsent
    refine ⟨data, min ErCoap.restMaxChunkSize (be16At data 2), ?_, ?_⟩
    · simp only [hateoasHandler, hpeer, hkey, hafter, hdata, Bool.false_eq_true, if_false, if_true,
        Device.url] at hname ⊢
      rw [setCreated_eq _ hname]
      rfl
    · simp only [sentPayload, responseMemory, hsent, if_true, Nat.add_zero, readBehind_min,
        readBehind_self, hm]
  | false =>
    have hafter : (renameResource P d).cipherSuitesSent = false := hsuites.trans hsent
    refine ⟨P.deadStack (m.bytes ++ cborcryptosuite),
      min ErCoap.restMaxChunkSize (be16At data 2 + 2), ?_, ?_⟩
    · simp only [hateoasHandler, hpeer, hkey, hafter, hdata, hm, Bool.false_eq_true, if_false,
        Device.url] at hname ⊢
      rw [setCreated_eq _ hname]
      rfl
    · simp only [sentPayload, responseMemory, hsent, Bool.false_eq_true, if_false, hlength]
      rfl

/-- The datagram of that response: header and options leave room for a chunk in
what `recvfrom` takes. -/
theorem response_validated {response : ErCoap.CoapPacket} {url chunk : Bytes}
    (hname : ShortName url) (htoken : response.token.length ≤ ErCoap.coapTokenLen)
    (hoptions : ErCoap.setOptions response =
      [(ErCoap.optionLocationPath, url), (ErCoap.optionContentType, [])])
    (hcode : response.code = ErCoap.created)
    (hchunk : readBehind (response.payload.getD []) [] response.payloadLen = chunk)
    (hshort : chunk.length ≤ ErCoap.restMaxChunkSize) :
    ErCoap.coapSerializeMessage response = some (ErCoap.serialized response) ∧
      isErrorCode (ErCoap.serialized response) = false ∧
      validate ((ErCoap.serialized response).take (maxBufLen - 1)) = some ⟨2, chunk⟩ := by
  have hurl : url.length ≤ 14 := hname.short
  have hencoded : (encodeOptions 0 [(ErCoap.optionLocationPath, url),
      (ErCoap.optionContentType, [])]).length ≤ 17 := by
    have hextension : (extension url.length).length ≤ 1 := by
      rw [← computeExtraBytes_eq (by omega)]
      unfold computeExtraBytes
      split
      · omega
      · rw [if_pos (by omega)]
    have hfirst : extension ErCoap.optionLocationPath = [] := rfl
    have hsecond : extension (ErCoap.optionContentType - ErCoap.optionLocationPath) = [] := rfl
    have hempty : extension 0 = [] := rfl
    simp only [encodeOptions, encodeOption, Nat.sub_zero, hfirst, hsecond, hempty, List.length_nil,
      List.length_append, List.length_cons]
    omega
  have hoptionsShort : Short 0 [(ErCoap.optionLocationPath, url),
      (ErCoap.optionContentType, [])] :=
    ⟨by decide, by omega, by decide, by decide, trivial⟩
  obtain ⟨hversion, hlow⟩ := ErCoap.first_byte response.type htoken
  have hserialized : ErCoap.serialized response = datagram _ _ _ _ _ _ :=
    ErCoap.serialized_eq_datagram response htoken
  rw [hoptions, hcode, hchunk] at hserialized
  have hmarked : (marked chunk).length ≤ 65 := by
    unfold marked
    split
    · simp
    · rw [List.length_cons]
      exact Nat.succ_le_succ hshort
  have hlength : (ErCoap.serialized response).length ≤ maxBufLen - 1 := by
    rw [hserialized, datagram_length]
    unfold ErCoap.coapTokenLen at htoken
    unfold maxBufLen
    omega
  refine ⟨?_, ?_, ?_⟩
  · have hheader : (ErCoap.serializedHeader response).length ≤ ErCoap.coapMaxHeaderSize := by
      simp only [ErCoap.serializedHeader, hoptions, ErCoap.serializeOptions_eq, be16,
        List.length_append, List.length_cons, List.length_nil]
      unfold ErCoap.coapTokenLen at htoken
      unfold ErCoap.coapMaxHeaderSize
      omega
    simp [ErCoap.coapSerializeMessage, hheader]
  · rw [isErrorCode, serialized_code, hcode]
    decide
  · rw [List.take_of_length_le hlength, hserialized,
      validate_datagram hversion hlow htoken hoptionsShort]
    rfl

/-- What the controller takes out of the answer to a POST. -/
theorem toController_eq (h : ReadsPost pdu payload request) {peer : Peer} {random : Random}
    {mid : UInt16} (hd : Hateoas.Reachable P (initialDevice peer random mid) d)
    (hpath : requestPath pdu = d.url) (hkey : P.eapKeyAvailable d.peer = false)
    (behind : Bytes) {m : EapMessage} (hm : handedOver P d ⟨pdu, behind⟩ = m.bytes)
    (memory : Bytes) : toController P d ⟨pdu, behind⟩ memory =
      .received (acknowledgedEap (sentPayload P d m) memory) := by
  have hserved := h.served (P := P) behind hpath
  obtain ⟨htype, -, -, hblock1, hblock2, -⟩ := h.message behind
  have hparsed := h.parsed behind
  simp only [handedOver, hparsed] at hm
  have hname := shortName_renamed hd
  have hresponse := hserved.response
  generalize ErCoap.withPayload request payload behind = message at *
  obtain ⟨payload, length, hfilled, hchunk⟩ :=
    hateoasHandler_response (prepareResponse message (d.currentMid + 1)) hkey hname.plain rfl hm
  have hprepared : prepareResponse message (d.currentMid + 1) =
      { type := .ack, code := ErCoap.content, mid := message.mid
        token := message.token.take ErCoap.coapTokenLen } := by
    simp [prepareResponse, htype, ErCoap.coapInitMessage, ErCoap.coapSetHeaderToken]
  let response : ErCoap.CoapPacket :=
    { type := .ack, code := ErCoap.created, mid := message.mid
      token := message.token.take ErCoap.coapTokenLen, contentType := some ErCoap.textPlain
      locationPath := some (renameResource P d).url, payload := some payload
      payloadLen := length }
  have hfilled : (hateoasHandler P d message (prepareResponse message (d.currentMid + 1))).2 =
      response := by
    rw [hfilled, hprepared]
  have hoptions : ErCoap.setOptions response =
      [(ErCoap.optionLocationPath, (renameResource P d).url), (ErCoap.optionContentType, [])] := by
    have hparts := ErCoap.splitParts_segments (List.cons_ne_nil _ [])
      (fun s hs => by rw [List.mem_singleton.mp hs]; exact hname.plain)
    rw [List.intercalate_singleton] at hparts
    simp only [response, ErCoap.setOptions, ErCoap.stringOptions, hparts]
    rfl
  obtain ⟨hserialized, hsuccess, hvalid⟩ := response_validated hname
    (List.length_take_le ErCoap.coapTokenLen message.token) hoptions rfl hchunk
      (sentPayload_length_le P d m)
  have hfinish : finishResponse message ⟨response, blockOffset message, true⟩ =
      .ok (ErCoap.serialized response) := by
    have happly : applyBlockwise message response (blockOffset message) = .ok response := by
      simp [applyBlockwise, hblock1, hblock2, blockOffset]
    simp only [finishResponse, happly, if_true, hserialized]
  rw [hfilled, hfinish] at hresponse
  simp only [toController, hresponse, answer, hsuccess, hvalid, Bool.false_eq_true, if_false]

/-- The message fits a chunk, or misses it by one byte that was zero. -/
def fitsAcknowledgment (m : EapMessage) : Bool :=
  m.bytes.length ≤ 64 || (m.bytes.length = 65 && byteAt m.bytes 64 = 0)

/-- The memory that a response is sent from holds the front of the message. -/
def keepsMessage (P : Platform Peer Random) (d : Device Peer Random) (m : EapMessage) : Bool :=
  decide (∀ i < min 64 m.bytes.length, byteAt (responseMemory P d m) i = byteAt m.bytes i)

/-- From the second response on it always does. -/
theorem keepsMessage_of_sent (m : EapMessage) (h : d.cipherSuitesSent = true) :
    keepsMessage P d m = true := by
  simp [keepsMessage, responseMemory, h]

/-- What `process_acknowledgment` hands over of a payload that is a chunk at most. -/
theorem acknowledgedEap_iff (m : EapMessage) {chunk : Bytes} {extra : Nat}
    (hchunk : chunk.length = min 64 (m.bytes.length + extra)) :
    (∀ memory, acknowledgedEap chunk memory = m.bytes) ↔
      fitsAcknowledgment m = true ∧
        ∀ i < min 64 m.bytes.length, byteAt chunk i = byteAt m.bytes i := by
  have hheader := m.header
  have hfield : 256 * byteAt m.bytes 2 + byteAt m.bytes 3 = m.bytes.length := m.lengthField
  have hbound := byteAt_lt m.bytes 3
  have hinside : ∀ behind, ∀ i < min 64 m.bytes.length,
      byteAt (chunk ++ behind) i = byteAt chunk i := by
    intro behind i hi
    exact byteAt_append_left (by omega)
  have hbehind : 64 < m.bytes.length → ∀ behind i, 64 ≤ i →
      byteAt (chunk ++ behind) i = byteAt behind (i - 64) := by
    intro hlong behind i hi
    have hcut : chunk.length = 64 := by omega
    rw [byteAt_append_right (by omega), hcut]
  simp only [acknowledgedEap, readBehind_eq_iff, fitsAcknowledgment, Bool.or_eq_true,
    Bool.and_eq_true, decide_eq_true_eq]
  constructor
  · intro hall
    refine ⟨?_, ?_⟩
    · by_cases hshort : m.bytes.length ≤ 64
      · exact .inl hshort
      have hlong : 64 < m.bytes.length := by omega
      have hlast : byteAt m.bytes 64 = 0 := by
        rw [← (hall []).2 64 hlong, hbehind hlong _ _ (Nat.le_refl 64)]
        rfl
      by_cases hone : m.bytes.length = 65
      · exact .inr ⟨hone, hlast⟩
      · -- the byte behind is whatever the memory holds
        have hzero := (hall [0]).2 65 (by omega)
        have hnonzero := (hall [1]).2 65 (by omega)
        rw [hbehind hlong _ _ (by omega)] at hzero hnonzero
        rw [← hzero] at hnonzero
        simp [byteAt] at hnonzero
    · intro i hi
      rw [← hinside [0] i hi]
      exact (hall []).2 i (by omega)
  · rintro ⟨hfits, hfront⟩ memory
    have hlength : m.bytes.length < 256 := by omega
    rw [hfront 2 (by omega), hfront 3 (by omega)]
    refine ⟨by omega, ?_⟩
    intro i hi
    by_cases hchunk : i < 64
    · rw [hinside _ i (by omega)]
      exact hfront i (by omega)
    · rcases hfits with hshort | ⟨hlong, hlast⟩
      · omega
      · obtain rfl : i = 64 := by omega
        rw [hbehind (by omega) _ _ (Nat.le_refl 64), hlast]
        rfl

/-- A response that is sent arrives exactly when it fits and the memory that it is sent
from holds it. -/
theorem sentPayload_acknowledged_iff (P : Platform Peer Random) (d : Device Peer Random)
    (m : EapMessage) : (∀ memory, acknowledgedEap (sentPayload P d m) memory = m.bytes) ↔
      fitsAcknowledgment m = true ∧ keepsMessage P d m = true := by
  let extra := if d.cipherSuitesSent then 0 else cborcryptosuite.length
  have hlength : (sentPayload P d m).length = min 64 (m.bytes.length + extra) :=
    readBehind_length _ _ _
  rw [acknowledgedEap_iff m hlength, keepsMessage, decide_eq_true_eq]
  have hread : ∀ i < min 64 m.bytes.length,
      byteAt (sentPayload P d m) i = byteAt (responseMemory P d m) i := by
    intro i hi
    have hbefore : i < min ErCoap.restMaxChunkSize (m.bytes.length + extra) := by
      unfold ErCoap.restMaxChunkSize
      omega
    rw [sentPayload, byteAt_readBehind hbefore, List.append_nil]
  constructor
  · rintro ⟨hfits, hfront⟩
    exact ⟨hfits, fun i hi => (hread i hi).symm.trans (hfront i hi)⟩
  · rintro ⟨hfits, hkept⟩
    exact ⟨hfits, fun i hi => (hread i hi).trans (hkept i hi)⟩

/-- A response arrives as it is, or fails to be seen. -/
def CarriesResponse (P : Platform Peer Random) (d : Device Peer Random) (r : Received)
    (m : EapMessage) : Prop :=
  ∀ memory, (toController P d r memory).Intact m

/-- The messages that the hop carries, in both directions: a request in a POST of
the controller, and the response that the device hands over to it. -/
theorem hop_carries_message_iff {peer : Peer} {random : Random} {mid : UInt16}
    (hd : Hateoas.Reachable P (initialDevice peer random mid) d)
    (session : Session) (hlocation : ShortLocation session) (ipBuffer : Nat) (m : EapMessage) :
    (CarriesRequest P d ipBuffer (firstPost session m.bytes) m ↔
      ipBuffer < (firstPost session m.bytes).length ∨
        requestPath (firstPost session m.bytes) ≠ d.url ∨
        (P.eapKeyAvailable d.peer = false ∧ m.bytes.length < 256 ∧ fitsChunk m = true)) ∧
    (CarriesRequest P d ipBuffer (eapPost session m.bytes) m ↔
      ipBuffer < (eapPost session m.bytes).length ∨
        requestPath (eapPost session m.bytes) ≠ d.url ∨
        (P.eapKeyAvailable d.peer = false ∧ fitsChunk m = true)) ∧
    ∀ payload pdu behind, PostOf session payload pdu → requestPath pdu = d.url →
      P.eapKeyAvailable d.peer = false → handedOver P d ⟨pdu, behind⟩ = m.bytes →
        (CarriesResponse P d ⟨pdu, behind⟩ m ↔
          fitsAcknowledgment m = true ∧ keepsMessage P d m = true) := by
  have hheader := m.header
  refine ⟨?_, ?_, ?_⟩
  · obtain ⟨request, hread⟩ := PostOf.reads hlocation (.first m.bytes)
    have hpayload : m.bytes.take (m.bytes.length % 256) ++ cborCryptosuite ≠ [] := by
      simp [cborCryptosuite]
    rw [carriesRequest_iff hread hpayload, zeroed_first_iff]
  · obtain ⟨request, hread⟩ := PostOf.reads hlocation (.next m.bytes)
    have hpayload : m.bytes ≠ [] := by
      intro hempty
      rw [hempty] at hheader
      simp at hheader
    have hwhole := zeroed_front_iff m []
    rw [List.append_nil] at hwhole
    rw [carriesRequest_iff hread hpayload, hwhole]
  · intro payload pdu behind hpost hpath hkey hm
    obtain ⟨request, hread⟩ := PostOf.reads hlocation hpost
    rw [← sentPayload_acknowledged_iff]
    simp only [CarriesResponse, Transfer.Intact, toController_eq hread hd hpath hkey behind hm]
    simp

theorem shortLocation_locatedSession : ShortLocation locatedSession := by
  unfold ShortLocation
  decide +kernel

/-- The response with the identity `a`. -/
def shortMessage : EapMessage where
  bytes := [2, 1, 0, 6, 1, 0x61]
  header := by decide
  lengthField := by decide

/-- The device when it has sent its first response. -/
def answeredDevice : Device Nat Unit :=
  (coapReceive steadyPlatform freshDevice firstPostDatagram []).1

theorem answeredDevice_reachable :
    Hateoas.Reachable steadyPlatform freshDevice answeredDevice := by
  have hrun : Library.Runs.run (receive steadyPlatform) freshDevice [⟨firstPostDatagram, []⟩] =
      some answeredDevice := rfl
  exact Library.Runs.reachable_of_run hrun

theorem short_message_carried :
    CarriesRequest steadyPlatform answeredDevice 1280 (eapPost locatedSession shortMessage.bytes)
        shortMessage ∧
      CarriesResponse steadyPlatform answeredDevice
        ⟨eapPost locatedSession shortMessage.bytes, []⟩ shortMessage := by
  obtain ⟨-, hrequest, hresponse⟩ := hop_carries_message_iff answeredDevice_reachable
    locatedSession shortLocation_locatedSession 1280 shortMessage
  exact ⟨hrequest.mpr (.inr (.inr ⟨by decide +kernel, by decide⟩)),
    (hresponse _ _ [] (.next _) (by decide +kernel) (by decide +kernel)
      (by decide +kernel)).mpr ⟨by decide, keepsMessage_of_sent _ (by decide +kernel)⟩⟩

/-- The same response is not carried as the first one, when the stack is overwritten. -/
example : keepsMessage steadyPlatform freshDevice shortMessage = false := by decide

/-- A request of one method in 66 bytes. -/
def longMessage : EapMessage where
  bytes := [1, 2, 0, 66, 13] ++ List.replicate 61 0x41
  header := by decide
  lengthField := by decide

theorem long_message_not_carried :
    ¬ ∀ (Peer Random : Type) (P : Platform Peer Random) (peer : Peer) (random : Random)
        (mid : UInt16) (d : Device Peer Random) (session : Session) (ipBuffer : Nat)
        (m : EapMessage),
      Hateoas.Reachable P (initialDevice peer random mid) d → ShortLocation session →
      CarriesRequest P d ipBuffer (firstPost session m.bytes) m ∧
        CarriesRequest P d ipBuffer (eapPost session m.bytes) m ∧
        ∀ payload pdu behind, PostOf session payload pdu → requestPath pdu = d.url →
          P.eapKeyAvailable d.peer = false → handedOver P d ⟨pdu, behind⟩ = m.bytes →
            CarriesResponse P d ⟨pdu, behind⟩ m := by
  intro hstated
  obtain ⟨-, hrequest, -⟩ := hstated Nat Unit steadyPlatform 0 () 7 freshDevice locatedSession 1280
    longMessage .start shortLocation_locatedSession
  have harrives : toDevice steadyPlatform freshDevice 1280
      ⟨eapPost locatedSession longMessage.bytes, []⟩ =
        .received (longMessage.bytes.set 64 0) := by
    decide +kernel
  have hother : longMessage.bytes.set 64 0 ≠ longMessage.bytes := by decide +kernel
  rcases hrequest [] with hintact | hfailed
  · rw [harrives] at hintact
    exact hother (Transfer.received.inj hintact)
  · rw [harrives] at hfailed
    exact Transfer.noConfusion hfailed

end CoapEap.Hop
