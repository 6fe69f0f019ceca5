import CoapEap.Device.Codec
import CoapEap.Device.Hateoas

/-!
What the device answers. The handler renames its resource, steps the EAP peer
and names the new location; the engine turns what the handler leaves into a
datagram or an error message, whose code tells a served request from a refused
one.
-/

namespace CoapEap.Hateoas

open ErCoap Library.OptionFormat

variable {Peer Random : Type} {P : Platform Peer Random} {d d' : Device Peer Random}

/-- What the handler keeps between its calls, but for the generator. -/
structure SameApplication (d d' : Device Peer Random) : Prop where
  peer : d'.peer = d.peer
  fed : d'.fed = d.fed
  urlString : d'.urlString = d.urlString
  skipFirstHandlerCall : d'.skipFirstHandlerCall = d.skipFirstHandlerCall
  cipherSuitesSent : d'.cipherSuitesSent = d.cipherSuitesSent

theorem SameApplication.url (h : SameApplication d d') : d'.url = d.url := by
  rw [Device.url, h.urlString, Device.url]

theorem SameApplication.symm (h : SameApplication d d') : SameApplication d' d where
  peer := h.peer.symm
  fed := h.fed.symm
  urlString := h.urlString.symm
  skipFirstHandlerCall := h.skipFirstHandlerCall.symm
  cipherSuitesSent := h.cipherSuitesSent.symm

theorem SameApplication.trans {d₁ d₂ d₃ : Device Peer Random} (h : SameApplication d₁ d₂)
    (h' : SameApplication d₂ d₃) : SameApplication d₁ d₃ where
  peer := h'.peer.trans h.peer
  fed := h'.fed.trans h.fed
  urlString := h'.urlString.trans h.urlString
  skipFirstHandlerCall := h'.skipFirstHandlerCall.trans h.skipFirstHandlerCall
  cipherSuitesSent := h'.cipherSuitesSent.trans h.cipherSuitesSent

theorem randomLetters_length (count : Nat) (random : Random) :
    (randomLetters P count random).1.length = count := by
  induction count generalizing random with
  | zero => rfl
  | succ count ih => simp [randomLetters, ih]

theorem randomLetters_ne_zero (count : Nat) (random : Random) :
    ∀ c ∈ (randomLetters P count random).1, c ≠ 0 := by
  induction count generalizing random with
  | zero => simp [randomLetters]
  | succ count ih =>
    intro c hc
    simp only [randomLetters, List.mem_cons] at hc
    rcases hc with rfl | hmem
    · intro h
      have hvalue := congrArg UInt8.toNat h
      rw [UInt8.toNat_ofNat'] at hvalue
      simp only [UInt8.reduceToNat] at hvalue
      omega
    · exact ih _ c hmem

/-- The letters that a call from the second on draws. -/
def drawnLetters (P : Platform Peer Random) (d : Device Peer Random) : Bytes :=
  (randomLetters P 5 d.random).1

theorem cString_letters (random : Random) (rest : Bytes) :
    cString ((randomLetters P 5 random).1 ++ 0 :: rest) = (randomLetters P 5 random).1 := by
  have hletters : ∀ c ∈ (randomLetters P 5 random).1,
      (fun c : UInt8 => decide (c ≠ 0)) c = true := by
    intro c hc
    simpa using randomLetters_ne_zero 5 random c hc
  rw [cString, List.takeWhile_append_of_pos hletters]
  simp

theorem renameResource_first (h : d.skipFirstHandlerCall = false) :
    renameResource P d = { d with skipFirstHandlerCall := true } := by
  simp [renameResource, h]

theorem renameResource_again (h : d.skipFirstHandlerCall = true) :
    renameResource P d = { d with
      random := (randomLetters P 5 d.random).2
      urlString := drawnLetters P d ++ 0 :: d.urlString.drop 6 } := by
  simp [renameResource, h, drawnLetters]

theorem renameResource_url (h : d.skipFirstHandlerCall = true) :
    (renameResource P d).url = drawnLetters P d := by
  rw [renameResource_again h]
  exact cString_letters d.random _

theorem renameResource_keeps (P : Platform Peer Random) (d : Device Peer Random) :
    (renameResource P d).peer = d.peer ∧ (renameResource P d).fed = d.fed ∧
      (renameResource P d).cipherSuitesSent = d.cipherSuitesSent := by
  unfold renameResource
  split
  · exact ⟨rfl, rfl, rfl⟩
  · exact ⟨rfl, rfl, rfl⟩

/-- The handler when the key is there: it renames the resource and leaves the
response as it is. -/
theorem hateoasHandler_keyed {request response : CoapPacket}
    (h : P.eapKeyAvailable d.peer = true) :
    hateoasHandler P d request response = (renameResource P d, response) := by
  simp only [hateoasHandler, (renameResource_keeps P d).1, h, if_true]

/-- A response that is told apart from an empty one by its location. -/
structure NamesLocation (response result : CoapPacket) : Prop where
  code : result.code = created
  token : result.token = response.token
  block1 : result.block1 = response.block1
  location : result.locationPath.isSome

theorem namesLocation_setCreated (response : CoapPacket) (url : Bytes) :
    NamesLocation response (setCreated response url) := by
  unfold setCreated coapSetHeaderLocationPath coapSetHeaderLocationQuery
  by_cases hquery : (0x3F : UInt8) ∈ url.dropWhile (· = 0x2F)
  · simp only [hquery, if_true]
    exact ⟨rfl, rfl, rfl, rfl⟩
  · simp only [hquery, if_false]
    exact ⟨rfl, rfl, rfl, rfl⟩

/-- The handler before: it steps the peer once and names the location. -/
theorem hateoasHandler_unkeyed {request response : CoapPacket}
    (h : P.eapKeyAvailable d.peer = false) :
    (hateoasHandler P d request response).1 = { renameResource P d with
        peer := P.eapPeerSmStep d.peer (coapGetPayload request).1
        fed := d.fed ++ [(coapGetPayload request).1]
        cipherSuitesSent := true } ∧
      NamesLocation response (hateoasHandler P d request response).2 := by
  obtain ⟨hpeer, hfed, -⟩ := renameResource_keeps P d
  cases hsent : (renameResource P d).cipherSuitesSent with
  | true =>
    have hnames := namesLocation_setCreated response (renameResource P d).url
    simp only [hateoasHandler, hpeer, hfed, h, hsent, Bool.false_eq_true, if_false, if_true]
    exact ⟨trivial, hnames.code, hnames.token, hnames.block1, hnames.location⟩
  | false =>
    simp only [hateoasHandler, hpeer, hfed, h, hsent, Bool.false_eq_true, if_false]
    exact ⟨trivial, (namesLocation_setCreated _ _).code, (namesLocation_setCreated _ _).token,
      (namesLocation_setCreated _ _).block1, (namesLocation_setCreated _ _).location⟩

theorem serialized_code (pkt : CoapPacket) :
    byteAt (serialized pkt) 1 = (UInt8.ofNat pkt.code).toNat := rfl

theorem serialized_mid (pkt : CoapPacket) : be16At (serialized pkt) 2 = pkt.mid.toNat := by
  have hload : be16At (serialized pkt) 2 = be16At (be16 pkt.mid.toNat ++ []) 0 := rfl
  rw [hload, be16At_be16 (UInt16.toNat_lt _)]

/-- A response with a location is no response without options. -/
theorem serialized_ne_of_location {pkt pkt' : CoapPacket} (htoken : pkt.token = pkt'.token)
    (hlong : pkt.token.length ≤ coapTokenLen) (hlocation : pkt.locationPath.isSome)
    (hnone : setOptions pkt' = []) : serialized pkt ≠ serialized pkt' := by
  intro heq
  obtain ⟨path, hpath⟩ := Option.isSome_iff_exists.mp hlocation
  have hsame := congrArg (List.drop (4 + pkt.token.length)) heq
  have hfirst := datagram_drop_token
    (UInt8.ofNat (64 + 16 * typeBits pkt.type + pkt.token.length)) (UInt8.ofNat pkt.code) pkt.mid
    pkt.token (setOptions pkt) (readBehind (pkt.payload.getD []) [] pkt.payloadLen) []
  have hsecond := datagram_drop_token
    (UInt8.ofNat (64 + 16 * typeBits pkt'.type + pkt'.token.length)) (UInt8.ofNat pkt'.code)
    pkt'.mid pkt'.token (setOptions pkt') (readBehind (pkt'.payload.getD []) [] pkt'.payloadLen) []
  simp only [List.append_nil] at hfirst hsecond
  rw [serialized_eq_datagram pkt hlong, hfirst, htoken,
    serialized_eq_datagram pkt' (htoken ▸ hlong), hsecond, hnone] at hsame
  -- the first option starts with a header, an empty list of options with the marker
  obtain ⟨part, rest, hoptions⟩ : ∃ part rest,
      setOptions pkt = (ErCoap.optionLocationPath, part) :: rest := by
    obtain ⟨part, rest, hsplit⟩ := List.exists_cons_of_ne_nil (splitParts_ne_nil 0x2F [] path)
    have hstring : stringOptions ErCoap.optionLocationPath 0x2F pkt.locationPath =
        (ErCoap.optionLocationPath, part) ::
          rest.map fun part => (ErCoap.optionLocationPath, part) := by
      simp [stringOptions, hpath, hsplit]
    unfold setOptions
    rw [hstring]
    exact ⟨part, _, rfl⟩
  have hhead : (encodeOptions 0 (setOptions pkt) ++
      marked (readBehind (pkt.payload.getD []) [] pkt.payloadLen)).head? =
        some (header ErCoap.optionLocationPath part.length) := by
    rw [hoptions]
    rfl
  rw [hsame, encodeOptions, List.nil_append] at hhead
  unfold marked at hhead
  split at hhead
  · simp at hhead
  · exact header_ne_marker _ _ (Option.some.inj hhead).symm

/-- What is sent in the end. -/
def answer (mid : UInt16) : Except CoapError Bytes → Bytes
  | .ok datagram => datagram
  | .error e => errorDatagram mid e

theorem coapSetHeaderBlock2_eq (pkt : CoapPacket) (num : Nat) (more : Bool) (size : Nat) :
    coapSetHeaderBlock2 pkt num more size =
      { pkt with block2 := (coapSetHeaderBlock2 pkt num more size).block2 } := by
  unfold coapSetHeaderBlock2
  split
  · rfl
  · rfl

theorem applyBlockwise_block1 {message response : CoapPacket} {offset : Int}
    (hblock : message.block1.isSome) (hcode : response.code < badRequest)
    (hnone : response.block1 = none) :
    applyBlockwise message response offset = .error ⟨notImplemented, ascii "NoBlock1Support"⟩ := by
  simp [applyBlockwise, hblock, hcode, hnone]

/-- Without a Block1 option the response stays a response of its kind. -/
theorem applyBlockwise_ok {message : CoapPacket} (response : CoapPacket) (offset : Int)
    (hblock : message.block1 = none) :
    ∃ pkt, applyBlockwise message response offset = .ok pkt ∧ pkt.token = response.token ∧
      pkt.locationPath = response.locationPath ∧
      (pkt.code = response.code ∨ pkt.code = badOption) := by
  simp only [applyBlockwise, hblock, Option.isSome_none, Bool.false_eq_true, false_and, if_false]
  split
  · split
    · split
      · exact ⟨_, rfl, rfl, rfl, .inr rfl⟩
      · rw [coapSetHeaderBlock2_eq]
        exact ⟨_, rfl, rfl, rfl, .inl rfl⟩
    · rw [coapSetHeaderBlock2_eq]
      split
      · exact ⟨_, rfl, rfl, rfl, .inl rfl⟩
      · exact ⟨_, rfl, rfl, rfl, .inl rfl⟩
  · split
    · rw [coapSetHeaderBlock2_eq]
      exact ⟨_, rfl, rfl, rfl, .inl rfl⟩
    · exact ⟨_, rfl, rfl, rfl, .inl rfl⟩

/-- A response without options always fits the header. -/
theorem coapSerializeMessage_bare {pkt : CoapPacket} (htoken : pkt.token.length ≤ coapTokenLen)
    (hnone : setOptions pkt = []) : coapSerializeMessage pkt = some (serialized pkt) := by
  have hshort : (serializedHeader pkt).length ≤ coapMaxHeaderSize := by
    simp only [serializedHeader, hnone, serializeOptions, List.append_nil, List.length_append,
      List.length_cons, List.length_nil, be16, coapMaxHeaderSize]
    unfold coapTokenLen at htoken
    omega
  simp [coapSerializeMessage, hshort]

/-- The response that the handler of a keyed device leaves as it is. -/
theorem prepareResponse_bare (message : CoapPacket) (mid : UInt16) :
    (prepareResponse message mid).code = content ∧
      (prepareResponse message mid).token = message.token.take coapTokenLen ∧
      (prepareResponse message mid).mid = (if message.type = .con then message.mid else mid) ∧
      (prepareResponse message mid).payloadLen = 0 ∧
      (prepareResponse message mid).block1 = none ∧
      setOptions (prepareResponse message mid) = [] := by
  unfold prepareResponse
  split
  · exact ⟨rfl, rfl, rfl, rfl, rfl, rfl⟩
  · exact ⟨rfl, rfl, rfl, rfl, rfl, rfl⟩

theorem prepareResponse_token_length (message : CoapPacket) (mid : UInt16) :
    (prepareResponse message mid).token.length ≤ coapTokenLen := by
  rw [(prepareResponse_bare message mid).2.1]
  exact List.length_take_le _ _

/-- What a keyed device answers without a Block1 option. -/
theorem finishResponse_keyed {message : CoapPacket} (mid : UInt16)
    (hblock : message.block1 = none) :
    ∃ pkt, finishResponse message
        ⟨prepareResponse message mid, blockOffset message, true⟩ = .ok (serialized pkt) ∧
      setOptions pkt = [] ∧ pkt.token = (prepareResponse message mid).token ∧
      pkt.mid = (if message.type = .con then message.mid else mid) ∧
      (pkt.code = content ∨ pkt.code = badOption) := by
  obtain ⟨hcode, htoken, hmid, hlen, -, hnone⟩ := prepareResponse_bare message mid
  have hlong := prepareResponse_token_length message mid
  cases hblock2 : message.block2 with
  | none =>
    have happly : applyBlockwise message (prepareResponse message mid) (blockOffset message) =
        .ok (prepareResponse message mid) := by
      simp [applyBlockwise, hblock, hblock2, blockOffset]
    refine ⟨_, ?_, hnone, rfl, hmid, .inl hcode⟩
    simp only [finishResponse, happly, if_true, coapSerializeMessage_bare hlong hnone]
  | some block =>
    have happly : applyBlockwise message (prepareResponse message mid) (blockOffset message) =
        .ok (coapSetPayload { prepareResponse message mid with code := badOption }
          (ascii "BlockOutOfScope") (ascii "BlockOutOfScope").length) := by
      simp [applyBlockwise, hblock, hblock2, blockOffset, hlen]
    let pkt := coapSetPayload { prepareResponse message mid with code := badOption }
      (ascii "BlockOutOfScope") (ascii "BlockOutOfScope").length
    have hserialized : coapSerializeMessage pkt = some (serialized pkt) :=
      coapSerializeMessage_bare hlong hnone
    refine ⟨pkt, ?_, hnone, rfl, hmid, .inr rfl⟩
    simp only [finishResponse, happly, if_true]
    rw [hserialized]

/-- What a device answers where no resource takes the request. -/
theorem finishResponse_refused (message : CoapPacket) (mid : UInt16) (offset : Int)
    {status : Nat} (hstatus : status = notFound ∨ status = methodNotAllowed) :
    ∃ datagram, finishResponse message
        ⟨coapSetStatusCode (prepareResponse message mid) status, offset, false⟩ =
          .ok datagram ∧ (byteAt datagram 1 = notFound ∨ byteAt datagram 1 = methodNotAllowed) := by
  have hlong := prepareResponse_token_length message mid
  obtain ⟨-, -, -, -, -, hnone⟩ := prepareResponse_bare message mid
  have hset : coapSetStatusCode (prepareResponse message mid) status =
      { prepareResponse message mid with code := status } := by
    rcases hstatus with rfl | rfl
    · rfl
    · rfl
  let pkt : CoapPacket := { prepareResponse message mid with code := status }
  have hserialized : coapSerializeMessage pkt = some (serialized pkt) :=
    coapSerializeMessage_bare hlong hnone
  refine ⟨serialized pkt, ?_, ?_⟩
  · simp only [finishResponse, Bool.false_eq_true, if_false, hset]
    rw [hserialized]
  · rcases hstatus with rfl | rfl
    · exact .inl rfl
    · exact .inr rfl

theorem errorDatagram_code (mid : UInt16) (e : CoapError) (h : e.status = notImplemented ∨
    e.status = packetSerializationError) :
    byteAt (errorDatagram mid e) 1 = notImplemented ∨
      byteAt (errorDatagram mid e) 1 = internalServerError := by
  rcases h with h | h
  · left
    simp only [errorDatagram, h]
    rfl
  · right
    simp only [errorDatagram, h]
    rfl

/-- No error has the code of a response with a payload. -/
theorem errorDatagram_ne_serialized {mid : UInt16} {e : CoapError} {pkt : CoapPacket}
    (h : e.status = notImplemented ∨ e.status = packetSerializationError)
    (hcode : pkt.code = content ∨ pkt.code = badOption) :
    serialized pkt ≠ errorDatagram mid e := by
  intro heq
  have hcodes := congrArg (fun datagram => byteAt datagram 1) heq
  simp only [serialized_code] at hcodes
  rcases errorDatagram_code mid e h with herror | herror
  · rw [herror] at hcodes
    rcases hcode with hc | hc
    · rw [hc] at hcodes
      exact absurd hcodes (by decide)
    · rw [hc] at hcodes
      exact absurd hcodes (by decide)
  · rw [herror] at hcodes
    rcases hcode with hc | hc
    · rw [hc] at hcodes
      exact absurd hcodes (by decide)
    · rw [hc] at hcodes
      exact absurd hcodes (by decide)

/-- What a device answers after a step of its EAP peer. -/
theorem finishResponse_unkeyed {message response : CoapPacket} {mid : UInt16}
    (hnames : NamesLocation (prepareResponse message mid) response) (offset : Int) :
    (message.block1.isSome ∧ finishResponse message ⟨response, offset, true⟩ =
        .error ⟨notImplemented, ascii "NoBlock1Support"⟩) ∨
      (message.block1 = none ∧
        ((∃ text, finishResponse message ⟨response, offset, true⟩ =
            .error ⟨packetSerializationError, text⟩) ∨
          ∃ pkt, finishResponse message ⟨response, offset, true⟩ = .ok (serialized pkt) ∧
            pkt.token = (prepareResponse message mid).token ∧ pkt.locationPath.isSome ∧
            (pkt.code = created ∨ pkt.code = badOption))) := by
  have hnone : response.block1 = none := by
    rw [hnames.block1, (prepareResponse_bare message mid).2.2.2.2.1]
  cases hblock : message.block1 with
  | some block =>
    left
    refine ⟨rfl, ?_⟩
    have happly : applyBlockwise message response offset =
        .error ⟨notImplemented, ascii "NoBlock1Support"⟩ :=
      applyBlockwise_block1 (by rw [hblock]; rfl) (by rw [hnames.code]; decide) hnone
    simp only [finishResponse, happly, if_true]
  | none =>
    right
    refine ⟨rfl, ?_⟩
    obtain ⟨pkt, happly, htoken, hlocation, hcode⟩ := applyBlockwise_ok response offset hblock
    rw [hnames.token] at htoken
    rw [hnames.code] at hcode
    simp only [finishResponse, happly, if_true, coapSerializeMessage]
    split
    · rename_i datagram hserialized
      right
      refine ⟨pkt, ?_, htoken, by rw [hlocation]; exact hnames.location, hcode⟩
      split at hserialized
      · rw [Option.some.inj hserialized]
      · simp at hserialized
    · left
      exact ⟨_, rfl⟩

theorem renameResource_mid (mid : UInt16) :
    renameResource P { d with currentMid := mid } =
      { renameResource P d with currentMid := mid } := by
  unfold renameResource
  split
  · rfl
  · rfl

/-- The message identifier of the engine is carried through the handler. -/
theorem hateoasHandler_mid (request response : CoapPacket) (mid : UInt16) :
    hateoasHandler P { d with currentMid := mid } request response =
      ({ (hateoasHandler P d request response).1 with currentMid := mid },
        (hateoasHandler P d request response).2) := by
  simp only [hateoasHandler, renameResource_mid]
  split
  · rfl
  · split
    · rfl
    · rfl

theorem hateoasHandler_keeps_mid (request response : CoapPacket) :
    (hateoasHandler P d request response).1.currentMid = d.currentMid := by
  have h := congrArg (fun result => result.1.currentMid)
    (hateoasHandler_mid (P := P) (d := d) request response d.currentMid)
  exact h

/-- What the engine does with a request for the resource: one call of the
handler, and the answer. -/
structure Served (P : Platform Peer Random) (d : Device Peer Random) (message : CoapPacket)
    (result : Device Peer Random × Option Bytes) : Prop where
  application : SameApplication
    (hateoasHandler P d message (prepareResponse message (d.currentMid + 1))).1 result.1
  random : result.1.random = (renameResource P d).random
  mid : result.1.currentMid = if message.type = .con then d.currentMid else d.currentMid + 1
  response : result.2 = some (answer message.mid (finishResponse message
    ⟨(hateoasHandler P d message (prepareResponse message (d.currentMid + 1))).2,
      blockOffset message, true⟩))

theorem hateoasHandler_random (request response : CoapPacket) :
    (hateoasHandler P d request response).1.random = (renameResource P d).random := by
  simp only [hateoasHandler]
  split
  · rfl
  · split
    · rfl
    · rfl

variable {datagram behind : Bytes} {message : CoapPacket}

theorem isRequest_of_post (h : message.code = coapPost) : isRequest message = true := by
  simp [isRequest, h, coapPost]

theorem coapReceive_served
    (hparse : coapParseMessage (datagram ++ behind) datagram.length = .ok message)
    (hpost : message.code = coapPost) (hpath : message.uriPath.getD [] = d.url) :
    Served P d message (coapReceive P d datagram behind) := by
  simp only [coapReceive, hparse, isRequest_of_post hpost, if_true]
  by_cases hcon : message.type = .con
  · simp only [hcon, if_true, invokeService, hpath, hpost]
    split
    · rename_i e hfinish
      exact ⟨⟨rfl, rfl, rfl, rfl, rfl⟩, hateoasHandler_random _ _,
        by simp [hateoasHandler_keeps_mid, hcon], by rw [hfinish]; rfl⟩
    · rename_i reply hfinish
      exact ⟨⟨rfl, rfl, rfl, rfl, rfl⟩, hateoasHandler_random _ _,
        by simp [hateoasHandler_keeps_mid, hcon], by rw [hfinish]; rfl⟩
  · have hurl : ({ d with currentMid := d.currentMid + 1 } : Device Peer Random).url = d.url := rfl
    simp only [hcon, if_false, invokeService, hurl, hpath, hpost, if_true, hateoasHandler_mid]
    split
    · rename_i e hfinish
      exact ⟨⟨rfl, rfl, rfl, rfl, rfl⟩, hateoasHandler_random _ _, by simp [hcon],
        by rw [hfinish]; rfl⟩
    · rename_i reply hfinish
      exact ⟨⟨rfl, rfl, rfl, rfl, rfl⟩, hateoasHandler_random _ _, by simp [hcon],
        by rw [hfinish]; rfl⟩

/-- A POST elsewhere is refused, by one of two codes. -/
theorem coapReceive_refused
    (hparse : coapParseMessage (datagram ++ behind) datagram.length = .ok message)
    (hpost : message.code = coapPost) (hpath : message.uriPath.getD [] ≠ d.url) :
    SameApplication d (coapReceive P d datagram behind).1 ∧
      ∃ reply, (coapReceive P d datagram behind).2 = some reply ∧
        (byteAt reply 1 = notFound ∨ byteAt reply 1 = methodNotAllowed) := by
  have hserved : ∀ d' : Device Peer Random, d'.url = d.url → ∃ status,
      (status = notFound ∨ status = methodNotAllowed) ∧
      invokeService P d' message (prepareResponse message (d.currentMid + 1))
        (blockOffset message) =
      (d', ⟨coapSetStatusCode (prepareResponse message (d.currentMid + 1)) status,
        blockOffset message, false⟩) := by
    intro d' hurl
    have hget : coapPost ≠ coapGet := by decide
    simp only [invokeService, hurl, hpath, hpost, hget, if_false]
    split
    · exact ⟨methodNotAllowed, .inr rfl, rfl⟩
    · exact ⟨notFound, .inl rfl, rfl⟩
  simp only [coapReceive, hparse, isRequest_of_post hpost, if_true]
  obtain ⟨status, hstatus, hservice⟩ := hserved
    (if message.type = .con then d else { d with currentMid := d.currentMid + 1 })
    (by split <;> rfl)
  rw [hservice]
  obtain ⟨reply, hfinish, hcode⟩ :=
    finishResponse_refused message (d.currentMid + 1) (blockOffset message) hstatus
  simp only [hfinish]
  refine ⟨?_, reply, rfl, hcode⟩
  split
  · exact ⟨rfl, rfl, rfl, rfl, rfl⟩
  · exact ⟨rfl, rfl, rfl, rfl, rfl⟩

/-- What a keyed device answers to a Block1 option. -/
theorem finishResponse_keyed_block (mid : UInt16) (hblock : message.block1.isSome) :
    finishResponse message ⟨prepareResponse message mid, blockOffset message, true⟩ =
      .error ⟨notImplemented, ascii "NoBlock1Support"⟩ := by
  obtain ⟨hcode, -, -, -, hnone, -⟩ := prepareResponse_bare message mid
  have happly : applyBlockwise message (prepareResponse message mid) (blockOffset message) =
      .error ⟨notImplemented, ascii "NoBlock1Support"⟩ :=
    applyBlockwise_block1 hblock (by rw [hcode]; decide) hnone
  simp only [finishResponse, happly, if_true]

/-- The codes of refusals are no codes of answers. -/
theorem Served.reply {result : Device Peer Random × Option Bytes}
    (h : Served P d message result) :
    ∃ reply, result.2 = some reply ∧ byteAt reply 1 ≠ notFound ∧
      byteAt reply 1 ≠ methodNotAllowed := by
  have hserver : ∀ e : CoapError, e.status = notImplemented ∨
      e.status = packetSerializationError → byteAt (errorDatagram message.mid e) 1 ≠ notFound ∧
        byteAt (errorDatagram message.mid e) 1 ≠ methodNotAllowed := by
    intro e he
    rcases errorDatagram_code message.mid e he with h | h
    · exact ⟨by rw [h]; decide, by rw [h]; decide⟩
    · exact ⟨by rw [h]; decide, by rw [h]; decide⟩
  have hcode : ∀ pkt : CoapPacket, pkt.code = content ∨ pkt.code = created ∨
      pkt.code = badOption → byteAt (serialized pkt) 1 ≠ notFound ∧
        byteAt (serialized pkt) 1 ≠ methodNotAllowed := by
    intro pkt hpkt
    rw [serialized_code]
    rcases hpkt with h | h | h
    · exact ⟨by rw [h]; decide, by rw [h]; decide⟩
    · exact ⟨by rw [h]; decide, by rw [h]; decide⟩
    · exact ⟨by rw [h]; decide, by rw [h]; decide⟩
  refine ⟨_, h.response, ?_⟩
  cases hkey : P.eapKeyAvailable d.peer with
  | true =>
    rw [hateoasHandler_keyed hkey]
    cases hblock : message.block1 with
    | some block =>
      rw [finishResponse_keyed_block _ (by rw [hblock]; rfl)]
      exact hserver _ (.inl rfl)
    | none =>
      obtain ⟨pkt, hfinish, -, -, -, hpkt⟩ :=
        finishResponse_keyed (d.currentMid + 1) hblock
      rw [hfinish]
      rcases hpkt with hcontent | hoption
      · exact hcode pkt (.inl hcontent)
      · exact hcode pkt (.inr (.inr hoption))
  | false =>
    rcases finishResponse_unkeyed (hateoasHandler_unkeyed hkey).2 (blockOffset message) with
      ⟨-, hfinish⟩ | ⟨-, ⟨text, hfinish⟩ | ⟨pkt, hfinish, -, -, hpkt⟩⟩
    · rw [hfinish]
      exact hserver _ (.inl rfl)
    · rw [hfinish]
      exact hserver _ (.inr rfl)
    · rw [hfinish]
      rcases hpkt with hcreated | hoption
      · exact hcode pkt (.inr (.inl hcreated))
      · exact hcode pkt (.inr (.inr hoption))

end CoapEap.Hateoas
