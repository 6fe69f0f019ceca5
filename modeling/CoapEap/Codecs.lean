import CoapEap.Controller.Parsing
import CoapEap.Device.Codec

/-!
The two codecs against each other. Whatever PDU the controller's library accepts, with
numbers that fit, the parser of the device takes the same options from it in the same
order, and stays inside its map of options as long as their numbers do.
-/

namespace CoapEap.ErCoap

open Library.OptionFormat

/-- The bits of `options` in `coap_packet_t`. -/
def optionMapBits : Nat := (optionProxyUri / 8 + 1) * 8

/-- The option loop of `coap_parse_message` with its `SET_OPTION`. There is no result
when this sets a bit behind the map. -/
def parseMarkedOptions : Nat → Bytes → Nat → Nat → CoapPacket →
    Option (Except CoapError CoapPacket)
  | 0, _, _, _, pkt => some (.ok pkt)
  | fuel + 1, memory, left, optionNumber, pkt =>
    if left = 0 then some (.ok pkt)
    else if byteAt memory 0 / 16 = 15 then
      some (.ok (setReceivedPayload pkt (memory.drop 1) (left - 1)))
    else
      let delta := optionField (byteAt memory 0 / 16) (memory.drop 1)
      let length := optionField (byteAt memory 0 % 16) (memory.drop (1 + delta.2))
      let valueAt := 1 + delta.2 + length.2
      let number := optionNumber + delta.1
      if optionMapBits ≤ number then none
      else
        match parseOption pkt number ((memory.drop valueAt).take length.1) with
        | .error e => some (.error e)
        | .ok pkt =>
          parseMarkedOptions fuel (memory.drop (valueAt + length.1))
            (left - (valueAt + length.1)) number pkt

/-- `coap_parse_message` with its map of options. -/
def coapParseMarked (memory : Bytes) (dataLen : Nat) : Option (Except CoapError CoapPacket) :=
  let tokenLen := min coapTokenLen (byteAt memory 0 % 16)
  if byteAt memory 0 / 64 ≠ 1 then some (.error ⟨badRequest, ascii "CoAP version must be 1"⟩)
  else
    parseMarkedOptions (dataLen + 1) (memory.drop (4 + tokenLen)) (dataLen - (4 + tokenLen)) 0
      (parseHeader memory)

/-- What the device makes of a sequence of options: each is marked and then read, up to
the first that it refuses. -/
def readOptions : CoapPacket → List (Nat × Bytes) → Option (Except CoapError CoapPacket)
  | pkt, [] => some (.ok pkt)
  | pkt, (number, value) :: rest =>
    if optionMapBits ≤ number then none
    else
      match parseOption pkt number value with
      | .error e => some (.error e)
      | .ok pkt => readOptions pkt rest

/-- The map has no part in what is read. -/
theorem parseMarkedOptions_eq {fuel : Nat} {memory : Bytes} {left optionNumber : Nat}
    {pkt : CoapPacket} {result : Except CoapError CoapPacket}
    (h : parseMarkedOptions fuel memory left optionNumber pkt = some result) :
    parseOptions fuel memory left optionNumber pkt = result := by
  induction fuel generalizing memory left optionNumber pkt with
  | zero => exact Option.some.inj h
  | succ fuel ih =>
      unfold parseMarkedOptions at h
      unfold parseOptions
      split at h
      · rename_i hnone
        rw [if_pos hnone]
        exact Option.some.inj h
      rename_i hsome
      rw [if_neg hsome]
      split at h
      · rename_i hmarker
        rw [if_pos hmarker]
        exact Option.some.inj h
      rename_i hmarker
      rw [if_neg hmarker]
      simp only at h ⊢
      split at h
      · simp at h
      generalize parseOption pkt _ _ = read at h ⊢
      cases read with
      | error e => exact Option.some.inj h
      | ok next => exact ih h

theorem coapParseMarked_eq {memory : Bytes} {dataLen : Nat}
    {result : Except CoapError CoapPacket} (h : coapParseMarked memory dataLen = some result) :
    coapParseMessage memory dataLen = result := by
  unfold coapParseMarked at h
  unfold coapParseMessage
  simp only at h ⊢
  split at h
  · rename_i hversion
    rw [if_pos hversion]
    exact Option.some.inj h
  · rename_i hversion
    rw [if_neg hversion]
    exact parseMarkedOptions_eq h

variable {delta : Nat} {value rest : Bytes}

/-- The parser finds a difference or a length again. -/
theorem optionField_extension {n : Nat} (h : n ≤ largest) (behind : Bytes) :
    optionField (nibble n) (extension n ++ behind) = (n, (extension n).length) := by
  rcases number_forms h with ⟨hsmall, hnibble, hextension⟩ | ⟨hnibble, byte, hextension, hbyte⟩ |
    ⟨hnibble, high, low, hextension, hbytes⟩
  · have hne : n ≠ 13 ∧ n ≠ 14 := by omega
    simp [optionField, hnibble, hextension, hne]
  · simp only [optionField, hnibble, hextension, if_true, List.cons_append, byteAt_cons_zero,
      List.length_singleton, Prod.mk.injEq, and_true]
    omega
  · have hload : be16At (high :: low :: behind) 0 = 256 * high.toNat + low.toNat := rfl
    have hne : ¬ (14 : Nat) = 13 := by decide
    simp only [optionField, hnibble, hextension, if_neg hne, if_true, List.cons_append,
      List.nil_append, hload, List.length_cons, List.length_nil, Prod.mk.injEq, and_true]
    omega

theorem parseMarkedOptions_option {fuel left optionNumber : Nat} {pkt : CoapPacket}
    (hdelta : delta ≤ largest) (hvalue : value.length ≤ largest) (hleft : 0 < left) :
    parseMarkedOptions (fuel + 1) (encodeOption delta value ++ rest) left optionNumber pkt =
      if optionMapBits ≤ optionNumber + delta then none
      else
        match parseOption pkt (optionNumber + delta) value with
        | .error e => some (.error e)
        | .ok pkt =>
          parseMarkedOptions fuel rest (left - (encodeOption delta value).length)
            (optionNumber + delta) pkt := by
  have hnibble := nibble_lt delta
  have hfirst : byteAt (encodeOption delta value ++ rest) 0 = (header delta value.length).toNat :=
    rfl
  -- the memory behind the header, behind the difference, behind the length and behind the value
  have hbehind : (encodeOption delta value ++ rest).drop 1 =
      extension delta ++ (extension value.length ++ (value ++ rest)) := by
    simp [encodeOption]
  have hlengthAt : (encodeOption delta value ++ rest).drop (1 + (extension delta).length) =
      extension value.length ++ (value ++ rest) := by
    rw [← List.drop_drop, hbehind, List.drop_left]
  have hvalueAt : (encodeOption delta value ++ rest).drop
      (1 + (extension delta).length + (extension value.length).length) = value ++ rest := by
    rw [← List.drop_drop, hlengthAt, List.drop_left]
  have hrest : (encodeOption delta value ++ rest).drop
      (1 + (extension delta).length + (extension value.length).length + value.length) = rest := by
    rw [← List.drop_drop, hvalueAt, List.drop_left]
  have hnonzero : ¬ left = 0 := by omega
  have hmarker : ¬ nibble delta = 15 := by omega
  rw [parseMarkedOptions, hfirst, header_div, header_mod]
  simp only [hnonzero, hmarker, if_false, hbehind, optionField_extension hdelta, hlengthAt,
    optionField_extension hvalue, hvalueAt, List.take_left, hrest, encodeOption_length]

theorem parseMarkedOptions_marked {fuel optionNumber : Nat} (pkt : CoapPacket)
    (payload behind : Bytes) :
    parseMarkedOptions (fuel + 1) (marked payload ++ behind) (marked payload).length
      optionNumber pkt = some (.ok (withPayload pkt payload behind)) := by
  unfold marked withPayload
  by_cases hempty : payload = []
  · simp [hempty, parseMarkedOptions]
  · simp [hempty, parseMarkedOptions]

theorem parseMarkedOptions_options {prev fuel : Nat} {options : List (Nat × Bytes)}
    (pkt : CoapPacket) (payload behind : Bytes) (hascending : Ascending prev options)
    (hreaching : Reaching prev options) (hfuel : options.length < fuel) :
    parseMarkedOptions fuel (encodeOptions prev options ++ (marked payload ++ behind))
        ((encodeOptions prev options).length + (marked payload).length) prev pkt =
      (readOptions pkt options).map fun read =>
        read.map fun pkt => withPayload pkt payload behind := by
  induction options generalizing prev fuel pkt with
  | nil =>
      obtain ⟨fuel, rfl⟩ : ∃ k, fuel = k + 1 := ⟨fuel - 1, by simp at hfuel; omega⟩
      simpa [encodeOptions, readOptions, Except.map] using
        parseMarkedOptions_marked pkt payload behind
  | cons option options ih =>
      obtain ⟨number, value⟩ := option
      obtain ⟨hle, hrest⟩ := hascending
      obtain ⟨hdelta, hvalue, hmore⟩ := hreaching
      obtain ⟨fuel, rfl⟩ : ∃ k, fuel = k + 1 := ⟨fuel - 1, by simp at hfuel; omega⟩
      have hnumber : prev + (number - prev) = number := by omega
      have hpos := encodeOption_length_pos (number - prev) value
      have hlength : (encodeOptions prev ((number, value) :: options)).length =
          (encodeOption (number - prev) value).length + (encodeOptions number options).length := by
        rw [encodeOptions, List.length_append]
      have hleft : (encodeOptions prev ((number, value) :: options)).length +
          (marked payload).length - (encodeOption (number - prev) value).length =
            (encodeOptions number options).length + (marked payload).length := by
        omega
      rw [hlength] at hleft
      rw [hlength, encodeOptions, List.append_assoc,
        parseMarkedOptions_option hdelta hvalue (by omega), hnumber, hleft, readOptions]
      split
      · rfl
      cases hread : parseOption pkt number value with
      | error e => rfl
      | ok next => exact ih next hrest hmore (by simpa using hfuel)

end CoapEap.ErCoap

namespace CoapEap

open Library.OptionFormat Cantcoap

/-- The type in the words of the device. -/
def deviceType : PduType → ErCoap.MessageType
  | .confirmable => .con
  | .nonConfirmable => .non
  | .acknowledgement => .ack
  | .reset => .rst

/-- The header of a PDU as the accessors of the controller give it, in a packet of the
device. -/
def headerPacket (pdu : Bytes) : ErCoap.CoapPacket :=
  { type := deviceType (getType pdu), code := getCode pdu
    mid := UInt16.ofNat (getMessageId pdu), token := getToken pdu }

theorem messageType_eq (pdu : Bytes) :
    ErCoap.messageType (byteAt pdu 0) = deviceType (getType pdu) := by
  unfold ErCoap.messageType getType
  have hlt : byteAt pdu 0 / 16 % 4 < 4 := Nat.mod_lt _ (by decide)
  generalize byteAt pdu 0 / 16 % 4 = bits at hlt
  match bits, hlt with
  | 0, _ => rfl
  | 1, _ => rfl
  | 2, _ => rfl
  | 3, _ => rfl

variable {m : WellFormedPdu}

/-- The header that the device reads, whatever lies behind the PDU. -/
theorem parseHeader_bytes (behind : Bytes) :
    ErCoap.parseHeader (m.bytes ++ behind) = headerPacket m.bytes := by
  have hfirst : byteAt (m.bytes ++ behind) 0 = byteAt m.bytes 0 := rfl
  have hcode : byteAt (m.bytes ++ behind) 1 = getCode m.bytes := rfl
  have hmid : be16At (m.bytes ++ behind) 2 = getMessageId m.bytes := rfl
  have hlength : byteAt m.bytes 0 % 16 = m.token.length := m.getTokenLength_bytes
  have htoken : (m.bytes ++ behind).drop 4 = m.token ++
      (encodeOptions 0 m.options ++ (marked m.payload ++ behind)) :=
    datagram_drop_header ..
  have hmin : min ErCoap.coapTokenLen m.token.length = m.token.length :=
    Nat.min_eq_right m.token_short
  rw [ErCoap.parseHeader, headerPacket, hfirst, messageType_eq, hcode, hmid, hlength, hmin, htoken,
    List.take_left, m.readFrom_bytes.token]

theorem coapParseMarked_bytes (behind : Bytes) :
    ErCoap.coapParseMarked (m.bytes ++ behind) m.bytes.length =
      (ErCoap.readOptions (headerPacket m.bytes) m.options).map fun read =>
        read.map fun pkt => ErCoap.withPayload pkt m.payload behind := by
  have hfirst : byteAt (m.bytes ++ behind) 0 = byteAt m.bytes 0 := rfl
  have hversion : byteAt m.bytes 0 / 64 = 1 := (validate_eq_some_iff.mp m.validate_bytes.1).2.1
  have hlength : byteAt m.bytes 0 % 16 = m.token.length := m.getTokenLength_bytes
  have hmin : min ErCoap.coapTokenLen m.token.length = m.token.length :=
    Nat.min_eq_right m.token_short
  have hoptions : (m.bytes ++ behind).drop (4 + m.token.length) =
      encodeOptions 0 m.options ++ (marked m.payload ++ behind) :=
    datagram_drop_token ..
  have hleft : m.bytes.length - (4 + m.token.length) =
      (encodeOptions 0 m.options).length + (marked m.payload).length := by
    rw [WellFormedPdu.bytes, datagram_length]
    omega
  have hrounds : m.options.length < m.bytes.length + 1 := by
    have hcount := length_le_encodeOptions 0 m.options
    omega
  simp only [ErCoap.coapParseMarked, hfirst, hversion, ne_eq, not_true_eq_false, if_false, hlength,
    hmin, hoptions, hleft, parseHeader_bytes]
  exact ErCoap.parseMarkedOptions_options _ m.payload behind m.ascending m.reaching hrounds

/-- A POST to the path `a` with a payload of one byte. -/
def shortPost : Bytes := [0x44, 0x02, 0, 1, 1, 2, 3, 4, 0xB1, 0x61, 0xFF, 7]

end CoapEap
