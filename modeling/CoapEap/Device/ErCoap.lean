import CoapEap.Bytes
import CoapEap.Library.OptionFormat

/-!
The CoAP library of the device (`er-coap-13.c`), at the level of bytes: the
parser of a received datagram, the setters of a response, and its serialisation.

A packet of the source points into the buffers it was parsed from or set to. A
pointer is the memory from there on; what the packet keeps is how many bytes of
it count. The parser works in the receive buffer itself, so the memory behind
the datagram is part of its input.
-/

namespace CoapEap.ErCoap

/-- `coap_message_type_t`. -/
inductive MessageType
  | con | non | ack | rst
  deriving DecidableEq, Repr

/-- The fields of one Block option. -/
structure Block where
  num : Nat
  more : Bool
  size : Nat
  offset : Nat := 0
  deriving DecidableEq, Repr

/-- `coap_packet_t`. An option that is not set in the bitmap is `none`. -/
structure CoapPacket where
  type : MessageType
  code : Nat
  mid : UInt16
  token : Bytes := []
  contentType : Option Nat := none
  locationPath : Option Bytes := none
  locationQuery : Option Bytes := none
  uriPath : Option Bytes := none
  uriQuery : Option Bytes := none
  block2 : Option Block := none
  block1 : Option Block := none
  payload : Option Bytes := none
  payloadLen : Nat := 0
  deriving DecidableEq, Repr

/-- A status other than `NO_ERROR` and the `coap_error_message` set with it. -/
structure CoapError where
  status : Nat
  message : Bytes
  deriving DecidableEq, Repr

def ascii (text : String) : Bytes := text.toList.map fun c => UInt8.ofNat c.toNat

def coapTokenLen : Nat := 8
def coapEtagLen : Nat := 8

/-- The sum that is compiled, 67; the comment behind it says 70. -/
def coapMaxHeaderSize : Nat := 4 + 3 + 5 + 1 + coapEtagLen + 3 + 1 + coapTokenLen + 4 + 30
def restMaxChunkSize : Nat := 64

def coapGet : Nat := 1
def coapPost : Nat := 2
def created : Nat := 65
def content : Nat := 69
def badRequest : Nat := 128
def badOption : Nat := 130
def notFound : Nat := 132
def methodNotAllowed : Nat := 133
def internalServerError : Nat := 160
def notImplemented : Nat := 161
def proxyingNotSupported : Nat := 165
def packetSerializationError : Nat := 193
def pingResponse : Nat := 195

def textPlain : Nat := 0

def optionLocationPath : Nat := 8
def optionUriPath : Nat := 11
def optionContentType : Nat := 12
def optionUriQuery : Nat := 15
def optionLocationQuery : Nat := 20
def optionBlock2 : Nat := 23
def optionBlock1 : Nat := 27
def optionProxyUri : Nat := 35

/-- The options that the parser knows and whose values no one reads: If-Match,
Uri-Host, ETag, If-None-Match, Observe, Uri-Port, OSCORE, Max-Age, Accept and
Size. -/
def otherOptions : List Nat := [1, 3, 4, 5, 6, 7, 9, 14, 16, 28]

/-- `coap_init_message`. -/
def coapInitMessage (type : MessageType) (code : Nat) (mid : UInt16) : CoapPacket :=
  { type, code, mid }

/-- `coap_parse_int_option`, in a `uint32_t`. -/
def coapParseIntOption (bytes : Bytes) : Nat :=
  bytes.foldl (fun var b => (var * 256 + b.toNat) % 4294967296) 0

/-- `coap_merge_multi_option`. An empty string counts as not set. -/
def coapMergeMultiOption (dst : Option Bytes) (option : Bytes) (separator : UInt8) :
    Option Bytes :=
  match dst with
  | some (c :: rest) => some (c :: rest ++ separator :: option)
  | _ => some option

/-- The fields of a Block option from its value. -/
def parseBlock (value : Bytes) : Block :=
  let num := coapParseIntOption value
  { num := num / 16, more := num / 8 % 2 = 1, size := 16 <<< (num % 8)
    offset := (num / 16 * 16) <<< (num % 8) % 4294967296 }

/-- The switch over `option_number`. -/
def parseOption (pkt : CoapPacket) (number : Nat) (value : Bytes) :
    Except CoapError CoapPacket :=
  if number = optionContentType then
    .ok { pkt with contentType := some (coapParseIntOption value) }
  else if number = optionUriPath then
    .ok { pkt with uriPath := coapMergeMultiOption pkt.uriPath value 0x2F }
  else if number = optionUriQuery then
    .ok { pkt with uriQuery := coapMergeMultiOption pkt.uriQuery value 0x26 }
  else if number = optionLocationPath then
    .ok { pkt with locationPath := coapMergeMultiOption pkt.locationPath value 0x2F }
  else if number = optionLocationQuery then
    .ok { pkt with locationQuery := coapMergeMultiOption pkt.locationQuery value 0x26 }
  else if number = optionProxyUri then
    .error ⟨proxyingNotSupported, ascii "This is a constrained server (Contiki)"⟩
  else if number = optionBlock2 then .ok { pkt with block2 := some (parseBlock value) }
  else if number = optionBlock1 then .ok { pkt with block1 := some (parseBlock value) }
  else if number ∈ otherOptions then .ok pkt
  else if number % 2 = 1 then .error ⟨badOption, ascii "Unsupported critical option"⟩
  else .ok pkt

/-- A difference or a length from its four bits and the bytes behind them, and
how many of these bytes it took. The value 15 stands for itself. -/
def optionField (nibble : Nat) (behind : Bytes) : Nat × Nat :=
  if nibble = 13 then (13 + byteAt behind 0, 1)
  else if nibble = 14 then (14 + 255 + be16At behind 0, 2)
  else (nibble, 0)

/-- The payload in place: its length is cut to `REST_MAX_CHUNK_SIZE`, and a zero
byte is written where the counted bytes end. What lay behind stays there. -/
def setReceivedPayload (pkt : CoapPacket) (memory : Bytes) (length : Nat) : CoapPacket :=
  let payloadLen := min restMaxChunkSize length
  { pkt with
    payload := some (memory.take payloadLen ++ 0 :: memory.drop (payloadLen + 1))
    payloadLen }

/-- The option loop of `coap_parse_message`: the memory from `current_option` on,
how many bytes of it belong to the datagram, and the option number so far. A
value that runs past the datagram is taken from the memory behind it. -/
def parseOptions : Nat → Bytes → Nat → Nat → CoapPacket → Except CoapError CoapPacket
  | 0, _, _, _, pkt => .ok pkt
  | fuel + 1, memory, left, optionNumber, pkt =>
    if left = 0 then .ok pkt
    else if byteAt memory 0 / 16 = 15 then
      .ok (setReceivedPayload pkt (memory.drop 1) (left - 1))
    else
      let delta := optionField (byteAt memory 0 / 16) (memory.drop 1)
      let length := optionField (byteAt memory 0 % 16) (memory.drop (1 + delta.2))
      let valueAt := 1 + delta.2 + length.2
      let number := optionNumber + delta.1
      match parseOption pkt number ((memory.drop valueAt).take length.1) with
      | .error e => .error e
      | .ok pkt =>
        parseOptions fuel (memory.drop (valueAt + length.1)) (left - (valueAt + length.1))
          number pkt

def messageType (first : Nat) : MessageType :=
  match first / 16 % 4 with
  | 0 => .con
  | 1 => .non
  | 2 => .ack
  | _ => .rst

/-- The header fields that `coap_parse_message` reads before anything else. -/
def parseHeader (memory : Bytes) : CoapPacket :=
  { type := messageType (byteAt memory 0), code := byteAt memory 1
    mid := UInt16.ofNat (be16At memory 2)
    token := (memory.drop 4).take (min coapTokenLen (byteAt memory 0 % 16)) }

/-- `coap_parse_message` on a datagram of `dataLen` bytes at the start of the
receive buffer. Every round of the option loop takes at least one byte. The length is a
`uint16_t` in the source, which the length of every datagram fits. -/
def coapParseMessage (memory : Bytes) (dataLen : Nat) : Except CoapError CoapPacket :=
  let tokenLen := min coapTokenLen (byteAt memory 0 % 16)
  if byteAt memory 0 / 64 ≠ 1 then .error ⟨badRequest, ascii "CoAP version must be 1"⟩
  else
    parseOptions (dataLen + 1) (memory.drop (4 + tokenLen)) (dataLen - (4 + tokenLen)) 0
      (parseHeader memory)

/-- `coap_get_payload`: the pointer, and how many of its bytes count. -/
def coapGetPayload (pkt : CoapPacket) : Option Bytes × Nat :=
  match pkt.payload with
  | some memory => (some memory, pkt.payloadLen)
  | none => (none, 0)

/-- The bytes that `coap_get_payload` delimits. -/
def payloadBytes (pkt : CoapPacket) : Bytes :=
  ((coapGetPayload pkt).1.getD []).take (coapGetPayload pkt).2

def coapSetStatusCode (pkt : CoapPacket) (code : Nat) : CoapPacket :=
  if code ≤ 0xFF then { pkt with code } else pkt

def coapSetHeaderContentType (pkt : CoapPacket) (contentType : Nat) : CoapPacket :=
  { pkt with contentType := some contentType }

def coapSetHeaderToken (pkt : CoapPacket) (token : Bytes) : CoapPacket :=
  { pkt with token := token.take coapTokenLen }

def coapSetHeaderLocationQuery (pkt : CoapPacket) (query : Bytes) : CoapPacket :=
  { pkt with locationQuery := some (query.dropWhile (· = 0x3F)) }

/-- `coap_set_header_location_path` of a string. -/
def coapSetHeaderLocationPath (pkt : CoapPacket) (path : Bytes) : CoapPacket :=
  let path := path.dropWhile (· = 0x2F)
  if 0x3F ∈ path then
    { coapSetHeaderLocationQuery pkt ((path.dropWhile (· ≠ 0x3F)).drop 1) with
      locationPath := some (path.takeWhile (· ≠ 0x3F)) }
  else { pkt with locationPath := some path }

def coapSetHeaderBlock2 (pkt : CoapPacket) (num : Nat) (more : Bool) (size : Nat) :
    CoapPacket :=
  if size < 16 ∨ size > 2048 ∨ num > 0x0FFFFF then pkt
  else { pkt with block2 := some { num, more, size } }

/-- `coap_set_payload`: the pointer is kept, the length is cut. -/
def coapSetPayload (pkt : CoapPacket) (memory : Bytes) (length : Nat) : CoapPacket :=
  { pkt with payload := some memory, payloadLen := min restMaxChunkSize length }

def coapOptionNibble (value : Nat) : Nat :=
  if value < 13 then value else if value ≤ 0xFF + 13 then 13 else 14

/-- The bytes that the loop of `coap_set_option_header` writes for one of its two
numbers. -/
def extraBytes (x : Nat) : Bytes :=
  if x > 268 then [UInt8.ofNat ((x - 269) / 256), UInt8.ofNat (x - 269)]
  else if x > 12 then [UInt8.ofNat (x - 13)]
  else []

def coapSetOptionHeader (delta length : Nat) : Bytes :=
  UInt8.ofNat (16 * coapOptionNibble delta + coapOptionNibble length) ::
    (extraBytes delta ++ extraBytes length)

/-- The value of an integer option: as many bytes as the number has, none for
zero. -/
def intOptionValue (value : Nat) : Bytes :=
  (if value ≥ 16777216 then [UInt8.ofNat (value / 16777216)] else []) ++
    (if value ≥ 65536 then [UInt8.ofNat (value / 65536)] else []) ++
    (if value ≥ 256 then [UInt8.ofNat (value / 256)] else []) ++
    (if value ≥ 1 then [UInt8.ofNat value] else [])

/-- The parts of `coap_serialize_array_option` with a splitter. The byte after a
splitter is taken into the next part unread, and a splitter at the end adds no
part. -/
def splitParts (splitChar : UInt8) : Bytes → Bytes → List Bytes
  | part, [] => [part]
  | part, [c] => if c = splitChar then [part] else [part ++ [c]]
  | part, c :: next :: rest =>
    if c = splitChar then part :: splitParts splitChar [next] rest
    else splitParts splitChar (part ++ [c]) (next :: rest)

def stringOptions (number : Nat) (splitChar : UInt8) (field : Option Bytes) :
    List (Nat × Bytes) :=
  match field with
  | none => []
  | some text => (splitParts splitChar [] text).map fun part => (number, part)

def intOptions (number : Nat) (field : Option Nat) : List (Nat × Bytes) :=
  match field with
  | none => []
  | some value => [(number, intOptionValue value)]

/-- The value of a Block option. -/
def blockValue (block : Block) : Nat :=
  block.num * 16 + (if block.more then 8 else 0) + (block.size / 16).log2 % 16

/-- The options of a packet in the order of their numbers. -/
def setOptions (pkt : CoapPacket) : List (Nat × Bytes) :=
  stringOptions optionLocationPath 0x2F pkt.locationPath ++
    stringOptions optionUriPath 0x2F pkt.uriPath ++
    intOptions optionContentType pkt.contentType ++
    stringOptions optionUriQuery 0x26 pkt.uriQuery ++
    stringOptions optionLocationQuery 0x26 pkt.locationQuery ++
    intOptions optionBlock2 (pkt.block2.map blockValue) ++
    intOptions optionBlock1 (pkt.block1.map blockValue)

/-- The `COAP_SERIALIZE_*` steps: each option relative to `current_number`. -/
def serializeOptions : Nat → List (Nat × Bytes) → Bytes
  | _, [] => []
  | currentNumber, (number, value) :: rest =>
    coapSetOptionHeader (number - currentNumber) value.length ++ value ++
      serializeOptions number rest

def typeBits : MessageType → Nat
  | .con => 0
  | .non => 1
  | .ack => 2
  | .rst => 3

/-- Header, token and options of `coap_serialize_message`. -/
def serializedHeader (pkt : CoapPacket) : Bytes :=
  [UInt8.ofNat (64 + 16 * typeBits pkt.type + pkt.token.length % 16), UInt8.ofNat pkt.code] ++
    be16 pkt.mid.toNat ++ pkt.token ++ serializeOptions 0 (setOptions pkt)

/-- The bytes that `coap_serialize_message` writes. -/
def serialized (pkt : CoapPacket) : Bytes :=
  let marker : Bytes := if pkt.payloadLen = 0 then [] else [0xFF]
  serializedHeader pkt ++ (marker ++ readBehind (pkt.payload.getD []) [] pkt.payloadLen)

/-- `coap_serialize_message`; `none` where it returns 0. -/
def coapSerializeMessage (pkt : CoapPacket) : Option Bytes :=
  if (serializedHeader pkt).length ≤ coapMaxHeaderSize then some (serialized pkt) else none

end CoapEap.ErCoap
