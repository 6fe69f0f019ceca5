import CoapEap.Bytes
import CoapEap.Library.OptionFormat

/-!
The CoAP library of the controller (`cantcoap.cpp`), at the level of bytes: the
check a received PDU passes, the accessors the controller uses on it, and the
construction of its own PDUs by successive changes of the buffer.

A `validate` that fails and one that succeeds differ in what the accessors
afterwards see, so the model returns what it records. The option walk of
`validate` and of `getOptions` is over the bytes from the current option on.
-/

namespace CoapEap.Cantcoap

/-- `CoapPDU::Type`, as the two bits of the first byte. -/
inductive PduType
  | confirmable | nonConfirmable | acknowledgement | reset
  deriving DecidableEq, Repr

def optionLocationPath : Nat := 8
def optionOscore : Nat := 9
def optionUriPath : Nat := 11
def optionUriQuery : Nat := 15
def optionLocationQuery : Nat := 20
def optionAuth : Nat := 92

def coapPost : UInt8 := 0x02

def getVersion (pdu : Bytes) : Nat := byteAt pdu 0 / 64

def getType (pdu : Bytes) : PduType :=
  match byteAt pdu 0 / 16 % 4 with
  | 0 => .confirmable
  | 1 => .nonConfirmable
  | 2 => .acknowledgement
  | _ => .reset

def getTokenLength (pdu : Bytes) : Nat := byteAt pdu 0 % 16

/-- The `getTokenLength` bytes at `getTokenPointer`. -/
def getToken (pdu : Bytes) : Bytes := (pdu.drop 4).take (getTokenLength pdu)

def getCode (pdu : Bytes) : Nat := byteAt pdu 1

def getMessageId (pdu : Bytes) : Nat := be16At pdu 2

def computeExtraBytes (n : Nat) : Nat := if n < 13 then 0 else if n < 269 then 1 else 2

/-- The difference of an option, a `uint16_t`. -/
def getOptionDelta (option : Bytes) : Nat :=
  let delta := byteAt option 0 / 16
  if delta < 13 then delta
  else if delta = 13 then byteAt option 1 + 13
  else if delta = 14 then (be16At option 1 + 269) % 65536
  else delta

def getOptionValueLength (option : Bytes) : Nat :=
  let delta := byteAt option 0 / 16
  let length := byteAt option 0 % 16
  if length < 13 then length
  else
    let offset := 1 + (if delta = 13 then 1 else if delta = 14 then 2 else 0)
    if length = 13 then byteAt option offset + 13
    else (be16At option offset + 269) % 65536

/-- Header, extra bytes and value of the option at the front of `option`. -/
def optionTotalLength (option : Bytes) : Nat :=
  1 + computeExtraBytes (getOptionDelta option) +
    computeExtraBytes (getOptionValueLength option) + getOptionValueLength option

/-- The code ranges that `validate` lets pass. -/
def validCode (code : Nat) : Bool :=
  !((4 < code && code < 0x41) || (0x45 < code && code < 0x80) ||
    (0x86 < code && code < 0x8C) || code = 0x8E ||
    (0x8F < code && code < 0xA0) || 0xA5 < code)

/-- What a successful `validate` leaves in the object. A payload pointer is
`NULL` exactly when the payload is empty. -/
structure Validated where
  numOptions : Nat
  payload : Bytes
  deriving DecidableEq, Repr

/-- The option loop of `validate`, on the bytes not walked over yet. The check
of the extra header bytes takes the nibble itself for the number, so it counts
one extra byte for a two-byte extension. -/
def validateOptions : Nat → Bytes → Nat → Option Validated
  | 0, _, _ => none
  | fuel + 1, rest, numOptions =>
    if rest.length = 0 then some ⟨numOptions, []⟩
    else if byteAt rest 0 = 0xFF then
      if rest.length > 1 then some ⟨numOptions, rest.drop 1⟩ else none
    else
      let upperNibble := byteAt rest 0 / 16
      let lowerNibble := byteAt rest 0 % 16
      if upperNibble = 15 ∨ lowerNibble = 15 then none
      else if computeExtraBytes upperNibble > rest.length - 1 then none
      else if computeExtraBytes upperNibble + computeExtraBytes lowerNibble >
          rest.length - 1 then none
      else if optionTotalLength rest > rest.length then none
      else validateOptions fuel (rest.drop (optionTotalLength rest)) (numOptions + 1)

/-- `CoapPDU::validate`. Every round of the option loop walks over at least one
byte, so the length of the PDU bounds the rounds. -/
def validate (pdu : Bytes) : Option Validated :=
  if pdu.length < 4 then none
  else if getVersion pdu ≠ 1 then none
  else if getTokenLength pdu > 8 then none
  else if 4 + getTokenLength pdu > pdu.length then none
  else if validCode (getCode pdu) = false then none
  else validateOptions (pdu.length + 1) (pdu.drop (4 + getTokenLength pdu)) 0

/-- The walk of `getOptions` over `count` options: number and value of each. -/
def optionsFrom : Nat → Bytes → Nat → List (Nat × Bytes)
  | 0, _, _ => []
  | count + 1, rest, optionNumber =>
    let number := (optionNumber + getOptionDelta rest) % 65536
    let total := optionTotalLength rest
    let length := getOptionValueLength rest
    (number, (rest.drop (total - length)).take length) ::
      optionsFrom count (rest.drop total) number

def getOptions (pdu : Bytes) (v : Validated) : List (Nat × Bytes) :=
  optionsFrom v.numOptions (pdu.drop (4 + getTokenLength pdu)) 0

/-- Whether `getOptionPointer` returns a pointer. -/
def hasOption (pdu : Bytes) (v : Validated) (number : Nat) : Bool :=
  (getOptions pdu v).any fun option => option.1 = number

/-- The option loop of `getLocation` on a zeroed buffer: the bytes written so
far, the room left, the separator and whether a query was seen. On every way
out the buffer holds what was written up to then. -/
def getLocationLoop : List (Nat × Bytes) → Bytes → Nat → UInt8 → Bool → Bytes
  | [], dst, _, _, _ => dst.dropLast
  | (number, value) :: rest, dst, bytesLeft, separator, firstQuery =>
    if number = optionLocationPath ∨ number = optionLocationQuery then
      let query : Bool := number = optionLocationQuery
      let dst := if query && firstQuery then dst.dropLast ++ [0x3F] else dst
      let firstQuery := firstQuery && !query
      let separator := if query then 0x26 else separator
      if value.length > bytesLeft then dst
      else if value = [0x2F] then dst
      else if bytesLeft - value.length ≥ 1 then
        getLocationLoop rest (dst ++ value ++ [separator]) (bytesLeft - value.length - 1)
          separator firstQuery
      else dst ++ value
    else getLocationLoop rest dst bytesLeft separator firstQuery

/-- What `getLocation` leaves, as a string, in a zeroed buffer of `dstlen` bytes
(at least two). The caller ignores its result and its length. -/
def getLocation (pdu : Bytes) (v : Validated) (dstlen : Nat) : Bytes :=
  if v.numOptions = 0 then []
  else cString (getLocationLoop (getOptions pdu v) [0x2F] (dstlen - 2) 0x2F true)

/-- A PDU built by `CoapPDU()`: the bytes up to `_pduLength` and the largest
option number appended so far. The number of options and the payload pointer
are not kept, since nothing reads them on a PDU under construction. -/
structure CoapPDU where
  pdu : Bytes
  maxAddedOptionNumber : Nat
  deriving DecidableEq, Repr

/-- `CoapPDU()` on zeroed memory, with its `setVersion(1)`. -/
def newPDU : CoapPDU := ⟨[0x40, 0, 0, 0], 0⟩

def setMessageId (p : CoapPDU) (messageId : UInt16) : CoapPDU :=
  { p with pdu := p.pdu.take 2 ++ be16 messageId.toNat ++ p.pdu.drop 4 }

def setCode (p : CoapPDU) (code : UInt8) : CoapPDU := { p with pdu := p.pdu.set 1 code }

def setType (p : CoapPDU) (type : PduType) : CoapPDU :=
  let bits : Nat := match type with
    | .confirmable => 0
    | .nonConfirmable => 1
    | .acknowledgement => 2
    | .reset => 3
  let first := byteAt p.pdu 0
  { p with pdu := p.pdu.set 0 (UInt8.ofNat (first / 64 * 64 + bits * 16 + first % 16)) }

/-- `setToken` with a token of at most eight bytes: what follows the old token
moves up or down behind the new one. -/
def setToken (p : CoapPDU) (token : Bytes) : CoapPDU :=
  if token.length = 0 then p
  else
    let first := byteAt p.pdu 0
    let shifted := p.pdu.take 4 ++ token ++ p.pdu.drop (4 + getTokenLength p.pdu)
    { p with pdu := shifted.set 0 (UInt8.ofNat (first / 16 * 16 + token.length)) }

/-- The bytes `insertOption` leaves in the space made for an option. A two-byte
difference or length is stored over the last byte written before it instead of
behind it; bytes that are then never written stay zero here. -/
def insertOption (delta : Nat) (value : Bytes) : Bytes :=
  let len := value.length
  let head : UInt8 :=
    if delta < 13 then UInt8.ofNat (delta * 16)
    else if delta < 269 then 0xD0
    else UInt8.ofNat ((delta - 269) / 256)
  let extra : Bytes :=
    if delta < 13 then []
    else if delta < 269 then [UInt8.ofNat (delta - 13)]
    else [UInt8.ofNat (delta - 269), 0]
  if len < 13 then (head ||| UInt8.ofNat len) :: (extra ++ value)
  else if len < 269 then (head ||| 0x0D) :: (extra ++ [UInt8.ofNat (len - 13)] ++ value)
  else
    ((head ||| 0x0E) :: extra).dropLast ++ be16 (len - 269) ++ [0] ++ value.take (len - 269) ++
      List.replicate 269 0

/-- The bytes from an option on after `setOptionDelta` gave it a smaller
difference and its header moved up against the value. -/
def setOptionDelta (rest : Bytes) (optionDelta : Nat) : Bytes :=
  let behind := rest.drop (1 + computeExtraBytes (getOptionDelta rest))
  let low := byteAt rest 0 % 16
  if optionDelta < 13 then UInt8.ofNat (optionDelta * 16 + low) :: behind
  else if optionDelta < 269 then
    UInt8.ofNat (0xD0 + low) :: UInt8.ofNat (optionDelta - 13) :: behind
  else be16 (optionDelta - 269) ++ rest.drop 2

/-- The walk of `findInsertionPosition`, on the bytes from an option on: how many
of them the insertion position leaves before it, and the number of the option
just before that position. -/
def findInsertionPosition (optionNumber : Nat) : Nat → Bytes → Nat → Nat × Nat
  | 0, _, current => (0, current)
  | fuel + 1, rest, current =>
    if rest.length = 0 ∨ byteAt rest 0 = 0xFF then (0, current)
    else
      let number := (current + getOptionDelta rest) % 65536
      if number > optionNumber then (0, current)
      else
        let total := optionTotalLength rest
        let (position, prev) := findInsertionPosition optionNumber fuel (rest.drop total) number
        (total + position, prev)

/-- `addOption`: at the end when no larger number was appended before, otherwise
in front of the first option with a larger number, whose difference shrinks. -/
def addOption (p : CoapPDU) (number : Nat) (value : Bytes) : CoapPDU :=
  let start := 4 + getTokenLength p.pdu
  if number ≥ p.maxAddedOptionNumber ∨ p.pdu.length = start then
    { pdu := p.pdu ++ insertOption (number - p.maxAddedOptionNumber) value
      maxAddedOptionNumber := number }
  else
    let (position, prev) :=
      findInsertionPosition number p.pdu.length (p.pdu.drop start) 0
    let front := p.pdu.take (start + position)
    let rest := p.pdu.drop (start + position)
    if rest = [] then
      { pdu := p.pdu ++ insertOption (number - prev) value, maxAddedOptionNumber := number }
    else
      { p with
        pdu := front ++ insertOption (number - prev) value ++
          setOptionDelta rest (prev + getOptionDelta rest - number) }

/-- The segment `strchr` and the fallback to `'?'` delimit: its bytes, the bytes
from its end on, and whether a query starts there. -/
def uriSegment (uri : Bytes) (splitChar : UInt8) : Bytes × Bytes × Bool :=
  if splitChar ∈ uri then
    (uri.takeWhile (· ≠ splitChar), uri.dropWhile (· ≠ splitChar), false)
  else if 0x3F ∈ uri then
    (uri.takeWhile (· ≠ 0x3F), uri.dropWhile (· ≠ 0x3F), true)
  else (uri, [], false)

/-- The loop of `setURI` on what is left of the string. Every round that adds an
option consumes at least one byte. -/
def setURILoop : Nat → CoapPDU → Bytes → UInt8 → Nat → CoapPDU
  | 0, p, _, _, _ => p
  | fuel + 1, p, uri, splitChar, optionType =>
    match uri with
    | [] => p
    | [_] => p
    | first :: second :: tail =>
      let uri := if first = splitChar then second :: tail else first :: second :: tail
      let (segment, rest, query) := uriSegment uri splitChar
      let p := addOption p optionType segment
      if query then setURILoop fuel p (rest.drop 1) 0x26 optionUriQuery
      else setURILoop fuel p rest splitChar optionType

/-- `setURI` on a string without NUL bytes. -/
def setURI (p : CoapPDU) (uri : Bytes) : CoapPDU :=
  match uri with
  | [] => p
  | [c] => addOption p optionUriPath [c]
  | _ => setURILoop uri.length p uri 0x2F optionUriPath

/-- `setPayload` on a PDU without payload; an empty one is refused. -/
def setPayload (p : CoapPDU) (payload : Bytes) : CoapPDU :=
  if payload.length = 0 then p else { p with pdu := p.pdu ++ 0xFF :: payload }

end CoapEap.Cantcoap
