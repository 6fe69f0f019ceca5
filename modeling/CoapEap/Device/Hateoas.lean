import CoapEap.Device.ErCoap
import CoapEap.Library.Runs

/-!
The device (`er-coap-eap.c`, `er-coap-13-engine.c`): one resource that renames
itself, steps the EAP peer with the payloads it is sent and answers with what
the peer produced.

The EAP peer, the generator of `random_rand`, the handler of the discovery resource
and what becomes of the stack behind a returned handler are parameters. The REST
engine hands a request to the resource whose URL is exactly its Uri-Path. A response
never waits for an acknowledgment of its own, so every transaction buffer is free again
when the next datagram arrives.
-/

namespace CoapEap.Hateoas

open ErCoap

/-- What the device is linked with and runs on. `eapPeerSmStep` gets the pointer to a
payload, which is `NULL` or the memory from there on. `deadStack` is the memory from a
local array on when the function that wrote these bytes to it has returned and the
response is serialised. -/
structure Platform (Peer Random : Type) where
  eapPeerSmStep : Peer → Option Bytes → Peer
  eapRespData : Peer → Bytes
  eapKeyAvailable : Peer → Bool
  randomRand : Random → Nat × Random
  wellKnownCoreHandler : Bytes → CoapPacket → CoapPacket → Int → CoapPacket × Int
  deadStack : Bytes → Bytes

/-- The state of the device. `fed` notes with what the peer was stepped. -/
structure Device (Peer Random : Type) where
  peer : Peer
  fed : List (Option Bytes)
  random : Random
  urlString : Bytes
  skipFirstHandlerCall : Bool
  cipherSuitesSent : Bool
  currentMid : UInt16
  coapErrorMessage : Bytes

variable {Peer Random : Type}

/-- `"initHateoasRsc"`. -/
def initialUrl : Bytes :=
  [0x69, 0x6E, 0x69, 0x74, 0x48, 0x61, 0x74, 0x65, 0x6F, 0x61, 0x73, 0x52, 0x73, 0x63]

/-- `".well-known/core"`. -/
def wellKnownCore : Bytes :=
  [0x2E, 0x77, 0x65, 0x6C, 0x6C, 0x2D, 0x6B, 0x6E, 0x6F, 0x77, 0x6E, 0x2F, 0x63, 0x6F, 0x72,
    0x65]

def cborcryptosuite : Bytes := [0x81, 0x00]

/-- The device as `rest_server_example` leaves it before its event loop. -/
def initialDevice (peer : Peer) (random : Random) (mid : UInt16) : Device Peer Random :=
  { peer, fed := [], random, urlString := initialUrl ++ [0], skipFirstHandlerCall := false
    cipherSuitesSent := false, currentMid := mid, coapErrorMessage := [] }

/-- The URL of the resource, `resource_hateoas.url`. -/
def Device.url (d : Device Peer Random) : Bytes := cString d.urlString

/-- `count` rounds of the loop that draws the letters of a new URL. -/
def randomLetters (P : Platform Peer Random) : Nat → Random → Bytes × Random
  | 0, random => ([], random)
  | count + 1, random =>
    let (value, random) := P.randomRand random
    let (letters, random) := randomLetters P count random
    (UInt8.ofNat (0x41 + value % 26) :: letters, random)

/-- The first lines of `hateoas_handler`: from the second call on, the URL is
overwritten with five letters. -/
def renameResource (P : Platform Peer Random) (d : Device Peer Random) : Device Peer Random :=
  if d.skipFirstHandlerCall then
    let (letters, random) := randomLetters P 5 d.random
    { d with random, urlString := letters ++ 0 :: d.urlString.drop 6 }
  else { d with skipFirstHandlerCall := true }

/-- Status, type and location of a response to an EAP request. -/
def setCreated (response : CoapPacket) (url : Bytes) : CoapPacket :=
  coapSetHeaderLocationPath
    (coapSetHeaderContentType (coapSetStatusCode response created) textPlain) url

/-- `hateoas_handler`. The length of the response is that of its EAP header. The first
response keeps a pointer to `tempPayload`, a local array that is gone when
`coap_serialize_message` reads it. -/
def hateoasHandler (P : Platform Peer Random) (d : Device Peer Random)
    (request response : CoapPacket) : Device Peer Random × CoapPacket :=
  let d := renameResource P d
  if P.eapKeyAvailable d.peer then (d, response)
  else
    let payloadData := (coapGetPayload request).1
    let peer := P.eapPeerSmStep d.peer payloadData
    let d := { d with peer, fed := d.fed ++ [payloadData] }
    let eapRespData := P.eapRespData peer
    let len := be16At eapRespData 2
    if d.cipherSuitesSent then
      (d, coapSetPayload (setCreated response d.url) eapRespData len)
    else
      let tempPayload := P.deadStack (readBehind eapRespData [] len ++ cborcryptosuite)
      ({ d with cipherSuitesSent := true },
        setCreated (coapSetPayload response tempPayload (len + 2)) d.url)

/-- What a service callback returns: the response, the offset for a blockwise
transfer, and whether a resource was found and the method allowed. -/
structure Service where
  response : CoapPacket
  newOffset : Int
  allowed : Bool
  deriving DecidableEq, Repr

/-- The REST engine with the two resources of the device. -/
def invokeService (P : Platform Peer Random) (d : Device Peer Random)
    (request response : CoapPacket) (offset : Int) : Device Peer Random × Service :=
  let path := request.uriPath.getD []
  if path = d.url then
    if request.code = coapPost then
      let (d, response) := hateoasHandler P d request response
      (d, ⟨response, offset, true⟩)
    else (d, ⟨coapSetStatusCode response methodNotAllowed, offset, false⟩)
  else if path = wellKnownCore then
    if request.code = coapGet then
      let (response, newOffset) := P.wellKnownCoreHandler d.url request response offset
      (d, ⟨response, newOffset, true⟩)
    else (d, ⟨coapSetStatusCode response methodNotAllowed, offset, false⟩)
  else (d, ⟨coapSetStatusCode response notFound, offset, false⟩)

/-- The part of `coap_receive` on blockwise transfers. -/
def applyBlockwise (message response : CoapPacket) (newOffset : Int) :
    Except CoapError CoapPacket :=
  if message.block1.isSome ∧ response.code < badRequest ∧ response.block1 = none then
    .error ⟨notImplemented, ascii "NoBlock1Support"⟩
  else
    match message.block2 with
    | some block =>
      let size := min block.size restMaxChunkSize
      if newOffset = block.offset then
        if block.offset ≥ response.payloadLen then
          let text := ascii "BlockOutOfScope"
          .ok (coapSetPayload { response with code := badOption } text text.length)
        else
          let left := response.payloadLen - block.offset
          .ok (coapSetPayload (coapSetHeaderBlock2 response block.num (left > size) size)
            ((response.payload.getD []).drop block.offset) (min left size))
      else
        let more := newOffset ≠ -1 ∨ response.payloadLen > size
        let response := coapSetHeaderBlock2 response block.num more size
        if response.payloadLen > size then
          .ok (coapSetPayload response (response.payload.getD []) size)
        else .ok response
    | none =>
      if newOffset ≠ 0 then
        .ok (coapSetPayload
          (coapSetHeaderBlock2 response 0 (newOffset ≠ -1) restMaxChunkSize)
          (response.payload.getD []) (min response.payloadLen restMaxChunkSize))
      else .ok response

/-- From the service callback of `coap_receive` to the datagram to be sent. -/
def finishResponse (message : CoapPacket) (service : Service) : Except CoapError Bytes :=
  let checked : Except CoapError CoapPacket :=
    if service.allowed then applyBlockwise message service.response service.newOffset
    else .ok service.response
  match checked with
  | .error e => .error e
  | .ok response =>
    match coapSerializeMessage response with
    | some datagram => .ok datagram
    | none =>
      .error ⟨packetSerializationError,
        ascii "Serialized header exceeds COAP_MAX_HEADER_SIZE"⟩

/-- The error message of `coap_receive`. The internal codes are all replaced
before the comparison that would make a reset of the answer to a ping. -/
def errorDatagram (mid : UInt16) (e : CoapError) : Bytes :=
  let code := if e.status ≥ 192 then internalServerError else e.status
  let reply := if code = pingResponse then (MessageType.rst, 0) else (MessageType.ack, code)
  (coapSerializeMessage
    (coapSetPayload (coapInitMessage reply.1 reply.2 mid) e.message e.message.length)).getD []

/-- The response that `coap_receive` prepares, with the token mirrored. -/
def prepareResponse (message : CoapPacket) (mid : UInt16) : CoapPacket :=
  coapSetHeaderToken
    (if message.type = .con then coapInitMessage .ack content message.mid
      else coapInitMessage .non content mid) message.token

/-- The requests of `coap_receive`: codes from GET to DELETE. -/
def isRequest (message : CoapPacket) : Bool := 1 ≤ message.code && message.code ≤ 4

/-- The offset that a Block2 option asks for. -/
def blockOffset (message : CoapPacket) : Int :=
  match message.block2 with
  | some block => block.offset
  | none => 0

/-- `coap_receive` on a datagram in the receive buffer, with the memory behind it:
the device afterwards, and the datagram it sends. Requests are not compared with
earlier ones. For an option number that the map of options has no bit for, the `SET_OPTION`
of the source writes behind the map; `coapParseMarked` finds these datagrams. -/
def coapReceive (P : Platform Peer Random) (d : Device Peer Random) (datagram behind : Bytes) :
    Device Peer Random × Option Bytes :=
  let reply (d : Device Peer Random) (mid : UInt16) (e : CoapError) :=
    ({ d with coapErrorMessage := e.message }, some (errorDatagram mid e))
  match coapParseMessage (datagram ++ behind) datagram.length with
  | .error e => reply d (parseHeader (datagram ++ behind)).mid e
  | .ok message =>
    if isRequest message then
      let nextMid := d.currentMid + 1
      let d := if message.type = .con then d else { d with currentMid := nextMid }
      let (d, service) :=
        invokeService P d message (prepareResponse message nextMid) (blockOffset message)
      match finishResponse message service with
      | .error e => reply d message.mid e
      | .ok response => (d, some response)
    else if message.type = .con ∧ message.code = 0 then
      reply d message.mid ⟨pingResponse, d.coapErrorMessage⟩
    else (d, none)

/-- A datagram as it stands in the receive buffer, and what lies behind it. -/
structure Received where
  datagram : Bytes
  behind : Bytes
  deriving DecidableEq, Repr

/-- The device on one datagram. -/
def receive (P : Platform Peer Random) (d : Device Peer Random) (r : Received) :
    Option (Device Peer Random) :=
  some (coapReceive P d r.datagram r.behind).1

/-- The states of a device that was started with some peer, generator and message
identifier. -/
abbrev Reachable (P : Platform Peer Random) (start : Device Peer Random) :
    Device Peer Random → Prop :=
  Library.Runs.Reachable (receive P) start

end CoapEap.Hateoas
