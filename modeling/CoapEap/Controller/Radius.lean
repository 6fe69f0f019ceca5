import CoapEap.Bytes

/-!
RADIUS as the controller's client uses it (`radius.c`, `radius_client.c`): the
parsing of a datagram into attributes, the list of Access-Requests that wait
for an answer, and the checks an answer passes. MD5 and HMAC-MD5 are a
parameter; the shared secret is part of it.

The attributes of an Access-Request that never differ between requests (NAS
address, station identifier, MTU, port type, connect information) are left out.
-/

namespace CoapEap.Radius

def accessRequest : Nat := 1
def accessAccept : Nat := 2
def accessReject : Nat := 3
def accessChallenge : Nat := 11

def attrState : Nat := 24
def attrVendorSpecific : Nat := 26
def attrEapMessage : Nat := 79
def attrMessageAuthenticator : Nat := 80

def vendorMicrosoft : Nat := 311
def msMppeSendKey : Nat := 16
def msMppeRecvKey : Nat := 17

def radiusMaxAttrLen : Nat := 253
def radiusClientMaxEntries : Nat := 30

/-- `struct radius_msg` of a parsed datagram: header and attributes. -/
structure RadiusMsg where
  code : Nat
  identifier : UInt8
  authenticator : Bytes
  attrs : List (Nat × Bytes)
  deriving DecidableEq, Repr

/-- An Access-Request as it is sent and kept until it is answered. -/
structure AccessRequest where
  identifier : UInt8
  authenticator : Bytes
  userName : Option Bytes
  eapMessage : Bytes
  state : List Bytes
  deriving DecidableEq, Repr

/-- The digests that MD5, HMAC-MD5 and the shared secret determine: of an answer
with the authenticator of its request put in, and of an encrypted key. -/
structure Digests where
  messageAuthenticator : RadiusMsg → Bytes → Bytes
  responseAuthenticator : RadiusMsg → Bytes → Bytes
  decryptMsKey : Bytes → Bytes → Option Bytes

/-- The attribute loop of `radius_msg_parse`. -/
def parseAttrs : Nat → Bytes → Option (List (Nat × Bytes))
  | 0, _ => none
  | fuel + 1, rest =>
    if rest.length = 0 then some []
    else if rest.length < 2 then none
    else
      let length := byteAt rest 1
      if length > rest.length ∨ length < 2 then none
      else
        (parseAttrs fuel (rest.drop length)).map fun attrs =>
          (byteAt rest 0, (rest.take length).drop 2) :: attrs

/-- `radius_msg_parse`. Every round of the loop takes at least two bytes. -/
def radiusMsgParse (data : Bytes) : Option RadiusMsg :=
  if data.length < 20 then none
  else
    let msgLen := be16At data 2
    if msgLen < 20 ∨ msgLen > data.length then none
    else
      (parseAttrs msgLen ((data.take msgLen).drop 20)).map fun attrs =>
        { code := byteAt data 0
          identifier := UInt8.ofNat (byteAt data 1)
          authenticator := (data.drop 4).take 16
          attrs }

/-- `sizeof(struct radius_msg)`: three pointers and two `size_t`. -/
def radiusMsgSize : Nat := 5 * 4

/-- The task of a datagram gets as many bytes of the parsed structure as the datagram
has, and these are all of it. -/
theorem radiusMsgSize_le {data : Bytes} {msg : RadiusMsg} (h : radiusMsgParse data = some msg) :
    radiusMsgSize ≤ data.length := by
  unfold radiusMsgParse at h
  split at h
  · simp at h
  · rename_i hlong
    exact Nat.le_of_not_lt hlong

/-- The values of the attributes of a type, in order. -/
def attrValues (msg : RadiusMsg) (type : Nat) : List Bytes :=
  (msg.attrs.filter fun attr => attr.1 = type).map Prod.snd

/-- `radius_msg_get_eap`: the fragments joined, `NULL` when there is no byte. -/
def radiusMsgGetEap (msg : RadiusMsg) : Option Bytes :=
  let eap := (attrValues msg attrEapMessage).flatten
  if eap = [] then none else some eap

/-- `radius_msg_verify` returns success. -/
def radiusMsgVerify (digests : Digests) (msg : RadiusMsg) (req : AccessRequest) : Bool :=
  match attrValues msg attrMessageAuthenticator with
  | [value] =>
    16 ≤ value.length && value.take 16 = digests.messageAuthenticator msg req.authenticator &&
      digests.responseAuthenticator msg req.authenticator = msg.authenticator
  | _ => false

/-- The walk of `radius_msg_get_vendor_attr` inside one attribute. -/
def vendorSubtype (subtype : Nat) : Nat → Bytes → Option Bytes
  | 0, _ => none
  | fuel + 1, rest =>
    if rest.length < 2 then none
    else
      let length := byteAt rest 1
      if length > rest.length ∨ length < 2 then none
      else if byteAt rest 0 ≠ subtype then vendorSubtype subtype fuel (rest.drop length)
      else some ((rest.take length).drop 2)

/-- `radius_msg_get_vendor_attr` for the attributes of one vendor. -/
def radiusMsgGetVendorAttr (msg : RadiusMsg) (vendor subtype : Nat) : Option Bytes :=
  (attrValues msg attrVendorSpecific).findSome? fun value =>
    if value.length < 4 then none
    else if 65536 * be16At value 0 + be16At value 2 ≠ vendor then none
    else vendorSubtype subtype value.length (value.drop 4)

/-- The MPPE keys of an answer as `eap_auth_get_keys` joins them, when together
they have 64 bytes. The keys of the other vendor that it looks for in the
absence of both never have. -/
def masterSessionKey (digests : Digests) (msg : RadiusMsg) (req : AccessRequest) :
    Option Bytes :=
  let key (subtype : Nat) : Option Bytes :=
    (radiusMsgGetVendorAttr msg vendorMicrosoft subtype).bind
      fun value => digests.decryptMsKey value req.authenticator
  match key msMppeRecvKey with
  | none => none
  | some recv =>
    let joined := recv ++ (key msMppeSendKey).getD []
    if joined.length = 64 then some joined else none

/-- An entry of the retransmission list: the request and the session that sent
it. -/
structure RadiusMsgList where
  msg : AccessRequest
  session : Nat
  deriving DecidableEq, Repr

/-- `struct radius_client_data`. -/
structure RadiusClient where
  msgs : List RadiusMsgList := []
  numMsgs : Nat := 0
  nextRadiusIdentifier : UInt8 := 0
  deriving DecidableEq, Repr

/-- `radius_client_get_id`: the identifier and the client without the requests
that waited under it. -/
def radiusClientGetId (radius : RadiusClient) : UInt8 × RadiusClient :=
  let id := radius.nextRadiusIdentifier
  (id, { radius with
    nextRadiusIdentifier := id + 1
    msgs := radius.msgs.filter fun entry => entry.msg.identifier ≠ id })

/-- `radius_client_list_add`, which `radius_client_send` calls. The oldest entry
goes when the list is full by its own count. -/
def radiusClientListAdd (radius : RadiusClient) (entry : RadiusMsgList) : RadiusClient :=
  if radius.numMsgs ≥ radiusClientMaxEntries then
    { radius with
      msgs := entry :: radius.msgs.dropLast }
  else { radius with msgs := entry :: radius.msgs, numMsgs := radius.numMsgs + 1 }

/-- The first entry with the identifier of an answer. -/
def matching (radius : RadiusClient) (identifier : UInt8) : Option RadiusMsgList :=
  radius.msgs.find? fun entry => entry.msg.identifier = identifier

/-- The client after the entry of an answer was taken off the list. -/
def removeMatching (radius : RadiusClient) (identifier : UInt8) : RadiusClient :=
  { radius with
    msgs := radius.msgs.eraseP fun entry => entry.msg.identifier = identifier
    numMsgs := radius.numMsgs - 1 }

end CoapEap.Radius
