import CoapEap.Controller.Eax

/-!
The AVPs of a PANA message: `insertAvps`, which lets a message grow by the AVPs
that a set of flags asks for, and `getAvp`, which walks a message for one of them.

Lengths are `uint16_t` and wrap. The message is a block of memory of its own, so
a write outside it has no result; a loop has none when it is still running after
the given number of rounds.
-/

open Library

namespace CoapEap.Pana

/-! `panamessages.h`. -/

inductive Avp where
  | auth
  | eapPayload
  | integrityAlg
  | keyId
  | nonce
  | prfAlg
  | resultCode
  | sessionLifetime
  | terminationCause
  | pacInformation
  | relayedMessage
deriving DecidableEq, Repr

def Avp.code : Avp → Nat
  | .auth => 1
  | .eapPayload => 2
  | .integrityAlg => 3
  | .keyId => 4
  | .nonce => 5
  | .prfAlg => 6
  | .resultCode => 7
  | .sessionLifetime => 8
  | .terminationCause => 9
  | .pacInformation => 10
  | .relayedMessage => 11

def Avp.flag : Avp → Nat
  | .auth => 0x0001
  | .eapPayload => 0x0002
  | .integrityAlg => 0x0004
  | .keyId => 0x0008
  | .nonce => 0x0010
  | .prfAlg => 0x0020
  | .resultCode => 0x0040
  | .sessionLifetime => 0x0080
  | .terminationCause => 0x0100
  | .pacInformation => 0x0200
  | .relayedMessage => 0x0400

/-- `sizeof(pana)`. -/
def panaSize : Nat := 16

/-- `sizeof(avp_pana)`. -/
def avpHeaderSize : Nat := 8

/-- `PRF_SUITE`, as the configuration accepts it. -/
inductive PrfSuite where
  | aes128Cbc
  | hmacSha1
deriving DecidableEq, Repr

/-- `AUTH_SUITE`, as the configuration accepts it. -/
inductive AuthSuite where
  | aesCmac
  | hmacSha1
deriving DecidableEq, Repr

/-- The configured suites and what the functions below take from elsewhere: the
values of `rand`, the contents of memory that `realloc` adds, the cipher with the
uninitialised array of `do_omac`, and the keyed hash with SHA-1. -/
structure Setting where
  prfSuite : PrfSuite
  authSuite : AuthSuite
  rand : Nat → UInt32
  fresh : Nat → UInt8
  aesencrypt : Eax.Block → Eax.Block → Eax.Block
  uninitialised : Eax.DataPadded
  prf : Vector UInt8 20 → Bytes → Vector UInt8 20

/-- The array `data` of `insertAvps`, by AVP. -/
structure AvpData where
  eapPayload : Bytes
  integrityAlg : UInt32
  keyId : Vector UInt8 4
  prfAlg : UInt32
  resultCode : UInt32
  sessionLifetime : UInt32
  terminationCause : UInt32
  auth : Vector UInt8 20

/-- A message that has its header at least. -/
structure Message where
  cells : Bytes
  hasHeader : panaSize ≤ cells.length

/-! Numbers in network order. -/

def be32 (n : UInt32) : Bytes :=
  [UInt8.ofNat (n.toNat / 16777216), UInt8.ofNat (n.toNat / 65536), UInt8.ofNat (n.toNat / 256),
    UInt8.ofNat n.toNat]

def ntohl (n : UInt32) : UInt32 := fromLe32 (be32 n)

/-- `ntohs` of what an `int` keeps of itself as a `uint16_t`. -/
def ntohs (n : UInt32) : UInt32 :=
  UInt32.ofNat (256 * (n.toNat % 256) + n.toNat / 256 % 256)

/-- The difference of two numbers as a `uint16_t`. -/
def sub16 (a b : Nat) : Nat := (a + 65536 - b % 65536) % 65536

/-! `panamessages.c`. -/

def isOctetString (type : Nat) : Bool :=
  type == Avp.auth.code || type == Avp.eapPayload.code || type == Avp.nonce.code ||
    type == Avp.pacInformation.code || type == Avp.relayedMessage.code

def paddingOctetString (size : Nat) : Nat :=
  let left4byte := size % 4
  if left4byte ≠ 0 then 4 - left4byte else 0

/-- `identifyAVP`. The authentication comes last, as it covers the message. -/
def identifyAVP (flag : Nat) : Option Avp :=
  if flag &&& Avp.eapPayload.flag ≠ 0 then some .eapPayload
  else if flag &&& Avp.integrityAlg.flag ≠ 0 then some .integrityAlg
  else if flag &&& Avp.keyId.flag ≠ 0 then some .keyId
  else if flag &&& Avp.nonce.flag ≠ 0 then some .nonce
  else if flag &&& Avp.prfAlg.flag ≠ 0 then some .prfAlg
  else if flag &&& Avp.resultCode.flag ≠ 0 then some .resultCode
  else if flag &&& Avp.sessionLifetime.flag ≠ 0 then some .sessionLifetime
  else if flag &&& Avp.terminationCause.flag ≠ 0 then some .terminationCause
  else if flag &&& Avp.auth.flag ≠ 0 then some .auth
  else none

/-- The loop of `getAvp`, over what is left of the message. -/
def getAvpLoop (msg : Bytes) (type : Nat) : (rounds size offset : Nat) → Option (Option Nat)
  | 0, _, _ => none
  | rounds + 1, size, offset =>
    if size = 0 then some none
    else
      let code := be16At msg offset
      if code = type then some (some offset)
      else
        let length := be16At msg (offset + 4)
        let padding := if isOctetString code then paddingOctetString length else 0
        let step := avpHeaderSize + length + padding
        getAvpLoop msg type rounds (sub16 size step) ((offset + step) % 65536)

/-- `getAvp`: where the AVP of a code starts, if the message has one. -/
def getAvp (rounds : Nat) (msg : Bytes) (type : Nat) : Option (Option Nat) :=
  if type < Avp.auth.code ∨ Avp.relayedMessage.code < type then some none
  else getAvpLoop msg type rounds (sub16 (be16At msg 2) panaSize) panaSize

/-- What `do_omac` reads of a key of `AUTH_KEY_LENGTH` bytes. -/
def aesKey (key : Vector UInt8 20) : Eax.Block := Vector.ofFn fun i : Fin 16 => key[i.val]

/-- What `AUTH_SUITE` computes over a message, sixteen or twenty bytes. -/
def digest (p : Setting) (key : Vector UInt8 20) (msg : Bytes) : Option Bytes :=
  match p.authSuite with
  | .aesCmac => do
    let mac ← Eax.doOmac p.aesencrypt p.uninitialised (aesKey key) msg
    some mac.toList
  | .hmacSha1 => some (p.prf key msg).toList

/-- `hashAuth`, with the message as it leaves it. -/
def hashAuth (p : Setting) (rounds : Nat) (msg : Bytes) (key : Vector UInt8 20) : Option Bytes := do
  match ← getAvp rounds msg Avp.auth.code with
  | none => some msg
  | some elmnt =>
    let mac ← digest p key (msg.take (be16At msg 2))
    Buffer.write msg (elmnt + avpHeaderSize) mac

/-- The length of the value, as the first switch of `insertAvps` decides it. -/
def valueLength (p : Setting) (data : AvpData) : Avp → Nat
  | .nonce =>
    match p.prfSuite with
    | .aes128Cbc => 8
    | .hmacSha1 => 20
  | .eapPayload => data.eapPayload.length
  | .auth =>
    match p.authSuite with
    | .aesCmac => 16
    | .hmacSha1 => 20
  | _ => 4

/-- `XREALLOC`: what fits is kept, what is new is not initialised. -/
def realloc (p : Setting) (msg : Bytes) (size : Nat) : Bytes :=
  (List.range size).map fun i => msg.getD i (p.fresh i)

/-- The stores to `flags`, `reserved`, `length` and `code` through `elmnt`. -/
def writeHeader (msg : Bytes) (position code length : Nat) : Option Bytes := do
  let msg ← Buffer.write msg (position + 2) [0, 0]
  let msg ← Buffer.write msg (position + 6) [0, 0]
  let msg ← Buffer.write msg (position + 4) (be16 length)
  Buffer.write msg position (be16 code)

/-- The loop that fills a nonce of `length` bytes, one `rand` for each step of four.
The last step has less than a whole number to copy. -/
def nonceLoop (p : Setting) (start length : Nat) : (i : Nat) → (steps : Nat) → Bytes → Option Bytes
  | _, 0, msg => some msg
  | i, steps + 1, msg => do
    let random := le32 (p.rand (i / 4))
    let msg ←
      if i + 4 ≤ length then Buffer.write msg (start + i) random
      else Buffer.write msg (start + i) (random.take (length % 4))
    nonceLoop p start length (i + 4) steps msg

/-- The second switch of `insertAvps`, for the AVP at `position`. -/
def writeValue (p : Setting) (rounds : Nat) (data : AvpData)
    (position avpsize padding totalsize : Nat) (msg : Bytes) : Avp → Option Bytes
  | .integrityAlg => Buffer.write msg (position + avpHeaderSize) (le32 (ntohl data.integrityAlg))
  | .keyId => Buffer.write msg (position + avpHeaderSize) data.keyId.toList
  | .nonce => do
    let length := sub16 avpsize avpHeaderSize
    let msg ← nonceLoop p (position + avpHeaderSize) length 0 (length / 4 + 1) msg
    Buffer.write msg (position + avpsize) (List.replicate padding 0)
  | .prfAlg => Buffer.write msg (position + avpHeaderSize) (le32 (ntohl data.prfAlg))
  | .resultCode => Buffer.write msg (position + avpHeaderSize) (le32 (ntohl data.resultCode))
  | .sessionLifetime =>
    Buffer.write msg (position + avpHeaderSize) (le32 (ntohl data.sessionLifetime))
  | .terminationCause =>
    -- an `int` of which `ntohs` sees sixteen bits
    Buffer.write msg (position + avpHeaderSize) (le32 (ntohs data.terminationCause))
  | .eapPayload => do
    let msg ← Buffer.write msg (position + avpHeaderSize) data.eapPayload
    Buffer.write msg (position + avpsize) (List.replicate padding 0)
  | .auth => do
    let zeros := List.replicate (sub16 avpsize avpHeaderSize + padding) 0
    let msg ← Buffer.write msg (position + avpHeaderSize) zeros
    let msg ← Buffer.write msg 2 (be16 totalsize)
    hashAuth p rounds msg data.auth
  | .pacInformation => some msg
  | .relayedMessage => some msg

/-- The variables of the loop of `insertAvps`. -/
structure Inserting where
  avps : Nat
  msg : Bytes
  totalsize : Nat
  stride : Nat
  avpsize : Nat

/-- One round: the AVP that `identifyAVP` names is put behind the others. -/
def insertAvp (p : Setting) (rounds : Nat) (data : AvpData) (s : Inserting) :
    Option Inserting := do
  let act := identifyAVP (s.avps % 65536)
  let code := (act.map Avp.code).getD 0
  let avps := s.avps - (act.map Avp.flag).getD 0
  let avpsize := (act.map fun a => (avpHeaderSize + valueLength p data a) % 65536).getD s.avpsize
  let padding := if isOctetString code then paddingOctetString (sub16 avpsize avpHeaderSize) else 0
  let totalsize := (s.totalsize + avpsize + padding) % 65536
  let msg := realloc p s.msg totalsize
  let position := s.stride
  let msg ← writeHeader msg position code (sub16 avpsize avpHeaderSize)
  let msg ←
    match act with
    | some a => writeValue p rounds data position avpsize padding totalsize msg a
    | none => some msg
  some { avps, msg, totalsize, stride := (s.stride + avpsize + padding) % 65536, avpsize }

def insertLoop (p : Setting) (rounds : Nat) (data : AvpData) : Nat → Inserting → Option Inserting
  | 0, _ => none
  | n + 1, s =>
    if s.avps = 0 then some s
    else do
      let s ← insertAvp p rounds data s
      insertLoop p rounds data n s

/-- `insertAvps`: the message as it leaves it, and the size it returns. -/
def insertAvps (p : Setting) (rounds : Nat) (message : Message) (avps : Nat) (data : AvpData) :
    Option (Bytes × Nat) :=
  if avps = 0 then some (message.cells, 0)
  else do
    let s ← insertLoop p rounds data rounds
      { avps, msg := message.cells, totalsize := panaSize, stride := panaSize, avpsize := 0 }
    let msg ← Buffer.write s.msg 2 (be16 s.totalsize)
    some (msg, s.totalsize)

end CoapEap.Pana
