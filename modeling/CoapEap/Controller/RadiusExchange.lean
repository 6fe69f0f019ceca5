import CoapEap.Controller.Handlers
import CoapEap.Controller.RadiusAuthenticity
import CoapEap.Controller.RadiusKeys

/-!
RADIUS messages from their parts: an answer as a server builds it with `radius.c`, and
the Access-Request of `eap_auth_encapsulate_radius`. With the digests of the byte-level
code in the place of the parameter of `Radius.lean`, the checks of the controller pass
on every answer that was built for the request, and the controller gets the EAP message
and the keys that were put in.
-/

namespace CoapEap.Radius

open Library.Records

/-- The digests that the code computes. -/
def digestsOf (md5 : Bytes → Bytes) (secret : Bytes) : Digests :=
  { messageAuthenticator := messageAuthenticatorOf md5 secret
    responseAuthenticator := responseAuthenticatorOf md5 secret
    decryptMsKey := decryptMsKey md5 secret }

/-- What is added to a message by one call. -/
inductive Part
  | attr (type : UInt8) (data : Bytes)
  | eap (data : Bytes)
  | mppeKeys (reqAuthenticator sendKey recvKey : Bytes) (random : UInt16)
  deriving DecidableEq, Repr

def addPart (md5 : Bytes → Bytes) (secret : Bytes) (m : RadiusBuf) : Part → Option RadiusBuf
  | .attr type data => radiusMsgAddAttr m type.toNat data
  | .eap data => radiusMsgAddEap m data
  | .mppeKeys reqAuthenticator sendKey recvKey random =>
    radiusMsgAddMppeKeys md5 m reqAuthenticator secret sendKey recvKey random

def addParts (md5 : Bytes → Bytes) (secret : Bytes) (m : RadiusBuf) (parts : List Part) :
    Option RadiusBuf :=
  parts.foldlM (addPart md5 secret) m

/-- The pieces that `radius_msg_add_eap` cuts. -/
def fragments : Nat → Bytes → List Bytes
  | 0, _ => []
  | fuel + 1, data =>
    if data.length = 0 then []
    else data.take radiusMaxAttrLen :: fragments fuel (data.drop radiusMaxAttrLen)

def partAttrs (md5 : Bytes → Bytes) (secret : Bytes) : Part → List (Nat × Bytes)
  | .attr type data => [(type.toNat, data)]
  | .eap data => (fragments data.length data).map fun piece => (attrEapMessage, piece)
  | .mppeKeys reqAuthenticator sendKey recvKey random =>
    let salt := random ||| 0x8000
    [(attrVendorSpecific, msKeyAttr md5 secret msMppeSendKey sendKey salt reqAuthenticator),
      (attrVendorSpecific, msKeyAttr md5 secret msMppeRecvKey recvKey (salt ^^^ 1)
        reqAuthenticator)]

def partsAttrs (md5 : Bytes → Bytes) (secret : Bytes) (parts : List Part) : List (Nat × Bytes) :=
  parts.flatMap (partAttrs md5 secret)

variable {md5 : Bytes → Bytes} {secret reqAuth length data : Bytes} {m m' : RadiusBuf}
variable {msg : RadiusMsg} {parts : List Part} {part : Part}

theorem fragments_flatten {fuel : Nat} (hfuel : data.length ≤ fuel) :
    (fragments fuel data).flatten = data := by
  induction fuel generalizing data with
  | zero =>
    rw [List.length_eq_zero_iff.mp (Nat.le_zero.mp hfuel)]
    rfl
  | succ fuel ih =>
    simp only [fragments]
    split
    · rename_i hnone
      rw [List.length_eq_zero_iff.mp hnone]
      rfl
    · have hrest : (data.drop radiusMaxAttrLen).length ≤ fuel := by
        rw [List.length_drop, radiusMaxAttrLen]
        omega
      rw [List.flatten_cons, ih hrest, List.take_append_drop]

/-- The loop of `radius_msg_add_eap` adds one attribute for each piece. -/
theorem Holds.addEapFrom {fuel : Nat} (h : Holds m length msg)
    (hadd : addEapFrom fuel m data = some m') :
    Holds m' length { msg with
      attrs := msg.attrs ++ (fragments fuel data).map fun piece => (attrEapMessage, piece) } := by
  induction fuel generalizing m msg data with
  | zero =>
    simp only [Radius.addEapFrom, Option.some.injEq] at hadd
    simpa [fragments, hadd] using h
  | succ fuel ih =>
    simp only [Radius.addEapFrom, fragments] at hadd ⊢
    split at hadd
    · rename_i hnone
      simp only [Option.some.injEq] at hadd
      rw [if_pos hnone]
      simpa [hadd] using h
    · rename_i hsome
      rw [if_neg hsome]
      have hlen : data.take (if data.length > radiusMaxAttrLen then radiusMaxAttrLen
            else data.length) = data.take radiusMaxAttrLen ∧
          data.drop (if data.length > radiusMaxAttrLen then radiusMaxAttrLen
            else data.length) = data.drop radiusMaxAttrLen := by
        split
        · exact ⟨rfl, rfl⟩
        · rename_i hshort
          rw [Nat.not_lt] at hshort
          rw [List.take_length, List.drop_length, List.take_of_length_le hshort,
            List.drop_eq_nil_of_le hshort]
          exact ⟨rfl, rfl⟩
      simp only [hlen.1, hlen.2, Option.bind_eq_some_iff] at hadd
      obtain ⟨added, hfirst, hrest⟩ := hadd
      have hmore := ih (h.addAttr (by decide) hfirst) hrest
      simpa using hmore

/-- The vendor attributes of both keys stand one after the other. -/
theorem Holds.addMppeKeys {sendKey recvKey : Bytes} {random : UInt16} (h : Holds m length msg)
    (hadd : radiusMsgAddMppeKeys md5 m reqAuth secret sendKey recvKey random = some m') :
    Holds m' length { msg with
      attrs := msg.attrs ++ partAttrs md5 secret (.mppeKeys reqAuth sendKey recvKey random) } := by
  simp only [radiusMsgAddMppeKeys, Option.bind_eq_bind, Option.bind_eq_some_iff] at hadd
  obtain ⟨added, hsend, hrecv⟩ := hadd
  have hboth := (h.addAttr (by decide) hsend).addAttr (by decide) hrecv
  simpa [partAttrs] using hboth

theorem Holds.addPart (h : Holds m length msg) (hadd : addPart md5 secret m part = some m') :
    Holds m' length { msg with attrs := msg.attrs ++ partAttrs md5 secret part } := by
  cases part with
  | attr type data => exact h.addAttr (UInt8.toNat_lt type) hadd
  | eap data => exact h.addEapFrom hadd
  | mppeKeys reqAuthenticator sendKey recvKey random => exact h.addMppeKeys hadd

/-- The parts of a message stand in its buffer in order. -/
theorem Holds.addParts (h : Holds m length msg) (hadd : addParts md5 secret m parts = some m') :
    Holds m' length { msg with attrs := msg.attrs ++ partsAttrs md5 secret parts } := by
  induction parts generalizing m msg with
  | nil =>
    simp only [Radius.addParts, List.foldlM_nil, Option.pure_def, Option.some.injEq] at hadd
    simpa [partsAttrs, hadd] using h
  | cons part parts ih =>
    simp only [Radius.addParts, List.foldlM_cons, Option.bind_eq_bind,
      Option.bind_eq_some_iff] at hadd
    obtain ⟨added, hfirst, hrest⟩ := hadd
    simpa [partsAttrs] using ih (h.addPart hfirst) hrest

/-- An answer that was finished for a request passes the checks against it. -/
theorem radiusMsgVerify_answered (hmd5 : ∀ data, (md5 data).length = md5MacLen)
    (hother : ∀ attr ∈ msg.attrs, attr.1 ≠ attrMessageAuthenticator) (req : AccessRequest) :
    radiusMsgVerify (digestsOf md5 secret) (answered md5 secret msg req.authenticator) req =
      true := by
  have hmac := hmacMd5_length hmd5 secret (encodeMsg (withMac
    { msg with authenticator := req.authenticator } (List.replicate md5MacLen 0)))
  set mac := hmacMd5 md5 secret (encodeMsg (withMac
    { msg with authenticator := req.authenticator } (List.replicate md5MacLen 0))) with hdef
  have hattrs : (answered md5 secret msg req.authenticator).attrs =
      msg.attrs ++ [(attrMessageAuthenticator, mac)] := rfl
  have hvalues : attrValues (answered md5 secret msg req.authenticator) attrMessageAuthenticator =
      [mac] := by
    have hnone : msg.attrs.filter (fun attr => attr.1 = attrMessageAuthenticator) = [] := by
      rw [List.filter_eq_nil_iff]
      simpa using hother
    rw [attrValues, hattrs, List.filter_append, hnone]
    rfl
  have hblank : (answered md5 secret msg req.authenticator).attrs.map blanked =
      msg.attrs ++ [(attrMessageAuthenticator, List.replicate md5MacLen 0)] := by
    have hdrop : mac.drop md5MacLen = [] := List.drop_eq_nil_of_le (Nat.le_of_eq hmac)
    rw [hattrs, List.map_append, map_blanked hother, List.map_singleton, blanked, if_pos rfl,
      hdrop, List.append_nil]
  have hdigest : (digestsOf md5 secret).messageAuthenticator
      (answered md5 secret msg req.authenticator) req.authenticator = mac := by
    simp only [digestsOf, messageAuthenticatorOf, hblank]
    rfl
  have hresponse : (digestsOf md5 secret).responseAuthenticator
      (answered md5 secret msg req.authenticator) req.authenticator =
        (answered md5 secret msg req.authenticator).authenticator := by
    simp only [digestsOf, responseAuthenticatorOf, take_encodeMsg]
    rfl
  have hwhole : mac.take 16 = mac := List.take_of_length_le (Nat.le_of_eq hmac)
  have hlong : 16 ≤ mac.length := Nat.le_of_eq hmac.symm
  simp only [radiusMsgVerify, hvalues, hdigest, hresponse, hwhole, hlong, decide_true,
    Bool.and_self]

/-- `radius_msg_verify` on a received datagram leaves the copy of it exactly when the
only Message-Authenticator stands less than 16 bytes before its end; where every
Message-Authenticator has 16 bytes it decides as the check on the parsed message. -/
theorem radiusMsgVerify_received (md5 : Bytes → Bytes) (secret : Bytes) (req : AccessRequest)
    (hreq : req.authenticator.length = 16) (data : Bytes) (m : RadiusBuf)
    (hparse : radiusMsgParseBuf data = some m) :
    (radiusMsgVerifyBuf md5 m secret req.authenticator = none ↔
      ∃ front value back, m.view.attrs = front ++ (attrMessageAuthenticator, value) :: back ∧
        (∀ attr ∈ front, attr.1 ≠ attrMessageAuthenticator) ∧
        (∀ attr ∈ back, attr.1 ≠ attrMessageAuthenticator) ∧
        value.length + (writeAll writeAttr back).length < 16) ∧
      ((∀ value ∈ attrValues m.view attrMessageAuthenticator, 16 ≤ value.length) →
        radiusMsgVerifyBuf md5 m secret req.authenticator =
          some (radiusMsgVerify (digestsOf md5 secret) m.view req)) := by
  obtain ⟨msg, -, -, -, -, hholds⟩ := radiusMsgParseBuf_some hparse
  rw [hholds.view]
  refine ⟨radiusMsgVerifyBuf_eq_none_iff hholds hreq, ?_⟩
  intro hlong
  match hvalues : attrValues msg attrMessageAuthenticator with
  | [value] =>
    have hvalue : 16 ≤ value.length := hlong value (by simp [hvalues])
    have hswap : decide (messageAuthenticatorOf md5 secret msg req.authenticator =
          value.take md5MacLen) =
        decide (value.take 16 = messageAuthenticatorOf md5 secret msg req.authenticator) :=
      decide_eq_decide.mpr eq_comm
    rw [radiusMsgVerifyBuf_single hholds hvalues hvalue hreq, hswap]
    simp only [radiusMsgVerify, hvalues, hvalue, decide_true, Bool.true_and]
    rfl
  | [] =>
    rw [radiusMsgVerifyBuf_other hholds (by simp [hvalues])]
    simp only [radiusMsgVerify, hvalues]
  | _ :: _ :: _ =>
    rw [radiusMsgVerifyBuf_other hholds (by simp [hvalues])]
    simp only [radiusMsgVerify, hvalues]

/-- An Access-Accept whose last attribute is an empty Message-Authenticator. -/
theorem short_authenticator_received :
    radiusMsgVerifyBuf Radius.md5 ⟨[2, 1, 0, 22] ++ List.replicate 16 0 ++ [80, 2], [20]⟩ [0x73]
      (List.replicate 16 9) = none :=
  (radiusMsgVerify_received Radius.md5 [0x73] ⟨1, List.replicate 16 9, none, [], []⟩ rfl
    ([2, 1, 0, 22] ++ List.replicate 16 0 ++ [80, 2]) _ (by decide)).1.mpr
      ⟨[], [], [], by decide, by decide, by decide, by decide⟩

/-- The EAP bytes that the parts of a message add. -/
def eapOf : Part → Bytes
  | .eap data => data
  | _ => []

/-- Only `radius_msg_add_eap` and `radius_msg_finish_srv` add attributes of their types. -/
def Part.plain : Part → Prop
  | .attr type _ => type.toNat ≠ attrEapMessage ∧ type.toNat ≠ attrMessageAuthenticator
  | _ => True

/-- The EAP fragments in the attributes of one part. -/
theorem eap_partAttrs (hplain : part.plain) :
    ((partAttrs md5 secret part).filter fun attr => attr.1 = attrEapMessage).flatMap Prod.snd =
      eapOf part := by
  cases part with
  | attr type data => simp [partAttrs, hplain.1, eapOf]
  | eap data =>
    have hall : ((fragments data.length data).map fun piece => (attrEapMessage, piece)).filter
        (fun attr => attr.1 = attrEapMessage) =
          (fragments data.length data).map fun piece => (attrEapMessage, piece) := by
      rw [List.filter_eq_self]
      simp
    rw [partAttrs, hall, List.flatMap_map, eapOf]
    simpa [List.flatMap_id] using fragments_flatten (Nat.le_refl data.length)
  | mppeKeys reqAuthenticator sendKey recvKey random =>
    simp [partAttrs, eapOf, attrVendorSpecific, attrEapMessage]

theorem not_msgAuth_partAttrs (hplain : part.plain) :
    ∀ attr ∈ partAttrs md5 secret part, attr.1 ≠ attrMessageAuthenticator := by
  cases part with
  | attr type data => simpa [partAttrs] using hplain.2
  | eap data =>
    intro attr hattr
    obtain ⟨piece, -, rfl⟩ := List.mem_map.mp hattr
    simp [attrEapMessage, attrMessageAuthenticator]
  | mppeKeys reqAuthenticator sendKey recvKey random =>
    simp [partAttrs, attrVendorSpecific, attrMessageAuthenticator]

theorem eap_partsAttrs (md5 : Bytes → Bytes) (secret : Bytes)
    (hplain : ∀ part ∈ parts, part.plain) :
    ((partsAttrs md5 secret parts).filter fun attr => attr.1 = attrEapMessage).flatMap Prod.snd =
      parts.flatMap eapOf := by
  induction parts with
  | nil => rfl
  | cons part parts ih =>
    rw [List.forall_mem_cons] at hplain
    simp only [partsAttrs, List.flatMap_cons, List.filter_append, List.flatMap_append] at ih ⊢
    rw [eap_partAttrs hplain.1, ih hplain.2]

theorem not_msgAuth_partsAttrs (hplain : ∀ part ∈ parts, part.plain) :
    ∀ attr ∈ partsAttrs md5 secret parts, attr.1 ≠ attrMessageAuthenticator := by
  intro attr hattr
  obtain ⟨part, hpart, hmem⟩ := List.mem_flatMap.mp hattr
  exact not_msgAuth_partAttrs (hplain part hpart) attr hmem

/-- The message that is built from parts for a request. -/
def answerOf (md5 : Bytes → Bytes) (secret : Bytes) (code identifier : UInt8)
    (parts : List Part) (reqAuth : Bytes) : RadiusMsg :=
  answered md5 secret
    ⟨code.toNat, identifier, List.replicate 16 0, partsAttrs md5 secret parts⟩ reqAuth

/-- The buffer after `radius_msg_finish_srv` is the encoding of this message. -/
theorem finished_answer (hmd5 : ∀ data, (md5 data).length = md5MacLen) {code identifier : UInt8}
    (hreq : reqAuth.length = 16)
    (hbuilt : addParts md5 secret (radiusMsgNew code.toNat identifier) parts = some m)
    (hfinish : radiusMsgFinishSrv md5 m secret reqAuth = some m') (extra : Bytes) :
    radiusMsgParse (m'.buf ++ extra) =
      some (answerOf md5 secret code identifier parts reqAuth) := by
  have hholds := (holds_radiusMsgNew (UInt8.toNat_lt code) identifier).addParts hbuilt
  rw [radiusMsgFinishSrv_eq hholds hmd5 hreq, Option.ite_none_left_eq_some] at hfinish
  obtain ⟨hlength, hbuf⟩ := hfinish
  simp only [List.nil_append, Option.some.injEq] at hlength hbuf
  rw [← hbuf]
  have hrequested : RadiusMsg.Fits
      ⟨code.toNat, identifier, reqAuth, partsAttrs md5 secret parts⟩ :=
    ⟨UInt8.toNat_lt code, hreq, hholds.fits.attrs⟩
  have hsigned := withMac_fits hrequested (hmacMd5_length hmd5 secret
    (encodeMsg (withMac ⟨code.toNat, identifier, reqAuth, partsAttrs md5 secret parts⟩
      (List.replicate md5MacLen 0))))
  have hanswered : (answerOf md5 secret code identifier parts reqAuth).Fits :=
    ⟨hsigned.code, hmd5 _, hsigned.attrs⟩
  refine radiusMsgParse_encodeMsg hanswered (Nat.lt_of_not_le ?_) extra
  exact fun hlong => hlength (Nat.lt_of_lt_of_le (by decide) hlong)

/-- An answer that is built with `radius.c` and the same secret for a waiting request is
parsed by the controller to what was put into it, whatever follows it in the datagram,
it passes the checks, and its EAP message is the one that was added. -/
theorem built_answer_received (md5 : Bytes → Bytes)
    (hmd5 : ∀ data, (md5 data).length = md5MacLen) (secret : Bytes) (code identifier : UInt8)
    (parts : List Part) (hplain : ∀ part ∈ parts, part.plain) (req : AccessRequest)
    (hreq : req.authenticator.length = 16) (m m' : RadiusBuf)
    (hbuilt : addParts md5 secret (radiusMsgNew code.toNat identifier) parts = some m)
    (hfinish : radiusMsgFinishSrv md5 m secret req.authenticator = some m') (extra : Bytes) :
    ∃ msg mac, radiusMsgParse (m'.buf ++ extra) = some msg ∧ msg.code = code.toNat ∧
      msg.identifier = identifier ∧
      msg.attrs = partsAttrs md5 secret parts ++ [(attrMessageAuthenticator, mac)] ∧
      radiusMsgVerify (digestsOf md5 secret) msg req = true ∧
      radiusMsgGetEap msg =
        if parts.flatMap eapOf = [] then none else some (parts.flatMap eapOf) := by
  refine ⟨answerOf md5 secret code identifier parts req.authenticator, _,
    finished_answer hmd5 hreq hbuilt hfinish extra, rfl, rfl, rfl,
    radiusMsgVerify_answered hmd5 (not_msgAuth_partsAttrs hplain) req, ?_⟩
  have heap : (attrValues (answerOf md5 secret code identifier parts req.authenticator)
      attrEapMessage).flatten = parts.flatMap eapOf := by
    rw [← eap_partsAttrs md5 secret hplain, attrValues, ← List.flatMap_def]
    simp [answerOf, answered, signed, withMac, attrMessageAuthenticator, attrEapMessage]
  rw [radiusMsgGetEap]
  simp only [heap]

/-- An Access-Challenge with an EAP message, and a State that the request brought. -/
theorem challenge_received :
    ∃ m m', addParts Radius.md5 [0x73] (radiusMsgNew 11 7) [.eap [1, 9, 0, 6, 4, 1], .attr 24 [5]] =
        some m ∧ radiusMsgFinishSrv Radius.md5 m [0x73] (List.replicate 16 9) = some m' ∧
      ∃ msg mac, radiusMsgParse (m'.buf ++ []) = some msg ∧ msg.code = 11 ∧ msg.identifier = 7 ∧
        msg.attrs = partsAttrs Radius.md5 [0x73] [.eap [1, 9, 0, 6, 4, 1], .attr 24 [5]] ++
          [(attrMessageAuthenticator, mac)] ∧
        radiusMsgVerify (digestsOf Radius.md5 [0x73]) msg ⟨7, List.replicate 16 9, none, [], []⟩ =
          true ∧
        radiusMsgGetEap msg = some [1, 9, 0, 6, 4, 1] := by
  have hfinished : ((addParts Radius.md5 [0x73] (radiusMsgNew 11 7)
      [.eap [1, 9, 0, 6, 4, 1], .attr 24 [5]]).bind fun m =>
        radiusMsgFinishSrv Radius.md5 m [0x73] (List.replicate 16 9)).isSome = true := by
    decide +kernel
  obtain ⟨m', hsome⟩ := Option.isSome_iff_exists.mp hfinished
  obtain ⟨m, hbuilt, hfinish⟩ := Option.bind_eq_some_iff.mp hsome
  have hplain : ∀ part ∈ [Part.eap [1, 9, 0, 6, 4, 1], .attr 24 [5]], part.plain := by
    simp [Part.plain, attrEapMessage, attrMessageAuthenticator]
  exact ⟨m, m', hbuilt, hfinish, built_answer_received Radius.md5 md5_length [0x73] 11 7 _ hplain
    ⟨7, List.replicate 16 9, none, [], []⟩ rfl m m' hbuilt hfinish []⟩

/-- The parts that add no Vendor-Specific attribute. -/
def Part.keyless : Part → Prop
  | .attr type _ => type.toNat ≠ attrVendorSpecific
  | .eap _ => True
  | .mppeKeys _ _ _ _ => False

theorem not_vendor_partsAttrs (md5 : Bytes → Bytes) (secret : Bytes)
    (hkeyless : ∀ part ∈ parts, part.keyless) :
    (partsAttrs md5 secret parts).filter (fun attr => attr.1 = attrVendorSpecific) = [] := by
  rw [List.filter_eq_nil_iff]
  intro attr hattr
  obtain ⟨part, hpart, hmem⟩ := List.mem_flatMap.mp hattr
  cases part with
  | attr type data =>
    have htype : type.toNat ≠ attrVendorSpecific := hkeyless _ hpart
    obtain rfl := List.mem_singleton.mp hmem
    simpa using htype
  | eap data =>
    obtain ⟨piece, -, rfl⟩ := List.mem_map.mp hmem
    simp [attrEapMessage, attrVendorSpecific]
  | mppeKeys reqAuthenticator sendKey recvKey random =>
    exact (hkeyless _ hpart).elim

/-- A key under a subtype that is not the wanted one is passed over. -/
theorem findKey_eq (hmd5 : ∀ data, (md5 data).length = 16) {sendKey recvKey : Bytes}
    {random : UInt16} (hsend : 4 + msKeyLen sendKey.length < 256)
    (hrecv : 4 + msKeyLen recvKey.length < 256)
    (hvalues : attrValues msg attrVendorSpecific =
      [msKeyAttr md5 secret msMppeSendKey sendKey (random ||| 0x8000) reqAuth,
        msKeyAttr md5 secret msMppeRecvKey recvKey ((random ||| 0x8000) ^^^ 1) reqAuth]) :
    radiusMsgGetVendorAttr msg vendorMicrosoft msMppeSendKey =
        some (be16 (random ||| 0x8000).toNat ++
          encryptMsKey md5 secret sendKey (random ||| 0x8000) reqAuth) ∧
      radiusMsgGetVendorAttr msg vendorMicrosoft msMppeRecvKey =
        some (be16 ((random ||| 0x8000) ^^^ 1).toNat ++
          encryptMsKey md5 secret recvKey ((random ||| 0x8000) ^^^ 1) reqAuth) := by
  have hfind : ∀ subtype, radiusMsgGetVendorAttr msg vendorMicrosoft subtype =
      (attrValues msg attrVendorSpecific).findSome? (vendorAttrOf vendorMicrosoft subtype) :=
    fun _ => rfl
  have hsendKey := vendorAttrOf_msKeyAttr hmd5 secret (by decide : msMppeSendKey < 256) sendKey
    (random ||| 0x8000) reqAuth hsend
  have hrecvKey := vendorAttrOf_msKeyAttr hmd5 secret (by decide : msMppeRecvKey < 256) recvKey
    ((random ||| 0x8000) ^^^ 1) reqAuth hrecv
  constructor
  · rw [hfind, hvalues, List.findSome?_cons, hsendKey, if_pos rfl]
  · rw [hfind, hvalues, List.findSome?_cons, hsendKey, if_neg (by decide),
      List.findSome?_cons, hrecvKey, if_pos rfl]

/-- The controller joins the two keys of an answer that was built for the request, when
there is a receive key and together they have 64 bytes. -/
theorem built_answer_keys (md5 : Bytes → Bytes)
    (hmd5 : ∀ data, (md5 data).length = md5MacLen) (secret : Bytes) (code identifier : UInt8)
    (before after : List Part) (sendKey recvKey : Bytes) (random : UInt16) (req : AccessRequest)
    (hkeyless : ∀ part ∈ before ++ after, part.keyless)
    (hsend : sendKey.length ≤ 239) (hrecv : recvKey.length ≤ 239) :
    masterSessionKey (digestsOf md5 secret)
        (answerOf md5 secret code identifier
          (before ++ .mppeKeys req.authenticator sendKey recvKey random :: after)
          req.authenticator) req =
      if recvKey ≠ [] ∧ recvKey.length + sendKey.length = 64 then some (recvKey ++ sendKey)
      else none := by
  have hvalues : attrValues (answerOf md5 secret code identifier
      (before ++ .mppeKeys req.authenticator sendKey recvKey random :: after) req.authenticator)
        attrVendorSpecific =
      [msKeyAttr md5 secret msMppeSendKey sendKey (random ||| 0x8000) req.authenticator,
        msKeyAttr md5 secret msMppeRecvKey recvKey ((random ||| 0x8000) ^^^ 1)
          req.authenticator] := by
    have hnoneBefore := not_vendor_partsAttrs md5 secret
      fun part hpart => hkeyless part (List.mem_append_left _ hpart)
    have hnoneAfter := not_vendor_partsAttrs md5 secret
      fun part hpart => hkeyless part (List.mem_append_right _ hpart)
    simp only [answerOf, answered, signed, withMac, partsAttrs, List.flatMap_append,
      List.flatMap_cons, attrValues, List.filter_append] at hnoneBefore hnoneAfter ⊢
    rw [hnoneBefore, hnoneAfter]
    rfl
  have hsendLen := msKeyLen_eq (Nat.le_trans hsend (by decide))
  have hrecvLen := msKeyLen_eq (Nat.le_trans hrecv (by decide))
  obtain ⟨hfoundSend, hfoundRecv⟩ := findKey_eq hmd5 (by omega) (by omega) hvalues
  have hsendKey := decryptMsKey_short hmd5 secret (random ||| 0x8000) req.authenticator
    (Nat.le_trans hsend (by decide))
  have hrecvKey := decryptMsKey_short hmd5 secret ((random ||| 0x8000) ^^^ 1) req.authenticator
    (Nat.le_trans hrecv (by decide))
  simp only [masterSessionKey, hfoundSend, hfoundRecv, Option.bind_some, digestsOf, hsendKey,
    hrecvKey]
  by_cases hrecvNone : recvKey = []
  · have hnot : ¬ (recvKey ≠ [] ∧ recvKey.length + sendKey.length = 64) :=
      fun hkeys => hkeys.1 hrecvNone
    rw [if_pos hrecvNone, if_neg hnot]
  · rw [if_neg hrecvNone]
    have hsent : (if sendKey = [] then none else some sendKey).getD [] = sendKey := by
      split
      · rename_i hnone
        rw [hnone]
        rfl
      · rfl
    simp only [hsent, List.length_append, hrecvNone, ne_eq, not_false_eq_true, true_and]

end CoapEap.Radius
