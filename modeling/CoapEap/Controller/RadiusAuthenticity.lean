import CoapEap.Controller.RadiusMessage

/-!
The two authenticators of a RADIUS message (`radius_msg_finish`,
`radius_msg_finish_srv`, `radius_msg_verify`): the HMAC over the message with its
own place filled with zeros, and the MD5 digest of an answer with the authenticator
of its request. MD5 is a parameter, HMAC-MD5 is made from it as `md5.c` does.
-/

namespace CoapEap.Radius

open Library.Records Library.Buffer

def md5MacLen : Nat := 16

/-- `hmac_md5`. -/
def hmacMd5 (md5 : Bytes → Bytes) (key data : Bytes) : Bytes :=
  let key := if key.length > 64 then md5 key else key
  let kPad (x : UInt8) : Bytes := (key ++ List.replicate (64 - key.length) 0).map (· ^^^ x)
  md5 (kPad 0x5c ++ md5 (kPad 0x36 ++ data))

/-- `radius_msg_finish` with a secret. -/
def radiusMsgFinish (md5 : Bytes → Bytes) (m : RadiusBuf) (secret : Bytes) : Option RadiusBuf := do
  let added ← radiusMsgAddAttr m attrMessageAuthenticator (List.replicate md5MacLen 0)
  let buf ← write added.buf 2 (be16 added.buf.length)
  let buf ← write buf (m.buf.length + 2) (hmacMd5 md5 secret buf)
  if buf.length > 0xffff then none else some { added with buf }

/-- The digest of code, identifier, length, the authenticator of the request, the
attributes and the secret. -/
def responseDigest (md5 : Bytes → Bytes) (buf reqAuthenticator secret : Bytes) : Bytes :=
  md5 (buf.take 4 ++ reqAuthenticator ++ buf.drop radiusHdrLen ++ secret)

/-- `radius_msg_finish_srv`. -/
def radiusMsgFinishSrv (md5 : Bytes → Bytes) (m : RadiusBuf) (secret reqAuthenticator : Bytes) :
    Option RadiusBuf := do
  let added ← radiusMsgAddAttr m attrMessageAuthenticator (List.replicate md5MacLen 0)
  let buf ← write added.buf 2 (be16 added.buf.length)
  let buf ← write buf 4 reqAuthenticator
  let buf ← write buf (m.buf.length + 2) (hmacMd5 md5 secret buf)
  let buf ← write buf 4 (responseDigest md5 buf reqAuthenticator secret)
  if buf.length > 0xffff then none else some { added with buf }

/-- The attributes that `radius_msg_verify_msg_auth` finds. -/
def msgAuthPositions (m : RadiusBuf) : List Nat :=
  m.attrPos.filter fun pos => (attrAt m.buf pos).1 = attrMessageAuthenticator

/-- `radius_msg_verify_msg_auth` with the authenticator of the request, if any. There
is no result where it writes outside the buffer. -/
def radiusMsgVerifyMsgAuth (md5 : Bytes → Bytes) (m : RadiusBuf) (secret : Bytes)
    (reqAuth : Option Bytes) : Option Bool :=
  match msgAuthPositions m with
  | [pos] => do
    let orig := (m.buf.drop (pos + 2)).take md5MacLen
    let buf ← write m.buf (pos + 2) (List.replicate md5MacLen 0)
    let buf ← match reqAuth with
      | some authenticator => write buf 4 authenticator
      | none => some buf
    some (hmacMd5 md5 secret buf = orig)
  | _ => some false

/-- `radius_msg_verify` for an answer to the request with this authenticator. -/
def radiusMsgVerifyBuf (md5 : Bytes → Bytes) (m : RadiusBuf) (secret reqAuth : Bytes) :
    Option Bool := do
  if ← radiusMsgVerifyMsgAuth md5 m secret (some reqAuth) then
    some (responseDigest md5 m.buf reqAuth secret = (m.buf.drop 4).take md5MacLen)
  else some false

/-- A Message-Authenticator with zeros in the place of the HMAC. -/
def blanked (attr : Nat × Bytes) : Nat × Bytes :=
  if attr.1 = attrMessageAuthenticator then
    (attr.1, List.replicate md5MacLen 0 ++ attr.2.drop md5MacLen)
  else attr

def messageAuthenticatorOf (md5 : Bytes → Bytes) (secret : Bytes) (msg : RadiusMsg)
    (reqAuth : Bytes) : Bytes :=
  hmacMd5 md5 secret
    (encodeMsg { msg with authenticator := reqAuth, attrs := msg.attrs.map blanked })

def responseAuthenticatorOf (md5 : Bytes → Bytes) (secret : Bytes) (msg : RadiusMsg)
    (reqAuth : Bytes) : Bytes :=
  md5 ((encodeMsg msg).take 4 ++ reqAuth ++ attrBytes msg ++ secret)

/-- A message with a Message-Authenticator behind the other attributes. -/
def withMac (msg : RadiusMsg) (mac : Bytes) : RadiusMsg :=
  { msg with attrs := msg.attrs ++ [(attrMessageAuthenticator, mac)] }

/-- A message with the HMAC over itself. -/
def signed (md5 : Bytes → Bytes) (secret : Bytes) (msg : RadiusMsg) : RadiusMsg :=
  withMac msg (hmacMd5 md5 secret (encodeMsg (withMac msg (List.replicate md5MacLen 0))))

/-- An answer with both authenticators. -/
def answered (md5 : Bytes → Bytes) (secret : Bytes) (msg : RadiusMsg) (reqAuth : Bytes) :
    RadiusMsg :=
  let answer := signed md5 secret { msg with authenticator := reqAuth }
  { answer with authenticator := responseAuthenticatorOf md5 secret answer reqAuth }

variable {md5 : Bytes → Bytes} {m m' added : RadiusBuf} {msg : RadiusMsg}
variable {secret reqAuth length data value : Bytes} {type n : Nat}
variable {front back : List (Nat × Bytes)}

theorem holds_radiusMsgNew {code : Nat} (hcode : code < 256) (identifier : UInt8) :
    Holds (radiusMsgNew code identifier) [0, 0]
      ⟨code, identifier, List.replicate 16 0, []⟩ :=
  ⟨rfl, rfl, rfl, ⟨hcode, rfl, by simp⟩⟩

theorem radiusMsgAddAttr_some (h : radiusMsgAddAttr m type data = some m') :
    data.length ≤ radiusMaxAttrLen ∧
      m' = ⟨m.buf ++ writeAttr (type, data), m.attrPos ++ [m.buf.length]⟩ := by
  simp only [radiusMsgAddAttr, Option.ite_none_left_eq_some, Option.some.injEq] at h
  refine ⟨Nat.le_of_not_lt h.1, ?_⟩
  rw [← h.2]
  simp [writeAttr]

theorem Holds.buf_length (h : Holds m length msg) : m.buf.length = msgLength msg := by
  rw [h.buf, List.length_append, writeHeader_length h.fits h.field, msgLength]

/-- An attribute that is added stands behind those before it. -/
theorem Holds.addAttr (h : Holds m length msg) (htype : type < 256)
    (hadd : radiusMsgAddAttr m type data = some m') :
    Holds m' length { msg with attrs := msg.attrs ++ [(type, data)] } := by
  obtain ⟨hdata, rfl⟩ := radiusMsgAddAttr_some hadd
  have hlength := h.buf_length
  refine ⟨?_, ?_, h.field, ⟨h.fits.code, h.fits.authenticator, ?_⟩⟩
  · simp only [h.buf, attrBytes, writeHeader, writeAll_append, writeAll_cons, writeAll_nil,
      List.append_assoc, List.append_nil]
  · simp only [h.attrPos, starts_append, starts, hlength, msgLength, attrBytes]
  · intro attr hattr
    rcases List.mem_append.mp hattr with hold | hnew
    · exact h.fits.attrs attr hold
    · obtain rfl := List.mem_singleton.mp hnew
      exact ⟨htype, hdata⟩

/-- At the positions of attributes that stand together in the buffer, `attrAt` sees
these attributes. -/
theorem mem_of_starts {attrs : List (Nat × Bytes)} (hattrs : ∀ attr ∈ attrs, ValidAttr attr)
    (before after : Bytes) {pos : Nat} (hpos : pos ∈ starts writeAttr before.length attrs) :
    attrAt (before ++ writeAll writeAttr attrs ++ after) pos ∈ attrs := by
  have hmap := map_starts attrAt id (fun front attr rest hattr =>
    attrAt_writeAttr front attr rest hattr) hattrs before after
  have hmem := List.mem_map_of_mem (f := attrAt (before ++ writeAll writeAttr attrs ++ after)) hpos
  rwa [hmap, List.map_id] at hmem

theorem filter_starts_eq_nil (hfront : ∀ attr ∈ front, ValidAttr attr)
    (hother : ∀ attr ∈ front, attr.1 ≠ attrMessageAuthenticator) (before after : Bytes) :
    ((starts writeAttr before.length front).filter fun pos =>
      (attrAt (before ++ writeAll writeAttr front ++ after) pos).1 =
        attrMessageAuthenticator) = [] := by
  rw [List.filter_eq_nil_iff]
  intro pos hpos
  have hmem := mem_of_starts hfront before after hpos
  simpa using hother _ hmem

/-- The buffer of a message around one of its attributes. -/
theorem Holds.around (h : Holds m length msg) {attr : Nat × Bytes}
    (hattrs : msg.attrs = front ++ attr :: back) :
    m.buf = writeHeader msg length ++ writeAll writeAttr front ++ writeAttr attr ++
      writeAll writeAttr back := by
  rw [h.buf, attrBytes, hattrs, writeAll_append, writeAll_cons]
  simp only [List.append_assoc]

theorem msgAuthPositions_eq (h : Holds m length msg)
    (hattrs : msg.attrs = front ++ (attrMessageAuthenticator, value) :: back)
    (hfront : ∀ attr ∈ front, attr.1 ≠ attrMessageAuthenticator)
    (hback : ∀ attr ∈ back, attr.1 ≠ attrMessageAuthenticator) :
    msgAuthPositions m = [radiusHdrLen + (writeAll writeAttr front).length] := by
  have hvalid := h.fits.attrs
  rw [hattrs, List.forall_mem_append, List.forall_mem_cons] at hvalid
  obtain ⟨hvalidFront, hvalidAttr, hvalidBack⟩ := hvalid
  have hwidth := writeHeader_length h.fits h.field
  have hbefore := filter_starts_eq_nil hvalidFront hfront (writeHeader msg length)
    (writeAttr (attrMessageAuthenticator, value) ++ writeAll writeAttr back)
  have hself := attrAt_writeAttr (writeHeader msg length ++ writeAll writeAttr front)
    (attrMessageAuthenticator, value) (writeAll writeAttr back) hvalidAttr
  have hafter := filter_starts_eq_nil hvalidBack hback
    (writeHeader msg length ++ writeAll writeAttr front ++
      writeAttr (attrMessageAuthenticator, value)) []
  have hbuf := h.around hattrs
  simp only [List.append_nil, List.append_assoc, List.length_append, hwidth]
    at hbefore hself hafter hbuf
  have htype := congrArg Prod.fst hself
  rw [msgAuthPositions, h.attrPos, hattrs, hbuf, starts_append, starts, List.filter_append,
    hbefore, List.nil_append, List.filter_cons_of_pos (by simpa using htype), Nat.add_assoc,
    hafter]

/-- Without exactly one Message-Authenticator no position stands alone. -/
theorem msgAuthPositions_length (h : Holds m length msg) :
    (msgAuthPositions m).length = (attrValues msg attrMessageAuthenticator).length := by
  have hmap := map_starts attrAt id (fun front attr rest hattr =>
    attrAt_writeAttr front attr rest hattr) h.fits.attrs (writeHeader msg length) []
  rw [List.append_nil, List.map_id, writeHeader_length h.fits h.field] at hmap
  have hbuf : writeHeader msg length ++ writeAll writeAttr msg.attrs = m.buf := h.buf.symm
  rw [hbuf, ← h.attrPos] at hmap
  rw [attrValues, List.length_map, msgAuthPositions]
  conv_rhs => rw [← hmap, List.filter_map, List.length_map]
  rfl

/-- Exactly one Message-Authenticator, between attributes of other types. -/
theorem attrValues_eq_singleton
    (h : attrValues msg attrMessageAuthenticator = [value]) :
    ∃ front back, msg.attrs = front ++ (attrMessageAuthenticator, value) :: back ∧
      (∀ attr ∈ front, attr.1 ≠ attrMessageAuthenticator) ∧
      ∀ attr ∈ back, attr.1 ≠ attrMessageAuthenticator := by
  rw [attrValues, List.map_eq_singleton_iff] at h
  obtain ⟨⟨type, value'⟩, hfilter, rfl⟩ := h
  obtain ⟨front, back, hattrs, hfront, htype, hback⟩ := List.filter_eq_cons_iff.mp hfilter
  obtain rfl : type = attrMessageAuthenticator := by simpa using htype
  refine ⟨front, back, hattrs, by simpa using hfront, ?_⟩
  rw [List.filter_eq_nil_iff] at hback
  simpa using hback

theorem write_length (msg : RadiusMsg) {field : Bytes} (hlength : length.length = 2)
    (hfield : field.length = 2) (rest : Bytes) : write (writeHeader msg length ++ rest) 2 field =
      some (writeHeader msg field ++ rest) := by
  have hwrite := write_between [UInt8.ofNat msg.code, msg.identifier]
    (msg.authenticator ++ rest) (hlength.trans hfield.symm)
  simpa [writeHeader] using hwrite

theorem write_authenticator (msg : RadiusMsg) {authenticator : Bytes} (hlength : length.length = 2)
    (hold : msg.authenticator.length = 16) (hnew : authenticator.length = 16) (rest : Bytes) :
    write (writeHeader msg length ++ rest) 4 authenticator =
      some (writeHeader { msg with authenticator } length ++ rest) := by
  have hwrite := write_between ([UInt8.ofNat msg.code, msg.identifier] ++ length) rest
    (hold.trans hnew.symm)
  have hfour : ([UInt8.ofNat msg.code, msg.identifier] ++ length).length = 4 := by
    simp [hlength]
  rw [hfour] at hwrite
  simpa [writeHeader] using hwrite

/-- A digest written over the first bytes of a value between other attributes. -/
theorem write_digest (front : List (Nat × Bytes)) (type : Nat) {header digest : Bytes}
    (hheader : header.length = radiusHdrLen) (hdigest : digest.length = md5MacLen)
    (hvalue : md5MacLen ≤ value.length) (rest : Bytes) :
    write (header ++ writeAll writeAttr front ++ writeAttr (type, value) ++ rest)
        (radiusHdrLen + (writeAll writeAttr front).length + 2) digest =
      some (header ++ writeAll writeAttr front ++
        writeAttr (type, digest ++ value.drop md5MacLen) ++ rest) := by
  have hold : (value.take md5MacLen).length = digest.length := by
    rw [List.length_take, hdigest, Nat.min_eq_left hvalue]
  have hsame : (digest ++ value.drop md5MacLen).length = value.length := by
    rw [List.length_append, List.length_drop, hdigest]
    omega
  have hwrite := write_between
    (header ++ writeAll writeAttr front ++ [UInt8.ofNat type, UInt8.ofNat (2 + value.length)])
    (value.drop md5MacLen ++ rest) hold
  have hpos : (header ++ writeAll writeAttr front ++
      [UInt8.ofNat type, UInt8.ofNat (2 + value.length)]).length =
        radiusHdrLen + (writeAll writeAttr front).length + 2 := by
    simp [hheader, Nat.add_assoc]
  rw [hpos] at hwrite
  have hfront : header ++ writeAll writeAttr front ++ writeAttr (type, value) ++ rest =
      header ++ writeAll writeAttr front ++ [UInt8.ofNat type, UInt8.ofNat (2 + value.length)] ++
        value.take md5MacLen ++ (value.drop md5MacLen ++ rest) := by
    simp only [writeAttr, List.append_assoc]
    rw [← List.append_assoc (value.take md5MacLen), List.take_append_drop]
  rw [hfront, hwrite]
  simp only [writeAttr, hsame, List.append_assoc]

theorem map_blanked (hfront : ∀ attr ∈ front, attr.1 ≠ attrMessageAuthenticator) :
    front.map blanked = front := by
  have hself : ∀ attr ∈ front, blanked attr = id attr := by
    intro attr hattr
    simp only [blanked, if_neg (hfront attr hattr), id_eq]
  rw [List.map_congr_left hself, List.map_id]

theorem writeAll_length_eq {attrs attrs' : List (Nat × Bytes)}
    (h : attrs.map (fun attr => attr.2.length) = attrs'.map (fun attr => attr.2.length)) :
    (writeAll writeAttr attrs).length = (writeAll writeAttr attrs').length := by
  have hlength : ∀ attrs : List (Nat × Bytes), (writeAll writeAttr attrs).length =
      ((attrs.map fun attr => attr.2.length).map (2 + ·)).sum := by
    intro attrs
    simp [writeAll, List.length_flatten, writeAttr_length, Function.comp_def]
  rw [hlength, hlength, h]

/-- The HMAC is taken over the message with its own place blank, and with the
authenticator of the request put in where there is one. -/
theorem radiusMsgVerifyMsgAuth_eq (h : Holds m (be16 (msgLength msg)) msg) (given : Option Bytes)
    (hattrs : msg.attrs = front ++ (attrMessageAuthenticator, value) :: back)
    (hfront : ∀ attr ∈ front, attr.1 ≠ attrMessageAuthenticator)
    (hback : ∀ attr ∈ back, attr.1 ≠ attrMessageAuthenticator)
    (hvalue : md5MacLen ≤ value.length) (hreq : (given.getD msg.authenticator).length = 16) :
    radiusMsgVerifyMsgAuth md5 m secret given =
      some (decide (messageAuthenticatorOf md5 secret msg (given.getD msg.authenticator) =
        value.take md5MacLen)) := by
  have hheader := writeHeader_length h.fits h.field
  have hbuf := h.around hattrs
  have horig : (m.buf.drop (radiusHdrLen + (writeAll writeAttr front).length + 2)).take md5MacLen =
      value.take md5MacLen := by
    have hpos : radiusHdrLen + (writeAll writeAttr front).length + 2 =
        (writeHeader msg (be16 (msgLength msg)) ++ writeAll writeAttr front ++
          [UInt8.ofNat attrMessageAuthenticator, UInt8.ofNat (2 + value.length)]).length := by
      simp [hheader, Nat.add_assoc]
    have hsplit : m.buf = writeHeader msg (be16 (msgLength msg)) ++ writeAll writeAttr front ++
        [UInt8.ofNat attrMessageAuthenticator, UInt8.ofNat (2 + value.length)] ++
          (value ++ writeAll writeAttr back) := by
      rw [hbuf]
      simp [writeAttr]
    rw [hpos, hsplit, List.drop_left, List.take_append_of_le_length hvalue]
  have hzeros : write m.buf (radiusHdrLen + (writeAll writeAttr front).length + 2)
      (List.replicate md5MacLen 0) = some (writeHeader msg (be16 (msgLength msg)) ++
        (writeAll writeAttr front ++ (writeAttr (attrMessageAuthenticator,
          List.replicate md5MacLen 0 ++ value.drop md5MacLen) ++ writeAll writeAttr back))) := by
    rw [hbuf, write_digest front _ hheader List.length_replicate hvalue]
    simp only [List.append_assoc]
  have hrequest := write_authenticator msg h.field h.fits.authenticator hreq
    (writeAll writeAttr front ++ (writeAttr (attrMessageAuthenticator,
      List.replicate md5MacLen 0 ++ value.drop md5MacLen) ++ writeAll writeAttr back))
  have hblank : msg.attrs.map blanked = front ++ (attrMessageAuthenticator,
      List.replicate md5MacLen 0 ++ value.drop md5MacLen) :: back := by
    rw [hattrs, List.map_append, List.map_cons, map_blanked hfront, map_blanked hback]
    rfl
  have hsame : msgLength { msg with
      authenticator := given.getD msg.authenticator, attrs := msg.attrs.map blanked } =
        msgLength msg := by
    have hsum : md5MacLen + (value.length - md5MacLen) = value.length := by omega
    have hlengths : (writeAll writeAttr (msg.attrs.map blanked)).length =
        (writeAll writeAttr msg.attrs).length := by
      apply writeAll_length_eq
      rw [hblank, hattrs]
      simp [hsum]
    simp only [msgLength, attrBytes, hlengths]
  have hdigest : messageAuthenticatorOf md5 secret msg (given.getD msg.authenticator) =
    hmacMd5 md5 secret
      (writeHeader { msg with authenticator := given.getD msg.authenticator }
        (be16 (msgLength msg)) ++
        (writeAll writeAttr front ++ (writeAttr (attrMessageAuthenticator,
          List.replicate md5MacLen 0 ++ value.drop md5MacLen) ++ writeAll writeAttr back))) := by
    rw [messageAuthenticatorOf, encodeMsg, hsame, attrBytes, hblank, writeAll_append,
      writeAll_cons]
    rfl
  rw [radiusMsgVerifyMsgAuth, msgAuthPositions_eq h hattrs hfront hback]
  cases given with
  | none =>
    simp only [Option.getD_none] at hdigest ⊢
    simp only [Option.bind_eq_bind, horig, hzeros, Option.bind_some, hdigest]
  | some reqAuth =>
    simp only [Option.getD_some] at hrequest hdigest ⊢
    simp only [Option.bind_eq_bind, horig, hzeros, Option.bind_some, hrequest, hdigest]

theorem drop_encodeMsg (hfits : msg.Fits) : (encodeMsg msg).drop radiusHdrLen = attrBytes msg := by
  have hheader : (writeHeader msg (be16 (msgLength msg))).length = radiusHdrLen :=
    writeHeader_length hfits rfl
  rw [encodeMsg, ← hheader, List.drop_left]

theorem take_encodeMsg (msg : RadiusMsg) :
    (encodeMsg msg).take 4 =
      [UInt8.ofNat msg.code, msg.identifier] ++ be16 (msgLength msg) := by
  simp [encodeMsg, writeHeader, be16]

theorem Holds.buf_eq (h : Holds m (be16 (msgLength msg)) msg) : m.buf = encodeMsg msg := h.buf

theorem responseDigest_eq (hfits : msg.Fits) :
    responseDigest md5 (encodeMsg msg) reqAuth secret =
      responseAuthenticatorOf md5 secret msg reqAuth := by
  rw [responseDigest, drop_encodeMsg hfits, responseAuthenticatorOf]

/-- With exactly one Message-Authenticator both digests decide. -/
theorem radiusMsgVerifyBuf_single (h : Holds m (be16 (msgLength msg)) msg)
    (hsingle : attrValues msg attrMessageAuthenticator = [value])
    (hvalue : md5MacLen ≤ value.length) (hreq : reqAuth.length = 16) :
    radiusMsgVerifyBuf md5 m secret reqAuth =
      some (decide (messageAuthenticatorOf md5 secret msg reqAuth = value.take md5MacLen) &&
        decide (responseAuthenticatorOf md5 secret msg reqAuth = msg.authenticator)) := by
  obtain ⟨front, back, hattrs, hfront, hback⟩ := attrValues_eq_singleton hsingle
  have hauthenticator : (m.buf.drop 4).take md5MacLen = msg.authenticator :=
    congrArg RadiusMsg.authenticator h.view
  rw [h.buf_eq] at hauthenticator
  rw [radiusMsgVerifyBuf,
    radiusMsgVerifyMsgAuth_eq h (some reqAuth) hattrs hfront hback hvalue hreq, Option.getD_some]
  simp only [Option.bind_eq_bind, Option.bind_some, h.buf_eq, responseDigest_eq h.fits,
    hauthenticator]
  cases decide (messageAuthenticatorOf md5 secret msg reqAuth = value.take md5MacLen) with
  | true => rfl
  | false => rfl

/-- Without exactly one Message-Authenticator an answer is refused. -/
theorem radiusMsgVerifyBuf_other (h : Holds m length msg)
    (hother : (attrValues msg attrMessageAuthenticator).length ≠ 1) :
    radiusMsgVerifyBuf md5 m secret reqAuth = some false := by
  rw [← msgAuthPositions_length h] at hother
  unfold radiusMsgVerifyBuf radiusMsgVerifyMsgAuth
  match hpositions : msgAuthPositions m with
  | [pos] => simp [hpositions] at hother
  | [] => rfl
  | _ :: _ :: _ => rfl

/-- The zeros are written outside the buffer exactly when a single
Message-Authenticator stands less than 16 bytes before the end of the message. -/
theorem radiusMsgVerifyBuf_eq_none_iff (h : Holds m length msg) (hreq : reqAuth.length = 16) :
    radiusMsgVerifyBuf md5 m secret reqAuth = none ↔
      ∃ front value back, msg.attrs = front ++ (attrMessageAuthenticator, value) :: back ∧
        (∀ attr ∈ front, attr.1 ≠ attrMessageAuthenticator) ∧
        (∀ attr ∈ back, attr.1 ≠ attrMessageAuthenticator) ∧
        value.length + (writeAll writeAttr back).length < md5MacLen := by
  have hresult : radiusMsgVerifyBuf md5 m secret reqAuth = none ↔
      radiusMsgVerifyMsgAuth md5 m secret (some reqAuth) = none := by
    unfold radiusMsgVerifyBuf
    cases radiusMsgVerifyMsgAuth md5 m secret (some reqAuth) with
    | none => simp
    | some verified => cases verified <;> simp
  rw [hresult]
  -- the second write is to the header, which every buffer has
  have hwrites : ∀ pos, msgAuthPositions m = [pos] →
      (radiusMsgVerifyMsgAuth md5 m secret (some reqAuth) = none ↔
        m.buf.length < pos + 2 + md5MacLen) := by
    intro pos hpos
    have hlong : radiusHdrLen ≤ m.buf.length := h.buf_length ▸ Nat.le_add_right _ _
    simp only [radiusMsgVerifyMsgAuth, hpos, Option.bind_eq_bind, Option.bind_eq_none_iff]
    constructor
    · intro hnone
      by_contra hfits
      have hzeros : ¬ write m.buf (pos + 2) (List.replicate md5MacLen 0) = none := by
        rw [write_eq_none_iff, List.length_replicate]
        exact hfits
      obtain ⟨buf, hbuf⟩ := Option.ne_none_iff_exists'.mp hzeros
      have hsame : buf.length = m.buf.length := by
        simp only [write, Option.ite_none_right_eq_some, Option.some.injEq,
          List.length_replicate] at hbuf
        rw [← hbuf.2]
        simp only [List.length_append, List.length_take, List.length_drop, List.length_replicate]
        omega
      have hheader : ¬ write buf 4 reqAuth = none := by
        rw [write_eq_none_iff, hsame, hreq]
        simp only [radiusHdrLen] at hlong
        omega
      obtain ⟨buf', hbuf'⟩ := Option.ne_none_iff_exists'.mp hheader
      simpa using hnone buf hbuf buf' hbuf'
    · intro hshort buf hbuf
      have hnone : write m.buf (pos + 2) (List.replicate md5MacLen 0) = none := by
        rw [write_eq_none_iff, List.length_replicate]
        exact hshort
      rw [hnone] at hbuf
      exact absurd hbuf (by simp)
  have hplace : ∀ front value back,
      msg.attrs = front ++ (attrMessageAuthenticator, value) :: back →
      m.buf.length = radiusHdrLen + (writeAll writeAttr front).length + 2 +
        (value.length + (writeAll writeAttr back).length) := by
    intro front value back hattrs
    rw [h.buf_length, msgLength, attrBytes, hattrs, writeAll_append, writeAll_cons]
    simp only [List.length_append, writeAttr_length]
    omega
  constructor
  · intro hnone
    have hone : (attrValues msg attrMessageAuthenticator).length = 1 := by
      by_contra hother
      rw [← hresult, radiusMsgVerifyBuf_other h hother] at hnone
      simp at hnone
    obtain ⟨value, hsingle⟩ := List.length_eq_one_iff.mp hone
    obtain ⟨front, back, hattrs, hfront, hback⟩ := attrValues_eq_singleton hsingle
    refine ⟨front, value, back, hattrs, hfront, hback, ?_⟩
    rw [hwrites _ (msgAuthPositions_eq h hattrs hfront hback), hplace front value back hattrs]
      at hnone
    omega
  · rintro ⟨front, value, back, hattrs, hfront, hback, hshort⟩
    rw [hwrites _ (msgAuthPositions_eq h hattrs hfront hback), hplace front value back hattrs]
    omega

/-- The attribute that `radius_msg_finish` adds. -/
theorem radiusMsgAddAttr_blank (m : RadiusBuf) :
    radiusMsgAddAttr m attrMessageAuthenticator (List.replicate md5MacLen 0) =
      some ⟨m.buf ++ writeAttr (attrMessageAuthenticator, List.replicate md5MacLen 0),
        m.attrPos ++ [m.buf.length]⟩ := by
  simp [radiusMsgAddAttr, writeAttr, radiusMaxAttrLen, md5MacLen]

theorem hmacMd5_length (hmd5 : ∀ data, (md5 data).length = md5MacLen) (key data : Bytes) :
    (hmacMd5 md5 key data).length = md5MacLen :=
  hmd5 _

theorem attrBytes_withMac (msg : RadiusMsg) (mac : Bytes) :
    attrBytes (withMac msg mac) = attrBytes msg ++ writeAttr (attrMessageAuthenticator, mac) := by
  simp [attrBytes, withMac, writeAll_append]

theorem msgLength_withMac (msg : RadiusMsg) {mac : Bytes} (hmac : mac.length = md5MacLen) :
    msgLength (withMac msg mac) = msgLength msg + 18 := by
  simp [msgLength, attrBytes_withMac, writeAttr_length, hmac, md5MacLen, Nat.add_assoc]

theorem encodeMsg_withMac (msg : RadiusMsg) {mac : Bytes} (hmac : mac.length = md5MacLen) :
    encodeMsg (withMac msg mac) = writeHeader msg (be16 (msgLength msg + 18)) ++ attrBytes msg ++
      writeAttr (attrMessageAuthenticator, mac) := by
  rw [encodeMsg, msgLength_withMac msg hmac, attrBytes_withMac, ← List.append_assoc]
  rfl

theorem withMac_fits (hfits : msg.Fits) {mac : Bytes} (hmac : mac.length = md5MacLen) :
    (withMac msg mac).Fits := by
  refine ⟨hfits.code, hfits.authenticator, ?_⟩
  intro attr hattr
  rcases List.mem_append.mp hattr with hold | hnew
  · exact hfits.attrs attr hold
  · obtain rfl := List.mem_singleton.mp hnew
    exact ⟨by simp [attrMessageAuthenticator], by simp [hmac, md5MacLen, radiusMaxAttrLen]⟩

/-- The HMAC goes where zeros were added for it. -/
theorem write_mac (hfits : msg.Fits) {mac : Bytes} (hmac : mac.length = md5MacLen) :
    write (encodeMsg (withMac msg (List.replicate md5MacLen 0))) (msgLength msg + 2) mac =
      some (encodeMsg (withMac msg mac)) := by
  have hzeros : (List.replicate md5MacLen (0 : UInt8)).length = md5MacLen := List.length_replicate
  have hheader : (writeHeader msg (be16 (msgLength msg + 18))).length = radiusHdrLen :=
    writeHeader_length hfits rfl
  have hwrite := write_digest msg.attrs attrMessageAuthenticator hheader hmac
    (Nat.le_of_eq hzeros.symm) []
  have hnone : (List.replicate md5MacLen (0 : UInt8)).drop md5MacLen = [] :=
    List.drop_eq_nil_of_le (Nat.le_of_eq hzeros)
  rw [hnone, List.append_nil, List.append_nil, List.append_nil] at hwrite
  rw [encodeMsg_withMac msg hzeros, encodeMsg_withMac msg hmac]
  exact hwrite

/-- The length field is written behind the attribute that is added last. -/
theorem write_length_withMac (h : Holds m length msg) :
    write (m.buf ++ writeAttr (attrMessageAuthenticator, List.replicate md5MacLen 0)) 2
        (be16 (m.buf ++ writeAttr (attrMessageAuthenticator,
          List.replicate md5MacLen 0)).length) =
      some (encodeMsg (withMac msg (List.replicate md5MacLen 0))) := by
  have hzeros : (List.replicate md5MacLen (0 : UInt8)).length = md5MacLen := List.length_replicate
  have htotal : (m.buf ++ writeAttr (attrMessageAuthenticator,
      List.replicate md5MacLen 0)).length = msgLength msg + 18 := by
    rw [List.length_append, h.buf_length, writeAttr_length, hzeros]
    rfl
  have hfield : (be16 (msgLength msg + 18)).length = 2 := rfl
  have hwrite := write_length msg h.field hfield
    (attrBytes msg ++ writeAttr (attrMessageAuthenticator, List.replicate md5MacLen 0))
  rw [htotal, h.buf, encodeMsg_withMac msg hzeros]
  simpa only [List.append_assoc] using hwrite

/-- `radius_msg_finish` on a message that was built. -/
theorem radiusMsgFinish_eq (h : Holds m length msg)
    (hmd5 : ∀ data, (md5 data).length = md5MacLen) :
    radiusMsgFinish md5 m secret =
      if msgLength (signed md5 secret msg) > 0xffff then none
      else some ⟨encodeMsg (signed md5 secret msg), m.attrPos ++ [m.buf.length]⟩ := by
  have hmac := write_mac h.fits (hmacMd5_length hmd5 secret
    (encodeMsg (withMac msg (List.replicate md5MacLen 0))))
  have hlength : (encodeMsg (signed md5 secret msg)).length = msgLength (signed md5 secret msg) :=
    encodeMsg_length (withMac_fits h.fits (hmacMd5_length hmd5 ..))
  simp only [radiusMsgFinish, radiusMsgAddAttr_blank, Option.bind_eq_bind, Option.bind_some,
    write_length_withMac h, h.buf_length, hmac]
  rw [← hlength]
  rfl

/-- Whoever shares the secret finds the Message-Authenticator of a request right. -/
theorem radiusMsgVerifyMsgAuth_signed (hmd5 : ∀ data, (md5 data).length = md5MacLen)
    (hother : ∀ attr ∈ msg.attrs, attr.1 ≠ attrMessageAuthenticator)
    (h : Holds m (be16 (msgLength (signed md5 secret msg))) (signed md5 secret msg)) :
    radiusMsgVerifyMsgAuth md5 m secret none = some true := by
  have hmac := hmacMd5_length hmd5 secret
    (encodeMsg (withMac msg (List.replicate md5MacLen 0)))
  have hblank : (signed md5 secret msg).attrs.map blanked =
      (withMac msg (List.replicate md5MacLen 0)).attrs := by
    have hdrop := List.drop_eq_nil_of_le (Nat.le_of_eq hmac)
    simp only [signed, withMac] at hdrop ⊢
    rw [List.map_append, map_blanked hother, List.map_singleton, blanked, if_pos rfl, hdrop,
      List.append_nil]
  have hdigest : messageAuthenticatorOf md5 secret (signed md5 secret msg)
      (signed md5 secret msg).authenticator =
        hmacMd5 md5 secret (encodeMsg (withMac msg (List.replicate md5MacLen 0))) := by
    rw [messageAuthenticatorOf, hblank]
    rfl
  rw [radiusMsgVerifyMsgAuth_eq h none rfl hother (by simp) (Nat.le_of_eq hmac.symm)
    h.fits.authenticator, Option.getD_none, hdigest,
    List.take_of_length_le (Nat.le_of_eq hmac), decide_eq_true rfl]

/-- `radius_msg_finish_srv` on a message that was built. -/
theorem radiusMsgFinishSrv_eq (h : Holds m length msg)
    (hmd5 : ∀ data, (md5 data).length = md5MacLen) (hreq : reqAuth.length = 16) :
    radiusMsgFinishSrv md5 m secret reqAuth =
      if msgLength (answered md5 secret msg reqAuth) > 0xffff then none
      else some ⟨encodeMsg (answered md5 secret msg reqAuth), m.attrPos ++ [m.buf.length]⟩ := by
  have hzeros : (List.replicate md5MacLen (0 : UInt8)).length = md5MacLen := List.length_replicate
  have hreqFits : ({ msg with authenticator := reqAuth } : RadiusMsg).Fits :=
    ⟨h.fits.code, hreq, h.fits.attrs⟩
  have hmacLength := hmacMd5_length hmd5 secret
    (encodeMsg (withMac { msg with authenticator := reqAuth } (List.replicate md5MacLen 0)))
  have hrequest : write (encodeMsg (withMac msg (List.replicate md5MacLen 0))) 4 reqAuth =
      some (encodeMsg (withMac { msg with authenticator := reqAuth }
        (List.replicate md5MacLen 0))) := by
    rw [encodeMsg_withMac _ hzeros, encodeMsg_withMac _ hzeros, List.append_assoc,
      write_authenticator msg (rfl : (be16 (msgLength msg + 18)).length = 2) h.fits.authenticator
        hreq,
      ← List.append_assoc]
    rfl
  have hmac : write (encodeMsg (withMac { msg with authenticator := reqAuth }
      (List.replicate md5MacLen 0))) (msgLength msg + 2) _ = some _ :=
    write_mac hreqFits hmacLength
  have hfits : (signed md5 secret { msg with authenticator := reqAuth }).Fits :=
    withMac_fits hreqFits hmacLength
  have hdigest : responseDigest md5 (encodeMsg (signed md5 secret { msg with
      authenticator := reqAuth })) reqAuth secret = _ := responseDigest_eq hfits
  have hanswer : write (encodeMsg (signed md5 secret { msg with authenticator := reqAuth })) 4
      (responseAuthenticatorOf md5 secret (signed md5 secret { msg with authenticator := reqAuth })
        reqAuth) = some (encodeMsg (answered md5 secret msg reqAuth)) :=
    write_authenticator _ rfl hfits.authenticator (hmd5 _) _
  have hlength : (encodeMsg (answered md5 secret msg reqAuth)).length =
      msgLength (answered md5 secret msg reqAuth) :=
    encodeMsg_length ⟨hfits.code, hmd5 _, hfits.attrs⟩
  simp only [signed] at hdigest hanswer
  simp only [radiusMsgFinishSrv, radiusMsgAddAttr_blank, Option.bind_eq_bind, Option.bind_some,
    write_length_withMac h, h.buf_length, hrequest, hmac, hdigest, hanswer]
  rw [← hlength]

end CoapEap.Radius
