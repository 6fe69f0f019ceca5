import CoapEap.Controller.Radius
import CoapEap.Library.Buffer
import CoapEap.Library.Records

/-!
RADIUS messages as `radius.c` keeps them: the bytes of the buffer and the positions
at which its attributes start. Messages are built attribute by attribute and parsed
from a datagram. What the readers of `radius.c` see of a buffer is the message of
`Radius.lean`, and the datagrams it parses are exactly the encodings of messages.
-/

namespace CoapEap.Radius

open Library.Records

abbrev radiusHdrLen : Nat := 20

/-- `struct radius_msg`. -/
structure RadiusBuf where
  buf : Bytes
  attrPos : List Nat
  deriving DecidableEq, Repr

/-- What stands behind the `radius_attr_hdr` at a position. -/
def attrAt (buf : Bytes) (pos : Nat) : Nat × Bytes :=
  (byteAt buf pos, (buf.drop (pos + 2)).take (byteAt buf (pos + 1) - 2))

/-- The message that the readers of a buffer see. -/
def RadiusBuf.view (m : RadiusBuf) : RadiusMsg :=
  { code := byteAt m.buf 0
    identifier := UInt8.ofNat (byteAt m.buf 1)
    authenticator := (m.buf.drop 4).take 16
    attrs := m.attrPos.map (attrAt m.buf) }

/-- `radius_msg_new`. A new buffer is filled with zeros. -/
def radiusMsgNew (code : Nat) (identifier : UInt8) : RadiusBuf :=
  ⟨[UInt8.ofNat code, identifier, 0, 0] ++ List.replicate 16 0, []⟩

/-- `radius_msg_add_attr`. -/
def radiusMsgAddAttr (m : RadiusBuf) (type : Nat) (data : Bytes) : Option RadiusBuf :=
  if data.length > radiusMaxAttrLen then none
  else
    some ⟨m.buf ++ [UInt8.ofNat type, UInt8.ofNat (2 + data.length)] ++ data,
      m.attrPos ++ [m.buf.length]⟩

/-- The loop of `radius_msg_add_eap`, which takes at least one byte in a round. -/
def addEapFrom : Nat → RadiusBuf → Bytes → Option RadiusBuf
  | 0, m, _ => some m
  | fuel + 1, m, left =>
    if left.length = 0 then some m
    else
      let len := if left.length > radiusMaxAttrLen then radiusMaxAttrLen else left.length
      (radiusMsgAddAttr m attrEapMessage (left.take len)).bind fun m =>
        addEapFrom fuel m (left.drop len)

/-- `radius_msg_add_eap`. -/
def radiusMsgAddEap (m : RadiusBuf) (data : Bytes) : Option RadiusBuf :=
  addEapFrom data.length m data

/-- `radius_msg_copy_attr`. -/
def radiusMsgCopyAttr (dst : RadiusBuf) (src : RadiusMsg) (type : Nat) : Option RadiusBuf :=
  (src.attrs.filter fun attr => attr.1 = type).foldlM
    (fun m attr => radiusMsgAddAttr m type attr.2) dst

/-- The authenticator that `radius_msg_make_authenticator` puts into the header. -/
def radiusMsgMakeAuthenticator (m : RadiusBuf) (authenticator : Bytes) : Option RadiusBuf :=
  (Library.Buffer.write m.buf 4 authenticator).map fun buf => { m with buf }

/-- One attribute of the loop of `radius_msg_parse`. -/
def readAttr (rest : Bytes) : Option ((Nat × Bytes) × Nat) :=
  if rest.length < 2 then none
  else
    let length := byteAt rest 1
    if length > rest.length ∨ length < 2 then none
    else some ((byteAt rest 0, (rest.take length).drop 2), length)

/-- `radius_msg_parse`, with the copy of the datagram that it makes. -/
def radiusMsgParseBuf (data : Bytes) : Option RadiusBuf :=
  if data.length < radiusHdrLen then none
  else
    let msgLen := be16At data 2
    if msgLen < radiusHdrLen ∨ msgLen > data.length then none
    else
      let buf := data.take msgLen
      (readStarts readAttr msgLen radiusHdrLen (buf.drop radiusHdrLen)).map fun attrPos =>
        ⟨buf, attrPos⟩

def writeAttr (attr : Nat × Bytes) : Bytes :=
  [UInt8.ofNat attr.1, UInt8.ofNat (2 + attr.2.length)] ++ attr.2

/-- One byte each holds the type and the length. -/
def ValidAttr (attr : Nat × Bytes) : Prop :=
  attr.1 < 256 ∧ attr.2.length ≤ radiusMaxAttrLen

def writeHeader (msg : RadiusMsg) (length : Bytes) : Bytes :=
  [UInt8.ofNat msg.code, msg.identifier] ++ length ++ msg.authenticator

/-- The attributes of a message as they stand in its buffer. -/
def attrBytes (msg : RadiusMsg) : Bytes := writeAll writeAttr msg.attrs

def msgLength (msg : RadiusMsg) : Nat := radiusHdrLen + (attrBytes msg).length

/-- The bytes of a message whose length is in its header. -/
def encodeMsg (msg : RadiusMsg) : Bytes := writeHeader msg (be16 (msgLength msg)) ++ attrBytes msg

/-- What the fields of header and attributes have room for. -/
structure RadiusMsg.Fits (msg : RadiusMsg) : Prop where
  code : msg.code < 256
  authenticator : msg.authenticator.length = 16
  attrs : ∀ attr ∈ msg.attrs, ValidAttr attr

/-- A buffer holds a message, with `length` in the length field. -/
structure Holds (m : RadiusBuf) (length : Bytes) (msg : RadiusMsg) : Prop where
  buf : m.buf = writeHeader msg length ++ attrBytes msg
  attrPos : m.attrPos = starts writeAttr radiusHdrLen msg.attrs
  field : length.length = 2
  fits : msg.Fits

variable {m m' : RadiusBuf} {msg : RadiusMsg} {data length rest : Bytes} {attr : Nat × Bytes}
variable {type n : Nat} {identifier : UInt8}

theorem toNat_ofNat_lt {n : Nat} (h : n < 256) : (UInt8.ofNat n).toNat = n := by
  rw [UInt8.toNat_ofNat']
  omega

theorem ofNat_byteAt (b : Bytes) (i : Nat) : UInt8.ofNat (byteAt b i) = b.getD i 0 := by
  apply UInt8.toNat.inj
  rw [toNat_ofNat_lt (byteAt_lt b i)]
  rfl

theorem writeAttr_length (attr : Nat × Bytes) : (writeAttr attr).length = 2 + attr.2.length := by
  simp [writeAttr]
  omega

theorem readAttr_writeAttr (hattr : ValidAttr attr) (rest : Bytes) :
    readAttr (writeAttr attr ++ rest) = some (attr, (writeAttr attr).length) := by
  obtain ⟨htype, hvalue⟩ := hattr
  simp only [radiusMaxAttrLen] at hvalue
  have hlength : byteAt (writeAttr attr ++ rest) 1 = 2 + attr.2.length := by
    simp only [writeAttr, List.cons_append, List.nil_append, byteAt_cons_succ, byteAt_cons_zero]
    exact toNat_ofNat_lt (by omega)
  have htotal : (writeAttr attr ++ rest).length = 2 + attr.2.length + rest.length := by
    rw [List.length_append, writeAttr_length]
  have hfits : ¬ (2 + attr.2.length > (writeAttr attr ++ rest).length ∨
      2 + attr.2.length < 2) := by
    omega
  have hfirst : byteAt (writeAttr attr ++ rest) 0 = attr.1 := by
    simp only [writeAttr, List.cons_append, byteAt_cons_zero]
    exact toNat_ofNat_lt htype
  have hdata : ((writeAttr attr ++ rest).take (2 + attr.2.length)).drop 2 = attr.2 := by
    rw [← writeAttr_length, List.take_left]
    rfl
  unfold readAttr
  rw [if_neg (by omega)]
  simp only [hlength, if_neg hfits, hfirst, hdata, writeAttr_length]

theorem readAttr_wrote (h : readAttr data = some (attr, n)) :
    ValidAttr attr ∧ n = (writeAttr attr).length ∧ data = writeAttr attr ++ data.drop n := by
  unfold readAttr at h
  split at h
  · simp at h
  · rename_i htwo
    simp only [Option.ite_none_left_eq_some, Option.some.injEq, Prod.mk.injEq] at h
    obtain ⟨hfits, rfl, rfl⟩ := h
    have hbyte := byteAt_lt data 1
    have hlength : ((data.take (byteAt data 1)).drop 2).length = byteAt data 1 - 2 := by
      rw [List.length_drop, List.length_take]
      omega
    refine ⟨⟨byteAt_lt data 0, ?_⟩, ?_, ?_⟩
    · simp only [hlength, radiusMaxAttrLen]
      omega
    · rw [writeAttr_length]
      simp only [hlength]
      omega
    · have hsum : 2 + (byteAt data 1 - 2) = byteAt data 1 := by omega
      simp only [writeAttr, hlength, hsum, ofNat_byteAt]
      match data, htwo, hfits with
      | a :: b :: tail, _, hfits =>
        have hsucc : byteAt (a :: b :: tail) 1 = (byteAt (a :: b :: tail) 1 - 2) + 1 + 1 := by
          omega
        rw [hsucc]
        simp
      | [_], htwo, _ => simp at htwo
      | [], htwo, _ => simp at htwo

theorem delimits_attr : Delimits readAttr writeAttr ValidAttr where
  reads attr rest hattr := readAttr_writeAttr hattr rest
  wrote _ _ _ h := readAttr_wrote h
  nonempty attr _ := by simp [writeAttr]

/-- The value of an attribute between others is read where it stands. -/
theorem attrAt_writeAttr (front : Bytes) (attr : Nat × Bytes) (rest : Bytes)
    (hattr : ValidAttr attr) : attrAt (front ++ writeAttr attr ++ rest) front.length = attr := by
  obtain ⟨htype, hvalue⟩ := hattr
  simp only [radiusMaxAttrLen] at hvalue
  have hread : ∀ i, byteAt (front ++ (writeAttr attr ++ rest)) (front.length + i) =
      byteAt (writeAttr attr ++ rest) i := by
    intro i
    rw [byteAt_append_right (Nat.le_add_right _ _), Nat.add_sub_cancel_left]
  have hfirst := hread 0
  rw [Nat.add_zero] at hfirst
  have hlength : byteAt (writeAttr attr ++ rest) 1 = 2 + attr.2.length := by
    simp only [writeAttr, List.cons_append, List.nil_append, byteAt_cons_succ, byteAt_cons_zero]
    exact toNat_ofNat_lt (by omega)
  have htypeByte : byteAt (writeAttr attr ++ rest) 0 = attr.1 := by
    simp only [writeAttr, List.cons_append, byteAt_cons_zero]
    exact toNat_ofNat_lt htype
  have hdrop : (front ++ (writeAttr attr ++ rest)).drop (front.length + 2) = attr.2 ++ rest := by
    rw [List.drop_length_add_append]
    rfl
  rw [List.append_assoc, attrAt, hfirst, hread 1, htypeByte, hlength, hdrop,
    Nat.add_sub_cancel_left, List.take_left]

/-- The loop over the attributes is that of `radius_msg_parse`. -/
theorem parseAttrs_eq (fuel : Nat) (rest : Bytes) :
    parseAttrs fuel rest = readAll readAttr fuel rest := by
  induction fuel generalizing rest with
  | zero => rfl
  | succ fuel ih =>
    simp only [parseAttrs, readAll, readAttr]
    split
    · rfl
    · split
      · rfl
      · split
        · rfl
        · simp [ih]

theorem writeHeader_length (hfits : msg.Fits) (hlength : length.length = 2) :
    (writeHeader msg length).length = radiusHdrLen := by
  simp [writeHeader, hlength, hfits.authenticator, radiusHdrLen]

theorem encodeMsg_length (hfits : msg.Fits) : (encodeMsg msg).length = msgLength msg := by
  rw [encodeMsg, List.length_append, writeHeader_length hfits rfl, msgLength]

theorem writeHeader_reads (length : Bytes) (hfits : msg.Fits) (rest : Bytes) :
    byteAt (writeHeader msg length ++ rest) 0 = msg.code ∧
      UInt8.ofNat (byteAt (writeHeader msg length ++ rest) 1) = msg.identifier ∧
      (length.length = 2 →
        ((writeHeader msg length ++ rest).drop 4).take 16 = msg.authenticator) := by
  refine ⟨?_, ?_, ?_⟩
  · simp only [writeHeader, List.cons_append, byteAt_cons_zero]
    exact toNat_ofNat_lt hfits.code
  · rw [ofNat_byteAt]
    rfl
  · intro hlength
    match length, hlength with
    | [a, b], _ =>
      simp only [writeHeader, List.cons_append, List.nil_append, List.drop_succ_cons,
        List.drop_zero]
      rw [← hfits.authenticator, List.take_left]

/-- The readers of a buffer see the message it holds. -/
theorem Holds.view (h : Holds m length msg) : m.view = msg := by
  obtain ⟨hcode, hidentifier, hauthenticator⟩ :=
    writeHeader_reads length h.fits (attrBytes msg)
  have hheader := writeHeader_length h.fits h.field
  have hattrs := map_starts attrAt id (fun front attr rest hattr =>
    attrAt_writeAttr front attr rest hattr) h.fits.attrs (writeHeader msg length) []
  rw [hheader, List.append_nil, List.map_id] at hattrs
  simp only [RadiusBuf.view, h.buf, h.attrPos, hcode, hidentifier, hauthenticator h.field]
  rw [show writeAll writeAttr msg.attrs = attrBytes msg from rfl] at hattrs
  rw [hattrs]

theorem be16At_encodeMsg (hlength : msgLength msg < 65536) (rest : Bytes) :
    be16At (encodeMsg msg ++ rest) 2 = msgLength msg := by
  have hfront : encodeMsg msg ++ rest =
      [UInt8.ofNat msg.code, msg.identifier] ++
        (be16 (msgLength msg) ++ (msg.authenticator ++ attrBytes msg ++ rest)) := by
    simp [encodeMsg, writeHeader]
  rw [hfront]
  have hread := be16At_append_right [UInt8.ofNat msg.code, msg.identifier]
    (be16 (msgLength msg) ++ (msg.authenticator ++ attrBytes msg ++ rest)) 0
  rw [Nat.add_zero] at hread
  exact hread.trans (be16At_be16 hlength _)

/-- A datagram that starts with an encoded message is parsed to it. -/
theorem radiusMsgParseBuf_encodeMsg (hfits : msg.Fits) (hlength : msgLength msg < 65536)
    (extra : Bytes) : radiusMsgParseBuf (encodeMsg msg ++ extra) =
      some ⟨encodeMsg msg, starts writeAttr radiusHdrLen msg.attrs⟩ := by
  have htotal := encodeMsg_length hfits
  have hfield := be16At_encodeMsg hlength extra
  have hbounds : radiusHdrLen ≤ msgLength msg := Nat.le_add_right _ _
  have hall : (encodeMsg msg ++ extra).length = msgLength msg + extra.length := by
    rw [List.length_append, htotal]
  have hbuf : (encodeMsg msg ++ extra).take (msgLength msg) = encodeMsg msg := by
    rw [← htotal, List.take_left]
  have hdrop : (encodeMsg msg).drop radiusHdrLen = attrBytes msg := by
    have hheader : (writeHeader msg (be16 (msgLength msg))).length = radiusHdrLen :=
      writeHeader_length hfits rfl
    rw [encodeMsg, ← hheader, List.drop_left]
  have hfuel : (writeAll writeAttr msg.attrs).length < msgLength msg := by
    simp [msgLength, attrBytes, radiusHdrLen]
  have hstarts : readStarts readAttr (msgLength msg) radiusHdrLen (attrBytes msg) =
      some (starts writeAttr radiusHdrLen msg.attrs) := by
    rw [readStarts_eq delimits_attr, attrBytes,
      readAll_writeAll delimits_attr hfits.attrs hfuel, Option.map_some]
  unfold radiusMsgParseBuf
  rw [if_neg (by omega)]
  simp only [hfield]
  rw [if_neg (by omega)]
  simp only [hbuf, hdrop, hstarts, Option.map_some]

/-- The first bytes of a datagram as a header. -/
theorem header_split (hlength : radiusHdrLen ≤ data.length) (attrs : List (Nat × Bytes)) :
    data = writeHeader
        ⟨byteAt data 0, UInt8.ofNat (byteAt data 1), (data.drop 4).take 16, attrs⟩
        (be16 (be16At data 2)) ++ data.drop radiusHdrLen := by
  match data, hlength with
  | a :: b :: c :: d :: tail, _ =>
    have hfield : be16At (a :: b :: c :: d :: tail) 2 = be16At (c :: d :: tail) 0 :=
      be16At_append_right [a, b] (c :: d :: tail) 0
    simp [writeHeader, hfield, be16_be16At, radiusHdrLen]

/-- What is parsed is an encoded message, which the copy of the datagram holds. -/
theorem radiusMsgParseBuf_some (h : radiusMsgParseBuf data = some m) :
    ∃ msg, radiusMsgParse data = some msg ∧ msg.Fits ∧ msgLength msg < 65536 ∧
      encodeMsg msg <+: data ∧ Holds m (be16 (msgLength msg)) msg := by
  unfold radiusMsgParseBuf at h
  split at h
  · simp at h
  · rename_i hheader
    simp only [Option.ite_none_left_eq_some, Option.map_eq_some_iff] at h
    obtain ⟨hbounds, attrPos, hstarts, rfl⟩ := h
    set msgLen := be16At data 2 with hmsgLen
    rw [readStarts_eq delimits_attr, Option.map_eq_some_iff] at hstarts
    obtain ⟨attrs, hattrs, rfl⟩ := hstarts
    obtain ⟨hvalid, hbytes⟩ := writeAll_readAll delimits_attr hattrs
    let msg : RadiusMsg :=
      ⟨byteAt data 0, UInt8.ofNat (byteAt data 1), (data.drop 4).take 16, attrs⟩
    have hsixteen : msg.authenticator.length = 16 := by
      simp only [msg, List.length_take, List.length_drop, radiusHdrLen] at hheader ⊢
      omega
    have hfits : msg.Fits := ⟨byteAt_lt data 0, hsixteen, hvalid⟩
    have hlen : msgLength msg = msgLen := by
      have hrest := congrArg List.length hbytes
      rw [List.length_drop, List.length_take] at hrest
      simp only [msgLength, attrBytes, msg] at hrest ⊢
      omega
    have hsmall : msgLen < 65536 := be16At_lt data 2
    have hsplit := header_split (Nat.le_of_not_lt hheader) attrs
    have hwidth : (writeHeader msg (be16 msgLen)).length = radiusHdrLen :=
      writeHeader_length hfits rfl
    have hcopy : data.take msgLen = encodeMsg msg := by
      have htail : (data.drop radiusHdrLen).take (msgLen - radiusHdrLen) = attrBytes msg := by
        rw [← List.drop_take]
        exact hbytes
      have hwhole : msgLen = (writeHeader msg (be16 msgLen)).length + (msgLen - radiusHdrLen) := by
        omega
      rw [encodeMsg, hlen, ← htail]
      conv_lhs => rw [hsplit, hwhole]
      exact List.take_length_add_append _
    refine ⟨msg, ?_, hfits, by omega, ?_, ⟨?_, rfl, rfl, hfits⟩⟩
    · simp only [radiusHdrLen] at hheader hbounds hattrs
      simp only [radiusMsgParse, if_neg hheader, ← hmsgLen, if_neg hbounds, parseAttrs_eq, hattrs,
        Option.map_some, msg]
    · exact hcopy ▸ List.take_prefix msgLen data
    · rw [hcopy, encodeMsg]

/-- The copy with its positions and the list of attributes are the same message. -/
theorem radiusMsgParse_eq (data : Bytes) :
    radiusMsgParse data = (radiusMsgParseBuf data).map RadiusBuf.view := by
  cases hbuf : radiusMsgParseBuf data with
  | some m =>
    obtain ⟨msg, hparse, -, -, -, hholds⟩ := radiusMsgParseBuf_some hbuf
    rw [Option.map_some, hholds.view, hparse]
  | none =>
    rw [Option.map_none]
    unfold radiusMsgParseBuf at hbuf
    unfold radiusMsgParse
    simp only [radiusHdrLen] at hbuf
    split
    · rfl
    · rename_i hheader
      rw [if_neg hheader] at hbuf
      simp only at hbuf ⊢
      split
      · rfl
      · rename_i hbounds
        rw [if_neg hbounds, Option.map_eq_none_iff, readStarts_eq delimits_attr,
          Option.map_eq_none_iff] at hbuf
        rw [parseAttrs_eq, hbuf, Option.map_none]

/-- What `radius_msg_parse` accepts starts with the encoding of the message it gives. -/
theorem radiusMsgParse_some (h : radiusMsgParse data = some msg) :
    msg.Fits ∧ msgLength msg < 65536 ∧ encodeMsg msg <+: data := by
  rw [radiusMsgParse_eq, Option.map_eq_some_iff] at h
  obtain ⟨m, hbuf, hview⟩ := h
  obtain ⟨msg', -, hfits, hlength, hprefix, hholds⟩ := radiusMsgParseBuf_some hbuf
  obtain rfl : msg' = msg := hholds.view.symm.trans hview
  exact ⟨hfits, hlength, hprefix⟩

theorem radiusMsgParse_encodeMsg (hfits : msg.Fits) (hlength : msgLength msg < 65536)
    (extra : Bytes) : radiusMsgParse (encodeMsg msg ++ extra) = some msg := by
  have hholds : Holds ⟨encodeMsg msg, starts writeAttr radiusHdrLen msg.attrs⟩
      (be16 (msgLength msg)) msg := ⟨rfl, rfl, rfl, hfits⟩
  rw [radiusMsgParse_eq, radiusMsgParseBuf_encodeMsg hfits hlength, Option.map_some,
    hholds.view]

/-- `radius_msg_parse` accepts a datagram exactly when it starts with the encoding of
a message, and then gives this message: what an encoding leaves over is ignored, and
no message has two encodings. -/
theorem radiusMsgParse_iff (data : Bytes) (msg : RadiusMsg) :
    radiusMsgParse data = some msg ↔
      msg.Fits ∧ msgLength msg < 65536 ∧ encodeMsg msg <+: data := by
  constructor
  · exact radiusMsgParse_some
  · rintro ⟨hfits, hlength, extra, rfl⟩
    exact radiusMsgParse_encodeMsg hfits hlength extra

end CoapEap.Radius
