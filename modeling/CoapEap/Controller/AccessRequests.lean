import CoapEap.Controller.RadiusExchange
import CoapEap.Controller.Requests

/-!
The bytes of an Access-Request (`eap_auth_encapsulate_radius` and the signing in
`radius_client_send`). What `Handlers.lean` keeps of a request is what a server reads
from the datagram, and the server finds its Message-Authenticator right.
-/

namespace CoapEap.Mainserver

open Cantcoap EapServer Lalarm Radius Library.Runs Library.Records

def attrUserName : Nat := 1
def attrNasIpAddress : Nat := 4
def attrFramedMtu : Nat := 12
def attrCallingStationId : Nat := 31
def attrNasPortType : Nat := 61
def attrConnectInfo : Nat := 77

def nasPortTypeIeee80211 : Nat := 19

/-- `127.0.0.1`, which `rad_client_init` sets. -/
def ownIpAddr : Bytes := [127, 0, 0, 1]

/-- `"00-00-00-00-00-00"`. The address in a context is never set. -/
def callingStationId : Bytes :=
  [0x30, 0x30, 0x2D, 0x30, 0x30, 0x2D, 0x30, 0x30, 0x2D, 0x30, 0x30, 0x2D, 0x30, 0x30, 0x2D,
    0x30, 0x30]

/-- `"CON"`. `rad_client_init` writes `"CONNECT 11Mbps 802.11b"` with the size of the
pointer to it, which leaves three characters and the zero behind them. -/
def connectInfo : Bytes := [0x43, 0x4F, 0x4E]

/-- `radius_msg_add_attr_int32`. -/
def radiusMsgAddAttrInt32 (m : RadiusBuf) (type value : Nat) : Option RadiusBuf :=
  radiusMsgAddAttr m type (be16 (value / 65536) ++ be16 value)

/-- The User-Name: the identity in the response, or the one that was learned before. -/
def addUserName (m : RadiusBuf) (identity : Option Bytes) : Option RadiusBuf :=
  match identity with
  | some identity => radiusMsgAddAttr m attrUserName identity
  | none => some m

/-- "State attribute must be copied if and only if this packet is Access-Request reply to
the previous Access-Challenge". -/
def copyState (m : RadiusBuf) (last : Option RadiusMsg) : Option RadiusBuf :=
  match last with
  | some last =>
    if last.code = accessChallenge then radiusMsgCopyAttr m last attrState else some m
  | none => some m

/-- `eap_auth_encapsulate_radius` up to `radius_client_send`; no extra attributes are
configured. -/
def encapsulateRadius (ctx : EapAuthCtx) (identifier : UInt8) (eap authenticator : Bytes) :
    Option RadiusBuf := do
  let msg ← radiusMsgMakeAuthenticator (radiusMsgNew accessRequest identifier) authenticator
  let msg ← addUserName msg ((learnedIdentity eap).or ctx.eapIdentity)
  let msg ← radiusMsgAddAttr msg attrNasIpAddress ownIpAddr
  let msg ← radiusMsgAddAttr msg attrCallingStationId callingStationId
  let msg ← radiusMsgAddAttrInt32 msg attrFramedMtu 1400
  let msg ← radiusMsgAddAttrInt32 msg attrNasPortType nasPortTypeIeee80211
  let msg ← radiusMsgAddAttr msg attrConnectInfo connectInfo
  let msg ← radiusMsgAddEap msg eap
  copyState msg ctx.lastRecvRadius

/-- The attributes that never differ between requests. -/
def fixedAttrs : List (Nat × Bytes) :=
  [(attrNasIpAddress, ownIpAddr), (attrCallingStationId, callingStationId),
    (attrFramedMtu, be16 (1400 / 65536) ++ be16 1400),
    (attrNasPortType, be16 (nasPortTypeIeee80211 / 65536) ++ be16 nasPortTypeIeee80211),
    (attrConnectInfo, connectInfo)]

/-- The message of a request, without its Message-Authenticator. -/
def requestMsg (req : AccessRequest) : RadiusMsg :=
  { code := accessRequest, identifier := req.identifier, authenticator := req.authenticator
    attrs := req.userName.toList.map (attrUserName, ·) ++ fixedAttrs ++
      (fragments req.eapMessage.length req.eapMessage).map (attrEapMessage, ·) ++
        req.state.map (attrState, ·) }

variable {md5 : Bytes → Bytes} {secret length data : Bytes} {m m' : RadiusBuf} {msg : RadiusMsg}
variable {type : Nat} {req : AccessRequest}

theorem addAttr_holds (h : Holds m length msg) (htype : type < 256)
    (hdata : data.length ≤ radiusMaxAttrLen) :
    ∃ m', radiusMsgAddAttr m type data = some m' ∧
      Holds m' length { msg with attrs := msg.attrs ++ [(type, data)] } := by
  have hadd : ∃ m', radiusMsgAddAttr m type data = some m' := by
    simp only [radiusMsgAddAttr, if_neg (Nat.not_lt.mpr hdata)]
    exact ⟨_, rfl⟩
  obtain ⟨m', hm'⟩ := hadd
  exact ⟨m', hm', h.addAttr htype hm'⟩

/-- Attributes of one type that are added one after the other. -/
theorem addAttrs_holds (h : Holds m length msg) (htype : type < 256) {values : List Bytes}
    (hvalues : ∀ value ∈ values, value.length ≤ radiusMaxAttrLen) :
    ∃ m', values.foldlM (fun m value => radiusMsgAddAttr m type value) m = some m' ∧
      Holds m' length { msg with attrs := msg.attrs ++ values.map (type, ·) } := by
  induction values generalizing m msg with
  | nil => exact ⟨m, rfl, by simpa using h⟩
  | cons value values ih =>
    rw [List.forall_mem_cons] at hvalues
    obtain ⟨added, hadd, hadded⟩ := addAttr_holds h htype hvalues.1
    obtain ⟨m', hrest, hholds⟩ := ih hadded hvalues.2
    refine ⟨m', ?_, ?_⟩
    · rw [List.foldlM_cons, hadd]
      exact hrest
    · simpa using hholds

/-- The pieces of an EAP message always fit. -/
theorem addEapFrom_isSome (fuel : Nat) (m : RadiusBuf) (data : Bytes) :
    (addEapFrom fuel m data).isSome := by
  induction fuel generalizing m data with
  | zero => rfl
  | succ fuel ih =>
    simp only [addEapFrom]
    split
    · rfl
    · have hshort : ¬ (data.take (if data.length > radiusMaxAttrLen then radiusMaxAttrLen
          else data.length)).length > radiusMaxAttrLen := by
        rw [List.length_take]
        split
        · omega
        · omega
      simp only [radiusMsgAddAttr, if_neg hshort, Option.bind_some]
      exact ih _ _

theorem addEap_holds (h : Holds m length msg) (data : Bytes) :
    ∃ m', radiusMsgAddEap m data = some m' ∧
      Holds m' length { msg with
        attrs := msg.attrs ++ (fragments data.length data).map (attrEapMessage, ·) } := by
  obtain ⟨m', hm'⟩ := Option.isSome_iff_exists.mp (addEapFrom_isSome data.length m data)
  exact ⟨m', hm', h.addEapFrom hm'⟩

theorem copyAttr_eq (dst : RadiusBuf) (src : RadiusMsg) (type : Nat) :
    radiusMsgCopyAttr dst src type =
      (attrValues src type).foldlM (fun m value => radiusMsgAddAttr m type value) dst := by
  rw [radiusMsgCopyAttr, attrValues, List.foldlM_map]

theorem makeAuthenticator_holds {authenticator : Bytes} (identifier : UInt8)
    (hauth : authenticator.length = 16) :
    ∃ m, radiusMsgMakeAuthenticator (radiusMsgNew accessRequest identifier) authenticator =
        some m ∧
      Holds m [0, 0] ⟨accessRequest, identifier, authenticator, []⟩ := by
  have hnew := holds_radiusMsgNew (by decide : accessRequest < 256) identifier
  have hwrite := write_authenticator ⟨accessRequest, identifier, List.replicate 16 0, []⟩
    (rfl : ([0, 0] : Bytes).length = 2) rfl hauth []
  rw [List.append_nil, List.append_nil] at hwrite
  refine ⟨⟨writeHeader ⟨accessRequest, identifier, authenticator, []⟩ [0, 0], []⟩, ?_,
    ⟨?_, rfl, rfl, ⟨hnew.fits.code, hauth, by simp⟩⟩⟩
  · have hbuf : (radiusMsgNew accessRequest identifier).buf =
        writeHeader ⟨accessRequest, identifier, List.replicate 16 0, []⟩ [0, 0] := rfl
    simp only [radiusMsgMakeAuthenticator, hbuf, hwrite, Option.map_some]
    rfl
  · simp [attrBytes]

theorem addUserName_holds (h : Holds m length msg) {identity : Option Bytes}
    (hshort : (identity.getD []).length ≤ radiusMaxAttrLen) :
    ∃ m', addUserName m identity = some m' ∧
      Holds m' length
        { msg with attrs := msg.attrs ++ identity.toList.map (attrUserName, ·) } := by
  cases identity with
  | none => exact ⟨m, rfl, by simpa using h⟩
  | some identity => exact addAttr_holds h (by decide) hshort

theorem copyState_holds (h : Holds m length msg) {last : Option RadiusMsg}
    (hvalues : ∀ value ∈ stateFor last, value.length ≤ radiusMaxAttrLen) :
    ∃ m', copyState m last = some m' ∧
      Holds m' length { msg with attrs := msg.attrs ++ (stateFor last).map (attrState, ·) } := by
  have hadded := addAttrs_holds h (by decide : attrState < 256) hvalues
  cases last with
  | none => exact hadded
  | some last =>
    by_cases hchallenge : last.code = accessChallenge
    · simp only [stateFor, if_pos hchallenge] at hadded ⊢
      simp only [copyState, if_pos hchallenge, copyAttr_eq]
      exact hadded
    · simp only [stateFor, if_neg hchallenge] at hadded ⊢
      simp only [copyState, if_neg hchallenge]
      exact hadded

/-- What the controller puts into the buffer for a request. -/
theorem encapsulateRadius_holds {ctx : EapAuthCtx}
    (hauth : req.authenticator.length = 16)
    (huser : req.userName = (learnedIdentity req.eapMessage).or ctx.eapIdentity)
    (hshort : (req.userName.getD []).length ≤ radiusMaxAttrLen)
    (hstate : req.state = stateFor ctx.lastRecvRadius)
    (hvalues : ∀ value ∈ req.state, value.length ≤ radiusMaxAttrLen) :
    ∃ m, encapsulateRadius ctx req.identifier req.eapMessage req.authenticator = some m ∧
      Holds m [0, 0] (requestMsg req) := by
  rw [hstate] at hvalues
  obtain ⟨m₀, hm₀, h₀⟩ := makeAuthenticator_holds req.identifier hauth
  obtain ⟨m₁, hm₁, h₁⟩ := addUserName_holds h₀ hshort
  obtain ⟨m₂, hm₂, h₂⟩ := addAttr_holds h₁ (by decide : attrNasIpAddress < 256)
    (by decide : ownIpAddr.length ≤ radiusMaxAttrLen)
  obtain ⟨m₃, hm₃, h₃⟩ := addAttr_holds h₂ (by decide : attrCallingStationId < 256)
    (by decide : callingStationId.length ≤ radiusMaxAttrLen)
  obtain ⟨m₄, hm₄, h₄⟩ := addAttr_holds h₃ (by decide : attrFramedMtu < 256)
    (by decide : (be16 (1400 / 65536) ++ be16 1400).length ≤ radiusMaxAttrLen)
  obtain ⟨m₅, hm₅, h₅⟩ := addAttr_holds h₄ (by decide : attrNasPortType < 256)
    (by decide : (be16 (nasPortTypeIeee80211 / 65536) ++ be16 nasPortTypeIeee80211).length ≤
      radiusMaxAttrLen)
  obtain ⟨m₆, hm₆, h₆⟩ := addAttr_holds h₅ (by decide : attrConnectInfo < 256)
    (by decide : connectInfo.length ≤ radiusMaxAttrLen)
  obtain ⟨m₇, hm₇, h₇⟩ := addEap_holds h₆ req.eapMessage
  obtain ⟨m₈, hm₈, h₈⟩ := copyState_holds h₇ hvalues
  rw [huser] at hm₁
  refine ⟨m₈, ?_, ?_⟩
  · simp only [encapsulateRadius, radiusMsgAddAttrInt32, hm₀, hm₁, hm₂, hm₃, hm₄, hm₅, hm₆, hm₇,
      hm₈, Option.bind_eq_bind, Option.bind_some]
  · simpa [requestMsg, fixedAttrs, hstate] using h₈

/-- No piece of an EAP message is empty, so the headers at most triple it. -/
theorem fragments_bytes (fuel : Nat) (data : Bytes) :
    ((fragments fuel data).map fun piece => 2 + piece.length).sum ≤ 3 * data.length := by
  induction fuel generalizing data with
  | zero => simp [fragments]
  | succ fuel ih =>
    simp only [fragments]
    split
    · simp
    · rename_i hsome
      have hrest := ih (data.drop radiusMaxAttrLen)
      rw [List.length_drop] at hrest
      rw [List.map_cons, List.sum_cons, List.length_take]
      simp only [radiusMaxAttrLen] at hrest ⊢
      omega

theorem writeAll_attrs_length (type : Nat) (values : List Bytes) :
    (writeAll writeAttr (values.map (type, ·))).length =
      (values.map fun value => 2 + value.length).sum := by
  simp [writeAll, List.length_flatten, writeAttr_length, Function.comp_def]

/-- A request that waits leaves room for its Message-Authenticator. -/
theorem PendingRequest.requestMsg_length (h : PendingRequest req) :
    msgLength (requestMsg req) + 18 ≤ 0xffff := by
  have huser : (writeAll writeAttr (req.userName.toList.map (attrUserName, ·))).length ≤ 255 := by
    have hname := h.userName
    rw [writeAll_attrs_length]
    cases hidentity : req.userName with
    | none => simp
    | some identity =>
      rw [hidentity] at hname
      simp only [Option.getD_some, radiusMaxAttrLen] at hname
      simp only [Option.toList_some, List.map_singleton, List.sum_singleton]
      omega
  have hfixed : (writeAll writeAttr fixedAttrs).length = 42 := by decide
  have heap := fragments_bytes req.eapMessage.length req.eapMessage
  rw [← writeAll_attrs_length attrEapMessage] at heap
  have hstate := h.state.2
  rw [← writeAll_attrs_length attrState] at hstate
  have hshort := h.short
  simp only [msgLength, attrBytes, requestMsg, writeAll_append, List.length_append, hfixed]
  simp only [radiusHdrLen, maxDataLen, maxEapResponse] at hshort hstate ⊢
  omega

theorem requestMsg_unsigned (req : AccessRequest) :
    ∀ attr ∈ (requestMsg req).attrs, attr.1 ≠ attrMessageAuthenticator := by
  intro attr hattr
  have hfixed : ∀ attr ∈ fixedAttrs, attr.1 ≠ attrMessageAuthenticator := by decide
  simp only [requestMsg, List.mem_append, List.mem_map] at hattr
  rcases hattr with ((⟨identity, -, rfl⟩ | hmem) | ⟨piece, -, rfl⟩) | ⟨value, -, rfl⟩
  · exact (by decide : attrUserName ≠ attrMessageAuthenticator)
  · exact hfixed attr hmem
  · exact (by decide : attrEapMessage ≠ attrMessageAuthenticator)
  · exact (by decide : attrState ≠ attrMessageAuthenticator)

/-- The attributes of a type among the values of one type. -/
theorem filter_values (type other : Nat) (values : List Bytes) :
    ((values.map (type, ·)).filter fun attr => attr.1 = other).map Prod.snd =
      if type = other then values else [] := by
  split
  · rename_i hsame
    have hall : (values.map (type, ·)).filter (fun attr => attr.1 = other) =
        values.map (type, ·) := by
      rw [List.filter_eq_self]
      simp [hsame]
    rw [hall, List.map_map]
    exact List.map_id values
  · rename_i hother
    have hnone : (values.map (type, ·)).filter (fun attr => attr.1 = other) = [] := by
      rw [List.filter_eq_nil_iff]
      simp [hother]
    rw [hnone, List.map_nil]

/-- The values of a type that neither the fixed attributes nor the signature have. -/
theorem attrValues_signed (req : AccessRequest) (type : Nat)
    (hfixed : fixedAttrs.filter (fun attr => attr.1 = type) = [])
    (hmac : attrMessageAuthenticator ≠ type) :
    attrValues (signed md5 secret (requestMsg req)) type =
      (if attrUserName = type then req.userName.toList else []) ++
        (if attrEapMessage = type then fragments req.eapMessage.length req.eapMessage else []) ++
          if attrState = type then req.state else [] := by
  have hlast : ∀ mac : Bytes, [(attrMessageAuthenticator, mac)].filter
      (fun attr => attr.1 = type) = [] := by
    intro mac
    simp [hmac]
  simp only [attrValues, signed, withMac, requestMsg, List.filter_append, List.map_append,
    hfixed, hlast, List.append_nil, filter_values]

theorem getEap_signed (hsome : req.eapMessage ≠ []) :
    radiusMsgGetEap (signed md5 secret (requestMsg req)) = some req.eapMessage := by
  have hvalues : attrValues (signed md5 secret (requestMsg req)) attrEapMessage = _ :=
    attrValues_signed req attrEapMessage rfl (by decide)
  rw [if_neg (by decide), if_pos rfl, if_neg (by decide), List.nil_append,
    List.append_nil] at hvalues
  simp only [radiusMsgGetEap, hvalues, fragments_flatten (Nat.le_refl req.eapMessage.length),
    if_neg hsome]

/-- Every Access-Request that the controller sends fits a RADIUS message and is parsed by
a server that has the secret. The server reads the code, the identifier and the request
authenticator, the user name and the whole EAP response, finds the State of the last
Access-Challenge back, and its check of the Message-Authenticator passes. -/
theorem sent_request_on_wire (md5 : Bytes → Bytes)
    (hmd5 : ∀ data, (md5 data).length = md5MacLen) (secret : Bytes) (digests : Digests)
    (s t : Controller) (e : Event) (hreach : Reachable digests s)
    (hstep : step digests s e = some t) (p : Ptr) (identifier : UInt8)
    (hsent : (p, identifier) ∈ (requestsOf t.log).drop (requestsOf s.log).length) :
    ∃ req, t.radius.msgs.head?.map RadiusMsgList.msg = some req ∧
      (req.authenticator.length = 16 →
        ∃ m m' received, encapsulateRadius (s.heap p).eapCtx identifier req.eapMessage
            req.authenticator = some m ∧
          radiusMsgFinish md5 m secret = some m' ∧
          radiusMsgParseBuf m'.buf = some received ∧
          received.view.code = accessRequest ∧ received.view.identifier = identifier ∧
          received.view.authenticator = req.authenticator ∧
          attrValues received.view attrUserName = req.userName.toList ∧
          radiusMsgGetEap received.view = some req.eapMessage ∧
          attrValues received.view attrState = req.state ∧
          radiusMsgVerifyMsgAuth md5 received secret none = some true) := by
  obtain ⟨-, ctx, call, r, entry, rest, hfeeds, hasked, hentry, rfl, hmsgs, -⟩ :=
    request_of_step hreach hstep hsent
  have hpending : PendingRequest entry.msg :=
    hentry.pending hfeeds (conversing hreach p) (shortResponses hreach p)
      ((answersArrived hreach).kept p)
  refine ⟨entry.msg, by rw [hmsgs]; rfl, fun hauth => ?_⟩
  have huser := hentry.userName
  rw [hfeeds.eapIdentity] at huser
  have hstate := hentry.state
  rw [hfeeds.lastRecvRadius] at hstate
  obtain ⟨m, hbuilt, hholds⟩ :=
    encapsulateRadius_holds hauth huser hpending.userName hstate hpending.state.1
  have hmac := hmacMd5_length hmd5 secret
    (encodeMsg (withMac (requestMsg entry.msg) (List.replicate md5MacLen 0)))
  have hfits : (signed md5 secret (requestMsg entry.msg)).Fits := withMac_fits hholds.fits hmac
  have hlength : msgLength (signed md5 secret (requestMsg entry.msg)) ≤ 0xffff := by
    rw [signed, msgLength_withMac _ hmac]
    exact hpending.requestMsg_length
  have hfinish : radiusMsgFinish md5 m secret = _ := radiusMsgFinish_eq hholds hmd5
  rw [if_neg (Nat.not_lt.mpr hlength)] at hfinish
  have hparse := radiusMsgParseBuf_encodeMsg hfits (Nat.lt_succ_of_le hlength) []
  rw [List.append_nil] at hparse
  have hreceived : Holds ⟨encodeMsg (signed md5 secret (requestMsg entry.msg)), _⟩
      (be16 (msgLength (signed md5 secret (requestMsg entry.msg))))
      (signed md5 secret (requestMsg entry.msg)) := ⟨rfl, rfl, rfl, hfits⟩
  have hsome : entry.msg.eapMessage ≠ [] := by
    obtain ⟨id, hresponse⟩ := hpending.eapMessage
    intro hnone
    have hheader := hresponse.header
    rw [hnone] at hheader
    exact absurd hheader (by decide)
  refine ⟨m, _, _, hbuilt, hfinish, hparse, ?_⟩
  rw [hreceived.view]
  refine ⟨rfl, rfl, rfl, ?_, getEap_signed hsome, ?_,
    radiusMsgVerifyMsgAuth_signed hmd5 (requestMsg_unsigned entry.msg) hreceived⟩
  · rw [attrValues_signed _ _ rfl (by decide), if_pos rfl, if_neg (by decide), if_neg (by decide),
      List.append_nil, List.append_nil]
  · rw [attrValues_signed _ _ rfl (by decide), if_neg (by decide), if_neg (by decide), if_pos rfl]
    rfl

/-- The request with the identity of a device, as a server with the secret reads it. -/
theorem identity_on_wire : ∃ (s t : Controller) (req : AccessRequest), Reachable noAnswers s ∧
    step noAnswers s (.handle 0 { authenticator := List.replicate 16 9 }) = some t ∧
    req.userName = some [0x61] ∧
    ∃ received, received.view.code = accessRequest ∧
      radiusMsgGetEap received.view = some req.eapMessage ∧
      radiusMsgVerifyMsgAuth Radius.md5 received [0x73] none = some true := by
  have hrun : (run (step noAnswers) initialController ((comesIn 1 ++ acknowledges 1 1).take 8)).any
      (fun s => (step noAnswers s (.handle 0 { authenticator := List.replicate 16 9 })).any fun t =>
        (requestsOf s.log, requestsOf t.log) = ([], [(0, 0)]) &&
          t.radius.msgs.head?.any fun entry =>
            entry.msg.authenticator.length = 16 && entry.msg.userName = some [0x61]) = true := by
    decide +kernel
  obtain ⟨s, hs, hcheck⟩ := exists_of_run hrun
  obtain ⟨t, hstep, hsecond⟩ := (Option.any_eq_true ..).mp hcheck
  rw [Bool.and_eq_true, decide_eq_true_eq] at hsecond
  obtain ⟨hlogs, hhead⟩ := hsecond
  obtain ⟨hbefore, hafter⟩ := Prod.mk.inj hlogs
  obtain ⟨entry, hentry, hlong⟩ := (Option.any_eq_true ..).mp hhead
  simp only [Bool.and_eq_true, decide_eq_true_eq] at hlong
  have hreach := reachable_of_run hs
  obtain ⟨req, hreq, hwire⟩ := sent_request_on_wire Radius.md5 md5_length [0x73] noAnswers s t _
    hreach hstep 0 0 (by simp [hbefore, hafter])
  rw [hentry, Option.map_some, Option.some.injEq] at hreq
  subst hreq
  obtain ⟨m, m', received, -, -, -, hcode, -, -, -, heap, -, hmac⟩ := hwire hlong.1
  exact ⟨s, t, entry.msg, hreach, hstep, hlong.2, received, hcode, heap, hmac⟩

end CoapEap.Mainserver
