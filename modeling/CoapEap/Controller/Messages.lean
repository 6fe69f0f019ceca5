import CoapEap.Controller.Handlers
import CoapEap.Datagram

/-!
The PDUs the controller builds. Whatever the location and the payload, a POST is
header, token, options in the delta format and payload; `validate` accepts it and
finds the payload again.
-/

namespace CoapEap.Cantcoap

open Library.OptionFormat

variable {delta : Nat} {value rest : Bytes}

theorem byteAt_option_zero : byteAt (encodeOption delta value ++ rest) 0 =
    (header delta value.length).toNat := rfl

theorem getOptionDelta_option (hdelta : delta < 269) :
    getOptionDelta (encodeOption delta value ++ rest) = delta := by
  unfold getOptionDelta
  rw [byteAt_option_zero, header_div]
  rcases nibble_cases hdelta with ⟨hsmall, hnibble, -⟩ | ⟨hlarge, hnibble, b, hext, hb⟩
  · simp [hnibble, hsmall]
  · have hbyte : byteAt (encodeOption delta value ++ rest) 1 = b.toNat := by
      rw [encodeOption, hext]
      rfl
    simp [hnibble, hbyte, hb]

theorem getOptionValueLength_option (hdelta : delta < 269) (hlen : value.length < 269) :
    getOptionValueLength (encodeOption delta value ++ rest) = value.length := by
  unfold getOptionValueLength
  rw [byteAt_option_zero, header_div, header_mod]
  rcases nibble_cases hlen with ⟨hsmall, hnibble, -⟩ | ⟨hlarge, hnibble, b, hext, hb⟩
  · simp [hnibble, hsmall]
  · rcases nibble_cases hdelta with ⟨hd, hdnibble, hdext⟩ | ⟨hd, hdnibble, c, hdext, -⟩
    · have hbyte : byteAt (encodeOption delta value ++ rest) 1 = b.toNat := by
        rw [encodeOption, hext, hdext]
        rfl
      have hne : delta ≠ 13 ∧ delta ≠ 14 := by omega
      simp [hnibble, hdnibble, hbyte, hb, hne]
    · have hbyte : byteAt (encodeOption delta value ++ rest) 2 = b.toNat := by
        rw [encodeOption, hext, hdext]
        rfl
      simp [hnibble, hdnibble, hbyte, hb]

theorem computeExtraBytes_eq {n : Nat} (h : n < 269) :
    computeExtraBytes n = (extension n).length := by
  rcases nibble_cases h with ⟨hsmall, -, hext⟩ | ⟨hlarge, -, b, hext, -⟩
  · simp [computeExtraBytes, hsmall, hext]
  · simp [computeExtraBytes, Nat.not_lt.mpr hlarge, h, hext]

theorem computeExtraBytes_nibble {n : Nat} (h : n < 269) :
    computeExtraBytes (nibble n) = (extension n).length := by
  rcases nibble_cases h with ⟨hsmall, hnibble, hext⟩ | ⟨hlarge, hnibble, b, hext, -⟩
  · simp [computeExtraBytes, hnibble, hsmall, hext]
  · simp [computeExtraBytes, hnibble, hext]

theorem optionTotalLength_option (hdelta : delta < 269) (hlen : value.length < 269) :
    optionTotalLength (encodeOption delta value ++ rest) =
      (encodeOption delta value).length := by
  unfold optionTotalLength
  rw [getOptionDelta_option hdelta, getOptionValueLength_option hdelta hlen,
    computeExtraBytes_eq hdelta, computeExtraBytes_eq hlen]
  simp only [encodeOption, List.length_cons, List.length_append]
  omega

/-- `validate` walks over one option. -/
theorem validateOptions_option {fuel count : Nat} (hdelta : delta < 269)
    (hlen : value.length < 269) :
    validateOptions (fuel + 1) (encodeOption delta value ++ rest) count =
      validateOptions fuel rest (count + 1) := by
  have hd := nibble_short hdelta
  have hl := nibble_short hlen
  have htotal : optionTotalLength (encodeOption delta value ++ rest) =
      (encodeOption delta value).length :=
    optionTotalLength_option hdelta hlen
  have hlength : (encodeOption delta value).length =
      1 + (extension delta).length + (extension value.length).length + value.length := by
    simp only [encodeOption, List.length_cons, List.length_append]
    omega
  rw [validateOptions, byteAt_option_zero, header_div, header_mod, htotal, List.drop_left,
    List.length_append]
  have hne : ¬ (encodeOption delta value).length + rest.length = 0 := by omega
  have hmarker : ¬ (header delta value.length).toNat = 0xFF := by
    rw [header_toNat]
    omega
  have hnibbles : ¬ (nibble delta = 15 ∨ nibble value.length = 15) := by omega
  have hfirst : ¬ (extension delta).length > (encodeOption delta value).length + rest.length - 1 :=
    by omega
  have hboth : ¬ (extension delta).length + (extension value.length).length >
      (encodeOption delta value).length + rest.length - 1 := by omega
  have htotal : ¬ (encodeOption delta value).length >
      (encodeOption delta value).length + rest.length := by omega
  simp only [computeExtraBytes_nibble hdelta, computeExtraBytes_nibble hlen, hne, hmarker,
    hnibbles, hfirst, hboth, htotal, if_false]

theorem validateOptions_marked {fuel count : Nat} (payload : Bytes) :
    validateOptions (fuel + 1) (marked payload) count = some ⟨count, payload⟩ := by
  unfold marked
  split
  · rename_i hempty
    simp [validateOptions, hempty]
  · rename_i hpayload
    have hlength : 0 < payload.length := List.length_pos_iff.mpr hpayload
    simp [validateOptions, hlength]

/-- `validate` walks over all options and finds the payload behind them. -/
theorem validateOptions_options {prev : Nat} {options : List (Nat × Bytes)} {payload : Bytes}
    (hshort : Short prev options) {fuel count : Nat} (hfuel : options.length < fuel) :
    validateOptions fuel (encodeOptions prev options ++ marked payload) count =
      some ⟨count + options.length, payload⟩ := by
  induction options generalizing prev fuel count with
  | nil =>
    obtain ⟨fuel, rfl⟩ : ∃ n, fuel = n + 1 := ⟨fuel - 1, by simp at hfuel; omega⟩
    simpa [encodeOptions] using validateOptions_marked payload
  | cons option rest ih =>
    obtain ⟨number, value⟩ := option
    obtain ⟨hdelta, hlen, hrest⟩ := hshort
    obtain ⟨fuel, rfl⟩ : ∃ n, fuel = n + 1 := ⟨fuel - 1, by simp at hfuel; omega⟩
    rw [encodeOptions, List.append_assoc, validateOptions_option hdelta hlen,
      ih hrest (by simpa using hfuel)]
    simp only [List.length_cons, Option.some.injEq, Validated.mk.injEq, and_true]
    omega

/-- `validate` refuses a datagram only for its code, and finds the payload. -/
theorem validate_datagram {first code : UInt8} {mid : UInt16} {token : Bytes}
    {options : List (Nat × Bytes)} {payload : Bytes} (hversion : first.toNat / 64 = 1)
    (htoken : first.toNat % 16 = token.length) (hlong : token.length ≤ 8)
    (hshort : Short 0 options) :
    validate (datagram first code mid token options payload) =
      if validCode code.toNat = false then none else some ⟨options.length, payload⟩ := by
  have hlength := datagram_length first code mid token options payload
  have hcount := length_le_encodeOptions 0 options
  have hfirst := datagram_first first code mid token options payload []
  have hcode := datagram_code first code mid token options payload []
  have hdrop := datagram_drop_token first code mid token options payload []
  simp only [List.append_nil] at hfirst hcode hdrop
  have hwalk : validateOptions ((datagram first code mid token options payload).length + 1)
      (encodeOptions 0 options ++ marked payload) 0 = some ⟨0 + options.length, payload⟩ :=
    validateOptions_options hshort (by omega)
  have hshorter : ¬ (datagram first code mid token options payload).length < 4 := by omega
  have hwhole : ¬ 4 + token.length > (datagram first code mid token options payload).length := by
    omega
  have htokenLong : ¬ token.length > 8 := by omega
  unfold validate
  simp only [getVersion, getTokenLength, getCode, hfirst, hcode, hversion, htoken, hshorter,
    htokenLong, hwhole, hdrop, hwalk, if_false, ne_eq, not_true_eq_false, Nat.zero_add]

theorem or_nibble : ∀ high < 16, ∀ low < 16,
    UInt8.ofNat (high * 16) ||| UInt8.ofNat low = UInt8.ofNat (16 * high + low) := by
  decide

theorem insertOption_short (hdelta : delta < 269) (hlen : value.length < 269) :
    insertOption delta value = encodeOption delta value := by
  by_cases hd : delta < 13
  · by_cases hl : value.length < 13
    · have hor := or_nibble delta (by omega) value.length (by omega)
      simp [insertOption, encodeOption, header, nibble, extension, hd, hl]
      simpa using hor
    · have hor := or_nibble delta (by omega) 13 (by omega)
      simp [insertOption, encodeOption, header, nibble, extension, hd, hl, hlen]
      simpa using hor
  · by_cases hl : value.length < 13
    · have hor := or_nibble 13 (by omega) value.length (by omega)
      simp [insertOption, encodeOption, header, nibble, extension, hd, hdelta, hl]
      simpa using hor
    · simp [insertOption, encodeOption, header, nibble, extension, hd, hdelta, hl, hlen]
      rfl

/-- A smaller difference leaves the rest of the option and what follows it. -/
theorem setOptionDelta_option {delta' : Nat} (hdelta : delta < 269) (hdelta' : delta' < 269) :
    setOptionDelta (encodeOption delta value ++ rest) delta' =
      encodeOption delta' value ++ rest := by
  have hbehind : (encodeOption delta value ++ rest).drop (1 + (extension delta).length) =
      extension value.length ++ value ++ rest := by
    rw [encodeOption, List.cons_append, Nat.add_comm, List.drop_succ_cons, List.append_assoc,
      List.append_assoc, List.drop_left, List.append_assoc]
  unfold setOptionDelta
  rw [getOptionDelta_option hdelta, computeExtraBytes_eq hdelta, hbehind, byteAt_option_zero,
    header_mod]
  by_cases hd : delta' < 13
  · simp [encodeOption, header, nibble, extension, hd, Nat.mul_comm]
  · simp [encodeOption, header, nibble, extension, hd, hdelta']

/-- A PDU under construction: `head`, then options. -/
structure Built (head : Bytes) (p : CoapPDU) (options : List (Nat × Bytes)) : Prop where
  pdu : p.pdu = head ++ encodeOptions 0 options
  last : p.maxAddedOptionNumber = lastNumber 0 options
  short : Short 0 options
  ascending : Ascending 0 options

theorem Built.addOption {head : Bytes} {p : CoapPDU} {options : List (Nat × Bytes)}
    (h : Built head p options) {number : Nat} {value : Bytes}
    (hnumber : p.maxAddedOptionNumber ≤ number) (hdelta : number < 269)
    (hlen : value.length < 269) :
    Built head (addOption p number value) (options ++ [(number, value)]) := by
  have hoption : insertOption (number - p.maxAddedOptionNumber) value =
      encodeOptions (lastNumber 0 options) [(number, value)] := by
    rw [insertOption_short (by omega) hlen, encodeOptions, encodeOptions, List.append_nil, h.last]
  have hadded : Cantcoap.addOption p number value =
      ⟨p.pdu ++ insertOption (number - p.maxAddedOptionNumber) value, number⟩ := by
    simp [Cantcoap.addOption, hnumber]
  refine ⟨?_, ?_, ?_, ?_⟩
  · rw [hadded, encodeOptions_append, ← List.append_assoc, ← h.pdu, hoption]
  · rw [hadded, lastNumber_append_singleton]
  · rw [short_append]
    exact ⟨h.short, by omega, hlen, trivial⟩
  · rw [ascending_append, ← h.last]
    exact ⟨h.ascending, hnumber, trivial⟩

/-- What a location has to be for its segments to be options. -/
theorem uriSegment_length (uri : Bytes) (splitChar : UInt8) :
    (uriSegment uri splitChar).1.length ≤ uri.length ∧
      (uriSegment uri splitChar).2.1.length ≤ uri.length := by
  unfold uriSegment
  split
  · exact ⟨(List.takeWhile_sublist _).length_le, (List.dropWhile_sublist _).length_le⟩
  · split
    · exact ⟨(List.takeWhile_sublist _).length_le, (List.dropWhile_sublist _).length_le⟩
    · simp

def uriOption (option : Nat × Bytes) : Prop :=
  option.1 = optionUriPath ∨ option.1 = optionUriQuery

theorem setURILoop_built {head : Bytes} {fuel : Nat} {p : CoapPDU} {uri : Bytes}
    {splitChar : UInt8} {optionType : Nat} {options : List (Nat × Bytes)}
    (hbuilt : Built head p options) (hmax : p.maxAddedOptionNumber ≤ optionType)
    (htype : optionType = optionUriPath ∨ optionType = optionUriQuery)
    (huri : uri.length < 269) (hall : ∀ o ∈ options, uriOption o) :
    ∃ options', Built head (setURILoop fuel p uri splitChar optionType) options' ∧
      ∀ o ∈ options', uriOption o := by
  induction fuel generalizing p uri splitChar optionType options with
  | zero => exact ⟨options, hbuilt, hall⟩
  | succ fuel ih =>
    unfold setURILoop
    split
    · exact ⟨options, hbuilt, hall⟩
    · exact ⟨options, hbuilt, hall⟩
    · rename_i first second tail
      have hleft : (if first = splitChar then second :: tail else first :: second :: tail).length <
          269 := by
        split
        · simp only [List.length_cons] at huri ⊢
          omega
        · exact huri
      generalize (if first = splitChar then second :: tail else first :: second :: tail) = left at *
      obtain ⟨hsegment, hremaining⟩ := uriSegment_length left splitChar
      have hnumber : optionType ≤ optionUriQuery ∧ optionType < 269 := by
        rcases htype with rfl | rfl <;> decide
      have hadded := hbuilt.addOption hmax hnumber.2 (Nat.lt_of_le_of_lt hsegment hleft)
      have hmax' : (addOption p optionType (uriSegment left splitChar).1).maxAddedOptionNumber =
          optionType := by
        rw [hadded.last, lastNumber_append_singleton]
      have hall' : ∀ o ∈ options ++ [(optionType, (uriSegment left splitChar).1)],
          uriOption o := by
        intro o ho
        rcases List.mem_append.mp ho with hold | hnew
        · exact hall o hold
        · rw [List.mem_singleton.mp hnew]
          exact htype
      have hshorter : (uriSegment left splitChar).2.1.length < 269 :=
        Nat.lt_of_le_of_lt hremaining hleft
      simp only
      split
      · refine ih hadded (by rw [hmax']; exact hnumber.1) (.inr rfl) ?_ hall'
        rw [List.length_drop]
        exact Nat.lt_of_le_of_lt (Nat.sub_le _ _) hshorter
      · exact ih hadded (Nat.le_of_eq hmax') htype hshorter hall'

theorem setURI_built {head : Bytes} {p : CoapPDU} {uri : Bytes} (hp : p = ⟨head, 0⟩)
    (huri : uri.length < 269) :
    ∃ options, Built head (setURI p uri) options ∧ ∀ o ∈ options, uriOption o := by
  have hempty : Built head p [] := by
    subst hp
    exact ⟨(List.append_nil _).symm, rfl, trivial, trivial⟩
  have hzero : p.maxAddedOptionNumber = 0 := by rw [hp]
  unfold setURI
  split
  · exact ⟨[], hempty, by simp⟩
  · rename_i c
    refine ⟨_, hempty.addOption (by omega) (by decide) (by simp), ?_⟩
    intro o ho
    obtain rfl : o = (optionUriPath, [c]) := by simpa using ho
    exact .inl rfl
  · exact setURILoop_built hempty (by omega) (.inl rfl) huri (by simp)

/-- The option of the final POST goes in front of the options of its URI. -/
theorem addOption_front {head : Bytes} {p : CoapPDU} {options : List (Nat × Bytes)}
    {number : Nat} (value : Bytes) (h : Built head p options)
    (hhead : 4 + getTokenLength p.pdu = head.length)
    (hlarger : ∀ o ∈ options, number < o.1 ∧ o.1 < 269) (hnumber : number < 269)
    (hlen : value.length < 269) :
    (addOption p number value).pdu =
        head ++ encodeOptions 0 ((number, value) :: options) ∧
      Short 0 ((number, value) :: options) := by
  cases options with
  | nil =>
    have hempty : p.pdu = head := by
      rw [h.pdu, encodeOptions, List.append_nil]
    have hzero : p.maxAddedOptionNumber = 0 := by rw [h.last, lastNumber_nil]
    have hadded := h.addOption (hzero ▸ Nat.zero_le number) hnumber hlen
    exact ⟨hadded.pdu, hadded.short⟩
  | cons option more =>
    obtain ⟨first, firstValue⟩ := option
    obtain ⟨hfirst, hbound⟩ := hlarger (first, firstValue) (List.mem_cons_self ..)
    obtain ⟨hdelta, hfirstLen, hmore⟩ := h.short
    -- the larger numbers appended before send the new option to the front
    have hmax : ¬ number ≥ p.maxAddedOptionNumber := by
      obtain ⟨last, hlast, heq⟩ :=
        lastNumber_mem 0 (List.cons_ne_nil (first, firstValue) more)
      have hless := (hlarger last hlast).1
      rw [h.last, heq]
      omega
    have hencoded : encodeOptions 0 ((first, firstValue) :: more) =
        encodeOption first firstValue ++ encodeOptions first more := rfl
    have hrest : p.pdu.drop head.length =
        encodeOption first firstValue ++ encodeOptions first more := by
      rw [h.pdu, List.drop_left, hencoded]
    have hfront : p.pdu.take head.length = head := by
      rw [h.pdu, List.take_left]
    have hpos := encodeOption_length_pos first firstValue
    have hlonger : ¬ p.pdu.length = head.length := by
      rw [h.pdu, hencoded, List.length_append, List.length_append]
      omega
    obtain ⟨fuel, hfuel⟩ : ∃ fuel, p.pdu.length = fuel + 1 := by
      refine ⟨p.pdu.length - 1, ?_⟩
      rw [h.pdu, hencoded, List.length_append, List.length_append]
      omega
    have hposition : findInsertionPosition number p.pdu.length
        (encodeOption first firstValue ++ encodeOptions first more) 0 = (0, 0) := by
      have hmarker : ¬ (header first firstValue.length).toNat = 0xFF := by
        have hd := nibble_short hbound
        have hl := nibble_short hfirstLen
        rw [header_toNat]
        omega
      have hlarger' : (0 + first) % 65536 > number := by omega
      have hempty : ¬ (encodeOption first firstValue ++ encodeOptions first more).length = 0 := by
        rw [List.length_append]
        omega
      rw [hfuel, findInsertionPosition, byteAt_option_zero, getOptionDelta_option hbound]
      simp only [hmarker, hempty, or_self, if_false, hlarger', if_true]
    have hne : encodeOption first firstValue ++ encodeOptions first more ≠ [] := by
      simp [encodeOption]
    constructor
    · unfold Cantcoap.addOption
      simp only [hhead, hmax, hlonger, or_self, if_false, hrest, hposition, Nat.add_zero, hfront,
        hne, Nat.zero_add, Nat.sub_zero, getOptionDelta_option hbound]
      rw [setOptionDelta_option hbound (by omega), insertOption_short hnumber hlen,
        List.append_assoc]
      rfl
    · exact ⟨by omega, hlen, by omega, hfirstLen, hmore⟩

end CoapEap.Cantcoap

namespace CoapEap.Mainserver

open Library.OptionFormat Cantcoap

/-- Header and token of a POST. -/
def postHead (session : Session) : Bytes :=
  [0x44, 0x02] ++ be16 session.messageId.toNat ++ le32 session.sessionId

theorem newPost_eq (session : Session) : newPost session = ⟨postHead session, 0⟩ := by
  simp [newPost, newPDU, setMessageId, setToken, setCode, setType, postHead, getTokenLength,
    byteAt, be16, le32, coapPost]

theorem postHead_length (session : Session) : (postHead session).length = 8 := rfl

theorem getTokenLength_post (session : Session) (rest : Bytes) :
    getTokenLength (postHead session ++ rest) = 4 := by
  simp [getTokenLength, postHead, byteAt]

/-- A POST with these options and this payload. -/
def post (session : Session) (options : List (Nat × Bytes)) (payload : Bytes) : Bytes :=
  postHead session ++ encodeOptions 0 options ++ marked payload

theorem le32_length (n : UInt32) : (le32 n).length = 4 := rfl

theorem token_length (session : Session) :
    (0x44 : UInt8).toNat % 16 = (le32 session.sessionId).length := by
  rw [le32_length]
  rfl

theorem post_eq_datagram (session : Session) (options : List (Nat × Bytes)) (payload : Bytes) :
    post session options payload =
      datagram 0x44 0x02 session.messageId (le32 session.sessionId) options payload := by
  simp only [post, postHead, datagram, List.append_assoc]

theorem post_validate (session : Session) {options : List (Nat × Bytes)} (payload : Bytes)
    (hshort : Short 0 options) :
    validate (post session options payload) = some ⟨options.length, payload⟩ := by
  rw [post_eq_datagram, validate_datagram (by decide) (by rw [le32_length]; rfl)
    (by rw [le32_length]; decide) hshort]
  rfl

theorem setPayload_pdu (p : CoapPDU) (payload : Bytes) :
    (setPayload p payload).pdu = p.pdu ++ marked payload := by
  unfold setPayload marked
  by_cases hempty : payload = []
  · simp [hempty]
  · simp [hempty]

/-- A location that fits the options of a URI. -/
def ShortLocation (session : Session) : Prop :=
  (cString (session.location.getD [])).length < 269

theorem setURI_post {session : Session} (hlocation : ShortLocation session) :
    ∃ options, Built (postHead session)
      (setURI (newPost session) (cString (session.location.getD []))) options ∧
        ∀ o ∈ options, uriOption o :=
  setURI_built (newPost_eq session) hlocation

/-- The POST before its payload, with the options that its URI became. -/
abbrev PostBuilt (session : Session) (options : List (Nat × Bytes)) : Prop :=
  Built (postHead session)
    (setURI (newPost session) (cString (session.location.getD []))) options

variable {session : Session} {options : List (Nat × Bytes)}

theorem firstPost_eq (hbuilt : PostBuilt session options) (packet : Bytes) :
    firstPost session packet =
      post session options (packet.take (packet.length % 256) ++ cborCryptosuite) := by
  rw [firstPost, setPayload_pdu, hbuilt.pdu, post]

theorem eapPost_eq (hbuilt : PostBuilt session options) (packet : Bytes) :
    eapPost session packet = post session options packet := by
  rw [eapPost, setPayload_pdu, hbuilt.pdu, post]

theorem finalPost_eq (hbuilt : PostBuilt session options) (huri : ∀ o ∈ options, uriOption o) :
    finalPost session =
        post session ((optionOscore, oscoreOption) :: options) payloadOscore ∧
      Short 0 ((optionOscore, oscoreOption) :: options) ∧
      Ascending 0 ((optionOscore, oscoreOption) :: options) := by
  have htoken : 4 + getTokenLength
      (setURI (newPost session) (cString (session.location.getD []))).pdu =
        (postHead session).length := by
    rw [hbuilt.pdu, postHead_length, getTokenLength_post]
  have hlarger : ∀ o ∈ options, optionOscore < o.1 ∧ o.1 < 269 := by
    intro o ho
    rcases huri o ho with hpath | hquery
    · rw [hpath]
      decide
    · rw [hquery]
      decide
  obtain ⟨hpdu, hshort⟩ := addOption_front oscoreOption hbuilt htoken hlarger
    (by decide) (by decide)
  refine ⟨?_, hshort, Nat.zero_le _, ?_⟩
  · rw [finalPost, setPayload_pdu, hpdu, post]
  · exact ascending_of_larger hbuilt.ascending fun o ho => Nat.le_of_lt (hlarger o ho).1

end CoapEap.Mainserver
