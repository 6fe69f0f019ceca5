import CoapEap.Datagram
import CoapEap.Device.ErCoap
import CoapEap.UriPath

/-!
The codec of the device against the option format: what it serialises is the
encoding of the options it has set, and over any encoded options its parser
takes them one by one and finds the payload behind them.
-/

namespace CoapEap.ErCoap

open Library.OptionFormat

theorem coapOptionNibble_eq (n : Nat) : coapOptionNibble n = nibble n := by
  unfold coapOptionNibble nibble
  split
  · rfl
  · split
    · rw [if_pos (by omega)]
    · rw [if_neg (by omega)]

theorem extraBytes_eq (n : Nat) : extraBytes n = extension n := by
  unfold extraBytes extension
  by_cases hsmall : n < 13
  · rw [if_neg (by omega), if_neg (by omega), if_pos hsmall]
  · by_cases hshort : n < 269
    · rw [if_neg (by omega), if_pos (by omega), if_neg hsmall, if_pos hshort]
    · rw [if_pos (by omega), if_neg hsmall, if_neg hshort]

theorem serializeOptions_eq (prev : Nat) (options : List (Nat × Bytes)) :
    serializeOptions prev options = encodeOptions prev options := by
  induction options generalizing prev with
  | nil => rfl
  | cons option rest ih =>
    obtain ⟨number, value⟩ := option
    rw [serializeOptions, encodeOptions, ih, encodeOption, coapSetOptionHeader,
      coapOptionNibble_eq, coapOptionNibble_eq, extraBytes_eq, extraBytes_eq]
    simp only [List.cons_append, List.append_assoc]
    rfl

/-- What a packet is serialised to, from its parts. -/
theorem serialized_eq_datagram (pkt : CoapPacket) (htoken : pkt.token.length ≤ coapTokenLen) :
    serialized pkt =
      datagram (UInt8.ofNat (64 + 16 * typeBits pkt.type + pkt.token.length))
        (UInt8.ofNat pkt.code) pkt.mid pkt.token (setOptions pkt)
        (readBehind (pkt.payload.getD []) [] pkt.payloadLen) := by
  have hmod : pkt.token.length % 16 = pkt.token.length := by
    unfold coapTokenLen at htoken
    omega
  have hmarked : (if pkt.payloadLen = 0 then [] else [0xFF]) ++
      readBehind (pkt.payload.getD []) [] pkt.payloadLen =
        marked (readBehind (pkt.payload.getD []) [] pkt.payloadLen) := by
    have hlength : (readBehind (pkt.payload.getD []) [] pkt.payloadLen).length =
        pkt.payloadLen := by
      simp [readBehind]
    by_cases hzero : pkt.payloadLen = 0
    · simp [hzero, readBehind, marked]
    · have hne : readBehind (pkt.payload.getD []) [] pkt.payloadLen ≠ [] := by
        rw [← List.length_pos_iff, hlength]
        omega
      simp [hzero, hne, marked]
  simp only [serialized, serializedHeader, datagram, hmarked, hmod, serializeOptions_eq,
    List.append_assoc]

/-- The first byte of a serialised packet holds version and token length. -/
theorem first_byte (type : MessageType) {length : Nat} (h : length ≤ coapTokenLen) :
    (UInt8.ofNat (64 + 16 * typeBits type + length)).toNat / 64 = 1 ∧
      (UInt8.ofNat (64 + 16 * typeBits type + length)).toNat % 16 = length := by
  have hbits : typeBits type < 4 := by
    cases type <;> decide
  unfold coapTokenLen at h
  rw [UInt8.toNat_ofNat']
  omega

theorem splitParts_ne_nil (splitChar : UInt8) (part text : Bytes) :
    splitParts splitChar part text ≠ [] := by
  fun_induction splitParts splitChar part text with
  | case1 part => simp
  | case2 part => simp
  | case3 part c hc => simp
  | case4 part next rest ih => simp
  | case5 part c next rest hc ih => exact ih

theorem splitParts_cons_of_ne {splitChar c : UInt8} (h : c ≠ splitChar) (part rest : Bytes) :
    splitParts splitChar part (c :: rest) = splitParts splitChar (part ++ [c]) rest := by
  cases rest with
  | nil => simp [splitParts, h]
  | cons next rest => simp [splitParts, h]

theorem splitParts_segment {segment part : Bytes} (hplain : (0x2F : UInt8) ∉ segment)
    (rest : Bytes) :
    splitParts 0x2F part (segment ++ rest) = splitParts 0x2F (part ++ segment) rest := by
  induction segment generalizing part with
  | nil => simp
  | cons c segment ih =>
    obtain ⟨hc, hsegment⟩ : c ≠ 0x2F ∧ (0x2F : UInt8) ∉ segment := by
      simp only [List.mem_cons, not_or] at hplain
      exact ⟨Ne.symm hplain.1, hplain.2⟩
    rw [List.cons_append, splitParts_cons_of_ne hc, ih hsegment, List.append_assoc]
    rfl

/-- The parts between the separators of a joined path are its segments. -/
theorem splitParts_segments {segments : List Bytes} (hne : segments ≠ [])
    (hplain : ∀ s ∈ segments, PlainSegment s) :
    splitParts 0x2F [] ([0x2F].intercalate segments) = segments := by
  have hparts : ∀ (part : Bytes) (segment : Bytes) (rest : List Bytes),
      (∀ s ∈ segment :: rest, (0x2F : UInt8) ∉ s) → (∀ s ∈ rest, PlainSegment s) →
        splitParts 0x2F part ([0x2F].intercalate (segment :: rest)) =
          (part ++ segment) :: rest := by
    intro part segment rest hslash hrest
    induction rest generalizing part segment with
    | nil =>
      have hlast : splitParts 0x2F part (segment ++ []) = splitParts 0x2F (part ++ segment) [] :=
        splitParts_segment (hslash segment (List.mem_singleton_self _)) []
      rw [List.append_nil] at hlast
      rw [List.intercalate_singleton, hlast, splitParts]
    | cons next rest ih =>
      -- the byte behind the separator is taken unread, and it is not a separator
      obtain ⟨c, tail, rfl, hc⟩ := (hrest next (List.mem_cons_self ..)).eq_cons
      have htail : (0x2F : UInt8) ∉ tail := by
        intro h
        exact hslash (c :: tail) (by simp) (List.mem_cons_of_mem _ h)
      have hnext : [0x2F].intercalate ((c :: tail) :: rest) =
          c :: [0x2F].intercalate (tail :: rest) := by
        by_cases hempty : rest = []
        · simp [hempty]
        · simp [List.intercalate_cons_of_ne_nil hempty]
      have hinner := ih [c] tail
        (by
          intro s hs
          rcases List.mem_cons.mp hs with rfl | hmem
          · exact htail
          · exact hslash s (by simp [hmem]))
        fun s hs => hrest s (List.mem_cons_of_mem _ hs)
      rw [List.intercalate_cons_of_ne_nil (by simp), List.append_assoc,
        splitParts_segment (hslash segment (List.mem_cons_self ..)), List.singleton_append, hnext,
        splitParts, if_pos rfl, hinner]
      rfl
  obtain ⟨segment, rest, rfl⟩ := List.exists_cons_of_ne_nil hne
  have hslash : ∀ s ∈ segment :: rest, (0x2F : UInt8) ∉ s :=
    fun s hs => (hplain s hs).slash_not_mem
  exact hparts [] segment rest hslash fun s hs => hplain s (List.mem_cons_of_mem _ hs)

variable {delta : Nat} {value rest : Bytes}

/-- The parser finds a difference or a length again. -/
theorem optionField_nibble {n : Nat} (h : n < 269) (behind : Bytes) :
    optionField (nibble n) (extension n ++ behind) = (n, (extension n).length) := by
  rcases nibble_cases h with ⟨hsmall, hnibble, hext⟩ | ⟨hlarge, hnibble, b, hext, hb⟩
  · have hne : n ≠ 13 ∧ n ≠ 14 := by omega
    rw [hnibble, hext]
    simp [optionField, hne]
  · rw [hnibble, hext]
    simp only [optionField, if_true, List.cons_append, byteAt_cons_zero, List.length_singleton,
      Prod.mk.injEq, and_true]
    omega

/-- One encoded option in front of any memory is taken as that option. -/
theorem parseOptions_option {fuel left optionNumber : Nat} {pkt : CoapPacket}
    (hdelta : delta < 269) (hlen : value.length < 269)
    (hleft : (encodeOption delta value).length ≤ left) :
    parseOptions (fuel + 1) (encodeOption delta value ++ rest) left optionNumber pkt =
      match parseOption pkt (optionNumber + delta) value with
      | .error e => .error e
      | .ok pkt =>
        parseOptions fuel rest (left - (encodeOption delta value).length)
          (optionNumber + delta) pkt := by
  have hd := nibble_short hdelta
  have hl := nibble_short hlen
  have hpos := encodeOption_length_pos delta value
  have hlength : (encodeOption delta value).length =
      1 + (extension delta).length + (extension value.length).length + value.length := by
    simp only [encodeOption, List.length_cons, List.length_append]
    omega
  have hfirst : byteAt (encodeOption delta value ++ rest) 0 = (header delta value.length).toNat :=
    rfl
  -- the memory behind the header, behind the difference, and behind the length
  have hbehind : (encodeOption delta value ++ rest).drop 1 =
      extension delta ++ (extension value.length ++ (value ++ rest)) := by
    simp [encodeOption]
  have hlengthAt : (encodeOption delta value ++ rest).drop (1 + (extension delta).length) =
      extension value.length ++ (value ++ rest) := by
    rw [← List.drop_drop, hbehind, List.drop_left]
  have hvalueAt : (encodeOption delta value ++ rest).drop
      (1 + (extension delta).length + (extension value.length).length) = value ++ rest := by
    rw [← List.drop_drop, hlengthAt, List.drop_left]
  have hrest : (encodeOption delta value ++ rest).drop
      (1 + (extension delta).length + (extension value.length).length + value.length) = rest := by
    rw [← List.drop_drop, hvalueAt, List.drop_left]
  have hnonzero : ¬ left = 0 := by omega
  have hmarker : ¬ nibble delta = 15 := by omega
  rw [parseOptions, hfirst, header_div, header_mod]
  cases hparse : parseOption pkt (optionNumber + delta) value with
  | error e =>
    simp only [hnonzero, hmarker, if_false, hbehind, optionField_nibble hdelta, hlengthAt,
      optionField_nibble hlen, hvalueAt, List.take_left, hparse]
  | ok next =>
    simp only [hnonzero, hmarker, if_false, hbehind, optionField_nibble hdelta, hlengthAt,
      optionField_nibble hlen, hvalueAt, List.take_left, hparse, hrest, hlength]

/-- The switch over each of the options in turn. -/
def applyOptions : CoapPacket → List (Nat × Bytes) → Except CoapError CoapPacket
  | pkt, [] => .ok pkt
  | pkt, (number, value) :: rest =>
    match parseOption pkt number value with
    | .error e => .error e
    | .ok pkt => applyOptions pkt rest

/-- A packet with the payload that the parser found behind the options. -/
def withPayload (pkt : CoapPacket) (payload behind : Bytes) : CoapPacket :=
  if payload = [] then pkt else setReceivedPayload pkt (payload ++ behind) payload.length

/-- Only the payload is set. -/
theorem withPayload_eq (pkt : CoapPacket) (payload behind : Bytes) :
    withPayload pkt payload behind = { pkt with
      payload := (withPayload pkt payload behind).payload
      payloadLen := (withPayload pkt payload behind).payloadLen } := by
  unfold withPayload
  split
  · rfl
  · rfl

theorem parseOptions_marked {fuel optionNumber : Nat} (pkt : CoapPacket)
    (payload behind : Bytes) :
    parseOptions (fuel + 1) (marked payload ++ behind) (marked payload).length
      optionNumber pkt = .ok (withPayload pkt payload behind) := by
  unfold marked withPayload
  by_cases hempty : payload = []
  · simp [hempty, parseOptions]
  · simp [hempty, parseOptions]

/-- The parser takes a whole sequence of options and the payload behind it. -/
theorem parseOptions_options {prev fuel : Nat} {options : List (Nat × Bytes)}
    {pkt pkt' : CoapPacket} {payload behind : Bytes} (hshort : Short prev options)
    (hascending : Ascending prev options) (happly : applyOptions pkt options = .ok pkt')
    (hfuel : options.length < fuel) :
    parseOptions fuel (encodeOptions prev options ++ (marked payload ++ behind))
        ((encodeOptions prev options).length + (marked payload).length) prev pkt =
      .ok (withPayload pkt' payload behind) := by
  induction options generalizing prev fuel pkt with
  | nil =>
    obtain ⟨fuel, rfl⟩ : ∃ n, fuel = n + 1 := ⟨fuel - 1, by simp at hfuel; omega⟩
    obtain rfl : pkt = pkt' := by simpa [applyOptions] using happly
    simpa [encodeOptions] using parseOptions_marked pkt payload behind
  | cons option rest ih =>
    obtain ⟨number, value⟩ := option
    obtain ⟨hdelta, hlen, hrest⟩ := hshort
    obtain ⟨hfirst, hascending⟩ := hascending
    obtain ⟨fuel, rfl⟩ : ∃ n, fuel = n + 1 := ⟨fuel - 1, by simp at hfuel; omega⟩
    have hnumber : prev + (number - prev) = number := by omega
    have hleft : (encodeOptions prev ((number, value) :: rest)).length +
        (marked payload).length - (encodeOption (number - prev) value).length =
          (encodeOptions number rest).length + (marked payload).length := by
      rw [encodeOptions, List.length_append]
      omega
    rw [encodeOptions, List.append_assoc, parseOptions_option hdelta hlen
      (by rw [List.length_append]; omega), hnumber]
    rw [applyOptions] at happly
    cases hparse : parseOption pkt number value with
    | error e => simp [hparse] at happly
    | ok next =>
      rw [hparse] at happly
      rw [encodeOptions] at hleft
      simp only [hleft]
      exact ih hrest hascending happly (by simpa using hfuel)

/-- Path options are merged into the joined path. -/
theorem applyOptions_segments {segments : List Bytes} {pkt : CoapPacket} (hne : segments ≠ [])
    (hplain : ∀ s ∈ segments, PlainSegment s) (hunset : pkt.uriPath = none) :
    applyOptions pkt (segments.map fun s => (optionUriPath, s)) =
      .ok { pkt with uriPath := some ([0x2F].intercalate segments) } := by
  have hmerge : ∀ (pkt : CoapPacket) (segment : Bytes) (rest : List Bytes), segment ≠ [] →
      pkt.uriPath = some segment →
        applyOptions pkt (rest.map fun s => (optionUriPath, s)) =
          .ok { pkt with uriPath := some ([0x2F].intercalate (segment :: rest)) } := by
    intro pkt segment rest hsegment hset
    induction rest generalizing pkt segment with
    | nil => simp [applyOptions, ← hset]
    | cons next rest ih =>
      obtain ⟨c, tail, rfl⟩ := List.exists_cons_of_ne_nil hsegment
      have hoption : parseOption pkt optionUriPath next =
          .ok { pkt with uriPath := some (c :: tail ++ 0x2F :: next) } := by
        simp [parseOption, optionUriPath, optionContentType, hset, coapMergeMultiOption]
      have hjoin : [0x2F].intercalate ((c :: tail ++ 0x2F :: next) :: rest) =
          [0x2F].intercalate ((c :: tail) :: next :: rest) := by
        by_cases hempty : rest = []
        · simp [hempty]
        · rw [List.intercalate_cons_of_ne_nil hempty, List.intercalate_cons_of_ne_nil (by simp),
            List.intercalate_cons_of_ne_nil hempty]
          simp
      rw [List.map_cons, applyOptions, hoption]
      simp only
      rw [ih _ (c :: tail ++ 0x2F :: next) (by simp) rfl, hjoin]
  obtain ⟨segment, rest, rfl⟩ := List.exists_cons_of_ne_nil hne
  have hoption : parseOption pkt optionUriPath segment =
      .ok { pkt with uriPath := some segment } := by
    simp [parseOption, optionUriPath, optionContentType, hunset, coapMergeMultiOption]
  rw [List.map_cons, applyOptions, hoption]
  simp only
  exact hmerge _ segment rest (hplain segment (List.mem_cons_self ..)).nonempty rfl

/-- The parser takes a datagram apart again. -/
theorem coapParseMessage_datagram {first code : UInt8} {mid : UInt16} {token : Bytes}
    {options : List (Nat × Bytes)} {payload behind : Bytes} {pkt : CoapPacket}
    (hversion : first.toNat / 64 = 1) (htoken : first.toNat % 16 = token.length)
    (hlong : token.length ≤ 8) (hshort : Short 0 options) (hascending : Ascending 0 options)
    (happly : applyOptions
      { type := messageType first.toNat, code := code.toNat, mid, token } options = .ok pkt) :
    coapParseMessage (datagram first code mid token options payload ++ behind)
        (datagram first code mid token options payload).length =
      .ok (withPayload pkt payload behind) := by
  have htokenLen : min coapTokenLen (first.toNat % 16) = token.length := by
    rw [htoken]
    exact Nat.min_eq_right hlong
  have hheader : parseHeader (datagram first code mid token options payload ++ behind) =
      { type := messageType first.toNat, code := code.toNat, mid, token } := by
    simp only [parseHeader, datagram_first, datagram_code, datagram_mid, UInt16.ofNat_toNat,
      htokenLen, datagram_drop_header, List.take_left]
  have hleft : (datagram first code mid token options payload).length - (4 + token.length) =
      (encodeOptions 0 options).length + (marked payload).length := by
    rw [datagram_length]
    omega
  have hrounds : options.length < (datagram first code mid token options payload).length + 1 := by
    have hcount := length_le_encodeOptions 0 options
    rw [datagram_length]
    omega
  unfold coapParseMessage
  simp only [datagram_first, htokenLen, hversion, hheader, datagram_drop_token, hleft, ne_eq,
    not_true_eq_false, if_false]
  exact parseOptions_options hshort hascending happly hrounds

end CoapEap.ErCoap
