import CoapEap.Controller.Locations
import CoapEap.Controller.StoredPosts
import CoapEap.Device.Codec

/-!
Paths between the two parties. The controller's POSTs are read by the device as
they are meant, and a resource path that the device puts into an acknowledgment
comes back in the next POST as long as it fits the buffer it is joined in.
-/

namespace CoapEap

open Library.OptionFormat Cantcoap Mainserver

/-- The POSTs that `process_coap_msg` and `process_receive_radius_msg` build for a
session, each with its payload. -/
inductive PostOf (session : Session) : Bytes → Bytes → Prop
  | first (packet : Bytes) :
      PostOf session (packet.take (packet.length % 256) ++ cborCryptosuite)
        (firstPost session packet)
  | next (packet : Bytes) : PostOf session packet (eapPost session packet)
  | final : PostOf session payloadOscore (finalPost session)

/-- A payload of at most one chunk is found as it was put in; of a longer one the
chunk is. -/
theorem payloadBytes_withPayload (pkt : ErCoap.CoapPacket) (hunset : pkt.payload = none)
    (payload behind : Bytes) :
    (ErCoap.coapGetPayload (ErCoap.withPayload pkt payload behind)).2 = min 64 payload.length ∧
      ErCoap.payloadBytes (ErCoap.withPayload pkt payload behind) = payload.take 64 := by
  unfold ErCoap.withPayload
  by_cases hempty : payload = []
  · simp [hempty, ErCoap.payloadBytes, ErCoap.coapGetPayload, hunset]
  · have hfront : (payload ++ behind).take (min 64 payload.length) = payload.take 64 := by
      rw [List.take_append_of_le_length (Nat.min_le_right _ _), ← List.take_take, List.take_length]
    have hlength : (payload.take 64).length = min 64 payload.length := List.length_take
    simp only [hempty, if_false, ErCoap.payloadBytes, ErCoap.coapGetPayload,
      ErCoap.setReceivedPayload, ErCoap.restMaxChunkSize, Option.getD_some, hfront, true_and]
    exact List.take_left' hlength

/-- The POSTs of a session whose URI became path options: these options, perhaps
behind the option of the final POST. -/
theorem PostOf.options {session : Session} {values : List Bytes} {payload pdu : Bytes}
    (hpost : PostOf session payload pdu)
    (hbuilt : PostBuilt session (values.map fun s => (optionUriPath, s))) :
    ∃ front, (front = [] ∨ front = [(optionOscore, oscoreOption)]) ∧
      Short 0 (front ++ values.map fun s => (optionUriPath, s)) ∧
      Ascending 0 (front ++ values.map fun s => (optionUriPath, s)) ∧
      pdu = post session (front ++ values.map fun s => (optionUriPath, s)) payload := by
  cases hpost with
  | first packet =>
    exact ⟨[], .inl rfl, hbuilt.short, hbuilt.ascending, firstPost_eq hbuilt packet⟩
  | next packet =>
    exact ⟨[], .inl rfl, hbuilt.short, hbuilt.ascending, eapPost_eq hbuilt _⟩
  | final =>
    have huri : ∀ o ∈ values.map fun s => (optionUriPath, s), uriOption o := by
      intro o ho
      obtain ⟨s, -, rfl⟩ := List.mem_map.mp ho
      exact .inl rfl
    obtain ⟨hpdu, hshort, hascending⟩ := finalPost_eq hbuilt huri
    exact ⟨_, .inr rfl, hshort, hascending, hpdu⟩

section Read

variable {session : Session} {values : List Bytes} {payload : Bytes} {front : List (Nat × Bytes)}

/-- The controller's own parser finds the path options again. -/
theorem post_validated (hfront : front = [] ∨ front = [(optionOscore, oscoreOption)])
    (hshort : Short 0 (front ++ values.map fun s => (optionUriPath, s)))
    (hascending : Ascending 0 (front ++ values.map fun s => (optionUriPath, s))) :
    ∃ v, validate (post session (front ++ values.map fun s => (optionUriPath, s)) payload) =
        some v ∧ v.payload = payload ∧
      ((getOptions (post session (front ++ values.map fun s => (optionUriPath, s)) payload)
        v).filter fun o => o.1 = optionUriPath).map Prod.snd = values := by
  have hsmall : ∀ o ∈ front ++ values.map fun s => (optionUriPath, s), o.1 < 65536 := by
    intro o ho
    rcases List.mem_append.mp ho with hmem | hmem
    · rcases hfront with rfl | rfl
      · simp at hmem
      · rw [List.mem_singleton.mp hmem]
        decide
    · obtain ⟨s, -, rfl⟩ := List.mem_map.mp hmem
      exact Nat.le_of_ble_eq_true rfl
  have hpath : ((values.map fun s => (optionUriPath, s)).filter
      fun o => o.1 = optionUriPath).map Prod.snd = values := by
    induction values with
    | nil => rfl
    | cons s rest ih => simp [List.filter_map, Function.comp_def]
  refine ⟨_, post_validate session payload hshort, rfl, ?_⟩
  rw [post_eq_datagram, getOptions_datagram (token_length session) hshort hascending hsmall,
    List.filter_append, List.map_append, hpath]
  rcases hfront with rfl | rfl
  · rfl
  · rfl

/-- The device's parser joins the path options. -/
theorem post_parsed (hne : values ≠ []) (hplain : ∀ s ∈ values, PlainSegment s)
    (hfront : front = [] ∨ front = [(optionOscore, oscoreOption)])
    (hshort : Short 0 (front ++ values.map fun s => (optionUriPath, s)))
    (hascending : Ascending 0 (front ++ values.map fun s => (optionUriPath, s)))
    (behind : Bytes) :
    ∃ pkt, ErCoap.coapParseMessage
        (post session (front ++ values.map fun s => (optionUriPath, s)) payload ++ behind)
        (post session (front ++ values.map fun s => (optionUriPath, s)) payload).length =
          .ok pkt ∧
      pkt.mid = session.messageId ∧ pkt.token = le32 session.sessionId ∧
      pkt.uriPath = some ([0x2F].intercalate values) ∧
      (ErCoap.coapGetPayload pkt).2 = min 64 payload.length ∧
      ErCoap.payloadBytes pkt = payload.take 64 := by
  let pkt : ErCoap.CoapPacket :=
    { type := .con, code := ErCoap.coapPost, mid := session.messageId
      token := le32 session.sessionId }
  have hsegments : ErCoap.applyOptions pkt (values.map fun s => (optionUriPath, s)) =
      .ok { pkt with uriPath := some ([0x2F].intercalate values) } :=
    ErCoap.applyOptions_segments hne hplain rfl
  let read : ErCoap.CoapPacket := { pkt with uriPath := some ([0x2F].intercalate values) }
  have happly : ErCoap.applyOptions pkt (front ++ values.map fun s => (optionUriPath, s)) =
      .ok read := by
    rcases hfront with rfl | rfl
    · exact hsegments
    · exact hsegments
  have hparse : ErCoap.coapParseMessage
      (post session (front ++ values.map fun s => (optionUriPath, s)) payload ++ behind)
      (post session (front ++ values.map fun s => (optionUriPath, s)) payload).length =
        .ok (ErCoap.withPayload read payload behind) := by
    rw [post_eq_datagram]
    exact ErCoap.coapParseMessage_datagram (by decide) (token_length session)
      (by rw [le32_length]; decide) hshort hascending happly
  have hfields := ErCoap.withPayload_eq read payload behind
  refine ⟨_, hparse, ?_, ?_, ?_, payloadBytes_withPayload read rfl payload behind⟩
  all_goals rw [hfields]

end Read

/-- A session whose location is a string of segments builds its POSTs with them. -/
theorem postBuilt_segments {session : Session} {segments : List Bytes} {lead tail : Bytes}
    (hne : segments ≠ []) (hplain : ∀ s ∈ segments, PlainSegment s)
    (hlead : lead = [] ∨ lead = [0x2F]) (htail : tail = [] ∨ tail = [0x2F])
    (hlocation : session.location = some (lead ++ ([0x2F].intercalate segments ++ tail))) :
    PostBuilt session (segments.map fun s => (optionUriPath, s)) := by
  have hseparator : ∀ b : Bytes, b = [] ∨ b = [0x2F] → (0 : UInt8) ∉ b := by
    rintro b (rfl | rfl)
    · simp
    · simp
  have hstring : cString (lead ++ ([0x2F].intercalate segments ++ tail)) =
      lead ++ ([0x2F].intercalate segments ++ tail) := by
    apply cString_eq_self
    rw [List.mem_append, List.mem_append]
    rintro (hmem | hmem | hmem)
    · exact hseparator lead hlead hmem
    · rcases mem_intercalate hmem with hsep | ⟨s, hs, hc⟩
      · simp at hsep
      · exact ((hplain s hs).plain 0 hc).2.2.2 rfl
    · exact hseparator tail htail hmem
  unfold PostBuilt
  rw [newPost_eq, hlocation, Option.getD_some, hstring]
  exact setURI_segments hne hplain hlead htail

/-- Whatever message identifier, session identifier and path a session has, both
parsers read its POSTs as they are meant: the identifiers, the path, and a
payload of at most one chunk in full. -/
theorem post_read_as_meant (session : Session) (path : UriPath)
    (hlocation : session.location = some path.joined ∨
      session.location = some (0x2F :: path.joined))
    (payload pdu : Bytes) (hpost : PostOf session payload pdu)
    (hchunk : payload.length ≤ ErCoap.restMaxChunkSize) :
    (∃ v, validate pdu = some v ∧ v.payload = payload) ∧
      ∀ behind, ∃ pkt, ErCoap.coapParseMessage (pdu ++ behind) pdu.length = .ok pkt ∧
        pkt.mid = session.messageId ∧ pkt.token = le32 session.sessionId ∧
        pkt.uriPath = some path.joined ∧
        (ErCoap.coapGetPayload pkt).2 = payload.length ∧ ErCoap.payloadBytes pkt = payload := by
  have hbuilt : PostBuilt session (path.segments.map fun s => (optionUriPath, s)) := by
    rcases hlocation with hplain | hslash
    · refine postBuilt_segments path.nonempty path.plain (.inl rfl) (.inl rfl) ?_
      rw [hplain, List.append_nil]
      rfl
    · refine postBuilt_segments path.nonempty path.plain (.inr rfl) (.inl rfl) ?_
      rw [hslash, List.append_nil]
      rfl
  obtain ⟨front, hfront, hshort, hascending, rfl⟩ := hpost.options hbuilt
  obtain ⟨v, hvalid, hpayload, -⟩ := post_validated hfront hshort hascending
  refine ⟨⟨v, hvalid, hpayload⟩, ?_⟩
  intro behind
  obtain ⟨pkt, hparse, hmid, htoken, hpath, hlength, hbytes⟩ :=
    post_parsed path.nonempty path.plain hfront hshort hascending behind
  unfold ErCoap.restMaxChunkSize at hchunk
  refine ⟨pkt, hparse, hmid, htoken, hpath, ?_, ?_⟩
  · rw [hlength]
    omega
  · rw [hbytes, List.take_of_length_le hchunk]

/-- `"initHateoasRsc"`, the first path of the device. -/
def initialPath : UriPath where
  segments := [[0x69, 0x6E, 0x69, 0x74, 0x48, 0x61, 0x74, 0x65, 0x6F, 0x61, 0x73, 0x52, 0x73, 0x63]]
  nonempty := by decide
  plain := by
    intro s hs
    rw [List.mem_singleton.mp hs]
    exact ⟨by decide, by decide, by decide +kernel⟩

/-- A session that the device has told its first path. -/
def locatedSession : Session :=
  { initCoapEapSession [] ⟨[], 0⟩ {} with location := some (0x2F :: initialPath.joined) }

theorem final_post_read_as_meant :
    ∃ pkt, ErCoap.coapParseMessage (finalPost locatedSession ++ [])
        (finalPost locatedSession).length = .ok pkt ∧
      pkt.mid = locatedSession.messageId ∧ pkt.token = le32 locatedSession.sessionId ∧
      pkt.uriPath = some initialPath.joined ∧
      (ErCoap.coapGetPayload pkt).2 = payloadOscore.length ∧
      ErCoap.payloadBytes pkt = payloadOscore :=
  (post_read_as_meant locatedSession initialPath (.inr rfl) payloadOscore
    (finalPost locatedSession) .final (by decide)).2 []

/-- A packet of the device that advertises a path, as `hateoas_handler` fills a
response. -/
structure Advertises (pkt : ErCoap.CoapPacket) (path : UriPath) : Prop where
  token : pkt.token.length ≤ ErCoap.coapTokenLen
  location : pkt.locationPath = some path.joined
  uriPath : pkt.uriPath = none
  uriQuery : pkt.uriQuery = none
  locationQuery : pkt.locationQuery = none
  block2 : pkt.block2 = none
  block1 : pkt.block1 = none

/-- The Content-Format option, if the packet has one. -/
def contentOptions (pkt : ErCoap.CoapPacket) : List (Nat × Bytes) :=
  ErCoap.intOptions ErCoap.optionContentType pkt.contentType

theorem Advertises.setOptions {pkt : ErCoap.CoapPacket} {path : UriPath}
    (h : Advertises pkt path) :
    ErCoap.setOptions pkt = pathOptions path.segments (contentOptions pkt) := by
  have hparts : ErCoap.splitParts 0x2F [] path.joined = path.segments :=
    ErCoap.splitParts_segments path.nonempty path.plain
  simp [ErCoap.setOptions, h.location, h.uriPath, h.uriQuery, h.locationQuery, h.block2, h.block1,
    ErCoap.stringOptions, ErCoap.intOptions, hparts, pathOptions, contentOptions,
    ErCoap.optionLocationPath, Cantcoap.optionLocationPath]

theorem contentOptions_number {pkt : ErCoap.CoapPacket} {o : Nat × Bytes}
    (h : o ∈ contentOptions pkt) : o.1 = ErCoap.optionContentType ∧ o.2.length < 269 := by
  unfold contentOptions ErCoap.intOptions at h
  split at h
  · simp at h
  · rw [List.mem_singleton.mp h]
    refine ⟨rfl, ?_⟩
    unfold ErCoap.intOptionValue
    repeat' split
    all_goals simp

theorem contentOptions_short (prev : Nat) (pkt : ErCoap.CoapPacket) :
    Short prev (contentOptions pkt) := by
  cases hoptions : contentOptions pkt with
  | nil => trivial
  | cons o rest =>
    obtain rfl : rest = [] := by
      unfold contentOptions ErCoap.intOptions at hoptions
      split at hoptions
      · simp at hoptions
      · simpa using (List.cons.inj hoptions).2.symm
    obtain ⟨hnumber, hlength⟩ := contentOptions_number (hoptions ▸ List.mem_singleton_self o)
    refine ⟨?_, hlength, trivial⟩
    rw [hnumber]
    unfold ErCoap.optionContentType
    omega

theorem contentOptions_ascending {prev : Nat} (hprev : prev ≤ ErCoap.optionContentType)
    (pkt : ErCoap.CoapPacket) : Ascending prev (contentOptions pkt) := by
  unfold contentOptions ErCoap.intOptions
  split
  · trivial
  · exact ⟨hprev, trivial⟩

theorem pathOptions_wellFormed (path : UriPath) (pkt : ErCoap.CoapPacket) :
    Short 0 (pathOptions path.segments (contentOptions pkt)) ∧
      Ascending 0 (pathOptions path.segments (contentOptions pkt)) := by
  have hlast : lastNumber 0 (path.segments.map fun s => (optionLocationPath, s)) =
      optionLocationPath := by
    have hne : (path.segments.map fun s => (optionLocationPath, s)) ≠ [] := by
      simp [path.nonempty]
    obtain ⟨o, ho, hnumber⟩ := lastNumber_mem 0 hne
    obtain ⟨s, -, rfl⟩ := List.mem_map.mp ho
    exact hnumber
  unfold pathOptions
  rw [short_append, ascending_append, hlast]
  refine ⟨⟨short_map (by decide) fun s hs => (path.plain s hs).short, ?_⟩,
    ascending_map (Nat.zero_le _) _, contentOptions_ascending (by decide) pkt⟩
  exact contentOptions_short _ pkt

/-- A string of segments and separators is stored whole. -/
theorem cString_segments {segments : List Bytes} {tail : Bytes}
    (hplain : ∀ s ∈ segments, PlainSegment s) (htail : tail = [] ∨ tail = [0x2F]) :
    cString (0x2F :: ([0x2F].intercalate segments ++ tail)) =
      0x2F :: ([0x2F].intercalate segments ++ tail) := by
  apply cString_eq_self
  intro h
  rcases List.mem_cons.mp h with hslash | hmem
  · simp at hslash
  rcases List.mem_append.mp hmem with hjoined | hback
  · rcases mem_intercalate hjoined with hsep | ⟨s, hs, hc⟩
    · simp at hsep
    · exact ((hplain s hs).plain 0 hc).2.2.2 rfl
  · rcases htail with rfl | rfl
    · simp at hback
    · simp at hback

/-- The room of `getLocation` behind the first separator. -/
def locationRoom : Nat := 28

/-- What the controller stores for an advertised path: the path, or fewer of its
segments where the path does not fit. -/
theorem storedLocation {pkt : ErCoap.CoapPacket} {path : UriPath} {v : Validated}
    (hadvertises : Advertises pkt path) (hvalid : validate (ErCoap.serialized pkt) = some v) :
    (path.joined.length ≤ locationRoom ∧
        getLocation (ErCoap.serialized pkt) v 30 = 0x2F :: path.joined) ∨
      (locationRoom < path.joined.length ∧ ∃ n < path.segments.length, ∃ tail : Bytes,
        (tail = [] ∨ tail = [0x2F]) ∧ (n = 0 → tail = []) ∧
        getLocation (ErCoap.serialized pkt) v 30 =
          0x2F :: ([0x2F].intercalate (path.segments.take n) ++ tail)) := by
  obtain ⟨hshort, hascending⟩ := pathOptions_wellFormed path pkt
  obtain ⟨hversion, htoken⟩ := ErCoap.first_byte pkt.type hadvertises.token
  have hsmall : ∀ o ∈ pathOptions path.segments (contentOptions pkt), o.1 < 65536 := by
    intro o ho
    rcases List.mem_append.mp ho with hmem | hmem
    · obtain ⟨s, -, rfl⟩ := List.mem_map.mp hmem
      exact Nat.le_of_ble_eq_true rfl
    · rw [(contentOptions_number hmem).1]
      decide
  have hothers : ∀ o ∈ contentOptions pkt,
      o.1 ≠ optionLocationPath ∧ o.1 ≠ optionLocationQuery := by
    intro o ho
    rw [(contentOptions_number ho).1]
    decide
  have hnonzero : ¬ (pathOptions path.segments (contentOptions pkt)).length = 0 := by
    have hpos := List.length_pos_iff.mpr path.nonempty
    simp only [pathOptions, List.length_append, List.length_map]
    omega
  rw [ErCoap.serialized_eq_datagram pkt hadvertises.token, hadvertises.setOptions] at hvalid ⊢
  rw [validate_datagram hversion htoken hadvertises.token hshort] at hvalid
  split at hvalid
  · simp at hvalid
  obtain rfl := Option.some.inj hvalid
  simp only [getLocation, hnonzero, if_false,
    getOptions_datagram htoken hshort hascending hsmall]
  by_cases hfits : path.joined.length ≤ locationRoom
  · left
    refine ⟨hfits, ?_⟩
    have hloop : getLocationLoop (pathOptions path.segments (contentOptions pkt)) ([] ++ [0x2F])
        (30 - 2) 0x2F true = [] ++ 0x2F :: [0x2F].intercalate path.segments :=
      getLocationLoop_fits path.plain path.nonempty hothers hfits
    simp only [List.nil_append] at hloop
    have hstored := cString_segments path.plain (.inl rfl)
    rw [List.append_nil] at hstored
    rw [hloop, hstored]
    rfl
  · right
    refine ⟨Nat.lt_of_not_le hfits, ?_⟩
    obtain ⟨n, hn, tail, htail, hzero, hloop⟩ : ∃ n < path.segments.length, ∃ tail : Bytes,
        (tail = [] ∨ tail = [0x2F]) ∧ (n = 0 → tail = []) ∧
          getLocationLoop (pathOptions path.segments (contentOptions pkt)) ([] ++ [0x2F])
            (30 - 2) 0x2F true =
            [] ++ 0x2F :: ([0x2F].intercalate (path.segments.take n) ++ tail) :=
      getLocationLoop_overflows path.plain (Nat.lt_of_not_le hfits)
    simp only [List.nil_append] at hloop
    refine ⟨n, hn, tail, htail, hzero, ?_⟩
    rw [hloop, cString_segments (fun s hs => path.plain s (List.mem_of_mem_take hs)) htail]

/-- A POST reads as a path for both parsers: with its segments as Uri-Path options
for the controller's, and joined for the device's. -/
def ReadsAs (path : UriPath) (pdu : Bytes) : Prop :=
  (∃ v, validate pdu = some v ∧
    ((getOptions pdu v).filter fun o => o.1 = optionUriPath).map Prod.snd = path.segments) ∧
  ∀ behind, ∃ pkt, ErCoap.coapParseMessage (pdu ++ behind) pdu.length = .ok pkt ∧
    pkt.uriPath = some path.joined

/-- A path that the device advertises in an acknowledgment comes back in the POSTs
of the session that stored it exactly when it fits the buffer of `getLocation`. -/
theorem advertised_path_comes_back_iff {s t : Controller} {task : NetworkTask}
    {post : Ptr × Nat} {p : Ptr} {call : Call} {path : UriPath} {pkt : ErCoap.CoapPacket}
    {next : Session} {payload pdu : Bytes} (hadvertises : Advertises pkt path)
    (hbuf : task.buf = ErCoap.serialized pkt)
    (hstored : processAcknowledgment s task post p call = .ok t)
    (hnext : next.location = (t.heap p).location) (hpost : PostOf next payload pdu) :
    ReadsAs path pdu ↔ path.joined.length ≤ locationRoom := by
  obtain ⟨v, hvalid, hsession⟩ := processAcknowledgment_session hstored
  have hlocation : next.location = some (getLocation (ErCoap.serialized pkt) v 30) := by
    rw [hnext, hsession, hbuf]
  rw [hbuf] at hvalid
  rcases storedLocation hadvertises hvalid with ⟨hfits, hstring⟩ | ⟨hlong, n, hn, tail, htail,
    hzero, hstring⟩
  · have hbuilt : PostBuilt next (path.segments.map fun s => (optionUriPath, s)) := by
      refine postBuilt_segments path.nonempty path.plain (.inr rfl) (.inl rfl) ?_
      rw [hlocation, hstring, List.append_nil]
      rfl
    obtain ⟨front, hfront, hshort, hascending, rfl⟩ := hpost.options hbuilt
    obtain ⟨v, hvalid, -, hsegments⟩ := post_validated hfront hshort hascending
    refine iff_of_true ⟨⟨v, hvalid, hsegments⟩, ?_⟩ hfits
    intro behind
    obtain ⟨pkt, hparse, -, -, hpath, -⟩ :=
      post_parsed path.nonempty path.plain hfront hshort hascending behind
    exact ⟨pkt, hparse, hpath⟩
  · refine iff_of_false ?_ (Nat.not_le_of_lt hlong)
    -- the controller's own options already differ from the segments of the path
    suffices hvalues : ∃ values, values ≠ path.segments ∧
        PostBuilt next (values.map fun s => (optionUriPath, s)) by
      obtain ⟨values, hdiffer, hbuilt⟩ := hvalues
      obtain ⟨front, hfront, hshort, hascending, rfl⟩ := hpost.options hbuilt
      obtain ⟨v, hvalid, -, hsegments⟩ := post_validated hfront hshort hascending
      rintro ⟨⟨v', hvalid', hsegments'⟩, -⟩
      obtain rfl : v = v' := Option.some.inj (hvalid.symm.trans hvalid')
      exact hdiffer (hsegments.symm.trans hsegments')
    cases n with
    | zero =>
      -- nothing but the separator fits, and `setURI` takes it for a segment
      refine ⟨[[0x2F]], ?_, ?_⟩
      · intro h
        have hplain := path.plain [0x2F] (h ▸ List.mem_singleton_self _)
        exact hplain.slash_not_mem (List.mem_singleton_self _)
      · have hslash : next.location = some [0x2F] := by
          rw [hlocation, hstring, hzero rfl]
          rfl
        have hempty : Built (postHead next) ⟨postHead next, 0⟩ [] :=
          ⟨(List.append_nil _).symm, rfl, trivial, trivial⟩
        unfold PostBuilt
        rw [newPost_eq, hslash]
        exact hempty.addOption (Nat.zero_le _) (by decide) (by decide)
    | succ n =>
      have hshorter : (path.segments.take (n + 1)).length < path.segments.length := by
        rw [List.length_take]
        omega
      refine ⟨path.segments.take (n + 1), ?_, ?_⟩
      · intro h
        rw [h] at hshorter
        omega
      · refine postBuilt_segments ?_ (fun s hs => path.plain s (List.mem_of_mem_take hs))
          (.inr rfl) htail ?_
        · intro h
          rcases List.take_eq_nil_iff.mp h with hzero | hempty
          · simp at hzero
          · exact path.nonempty hempty
        · rw [hlocation, hstring]
          rfl

/-- The response of `hateoas_handler` that advertises a path. -/
def advertisement (path : UriPath) : ErCoap.CoapPacket :=
  { type := .ack, code := ErCoap.created, mid := 1, token := [0, 0, 0, 0]
    contentType := some ErCoap.textPlain, locationPath := some path.joined }

theorem advertises_advertisement (path : UriPath) : Advertises (advertisement path) path :=
  ⟨Nat.le_of_ble_eq_true rfl, rfl, rfl, rfl, rfl, rfl, rfl⟩

/-- The acknowledgment as the controller took it. -/
def advertisementTask (path : UriPath) : NetworkTask :=
  ⟨ErCoap.serialized (advertisement path), ⟨[], 0⟩, 0⟩

theorem initial_path_comes_back :
    ReadsAs initialPath (eapPost locatedSession [1]) ↔
      initialPath.joined.length ≤ locationRoom := by
  have hstored : ∃ t, processAcknowledgment initialController (advertisementTask initialPath)
      (0, 0) 0 {} = .ok t ∧ (t.heap 0).location = some (0x2F :: initialPath.joined) := by
    exact ⟨_, rfl, by decide +kernel⟩
  obtain ⟨t, ht, hlocation⟩ := hstored
  exact advertised_path_comes_back_iff (advertises_advertisement initialPath) rfl ht
    hlocation.symm (.next [1])

/-- A path of one segment of 29 bytes. -/
def longPath : UriPath where
  segments := [List.replicate 29 0x61]
  nonempty := by decide
  plain := by
    intro s hs
    rw [List.mem_singleton.mp hs]
    exact ⟨by decide, by decide, by decide +kernel⟩

/-- Of a path of 29 bytes nothing is stored but the separator. -/
theorem long_path_does_not_come_back :
    Advertises (advertisement longPath) longPath ∧
      ∃ t, processAcknowledgment initialController (advertisementTask longPath) (0, 0) 0 {} =
        .ok t ∧
      (t.heap 0).location = some [0x2F] ∧
      ¬ ReadsAs longPath (eapPost { locatedSession with location := some [0x2F] } [1]) := by
  refine ⟨advertises_advertisement longPath, _, rfl, by decide +kernel, ?_⟩
  rintro ⟨⟨v, hvalid, hsegments⟩, -⟩
  have hslash : (validate (eapPost { locatedSession with location := some [0x2F] } [1])).map
      (fun v => ((getOptions (eapPost { locatedSession with location := some [0x2F] } [1])
        v).filter fun o => o.1 = optionUriPath).map Prod.snd) = some [[0x2F]] := by
    decide +kernel
  rw [hvalid, Option.map_some, hsegments] at hslash
  exact absurd hslash (by decide)

end CoapEap
