import CoapEap.Controller.Messages
import CoapEap.Controller.Sessions

/-!
What the sessions store is sound: the location fits the options of a URI, so
`validate` accepts the last message sent, and a retransmission never ends the
process.
-/

namespace CoapEap.Cantcoap

/-- The payload is a part of the datagram. -/
theorem validateOptions_payload {fuel : Nat} {rest : Bytes} {count : Nat} {v : Validated}
    (h : validateOptions fuel rest count = some v) : v.payload.length ≤ rest.length := by
  induction fuel generalizing rest count with
  | zero => simp [validateOptions] at h
  | succ fuel ih =>
    unfold validateOptions at h
    split at h
    · obtain rfl := Option.some.inj h
      simp
    · split at h
      · split at h
        · obtain rfl := Option.some.inj h
          simp
        · simp at h
      · simp only [Option.ite_none_left_eq_some] at h
        obtain ⟨-, -, -, -, h⟩ := h
        have hrest := ih h
        rw [List.length_drop] at hrest
        omega

theorem validate_payload {pdu : Bytes} {v : Validated} (h : validate pdu = some v) :
    v.payload.length ≤ pdu.length := by
  unfold validate at h
  simp only [Option.ite_none_left_eq_some] at h
  obtain ⟨-, -, -, -, -, h⟩ := h
  have hrest := validateOptions_payload h
  rw [List.length_drop] at hrest
  omega

/-- The loop writes no further than the room it was given. -/
theorem getLocationLoop_length {options : List (Nat × Bytes)} {dst : Bytes} {bytesLeft : Nat}
    {separator : UInt8} {firstQuery : Bool} (hdst : dst ≠ []) :
    (getLocationLoop options dst bytesLeft separator firstQuery).length ≤
      dst.length + bytesLeft := by
  induction options generalizing dst bytesLeft separator firstQuery with
  | nil =>
    simp only [getLocationLoop, List.length_dropLast]
    omega
  | cons option rest ih =>
    obtain ⟨number, value⟩ := option
    unfold getLocationLoop
    split
    · -- the separator that a query replaces was written before
      have hreplaced : ∀ b : Bool, (if b then dst.dropLast ++ [0x3F] else dst).length = dst.length ∧
          (if b then dst.dropLast ++ [0x3F] else dst) ≠ [] := by
        intro b
        have hpos := List.length_pos_iff.mpr hdst
        cases b with
        | true => simp; omega
        | false => simpa using hdst
      obtain ⟨hlength, hne⟩ :=
        hreplaced (decide (number = optionLocationQuery) && firstQuery)
      simp only
      generalize (if (decide (number = optionLocationQuery) && firstQuery) = true then
        dst.dropLast ++ [0x3F] else dst) = dst' at *
      split
      · omega
      · split
        · omega
        · split
          · refine Nat.le_trans (ih (by simp)) ?_
            simp only [List.length_append, List.length_cons, List.length_nil]
            omega
          · rw [List.length_append]
            omega
    · exact ih hdst

theorem cString_length (b : Bytes) : (cString b).length ≤ b.length :=
  (List.takeWhile_sublist _).length_le

theorem getLocation_length (pdu : Bytes) (v : Validated) : (getLocation pdu v 30).length ≤ 29 := by
  unfold getLocation
  split
  · simp
  · have hloop : (getLocationLoop (getOptions pdu v) [0x2F] (30 - 2) 0x2F true).length ≤
        [(0x2F : UInt8)].length + (30 - 2) :=
      getLocationLoop_length (by simp)
    exact Nat.le_trans (cString_length _) hloop

end CoapEap.Cantcoap

namespace CoapEap.Mainserver

open Cantcoap EapServer Radius Library.Runs

/-- A session from which every POST can be built, and whose last one was. -/
structure StoresPosts (session : Session) : Prop where
  stored : ∀ pdu, session.lastSentMessage = some pdu → (validate pdu).isSome
  location : ShortLocation session

theorem shortLocation_of_length {session : Session}
    (h : ∀ l, session.location = some l → l.length < 269) : ShortLocation session := by
  unfold ShortLocation
  cases hlocation : session.location with
  | none => decide
  | some l => exact Nat.lt_of_le_of_lt (cString_length l) (h l hlocation)

theorem firstPost_validate {session : Session} (h : ShortLocation session) (packet : Bytes) :
    (validate (firstPost session packet)).isSome := by
  obtain ⟨options, hbuilt, -⟩ := setURI_post h
  rw [firstPost_eq hbuilt packet, post_validate session _ hbuilt.short]
  rfl

theorem radiusPost_validate {session : Session} (h : ShortLocation session) (packet : Bytes) :
    (validate (radiusPost session packet)).isSome := by
  unfold radiusPost
  split
  · obtain ⟨options, hbuilt, huri⟩ := setURI_post h
    obtain ⟨hpost, hshort, -⟩ := finalPost_eq hbuilt huri
    rw [hpost, post_validate session _ hshort]
    rfl
  · obtain ⟨options, hbuilt, -⟩ := setURI_post h
    rw [eapPost_eq hbuilt packet, post_validate session _ hbuilt.short]
    rfl

theorem StoresPosts.change {digests : Digests} {x y : Session}
    (h : SessionChange digests x y) (hx : StoresPosts x) : StoresPosts y := by
  obtain ⟨hstored, hlocation⟩ := hx
  cases h with
  | received | answered | wroteIdentity | handedIdentity | sendFailed | counted =>
    exact ⟨hstored, hlocation⟩
  | opened buf packet request ctx hshort hvalid =>
    have hfits : ShortLocation (openedSession x request) := by
      refine shortLocation_of_length ?_
      intro l hl
      have hpayload := validate_payload hvalid
      have hl : (if request.payload = [] then defaultLocation else request.payload) = l :=
        Option.some.inj hl
      rw [← hl]
      split
      · decide
      · exact Nat.lt_of_le_of_lt hpayload (by omega)
    refine ⟨?_, hfits⟩
    intro pdu hpdu
    rw [← Option.some.inj hpdu]
    exact firstPost_validate hfits packet
  | fed buf data request =>
    refine ⟨hstored, shortLocation_of_length ?_⟩
    intro l hl
    rw [← Option.some.inj hl]
    exact Nat.lt_of_le_of_lt (getLocation_length buf request) (by decide)
  | located buf request =>
    refine ⟨hstored, shortLocation_of_length ?_⟩
    intro l hl
    rw [← Option.some.inj hl]
    exact Nat.lt_of_le_of_lt (getLocation_length buf request) (by decide)
  | posted packet =>
    refine ⟨?_, hlocation⟩
    intro pdu hpdu
    rw [← Option.some.inj hpdu]
    have hfits : ShortLocation (radiusPostSession x) := hlocation
    exact radiusPost_validate hfits packet

/-- In every run, every session can be sent to and its last POST sent again. -/
theorem storesPosts {digests : Digests} {guard : Controller → Event → Prop} {s : Controller}
    (h : ReachableUnder (step digests) guard initialController s) (p : Ptr) :
    StoresPosts (s.heap p) := by
  refine session_invariant ?_ (fun _ _ hchange hx => hx.change hchange) h p
  intro buf source arrival
  exact ⟨by simp [initCoapEapSession], shortLocation_of_length (by simp [initCoapEapSession])⟩

end CoapEap.Mainserver
