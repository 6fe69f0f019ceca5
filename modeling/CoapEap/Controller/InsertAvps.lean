import CoapEap.Controller.Pana

/-!
What `insertAvps` builds and what `getAvp` finds in it. A built message is its
header and one encoded AVP after the other, in the order of `identifyAVP`.
-/

open Library

namespace CoapEap.Pana

/-- The padding behind a value. -/
def avpPadding (code length : Nat) : Nat :=
  if isOctetString code then paddingOctetString length else 0

/-- An AVP as it stands in a message. -/
def encodeAvp (code : Nat) (value : Bytes) : Bytes :=
  be16 code ++ [0, 0] ++ be16 value.length ++ [0, 0] ++ value ++
    List.replicate (avpPadding code value.length) 0

def encodeAvps (avps : List (Nat × Bytes)) : Bytes :=
  avps.flatMap fun avp => encodeAvp avp.1 avp.2

theorem code_range (a : Avp) : 1 ≤ a.code ∧ a.code ≤ 11 := by
  cases a <;> decide

theorem code_injective {a b : Avp} (h : a.code = b.code) : a = b := by
  cases a <;> cases b <;> simp [Avp.code] at h ⊢

theorem encodeAvp_length (code : Nat) (value : Bytes) :
    (encodeAvp code value).length =
      avpHeaderSize + value.length + avpPadding code value.length := by
  simp only [encodeAvp, be16, List.length_append, List.length_cons, List.length_nil,
    List.length_replicate, avpHeaderSize]

theorem encodeAvps_cons (avp : Nat × Bytes) (avps : List (Nat × Bytes)) :
    encodeAvps (avp :: avps) = encodeAvp avp.1 avp.2 ++ encodeAvps avps := by
  rw [encodeAvps, List.flatMap_cons, encodeAvps]

theorem encodeAvps_append (avps more : List (Nat × Bytes)) :
    encodeAvps (avps ++ more) = encodeAvps avps ++ encodeAvps more := by
  rw [encodeAvps, List.flatMap_append, encodeAvps, encodeAvps]

theorem encodeAvps_singleton (code : Nat) (value : Bytes) :
    encodeAvps [(code, value)] = encodeAvp code value := by
  rw [encodeAvps, List.flatMap_singleton]

/-! Reading one encoded AVP in front of any rest. -/

section Reading

variable {code : Nat} {value : Bytes} (front rest : Bytes)

theorem be16At_code (hcode : code < 65536) :
    be16At (front ++ (encodeAvp code value ++ rest)) front.length = code := by
  have hread := be16At_append_right front (encodeAvp code value ++ rest) 0
  rw [Nat.add_zero] at hread
  rw [hread, encodeAvp]
  simp only [List.append_assoc]
  exact be16At_be16 hcode _

theorem be16At_length (hvalue : value.length < 65536) :
    be16At (front ++ (encodeAvp code value ++ rest)) (front.length + 4) = value.length := by
  have hskip := be16At_append_right (be16 code ++ [0, 0]) (be16 value.length ++ ([0, 0] ++ (value ++
    (List.replicate (avpPadding code value.length) 0 ++ rest)))) 0
  rw [be16At_append_right, encodeAvp]
  simp only [List.append_assoc] at hskip ⊢
  exact hskip.trans (be16At_be16 hvalue _)

theorem drop_value :
    ((front ++ (encodeAvp code value ++ rest)).drop (front.length + avpHeaderSize)).take
        (value.length + avpPadding code value.length) =
      value ++ List.replicate (avpPadding code value.length) 0 := by
  have hheader : (be16 code ++ [0, 0] ++ be16 value.length ++ [0, 0]).length = avpHeaderSize := by
    simp [be16, avpHeaderSize]
  have hbody : (value ++ List.replicate (avpPadding code value.length) (0 : UInt8)).length =
      value.length + avpPadding code value.length := by
    rw [List.length_append, List.length_replicate]
  have hsplit : front ++ (encodeAvp code value ++ rest) =
      front ++ (be16 code ++ [0, 0] ++ be16 value.length ++ [0, 0]) ++
        (value ++ List.replicate (avpPadding code value.length) 0 ++ rest) := by
    simp [encodeAvp]
  rw [hsplit, List.drop_left' (by rw [List.length_append, hheader]), List.take_left' hbody]

end Reading

/-! `getAvp` over encoded AVPs. -/

theorem sub16_eq {a b : Nat} (hle : b ≤ a) (ha : a < 65536) : sub16 a b = a - b := by
  unfold sub16
  omega

/-- An AVP of another code is passed over. -/
theorem getAvpLoop_step {code type : Nat} {value : Bytes} (front rest : Bytes) (rounds : Nat)
    (hne : code ≠ type) (hcode : code < 65536)
    (hsize : front.length + (encodeAvp code value ++ rest).length < 65536) :
    getAvpLoop (front ++ (encodeAvp code value ++ rest)) type (rounds + 1)
        (encodeAvp code value ++ rest).length front.length =
      getAvpLoop (front ++ encodeAvp code value ++ rest) type rounds rest.length
        (front ++ encodeAvp code value).length := by
  have hlength := encodeAvp_length code value
  rw [List.length_append] at hsize
  have hvalue : value.length < 65536 := by omega
  have hnonempty : (encodeAvp code value ++ rest).length ≠ 0 := by
    rw [List.length_append, hlength, avpHeaderSize]
    omega
  have hstep : avpHeaderSize + value.length +
      (if isOctetString code then paddingOctetString value.length else 0) =
        (encodeAvp code value).length := hlength.symm
  have hleft : sub16 (encodeAvp code value ++ rest).length (encodeAvp code value).length =
      rest.length := by
    rw [List.length_append, sub16_eq (Nat.le_add_right ..) (by omega), Nat.add_sub_cancel_left]
  have hoffset : (front.length + (encodeAvp code value).length) % 65536 =
      (front ++ encodeAvp code value).length := by
    rw [List.length_append, Nat.mod_eq_of_lt (by omega)]
  rw [getAvpLoop, if_neg hnonempty, be16At_code front rest hcode, be16At_length front rest hvalue]
  simp only [if_neg hne, hstep, hleft, hoffset, List.append_assoc]

theorem getAvpLoop_found {type : Nat} {value : Bytes} (before : List (Nat × Bytes))
    (front rest : Bytes) {rounds : Nat} (hrounds : before.length < rounds)
    (hcodes : ∀ avp ∈ before, avp.1 < 65536 ∧ avp.1 ≠ type) (htype : type < 65536)
    (hsize : (front ++ (encodeAvps before ++ (encodeAvp type value ++ rest))).length < 65536) :
    getAvpLoop (front ++ (encodeAvps before ++ (encodeAvp type value ++ rest))) type rounds
        (encodeAvps before ++ (encodeAvp type value ++ rest)).length front.length =
      some (some (front ++ encodeAvps before).length) := by
  induction before generalizing front rounds with
  | nil =>
    obtain ⟨rounds, rfl⟩ : ∃ n, rounds = n + 1 := ⟨rounds - 1, by omega⟩
    have hnonempty : (encodeAvp type value ++ rest).length ≠ 0 := by
      rw [List.length_append, encodeAvp_length, avpHeaderSize]
      omega
    simp only [encodeAvps, List.flatMap_nil, List.nil_append, List.append_nil]
    rw [getAvpLoop, if_neg hnonempty, be16At_code front rest htype]
    simp only [↓reduceIte]
  | cons avp before ih =>
    obtain ⟨rounds, rfl⟩ : ∃ n, rounds = n + 1 := ⟨rounds - 1, by omega⟩
    obtain ⟨hcode, hne⟩ := hcodes avp List.mem_cons_self
    have hothers : ∀ other ∈ before, other.1 < 65536 ∧ other.1 ≠ type :=
      fun other hother => hcodes other (List.mem_cons_of_mem _ hother)
    rw [encodeAvps_cons, List.append_assoc] at hsize ⊢
    have hlong : front.length + (encodeAvp avp.1 avp.2 ++
        (encodeAvps before ++ (encodeAvp type value ++ rest))).length < 65536 := by
      rwa [List.length_append] at hsize
    have hrest := ih (front ++ encodeAvp avp.1 avp.2) (Nat.lt_of_succ_lt_succ hrounds) hothers
      (by rwa [List.append_assoc])
    rw [getAvpLoop_step front _ rounds hne hcode hlong, hrest, List.append_assoc]

theorem getAvpLoop_absent {type : Nat} (avps : List (Nat × Bytes)) (front : Bytes) {rounds : Nat}
    (hrounds : avps.length < rounds) (hcodes : ∀ avp ∈ avps, avp.1 < 65536 ∧ avp.1 ≠ type)
    (hsize : (front ++ encodeAvps avps).length < 65536) :
    getAvpLoop (front ++ encodeAvps avps) type rounds (encodeAvps avps).length front.length =
      some none := by
  induction avps generalizing front rounds with
  | nil =>
    obtain ⟨rounds, rfl⟩ : ∃ n, rounds = n + 1 := ⟨rounds - 1, by omega⟩
    rfl
  | cons avp avps ih =>
    obtain ⟨rounds, rfl⟩ : ∃ n, rounds = n + 1 := ⟨rounds - 1, by omega⟩
    obtain ⟨hcode, hne⟩ := hcodes avp List.mem_cons_self
    have hothers : ∀ other ∈ avps, other.1 < 65536 ∧ other.1 ≠ type :=
      fun other hother => hcodes other (List.mem_cons_of_mem _ hother)
    rw [encodeAvps_cons] at hsize ⊢
    have hlong : front.length + (encodeAvp avp.1 avp.2 ++ encodeAvps avps).length < 65536 := by
      rwa [List.length_append] at hsize
    have hrest := ih (front ++ encodeAvp avp.1 avp.2) (Nat.lt_of_succ_lt_succ hrounds) hothers
      (by rwa [List.append_assoc])
    rw [getAvpLoop_step front _ rounds hne hcode hlong, hrest]

/-! The message behind `insertAvp`. -/

theorem realloc_eq (p : Setting) {front : Bytes} (behind : Bytes) {size : Nat}
    (h : front.length ≤ size) :
    ∃ cells, realloc p (front ++ behind) size = front ++ cells ∧
      cells.length = size - front.length := by
  refine ⟨(realloc p (front ++ behind) size).drop front.length, ?_, ?_⟩
  · have htake : (realloc p (front ++ behind) size).take front.length = front := by
      apply List.ext_getElem
      · simp [realloc, h]
      intro i hi hfront
      simp [realloc, List.getElem?_append_left hfront, hfront]
    calc realloc p (front ++ behind) size
        = (realloc p (front ++ behind) size).take front.length ++
            (realloc p (front ++ behind) size).drop front.length :=
          (List.take_append_drop ..).symm
      _ = front ++ (realloc p (front ++ behind) size).drop front.length := by rw [htake]
  · rw [List.length_drop, realloc, List.length_map, List.length_range]

theorem writeHeader_eq (front : Bytes) (code length : Nat) {cells : Bytes}
    (h : avpHeaderSize ≤ cells.length) :
    writeHeader (front ++ cells) front.length code length =
      some (front ++ (be16 code ++ [0, 0] ++ be16 length ++ [0, 0]) ++
        cells.drop avpHeaderSize) := by
  obtain ⟨c0, c1, c2, c3, c4, c5, c6, c7, value, rfl⟩ : ∃ c0 c1 c2 c3 c4 c5 c6 c7 value,
      cells = c0 :: c1 :: c2 :: c3 :: c4 :: c5 :: c6 :: c7 :: value := by
    rcases cells with _ | ⟨c0, _ | ⟨c1, _ | ⟨c2, _ | ⟨c3, _ | ⟨c4, _ | ⟨c5, _ | ⟨c6, _ |
      ⟨c7, value⟩⟩⟩⟩⟩⟩⟩⟩
    case cons.cons.cons.cons.cons.cons.cons.cons =>
      exact ⟨c0, c1, c2, c3, c4, c5, c6, c7, value, rfl⟩
    all_goals simp [avpHeaderSize] at h
  have hflags : Buffer.write (front ++ c0 :: c1 :: c2 :: c3 :: c4 :: c5 :: c6 :: c7 :: value)
      (front.length + 2) [0, 0] =
        some (front ++ c0 :: c1 :: 0 :: 0 :: c4 :: c5 :: c6 :: c7 :: value) := by
    rw [Buffer.write_append_right]
    simp [Buffer.write]
  have hreserved : Buffer.write (front ++ c0 :: c1 :: 0 :: 0 :: c4 :: c5 :: c6 :: c7 :: value)
      (front.length + 6) [0, 0] =
        some (front ++ c0 :: c1 :: 0 :: 0 :: c4 :: c5 :: 0 :: 0 :: value) := by
    rw [Buffer.write_append_right]
    simp [Buffer.write]
  have hlength : Buffer.write (front ++ c0 :: c1 :: 0 :: 0 :: c4 :: c5 :: 0 :: 0 :: value)
      (front.length + 4) (be16 length) =
        some (front ++ c0 :: c1 :: 0 :: 0 :: (be16 length ++ 0 :: 0 :: value)) := by
    rw [Buffer.write_append_right]
    simp [Buffer.write, be16]
  have hcode : Buffer.write (front ++ c0 :: c1 :: 0 :: 0 :: (be16 length ++ 0 :: 0 :: value))
      front.length (be16 code) =
        some (front ++ (be16 code ++ 0 :: 0 :: (be16 length ++ 0 :: 0 :: value))) := by
    have hwrite := Buffer.write_between front (0 :: 0 :: (be16 length ++ 0 :: 0 :: value))
      (show [c0, c1].length = (be16 code).length from rfl)
    simpa using hwrite
  simp only [writeHeader, Option.bind_eq_bind, hflags, hreserved, hlength, hcode, Option.bind_some]
  simp [avpHeaderSize]

/-! The values. -/

/-- The numbers that `rand` gives from the `k`-th on. -/
def randomWords (p : Setting) (k n : Nat) : Bytes :=
  (List.range' k n).flatMap fun i => le32 (p.rand i)

/-- What the second switch puts into an AVP. The authentication is cleared here and
filled in over the whole message. -/
def written (p : Setting) (data : AvpData) : Avp → Bytes
  | .integrityAlg => le32 (ntohl data.integrityAlg)
  | .keyId => data.keyId.toList
  | .nonce => randomWords p 0 (valueLength p data .nonce / 4)
  | .prfAlg => le32 (ntohl data.prfAlg)
  | .resultCode => le32 (ntohl data.resultCode)
  | .sessionLifetime => le32 (ntohl data.sessionLifetime)
  | .terminationCause => le32 (ntohs data.terminationCause)
  | .eapPayload => data.eapPayload
  | .auth => List.replicate (valueLength p data .auth) 0
  | .pacInformation => []
  | .relayedMessage => []

/-- The AVPs that flags stand for, in the order of `identifyAVP`. -/
def insertionOrder : List Avp :=
  [.eapPayload, .integrityAlg, .keyId, .nonce, .prfAlg, .resultCode, .sessionLifetime,
    .terminationCause, .auth]

theorem randomWords_length (p : Setting) (k n : Nat) : (randomWords p k n).length = 4 * n := by
  induction n generalizing k with
  | zero => rfl
  | succ n ih =>
    have hrest := ih (k + 1)
    rw [randomWords] at hrest
    rw [randomWords, List.range'_succ, List.flatMap_cons, List.length_append, hrest]
    simp only [le32, List.length_cons, List.length_nil]
    omega

theorem written_length (p : Setting) (data : AvpData) {a : Avp} (h : a ∈ insertionOrder) :
    (written p data a).length = valueLength p data a := by
  cases a with
  | nonce =>
    rw [written, randomWords_length, valueLength]
    cases p.prfSuite with
    | aes128Cbc => rfl
    | hmacSha1 => rfl
  | auth => rw [written, List.length_replicate]
  | keyId => exact Vector.length_toList
  | eapPayload => rfl
  | pacInformation => simp [insertionOrder] at h
  | relayedMessage => simp [insertionOrder] at h
  | integrityAlg => rfl
  | prfAlg => rfl
  | resultCode => rfl
  | sessionLifetime => rfl
  | terminationCause => rfl

/-- The words fill the value, and the last step of the loop copies nothing. -/
theorem nonceLoop_eq (p : Setting) (start : Nat) {k n : Nat} (front back : Bytes) {old : Bytes}
    (hfront : front.length = start + 4 * k) (hold : old.length = 4 * n) :
    nonceLoop p start (4 * (k + n)) (4 * k) (n + 1) (front ++ old ++ back) =
      some (front ++ randomWords p k n ++ back) := by
  induction n generalizing k front old with
  | zero =>
    have hnil : old = [] := List.length_eq_zero_iff.mp hold
    have hlast : ¬ 4 * k + 4 ≤ 4 * (k + 0) := by omega
    have hnothing : 4 * (k + 0) % 4 = 0 := by omega
    have hwrite := Buffer.write_between front back (show ([] : Bytes).length = [].length from rfl)
    rw [hfront] at hwrite
    simp only [nonceLoop, if_neg hlast, hnothing, List.take_zero, hnil, Option.bind_eq_bind]
    rw [hwrite]
    rfl
  | succ n ih =>
    have hwhole : 4 * k + 4 ≤ 4 * (k + (n + 1)) := by omega
    have hdiv : 4 * k / 4 = k := by omega
    have hword : (old.take 4).length = (le32 (p.rand k)).length := by
      rw [List.length_take, hold]
      simp only [le32, List.length_cons, List.length_nil]
      omega
    have hwrite : Buffer.write (front ++ old ++ back) (start + 4 * k) (le32 (p.rand k)) =
        some (front ++ le32 (p.rand k) ++ (old.drop 4 ++ back)) := by
      have hsplit : front ++ old ++ back = front ++ old.take 4 ++ (old.drop 4 ++ back) := by
        rw [List.append_assoc front, List.append_assoc front, ← List.append_assoc (old.take 4),
          List.take_append_drop]
      rw [hsplit, ← hfront, Buffer.write_between _ _ hword]
    have hnextfront : (front ++ le32 (p.rand k)).length = start + 4 * (k + 1) := by
      rw [List.length_append, hfront]
      simp only [le32, List.length_cons, List.length_nil]
      omega
    have hnextold : (old.drop 4).length = 4 * n := by
      rw [List.length_drop, hold]
      omega
    have hnext := ih (front ++ le32 (p.rand k)) hnextfront hnextold
    have hcount : k + 1 + n = k + (n + 1) := by omega
    rw [hcount, List.append_assoc (front ++ le32 (p.rand k))] at hnext
    rw [nonceLoop]
    simp only [if_pos hwhole, hdiv, hwrite, Option.bind_eq_bind, Option.bind_some]
    rw [show 4 * k + 4 = 4 * (k + 1) by omega, hnext, randomWords, randomWords, List.range'_succ,
      List.flatMap_cons, List.append_assoc front]

/-- The value and its padding over the cells behind the header of the AVP. -/
theorem writeValue_eq (p : Setting) (rounds : Nat) (data : AvpData) {a : Avp} (front : Bytes)
    (totalsize : Nat) {position : Nat} {cells : Bytes} (ha : a ∈ insertionOrder) (hauth : a ≠ .auth)
    (hposition : front.length = position + avpHeaderSize)
    (hsize : avpHeaderSize + valueLength p data a < 65536)
    (hcells : cells.length = valueLength p data a + avpPadding a.code (valueLength p data a)) :
    writeValue p rounds data position (avpHeaderSize + valueLength p data a)
        (avpPadding a.code (valueLength p data a)) totalsize (front ++ cells) a =
      some (front ++ written p data a ++
        List.replicate (avpPadding a.code (valueLength p data a)) 0) := by
  have hlength := written_length p data ha
  have hvalue : (cells.take (valueLength p data a)).length = (written p data a).length := by
    rw [List.length_take, hlength, hcells]
    omega
  have hpadding : (cells.drop (valueLength p data a)).length =
      (List.replicate (avpPadding a.code (valueLength p data a)) (0 : UInt8)).length := by
    rw [List.length_drop, List.length_replicate, hcells]
    omega
  have hsplit : front ++ cells =
      front ++ cells.take (valueLength p data a) ++ cells.drop (valueLength p data a) := by
    rw [List.append_assoc, List.take_append_drop]
  have hwrite : Buffer.write (front ++ cells) (position + avpHeaderSize) (written p data a) =
      some (front ++ written p data a ++ cells.drop (valueLength p data a)) := by
    rw [hsplit, ← hposition, Buffer.write_between _ _ hvalue]
  have hend : (front ++ written p data a).length =
      position + (avpHeaderSize + valueLength p data a) := by
    rw [List.length_append, hposition, hlength]
    omega
  have hclear : Buffer.write (front ++ written p data a ++ cells.drop (valueLength p data a))
      (position + (avpHeaderSize + valueLength p data a))
      (List.replicate (avpPadding a.code (valueLength p data a)) 0) =
        some (front ++ written p data a ++
          List.replicate (avpPadding a.code (valueLength p data a)) 0) := by
    have hover := Buffer.write_between (front ++ written p data a) [] hpadding
    rwa [List.append_nil, List.append_nil, hend] at hover
  have hplain : avpPadding a.code (valueLength p data a) = 0 →
      front ++ written p data a ++ cells.drop (valueLength p data a) =
        front ++ written p data a ++
          List.replicate (avpPadding a.code (valueLength p data a)) 0 := by
    intro hzero
    have hnil : cells.drop (valueLength p data a) = [] := by
      apply List.length_eq_zero_iff.mp
      rw [hpadding, hzero, List.length_replicate]
    rw [hnil, hzero, List.replicate_zero]
  cases a with
  | auth => exact absurd rfl hauth
  | pacInformation => simp [insertionOrder] at ha
  | relayedMessage => simp [insertionOrder] at ha
  | eapPayload =>
    rw [written] at hwrite hclear
    simp only [writeValue, hwrite, Option.bind_eq_bind, Option.bind_some]
    exact hclear
  | nonce =>
    have hwords : 4 * (0 + valueLength p data .nonce / 4) = valueLength p data .nonce := by
      simp only [valueLength]
      cases p.prfSuite with
      | aes128Cbc => rfl
      | hmacSha1 => rfl
    have hsub : sub16 (avpHeaderSize + valueLength p data .nonce) avpHeaderSize =
        valueLength p data .nonce := by
      rw [sub16_eq (Nat.le_add_right ..) hsize, Nat.add_sub_cancel_left]
    have hold : (cells.take (valueLength p data .nonce)).length =
        4 * (valueLength p data .nonce / 4) := by
      rw [hvalue, hlength]
      omega
    have hloop := nonceLoop_eq p (position + avpHeaderSize) front
      (cells.drop (valueLength p data .nonce)) (show front.length = _ + 4 * 0 from hposition) hold
    rw [hwords, Nat.mul_zero, ← hsplit] at hloop
    rw [written] at hclear
    simp only [writeValue, hsub, hloop, Option.bind_eq_bind, Option.bind_some]
    exact hclear
  | integrityAlg => exact hwrite.trans (congrArg some (hplain rfl))
  | keyId => exact hwrite.trans (congrArg some (hplain rfl))
  | prfAlg => exact hwrite.trans (congrArg some (hplain rfl))
  | resultCode => exact hwrite.trans (congrArg some (hplain rfl))
  | sessionLifetime => exact hwrite.trans (congrArg some (hplain rfl))
  | terminationCause => exact hwrite.trans (congrArg some (hplain rfl))

/-! One round of the loop. -/

/-- The AVPs that a set of flags asks for, in the order in which they are inserted. -/
def requested (avps : Nat) : List Avp := insertionOrder.filter fun a => avps &&& a.flag ≠ 0

theorem requested_eq : ∀ avps < 512,
    requested avps =
      match identifyAVP avps with
      | some a => a :: requested (avps - a.flag)
      | none => [] := by
  decide +kernel

theorem requested_eq_nil_iff : ∀ avps < 512, requested avps = [] ↔ avps = 0 := by
  decide +kernel

theorem identifyAVP_eq_auth : ∀ avps < 512, identifyAVP avps = some .auth → avps = 1 := by
  decide +kernel

/-- The size of an AVP with its header and padding. -/
def avpSpace (p : Setting) (data : AvpData) (a : Avp) : Nat :=
  avpHeaderSize + valueLength p data a + avpPadding a.code (valueLength p data a)

theorem encodeAvp_written_length (p : Setting) (data : AvpData) {a : Avp}
    (h : a ∈ insertionOrder) :
    (encodeAvp a.code (written p data a)).length = avpSpace p data a := by
  rw [encodeAvp_length, written_length p data h, avpSpace]

theorem encodeAvp_written (p : Setting) (data : AvpData) {a : Avp} (h : a ∈ insertionOrder) :
    encodeAvp a.code (written p data a) =
      (be16 a.code ++ [0, 0] ++ be16 (valueLength p data a) ++ [0, 0]) ++
        (written p data a ++ List.replicate (avpPadding a.code (valueLength p data a)) 0) := by
  rw [encodeAvp, written_length p data h]
  simp only [List.append_assoc]

/-- The part of a round in front of the second switch. -/
theorem insertAvp_header (p : Setting) (rounds : Nat) (data : AvpData) {s : Inserting} {a : Avp}
    {front behind : Bytes} (hflags : s.avps < 512) (ha : identifyAVP s.avps = some a)
    (hmsg : s.msg = front ++ behind) (htotal : s.totalsize = front.length)
    (hstride : s.stride = front.length) (hsize : front.length + avpSpace p data a < 65536) :
    ∃ cells, cells.length = valueLength p data a + avpPadding a.code (valueLength p data a) ∧
      insertAvp p rounds data s =
        (writeValue p rounds data front.length (avpHeaderSize + valueLength p data a)
          (avpPadding a.code (valueLength p data a)) (front.length + avpSpace p data a)
          (front ++ (be16 a.code ++ [0, 0] ++ be16 (valueLength p data a) ++ [0, 0]) ++ cells)
          a).map fun msg =>
            { avps := s.avps - a.flag, msg, totalsize := front.length + avpSpace p data a
              stride := front.length + avpSpace p data a
              avpsize := avpHeaderSize + valueLength p data a } := by
  have hspace : avpSpace p data a =
      avpHeaderSize + valueLength p data a + avpPadding a.code (valueLength p data a) := rfl
  obtain ⟨cells, hrealloc, hcells⟩ := realloc_eq p behind
    (show front.length ≤ front.length + avpSpace p data a by omega)
  refine ⟨cells.drop avpHeaderSize, ?_, ?_⟩
  · rw [List.length_drop, hcells]
    omega
  have hroom : avpHeaderSize ≤ cells.length := by omega
  have hact : identifyAVP (s.avps % 65536) = some a := by
    rw [Nat.mod_eq_of_lt (by omega), ha]
  have havpsize : (avpHeaderSize + valueLength p data a) % 65536 =
      avpHeaderSize + valueLength p data a := Nat.mod_eq_of_lt (by omega)
  have hsub : sub16 (avpHeaderSize + valueLength p data a) avpHeaderSize =
      valueLength p data a := by
    rw [sub16_eq (Nat.le_add_right ..) (by omega), Nat.add_sub_cancel_left]
  have hpadding : (if isOctetString a.code then paddingOctetString (valueLength p data a) else 0) =
      avpPadding a.code (valueLength p data a) := rfl
  have hnew : (front.length + (avpHeaderSize + valueLength p data a) +
      avpPadding a.code (valueLength p data a)) % 65536 = front.length + avpSpace p data a := by
    rw [Nat.mod_eq_of_lt (by omega)]
    omega
  have hheader := writeHeader_eq front a.code (valueLength p data a) hroom
  simp only [insertAvp, hact, Option.map_some, Option.getD_some, havpsize, hsub, hpadding, htotal,
    hstride, hnew, hmsg, hrealloc, hheader, Option.bind_eq_bind, Option.bind_some]
  rw [Option.map_eq_bind]
  rfl

theorem mem_requested {avps : Nat} {a : Avp} (hflags : avps < 512)
    (ha : identifyAVP avps = some a) : a ∈ requested avps := by
  rw [requested_eq avps hflags, ha]
  exact List.mem_cons_self

theorem mem_insertionOrder {avps : Nat} {a : Avp} (h : a ∈ requested avps) : a ∈ insertionOrder :=
  List.mem_of_mem_filter h

/-- An AVP without authentication is put behind what stands in the message. -/
theorem insertAvp_eq (p : Setting) (rounds : Nat) (data : AvpData) {s : Inserting} {a : Avp}
    {front behind : Bytes} (hflags : s.avps < 512) (ha : identifyAVP s.avps = some a)
    (hauth : a ≠ .auth) (hmsg : s.msg = front ++ behind) (htotal : s.totalsize = front.length)
    (hstride : s.stride = front.length) (hsize : front.length + avpSpace p data a < 65536) :
    insertAvp p rounds data s =
      some { avps := s.avps - a.flag, msg := front ++ encodeAvp a.code (written p data a)
             totalsize := front.length + avpSpace p data a
             stride := front.length + avpSpace p data a
             avpsize := avpHeaderSize + valueLength p data a } := by
  have hmem := mem_insertionOrder (mem_requested hflags ha)
  have hspace : avpSpace p data a =
      avpHeaderSize + valueLength p data a + avpPadding a.code (valueLength p data a) := rfl
  obtain ⟨cells, hcells, hround⟩ :=
    insertAvp_header p rounds data hflags ha hmsg htotal hstride hsize
  have hposition : (front ++ (be16 a.code ++ [0, 0] ++ be16 (valueLength p data a) ++
      [0, 0])).length = front.length + avpHeaderSize := by
    rw [List.length_append]
    rfl
  have hvalue := writeValue_eq p rounds data _ (front.length + avpSpace p data a)
    hmem hauth hposition (by omega) hcells
  rw [hround, hvalue, Option.map_some, encodeAvp_written p data hmem]
  simp only [List.append_assoc]

/-! The authentication. -/

/-- The header with the length of the message in it. -/
def setLength (header : Bytes) (n : Nat) : Bytes := header.take 2 ++ be16 n ++ header.drop 4

theorem setLength_length {header : Bytes} (n : Nat) (h : header.length = panaSize) :
    (setLength header n).length = panaSize := by
  simp only [setLength, List.length_append, List.length_take, List.length_drop, h, panaSize, be16,
    List.length_cons, List.length_nil]
  omega

theorem write_setLength {header : Bytes} (n : Nat) (rest : Bytes) (h : header.length = panaSize) :
    Buffer.write (header ++ rest) 2 (be16 n) = some (setLength header n ++ rest) := by
  have hlong : 4 ≤ header.length := by
    rw [h, panaSize]
    omega
  have hfront : (header.take 2).length = 2 := by
    rw [List.length_take]
    omega
  have hold : ((header.drop 2).take 2).length = (be16 n).length := by
    rw [List.length_take, List.length_drop]
    simp only [be16, List.length_cons, List.length_nil]
    omega
  have hsplit : header ++ rest =
      header.take 2 ++ (header.drop 2).take 2 ++ (header.drop 4 ++ rest) := by
    have hdrop : header.drop 4 = (header.drop 2).drop 2 := by rw [List.drop_drop]
    rw [hdrop, List.append_assoc, ← List.append_assoc _ _ rest, List.take_append_drop,
      ← List.append_assoc, List.take_append_drop]
  have hwrite := Buffer.write_between (header.take 2) (header.drop 4 ++ rest) hold
  rw [hfront, ← hsplit] at hwrite
  rw [hwrite, setLength, List.append_assoc _ _ rest]

theorem be16At_setLength {header : Bytes} {n : Nat} (rest : Bytes) (h : header.length = panaSize)
    (hn : n < 65536) : be16At (setLength header n ++ rest) 2 = n := by
  have hfront : (header.take 2).length = 2 := by
    rw [List.length_take, h]
    rfl
  have hread := be16At_append_right (header.take 2) (be16 n ++ (header.drop 4 ++ rest)) 0
  rw [hfront] at hread
  rw [setLength, List.append_assoc, List.append_assoc]
  exact hread.trans (be16At_be16 hn _)

theorem setLength_setLength {header : Bytes} (n : Nat) (h : header.length = panaSize) :
    setLength (setLength header n) n = setLength header n := by
  have hfront : (header.take 2).length = 2 := by
    rw [List.length_take, h]
    rfl
  have htwo : (header.take 2 ++ be16 n).length = 4 := by
    rw [List.length_append, hfront]
    rfl
  have htake : (setLength header n).take 2 = header.take 2 := by
    rw [setLength, List.append_assoc, List.take_left' hfront]
  have hdrop : (setLength header n).drop 4 = header.drop 4 := by
    rw [setLength, List.drop_left' htwo]
  rw [setLength, htake, hdrop, setLength]

theorem digest_length {p : Setting} {key : Vector UInt8 20} {msg mac : Bytes} (data : AvpData)
    (h : digest p key msg = some mac) : mac.length = valueLength p data .auth := by
  unfold digest at h
  rw [valueLength]
  cases hsuite : p.authSuite with
  | aesCmac =>
    simp only [hsuite, Option.bind_eq_bind, Option.bind_eq_some_iff] at h
    obtain ⟨block, _, hblock⟩ := h
    rw [← Option.some.inj hblock, Vector.length_toList]
  | hmacSha1 =>
    simp only [hsuite] at h
    rw [← Option.some.inj h, Vector.length_toList]

/-! `getAvp` over a message whose header has its length. -/

theorem getAvp_found {header value : Bytes} {code total rounds : Nat}
    (before : List (Nat × Bytes)) (rest : Bytes) (hheader : header.length = panaSize)
    (htotal : (header ++ (encodeAvps before ++ (encodeAvp code value ++ rest))).length = total)
    (hsize : total < 65536) (hrounds : before.length < rounds)
    (hcodes : ∀ avp ∈ before, avp.1 < 65536 ∧ avp.1 ≠ code) (hmin : 1 ≤ code) (hmax : code ≤ 11) :
    getAvp rounds (setLength header total ++ (encodeAvps before ++ (encodeAvp code value ++ rest)))
        code = some (some (panaSize + (encodeAvps before).length)) := by
  have hsetlength := setLength_length total hheader
  have hrange : ¬ (code < Avp.auth.code ∨ Avp.relayedMessage.code < code) := by
    simp only [Avp.code]
    omega
  have hall : (setLength header total ++ (encodeAvps before ++ (encodeAvp code value ++
      rest))).length < 65536 := by
    rw [List.length_append, hheader] at htotal
    rw [List.length_append, hsetlength, htotal]
    exact hsize
  have hleft : sub16 total panaSize =
      (encodeAvps before ++ (encodeAvp code value ++ rest)).length := by
    rw [List.length_append, hheader] at htotal
    rw [sub16_eq (by omega) hsize]
    omega
  have hfound := getAvpLoop_found before (setLength header total) rest hrounds hcodes
    (by omega) hall
  have hoffset : (setLength header total ++ encodeAvps before).length =
      panaSize + (encodeAvps before).length := by
    rw [List.length_append, hsetlength]
  rw [hoffset, hsetlength] at hfound
  rw [getAvp, if_neg hrange, be16At_setLength _ hheader hsize, hleft]
  exact hfound

theorem getAvp_absent {header : Bytes} {type total rounds : Nat} (avps : List (Nat × Bytes))
    (hheader : header.length = panaSize) (htotal : (header ++ encodeAvps avps).length = total)
    (hsize : total < 65536) (hrounds : avps.length < rounds)
    (hcodes : ∀ avp ∈ avps, avp.1 < 65536 ∧ avp.1 ≠ type) :
    getAvp rounds (setLength header total ++ encodeAvps avps) type = some none := by
  have hsetlength := setLength_length total hheader
  have hall : (setLength header total ++ encodeAvps avps).length < 65536 := by
    rw [List.length_append, hheader] at htotal
    rw [List.length_append, hsetlength, htotal]
    exact hsize
  have hleft : sub16 total panaSize = (encodeAvps avps).length := by
    rw [List.length_append, hheader] at htotal
    rw [sub16_eq (by omega) hsize]
    omega
  have habsent := getAvpLoop_absent avps (setLength header total) hrounds hcodes hall
  rw [hsetlength] at habsent
  unfold getAvp
  split
  · rfl
  · rw [be16At_setLength _ hheader hsize, hleft]
    exact habsent

theorem avpPadding_auth (p : Setting) (data : AvpData) :
    avpPadding Avp.auth.code (valueLength p data .auth) = 0 := by
  rw [valueLength]
  cases p.authSuite with
  | aesCmac => rfl
  | hmacSha1 => rfl

/-- `hashAuth` over a message that ends with a cleared authentication. -/
theorem hashAuth_eq (p : Setting) (data : AvpData) {header : Bytes} {total rounds : Nat}
    (before : List (Nat × Bytes)) (hheader : header.length = panaSize)
    (htotal : (header ++ (encodeAvps before ++
      encodeAvp Avp.auth.code (written p data .auth))).length = total)
    (hsize : total < 65536) (hrounds : before.length < rounds)
    (hcodes : ∀ avp ∈ before, avp.1 < 65536 ∧ avp.1 ≠ Avp.auth.code) :
    hashAuth p rounds (setLength header total ++ (encodeAvps before ++
        encodeAvp Avp.auth.code (written p data .auth))) data.auth =
      (digest p data.auth (setLength header total ++ (encodeAvps before ++
        encodeAvp Avp.auth.code (written p data .auth)))).map fun mac =>
          setLength header total ++ (encodeAvps before ++ encodeAvp Avp.auth.code mac) := by
  have hsetlength := setLength_length total hheader
  set cleared := setLength header total ++ (encodeAvps before ++
    encodeAvp Avp.auth.code (written p data .auth)) with hcleared
  have hlength : cleared.length = total := by
    rw [List.length_append, hheader] at htotal
    rw [hcleared, List.length_append, hsetlength, htotal]
  have hfield : be16At cleared 2 = total := be16At_setLength _ hheader hsize
  have hfound : getAvp rounds cleared Avp.auth.code =
      some (some (panaSize + (encodeAvps before).length)) := by
    have hfind := getAvp_found before [] hheader (by rwa [List.append_nil]) hsize hrounds hcodes
      (le_refl _) (by decide)
    rwa [List.append_nil] at hfind
  have hwrite : ∀ mac : Bytes, digest p data.auth cleared = some mac →
      Buffer.write cleared (panaSize + (encodeAvps before).length + avpHeaderSize) mac =
        some (setLength header total ++ (encodeAvps before ++ encodeAvp Avp.auth.code mac)) := by
    intro mac hmac
    have hmaclength := digest_length data hmac
    have hold : (written p data .auth).length = mac.length := by
      rw [hmaclength, written, List.length_replicate]
    have hencode : ∀ value : Bytes, value.length = valueLength p data .auth →
        setLength header total ++ (encodeAvps before ++ encodeAvp Avp.auth.code value) =
          setLength header total ++ (encodeAvps before ++ (be16 Avp.auth.code ++ [0, 0] ++
            be16 (valueLength p data .auth) ++ [0, 0])) ++ value ++ [] := by
      intro value hvalue
      rw [encodeAvp, hvalue, avpPadding_auth]
      simp only [List.replicate_zero, List.append_nil, List.append_assoc]
    have hposition : (setLength header total ++ (encodeAvps before ++
        (be16 Avp.auth.code ++ [0, 0] ++ be16 (valueLength p data .auth) ++ [0, 0]))).length =
          panaSize + (encodeAvps before).length + avpHeaderSize := by
      rw [List.length_append, List.length_append, hsetlength, Nat.add_assoc]
      rfl
    rw [hencode mac hmaclength, hcleared, hencode _ (hold.trans hmaclength), ← hposition,
      Buffer.write_between _ _ hold]
  have htake : cleared.take (be16At cleared 2) = cleared := by
    rw [hfield, ← hlength, List.take_length]
  simp only [hashAuth, hfound, Option.bind_eq_bind, Option.bind_some, htake]
  cases hdigest : digest p data.auth cleared with
  | none => rfl
  | some mac => exact hwrite mac hdigest

/-- The round of the authentication: the message is complete but for the code over it. -/
theorem insertAvp_auth (p : Setting) (data : AvpData) {s : Inserting} {header behind : Bytes}
    {rounds total : Nat} (before : List (Nat × Bytes)) (hflags : s.avps < 512)
    (ha : identifyAVP s.avps = some .auth) (hheader : header.length = panaSize)
    (hmsg : s.msg = header ++ encodeAvps before ++ behind)
    (htotal : s.totalsize = (header ++ encodeAvps before).length)
    (hstride : s.stride = (header ++ encodeAvps before).length)
    (hnew : (header ++ encodeAvps before).length + avpSpace p data .auth = total)
    (hsize : total < 65536) (hrounds : before.length < rounds)
    (hcodes : ∀ avp ∈ before, avp.1 < 65536 ∧ avp.1 ≠ Avp.auth.code) :
    insertAvp p rounds data s =
      (digest p data.auth (setLength header total ++ (encodeAvps before ++
        encodeAvp Avp.auth.code (written p data .auth)))).map fun mac =>
          { avps := s.avps - Avp.auth.flag
            msg := setLength header total ++ (encodeAvps before ++ encodeAvp Avp.auth.code mac)
            totalsize := total, stride := total
            avpsize := avpHeaderSize + valueLength p data .auth } := by
  have hmem := mem_insertionOrder (mem_requested hflags ha)
  have hspace : avpSpace p data .auth = avpHeaderSize + valueLength p data .auth := by
    rw [avpSpace, avpPadding_auth, Nat.add_zero]
  have hlength : (header ++ (encodeAvps before ++
      encodeAvp Avp.auth.code (written p data .auth))).length = total := by
    rw [← List.append_assoc, List.length_append, encodeAvp_written_length p data hmem, hnew]
  obtain ⟨cells, hcells, hround⟩ :=
    insertAvp_header p rounds data hflags ha hmsg htotal hstride (by omega)
  rw [avpPadding_auth, Nat.add_zero] at hcells
  have hsub : sub16 (avpHeaderSize + valueLength p data .auth) avpHeaderSize =
      valueLength p data .auth := by
    rw [sub16_eq (Nat.le_add_right ..) (by omega), Nat.add_sub_cancel_left]
  have hclear : Buffer.write (header ++ encodeAvps before ++ (be16 Avp.auth.code ++ [0, 0] ++
      be16 (valueLength p data .auth) ++ [0, 0]) ++ cells)
        ((header ++ encodeAvps before).length + avpHeaderSize)
        (List.replicate (valueLength p data .auth) 0) =
      some (header ++ (encodeAvps before ++
        encodeAvp Avp.auth.code (written p data .auth))) := by
    have hzeros : cells.length =
        (List.replicate (valueLength p data .auth) (0 : UInt8)).length := by
      rw [List.length_replicate, hcells]
    have hwrite := Buffer.write_between (header ++ encodeAvps before ++ (be16 Avp.auth.code ++
      [0, 0] ++ be16 (valueLength p data .auth) ++ [0, 0])) [] hzeros
    have hposition : (header ++ encodeAvps before ++ (be16 Avp.auth.code ++ [0, 0] ++
        be16 (valueLength p data .auth) ++ [0, 0])).length =
          (header ++ encodeAvps before).length + avpHeaderSize := by
      rw [List.length_append]
      rfl
    rw [List.append_nil, List.append_nil, hposition] at hwrite
    rw [encodeAvp_written p data hmem, avpPadding_auth, List.replicate_zero, List.append_nil]
    simp only [List.append_assoc] at hwrite ⊢
    exact hwrite
  have hhash := hashAuth_eq p data before hheader hlength hsize hrounds hcodes
  rw [hround, avpPadding_auth, hnew]
  simp only [writeValue, hsub, Nat.add_zero, hclear, Option.bind_eq_bind, Option.bind_some,
    write_setLength _ _ hheader, hhash, Option.map_map]
  rfl

end CoapEap.Pana
