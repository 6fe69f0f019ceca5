import CoapEap.Controller.InsertAvps

/-!
Encoder and decoder of PANA messages against each other: for which flags and data
`getAvp` finds in the result of `insertAvps` what was asked for and nothing else.
-/

open Library

namespace CoapEap.Pana

/-! The whole loop. -/

/-- The AVPs other than the authentication, which comes behind them. -/
def plain (avps : Nat) : List Avp := (requested avps).filter (· ≠ .auth)

theorem requested_split : ∀ avps < 512,
    requested avps = plain avps ++ if avps &&& Avp.auth.flag ≠ 0 then [.auth] else [] := by
  decide +kernel

/-- AVPs with the values that the second switch writes. -/
def filled (p : Setting) (data : AvpData) (as : List Avp) : List (Nat × Bytes) :=
  as.map fun a => (a.code, written p data a)

/-- The size of a message with all that is asked for. -/
def totalSize (p : Setting) (avps : Nat) (data : AvpData) : Nat :=
  panaSize + ((requested avps).map (avpSpace p data)).sum

theorem encodeAvps_filled_length (p : Setting) (data : AvpData) {as : List Avp}
    (h : ∀ a ∈ as, a ∈ insertionOrder) :
    (encodeAvps (filled p data as)).length = (as.map (avpSpace p data)).sum := by
  induction as with
  | nil => rfl
  | cons a as ih =>
    have hrest := ih fun other hother => h other (List.mem_cons_of_mem a hother)
    rw [filled] at hrest
    rw [filled, List.map_cons, encodeAvps_cons, List.length_append, hrest,
      encodeAvp_written_length p data (h a List.mem_cons_self), List.map_cons, List.sum_cons]

/-- Between two rounds: `front` is finished, and the sizes are its size. -/
structure Standing (s : Inserting) (front behind : Bytes) : Prop where
  msg : s.msg = front ++ behind
  totalsize : s.totalsize = front.length
  stride : s.stride = front.length

theorem insertLoop_plain (p : Setting) (rounds : Nat) (data : AvpData) {s : Inserting}
    {front behind : Bytes} {as tail : List Avp} (n : Nat) (hs : Standing s front behind)
    (hflags : s.avps < 512) (hrequested : requested s.avps = as ++ tail) (hauth : .auth ∉ as)
    (hsize : front.length + (as.map (avpSpace p data)).sum < 65536) :
    ∃ s' behind', insertLoop p rounds data (as.length + n) s = insertLoop p rounds data n s' ∧
      s'.avps < 512 ∧ requested s'.avps = tail ∧
      Standing s' (front ++ encodeAvps (filled p data as)) behind' ∧
      (as ≠ [] ∨ behind = [] → behind' = []) := by
  induction as generalizing s front behind with
  | nil =>
    refine ⟨s, behind, by rw [List.length_nil, Nat.zero_add], hflags, hrequested, ?_, by simp⟩
    rwa [filled, List.map_nil, encodeAvps, List.flatMap_nil, List.append_nil]
  | cons a as ih =>
    obtain ⟨hne, hrest⟩ : a ≠ .auth ∧ .auth ∉ as := by
      rw [List.mem_cons, not_or] at hauth
      exact ⟨fun h => hauth.1 h.symm, hauth.2⟩
    have hunfold := requested_eq s.avps hflags
    rw [hrequested, List.cons_append] at hunfold
    obtain ⟨ha, hnext⟩ : identifyAVP s.avps = some a ∧
        requested (s.avps - a.flag) = as ++ tail := by
      cases hact : identifyAVP s.avps with
      | none => simp [hact] at hunfold
      | some first =>
        simp only [hact, List.cons.injEq] at hunfold
        obtain ⟨rfl, htail⟩ := hunfold
        exact ⟨rfl, htail.symm⟩
    have hnonzero : s.avps ≠ 0 := by
      intro hzero
      have hempty := (requested_eq_nil_iff s.avps hflags).mpr hzero
      simp [hrequested] at hempty
    rw [List.map_cons, List.sum_cons] at hsize
    have hround := insertAvp_eq p rounds data hflags ha hne hs.msg hs.totalsize hs.stride
      (by omega)
    have hmem := mem_insertionOrder (mem_requested hflags ha)
    have hlength : (front ++ encodeAvp a.code (written p data a)).length =
        front.length + avpSpace p data a := by
      rw [List.length_append, encodeAvp_written_length p data hmem]
    set s₁ : Inserting :=
      { avps := s.avps - a.flag, msg := front ++ encodeAvp a.code (written p data a)
        totalsize := front.length + avpSpace p data a
        stride := front.length + avpSpace p data a
        avpsize := avpHeaderSize + valueLength p data a }
    have hs₁ : Standing s₁ (front ++ encodeAvp a.code (written p data a)) [] :=
      ⟨(List.append_nil _).symm, hlength.symm, hlength.symm⟩
    have hflags₁ : s₁.avps < 512 := Nat.lt_of_le_of_lt (Nat.sub_le ..) hflags
    obtain ⟨s', behind', hloop, hflags', htail, hs', hbehind⟩ :=
      ih hs₁ hflags₁ hnext hrest (by omega)
    refine ⟨s', behind', ?_, hflags', htail, ?_, fun _ => hbehind (.inr rfl)⟩
    · rw [List.length_cons, Nat.add_right_comm, insertLoop, if_neg hnonzero, hround]
      exact hloop
    · rwa [filled, List.map_cons, encodeAvps_cons, ← List.append_assoc]

/-- A message as `insertAvps` leaves it. -/
def built (message : Message) (total : Nat) (avps : List (Nat × Bytes)) : Bytes :=
  setLength (message.cells.take panaSize) total ++ encodeAvps avps

theorem header_length (message : Message) : (message.cells.take panaSize).length = panaSize := by
  rw [List.length_take, Nat.min_eq_left message.hasHeader]

theorem mem_plain {avps : Nat} {a : Avp} (h : a ∈ plain avps) :
    a ∈ insertionOrder ∧ a ≠ .auth := by
  rw [plain, List.mem_filter, decide_eq_true_eq] at h
  exact ⟨mem_insertionOrder h.1, h.2⟩

theorem plain_length_le (avps : Nat) : (plain avps).length ≤ 9 := by
  have hplain : (plain avps).length ≤ (requested avps).length := List.length_filter_le ..
  have hrequested : (requested avps).length ≤ insertionOrder.length := List.length_filter_le ..
  exact hplain.trans hrequested

theorem filled_codes (p : Setting) (data : AvpData) (avps : Nat) :
    ∀ avp ∈ filled p data (plain avps), avp.1 < 65536 ∧ avp.1 ≠ Avp.auth.code := by
  intro avp havp
  obtain ⟨a, ha, rfl⟩ := List.mem_map.mp havp
  have hrange := code_range a
  refine ⟨by omega, ?_⟩
  intro hcode
  exact (mem_plain ha).2 (code_injective hcode)

/-- The state in which `insertAvps` enters its loop. -/
theorem standing_start (message : Message) (avps : Nat) :
    Standing { avps, msg := message.cells, totalsize := panaSize, stride := panaSize, avpsize := 0 }
      (message.cells.take panaSize) (message.cells.drop panaSize) :=
  ⟨(List.take_append_drop ..).symm, (header_length message).symm, (header_length message).symm⟩

section Result

variable (p : Setting) (message : Message) (data : AvpData) {avps rounds : Nat}

theorem insertAvps_plain (hnonzero : avps ≠ 0) (hflags : avps < 512)
    (hauth : avps &&& Avp.auth.flag = 0) (hsize : totalSize p avps data < 65536)
    (hrounds : 11 ≤ rounds) :
    insertAvps p rounds message avps data =
      some (built message (totalSize p avps data) (filled p data (plain avps)),
        totalSize p avps data) := by
  have hsplit := requested_split avps hflags
  rw [if_neg (not_not_intro hauth), List.append_nil] at hsplit
  have hnonempty : plain avps ≠ [] := by
    rw [← hsplit]
    exact mt (requested_eq_nil_iff avps hflags).mp hnonzero
  have htotal : totalSize p avps data =
      (message.cells.take panaSize).length + ((plain avps).map (avpSpace p data)).sum := by
    rw [totalSize, hsplit, header_length]
  obtain ⟨n, rfl⟩ : ∃ n, rounds = (plain avps).length + (n + 1) := by
    have hle := plain_length_le avps
    exact ⟨rounds - (plain avps).length - 1, by omega⟩
  obtain ⟨s', behind', hloop, hflags', htail, hs', hbehind⟩ :=
    insertLoop_plain p ((plain avps).length + (n + 1)) data (n + 1) (standing_start message avps)
      hflags (hsplit.trans (List.append_nil _).symm) (fun hmem => (mem_plain hmem).2 rfl)
      (by omega)
  have hdone : s'.avps = 0 := (requested_eq_nil_iff _ hflags').mp htail
  have hlength : s'.totalsize = totalSize p avps data := by
    rw [hs'.totalsize, List.length_append, encodeAvps_filled_length p data
      (fun a ha => (mem_plain ha).1), htotal]
  have hmsg : s'.msg = message.cells.take panaSize ++ encodeAvps (filled p data (plain avps)) := by
    rw [hs'.msg, hbehind (.inl hnonempty), List.append_nil]
  rw [insertLoop, if_pos hdone] at hloop
  rw [insertAvps, if_neg hnonzero, hloop]
  simp only [Option.bind_eq_bind, Option.bind_some, hlength, hmsg]
  rw [write_setLength _ _ (header_length message)]
  rfl

theorem insertAvps_auth (hflags : avps < 512) (hauth : avps &&& Avp.auth.flag ≠ 0)
    (hsize : totalSize p avps data < 65536) (hrounds : 11 ≤ rounds) :
    insertAvps p rounds message avps data =
      (digest p data.auth (built message (totalSize p avps data)
        (filled p data (plain avps ++ [.auth])))).map fun mac =>
          (built message (totalSize p avps data)
            (filled p data (plain avps) ++ [(Avp.auth.code, mac)]), totalSize p avps data) := by
  have hnonzero : avps ≠ 0 := by
    rintro rfl
    exact hauth (Nat.zero_and _)
  have hsplit := requested_split avps hflags
  rw [if_pos hauth] at hsplit
  have htotal : totalSize p avps data = (message.cells.take panaSize).length +
      ((plain avps).map (avpSpace p data)).sum + avpSpace p data .auth := by
    rw [totalSize, hsplit, header_length, List.map_append, List.sum_append, List.map_singleton,
      List.sum_singleton, Nat.add_assoc]
  have hplainlength :=
    encodeAvps_filled_length p data fun a (ha : a ∈ plain avps) => (mem_plain ha).1
  have hle := plain_length_le avps
  obtain ⟨n, hn⟩ : ∃ n, rounds = (plain avps).length + (n + 2) :=
    ⟨rounds - (plain avps).length - 2, by omega⟩
  obtain ⟨s', behind', hloop, hflags', htail, hs', _⟩ :=
    insertLoop_plain p rounds data (n + 2) (standing_start message avps) hflags hsplit
      (fun hmem => (mem_plain hmem).2 rfl) (by omega)
  have hunfold := requested_eq s'.avps hflags'
  rw [htail] at hunfold
  have hact : identifyAVP s'.avps = some .auth := by
    cases hfirst : identifyAVP s'.avps with
    | none => simp [hfirst] at hunfold
    | some first =>
      simp only [hfirst, List.cons.injEq] at hunfold
      rw [← hunfold.1]
  have hone := identifyAVP_eq_auth _ hflags' hact
  have hnew : (message.cells.take panaSize ++ encodeAvps (filled p data (plain avps))).length +
      avpSpace p data .auth = totalSize p avps data := by
    rw [List.length_append, hplainlength, htotal]
  have hfilled : (filled p data (plain avps)).length < rounds := by
    rw [filled, List.length_map]
    omega
  have hround := insertAvp_auth p data _ hflags' hact (header_length message) hs'.msg hs'.totalsize
    hs'.stride hnew hsize hfilled (filled_codes p data avps)
  have hcleared : filled p data (plain avps ++ [.auth]) =
      filled p data (plain avps) ++ [(Avp.auth.code, written p data .auth)] := by
    rw [filled, List.map_append, List.map_singleton, filled]
  have hbuilt : ∀ mac : Bytes, built message (totalSize p avps data)
      (filled p data (plain avps) ++ [(Avp.auth.code, mac)]) =
        setLength (message.cells.take panaSize) (totalSize p avps data) ++
          (encodeAvps (filled p data (plain avps)) ++ encodeAvp Avp.auth.code mac) := by
    intro mac
    rw [built, encodeAvps_append, encodeAvps_singleton]
  have hnot : s'.avps ≠ 0 := by omega
  rw [← hn, insertLoop, if_neg hnot, hround] at hloop
  rw [insertAvps, if_neg hnonzero, hloop, hcleared, hbuilt]
  cases digest p data.auth (setLength (message.cells.take panaSize) (totalSize p avps data) ++
      (encodeAvps (filled p data (plain avps)) ++
        encodeAvp Avp.auth.code (written p data .auth))) with
  | none => rfl
  | some mac =>
    have hend : s'.avps - Avp.auth.flag = 0 := by
      rw [hone]
      rfl
    have hheader := setLength_length (totalSize p avps data) (header_length message)
    simp only [Option.map_some, Option.bind_eq_bind, Option.bind_some, insertLoop, hend, ↓reduceIte,
      hbuilt, write_setLength _ _ hheader, setLength_setLength _ (header_length message)]

end Result

/-! What was asked for and what is found. -/

/-- The flags ask for an AVP. -/
def Requested (avps : Nat) (a : Avp) : Prop := avps &&& a.flag ≠ 0

instance (avps : Nat) (a : Avp) : Decidable (Requested avps a) :=
  inferInstanceAs (Decidable (_ ≠ _))

/-- The value that an AVP is to have in a message: what was given, numbers in network
order. The authentication covers the message with zeros in its place. -/
def given (p : Setting) (data : AvpData) (msg : Bytes) : Avp → Option Bytes
  | .auth =>
    let length := valueLength p data .auth
    digest p data.auth (msg.take (msg.length - length) ++ List.replicate length 0)
  | .eapPayload => some data.eapPayload
  | .integrityAlg => some (be32 data.integrityAlg)
  | .keyId => some data.keyId.toList
  | .nonce => some (randomWords p 0 (valueLength p data .nonce / 4))
  | .prfAlg => some (be32 data.prfAlg)
  | .resultCode => some (be32 data.resultCode)
  | .sessionLifetime => some (be32 data.sessionLifetime)
  | .terminationCause => some (be32 data.terminationCause)
  | .pacInformation => none
  | .relayedMessage => none

/-- `getAvp` finds an AVP with a value and its padding. -/
def FoundWith (rounds : Nat) (msg : Bytes) (a : Avp) (value : Bytes) : Prop :=
  ∃ offset, getAvp rounds msg a.code = some (some offset) ∧
    be16At msg (offset + 4) = value.length ∧
    (msg.drop (offset + avpHeaderSize)).take (value.length + avpPadding a.code value.length) =
      value ++ List.replicate (avpPadding a.code value.length) 0

/-- A message has what the flags ask for, once each and nothing else. -/
structure Agreeing (p : Setting) (avps : Nat) (data : AvpData) (rounds : Nat) (msg : Bytes)
    (total : Nat) : Prop where
  size : total = msg.length
  length : be16At msg 2 = total
  once : ∃ values : List (Avp × Bytes),
    msg.drop panaSize = encodeAvps (values.map fun avp => (avp.1.code, avp.2)) ∧
      (values.map Prod.fst).Nodup ∧ (∀ a, a ∈ values.map Prod.fst ↔ Requested avps a) ∧
      (Requested avps .auth → (values.map Prod.fst).getLast? = some .auth)
  found : ∀ a, Requested avps a → ∃ value, given p data msg a = some value ∧
    FoundWith rounds msg a value
  absent : ∀ type, (∀ a, Requested avps a → a.code ≠ type) → getAvp rounds msg type = some none

/-- `insertAvps` comes to an end, and `getAvp` agrees with it. -/
def Agrees (p : Setting) (message : Message) (avps : Nat) (data : AvpData) : Prop :=
  ∃ msg total enough, ∀ rounds, enough ≤ rounds →
    insertAvps p rounds message avps data = some (msg, total) ∧
      Agreeing p avps data rounds msg total

theorem requested_iff {avps : Nat} (hflags : avps < 512) (a : Avp) :
    a ∈ requested avps ↔ Requested avps a := by
  have hothers : ∀ avps < 512,
      ¬ Requested avps .pacInformation ∧ ¬ Requested avps .relayedMessage := by
    decide +kernel
  have hmem : a ∈ requested avps ↔ a ∈ insertionOrder ∧ Requested avps a := by
    rw [requested, List.mem_filter, decide_eq_true_eq]
    rfl
  rw [hmem]
  constructor
  · exact fun h => h.2
  · intro h
    refine ⟨?_, h⟩
    cases a with
    | pacInformation => exact absurd h (hothers avps hflags).1
    | relayedMessage => exact absurd h (hothers avps hflags).2
    | auth => decide
    | eapPayload => decide
    | integrityAlg => decide
    | keyId => decide
    | nonce => decide
    | prfAlg => decide
    | resultCode => decide
    | sessionLifetime => decide
    | terminationCause => decide

section Built

variable {message : Message} {values : List (Avp × Bytes)} {total rounds : Nat}

/-- AVPs by their codes. -/
def coded (values : List (Avp × Bytes)) : List (Nat × Bytes) :=
  values.map fun avp => (avp.1.code, avp.2)

theorem built_length (total : Nat) (avps : List (Nat × Bytes)) :
    (built message total avps).length =
      (message.cells.take panaSize ++ encodeAvps avps).length := by
  rw [built, List.length_append, setLength_length _ (header_length message), List.length_append,
    header_length]

theorem drop_built (total : Nat) (avps : List (Nat × Bytes)) :
    (built message total avps).drop panaSize = encodeAvps avps :=
  List.drop_left' (setLength_length _ (header_length message))

theorem built_found (htotal : (built message total (coded values)).length = total)
    (hsize : total < 65536) (hrounds : values.length < rounds)
    (hnodup : (values.map Prod.fst).Nodup) {avp : Avp × Bytes} (havp : avp ∈ values) :
    FoundWith rounds (built message total (coded values)) avp.1 avp.2 := by
  obtain ⟨before, after, rfl⟩ := List.append_of_mem havp
  have hsplit : encodeAvps (coded (before ++ avp :: after)) =
      encodeAvps (coded before) ++ (encodeAvp avp.1.code avp.2 ++ encodeAvps (coded after)) := by
    rw [coded, List.map_append, List.map_cons, encodeAvps_append, encodeAvps_cons, coded, coded]
  rw [built_length, hsplit] at htotal
  have hrange := code_range avp.1
  have hcodes : ∀ other ∈ coded before, other.1 < 65536 ∧ other.1 ≠ avp.1.code := by
    intro other hother
    obtain ⟨earlier, hearlier, rfl⟩ := List.mem_map.mp hother
    have hearlierrange := code_range earlier.1
    refine ⟨by omega, ?_⟩
    intro hcode
    have hsame := code_injective hcode
    rw [List.map_append, List.map_cons, List.nodup_append] at hnodup
    exact hnodup.2.2 _ (List.mem_map_of_mem hearlier) _ List.mem_cons_self hsame
  have hbefore : (coded before).length < rounds := by
    rw [coded, List.length_map]
    simp only [List.length_append, List.length_cons] at hrounds
    omega
  have hfound := getAvp_found (coded before) (encodeAvps (coded after)) (header_length message)
    htotal hsize hbefore hcodes hrange.1 hrange.2
  have hvalue : avp.2.length < 65536 := by
    have hlength := encodeAvp_length avp.1.code avp.2
    simp only [List.length_append] at htotal
    omega
  have hfront :
      (setLength (message.cells.take panaSize) total ++ encodeAvps (coded before)).length =
        panaSize + (encodeAvps (coded before)).length := by
    rw [List.length_append, setLength_length _ (header_length message)]
  have hassoc : built message total (coded (before ++ avp :: after)) =
      setLength (message.cells.take panaSize) total ++ encodeAvps (coded before) ++
        (encodeAvp avp.1.code avp.2 ++ encodeAvps (coded after)) := by
    rw [built, hsplit, List.append_assoc]
  refine ⟨panaSize + (encodeAvps (coded before)).length, ?_, ?_, ?_⟩
  · rw [built, hsplit]
    exact hfound
  · rw [hassoc, ← hfront]
    exact be16At_length _ _ hvalue
  · rw [hassoc, ← hfront]
    exact drop_value _ _

theorem built_absent (htotal : (built message total (coded values)).length = total)
    (hsize : total < 65536) (hrounds : values.length < rounds) {type : Nat}
    (htype : ∀ a ∈ values.map Prod.fst, a.code ≠ type) :
    getAvp rounds (built message total (coded values)) type = some none := by
  rw [built_length] at htotal
  have hcodes : ∀ other ∈ coded values, other.1 < 65536 ∧ other.1 ≠ type := by
    intro other hother
    obtain ⟨avp, havp, rfl⟩ := List.mem_map.mp hother
    have hrange := code_range avp.1
    exact ⟨by omega, htype avp.1 (List.mem_map_of_mem havp)⟩
  have hcount : (coded values).length < rounds := by rwa [coded, List.length_map]
  exact getAvp_absent (coded values) (header_length message) htotal hsize hcount hcodes

/-- A built message agrees with its flags when its values are the ones that are to be there. -/
theorem built_agreeing {p : Setting} {data : AvpData} {avps : Nat}
    (htotal : (built message total (coded values)).length = total) (hsize : total < 65536)
    (hrounds : values.length < rounds) (hnodup : (values.map Prod.fst).Nodup)
    (hrequested : ∀ a, a ∈ values.map Prod.fst ↔ Requested avps a)
    (hlast : Requested avps .auth → (values.map Prod.fst).getLast? = some .auth)
    (hgiven : ∀ avp ∈ values,
      given p data (built message total (coded values)) avp.1 = some avp.2) :
    Agreeing p avps data rounds (built message total (coded values)) total := by
  constructor
  case size => exact htotal.symm
  case length => exact be16At_setLength _ (header_length message) hsize
  case once => exact ⟨values, drop_built _ _, hnodup, hrequested, hlast⟩
  case found =>
    intro a ha
    obtain ⟨avp, havp, rfl⟩ := List.mem_map.mp ((hrequested a).mpr ha)
    exact ⟨avp.2, hgiven avp havp, built_found htotal hsize hrounds hnodup havp⟩
  case absent =>
    intro type htype
    apply built_absent htotal hsize hrounds
    intro a ha
    exact htype a ((hrequested a).mp ha)

end Built

/-! The values against the given data. -/

theorem le32_ntohl (n : UInt32) : le32 (ntohl n) = be32 n := le32_fromLe32 _ _ _ _ []

/-- `ntohs` keeps sixteen bits and leaves them in the wrong half. -/
theorem le32_ntohs_iff (n : UInt32) : le32 (ntohs n) = be32 n ↔ n = 0 := by
  constructor
  · intro h
    have hn := n.toNat_lt
    obtain ⟨low, hlow⟩ : ∃ low, n.toNat % 256 = low := ⟨_, rfl⟩
    obtain ⟨high, hhigh⟩ : ∃ high, n.toNat / 256 % 256 = high := ⟨_, rfl⟩
    have hlowlt : low < 256 := hlow ▸ Nat.mod_lt _ (by decide)
    have hhighlt : high < 256 := hhigh ▸ Nat.mod_lt _ (by decide)
    have hswapped : (ntohs n).toNat = 256 * low + high := by
      rw [ntohs, UInt32.toNat_ofNat', hlow, hhigh, Nat.mod_eq_of_lt (by omega)]
    have hbytes : ∀ {x y : Nat}, UInt8.ofNat x = UInt8.ofNat y → x % 256 = y % 256 := by
      intro x y hxy
      have hnat := congrArg UInt8.toNat hxy
      rwa [UInt8.toNat_ofNat', UInt8.toNat_ofNat'] at hnat
    simp only [le32, be32, hswapped, List.cons.injEq, and_true] at h
    obtain ⟨hfirst, hsecond, hthird, hfourth⟩ := h
    -- the upper half of the swapped number is zero, so the lower half of the number is
    have hlowzero : low = 0 := by
      have hbyte := hbytes hfourth
      have hnone : (256 * low + high) / 16777216 = 0 := Nat.div_eq_of_lt (by omega)
      rw [hnone, hlow] at hbyte
      exact hbyte.symm
    have hhighzero : high = 0 := by
      have hbyte := hbytes hthird
      have hnone : (256 * low + high) / 65536 = 0 := Nat.div_eq_of_lt (by omega)
      rw [hnone, hhigh] at hbyte
      exact hbyte.symm
    have htop := hbytes hfirst
    have hupper := hbytes hsecond
    rw [hlowzero, hhighzero] at htop hupper
    apply UInt32.toNat.inj
    rw [UInt32.toNat_zero]
    omega
  · rintro rfl
    decide

theorem given_written (p : Setting) (data : AvpData) (msg : Bytes) {a : Avp}
    (hmem : a ∈ insertionOrder) (hauth : a ≠ .auth)
    (hcause : a = .terminationCause → data.terminationCause = 0) :
    given p data msg a = some (written p data a) := by
  cases a with
  | auth => exact absurd rfl hauth
  | eapPayload => rfl
  | integrityAlg => rw [given, written, le32_ntohl]
  | keyId => rfl
  | nonce => rfl
  | prfAlg => rw [given, written, le32_ntohl]
  | resultCode => rw [given, written, le32_ntohl]
  | sessionLifetime => rw [given, written, le32_ntohl]
  | terminationCause => rw [given, written, (le32_ntohs_iff _).mpr (hcause rfl)]
  | pacInformation => simp [insertionOrder] at hmem
  | relayedMessage => simp [insertionOrder] at hmem

/-- AVPs with what is written for them. -/
def valued (p : Setting) (data : AvpData) (as : List Avp) : List (Avp × Bytes) :=
  as.map fun a => (a, written p data a)

theorem coded_valued (p : Setting) (data : AvpData) (as : List Avp) :
    coded (valued p data as) = filled p data as := by
  rw [coded, valued, List.map_map, filled]
  rfl

theorem valued_fst (p : Setting) (data : AvpData) (as : List Avp) :
    (valued p data as).map Prod.fst = as := by
  rw [valued, List.map_map]
  exact List.map_id as

theorem requested_nodup (avps : Nat) : (requested avps).Nodup := by
  have horder : insertionOrder.Nodup := by decide
  exact horder.filter _

/-- The authentication is the digest of the message without it. -/
theorem given_auth (p : Setting) (data : AvpData) (message : Message) (total : Nat)
    (before : List (Nat × Bytes)) {mac : Bytes} (hmac : mac.length = valueLength p data .auth) :
    given p data (built message total (before ++ [(Avp.auth.code, mac)])) .auth =
      digest p data.auth (built message total (before ++
        [(Avp.auth.code, written p data .auth)])) := by
  have hencode : ∀ value : Bytes, value.length = valueLength p data .auth →
      built message total (before ++ [(Avp.auth.code, value)]) =
        setLength (message.cells.take panaSize) total ++ (encodeAvps before ++
          (be16 Avp.auth.code ++ [0, 0] ++ be16 (valueLength p data .auth) ++ [0, 0])) ++
            value := by
    intro value hvalue
    rw [built, encodeAvps_append, encodeAvps_singleton, encodeAvp, hvalue, avpPadding_auth]
    simp only [List.replicate_zero, List.append_nil, List.append_assoc]
  have hzeros : (written p data .auth).length = valueLength p data .auth := by
    rw [written, List.length_replicate]
  rw [hencode mac hmac, hencode _ hzeros, given, written]
  have hfront : ∀ front : Bytes, (front ++ mac).take ((front ++ mac).length -
      valueLength p data .auth) = front := by
    intro front
    rw [List.length_append, hmac, Nat.add_sub_cancel, List.take_left]
  simp only [hfront]

section Agreement

variable (p : Setting) (message : Message) (data : AvpData) {avps : Nat}

theorem built_totalSize (values : List (Nat × Bytes))
    (hvalues : (encodeAvps values).length = (encodeAvps (filled p data (requested avps))).length) :
    (built message (totalSize p avps data) values).length = totalSize p avps data := by
  rw [built_length, List.length_append, header_length, hvalues,
    encodeAvps_filled_length p data fun a ha => mem_insertionOrder ha, totalSize]

/-- The AVPs in a message that `insertAvps` leaves. -/
structure Lists (avps : Nat) (values : List (Avp × Bytes)) : Prop where
  length : (built message (totalSize p avps data) (coded values)).length = totalSize p avps data
  count : values.length < 11
  nodup : (values.map Prod.fst).Nodup
  requested : ∀ a, a ∈ values.map Prod.fst ↔ Requested avps a
  last : Requested avps .auth → (values.map Prod.fst).getLast? = some .auth
  written : ∀ avp ∈ values, avp.1 ≠ .auth → avp.2 = Pana.written p data avp.1
  digest : ∀ mac, (.auth, mac) ∈ values →
    given p data (built message (totalSize p avps data) (coded values)) .auth = some mac

theorem lists_plain (hflags : avps < 512) (hauth : avps &&& Avp.auth.flag = 0) :
    Lists p message data avps (valued p data (plain avps)) := by
  have hsplit := requested_split avps hflags
  rw [if_neg (not_not_intro hauth), List.append_nil] at hsplit
  constructor
  case length =>
    apply built_totalSize
    rw [coded_valued, hsplit]
  case count =>
    have hle := plain_length_le avps
    rw [valued, List.length_map]
    omega
  case nodup =>
    rw [valued_fst, ← hsplit]
    exact requested_nodup avps
  case requested =>
    intro a
    rw [valued_fst, ← hsplit]
    exact requested_iff hflags a
  case last => exact fun h => absurd hauth h
  case written =>
    intro avp havp _
    obtain ⟨a, _, rfl⟩ := List.mem_map.mp havp
    rfl
  case digest =>
    intro mac hmac
    obtain ⟨a, ha, heq⟩ := List.mem_map.mp hmac
    exact absurd (congrArg Prod.fst heq) (mem_plain ha).2

theorem filled_auth (as : List Avp) :
    filled p data (as ++ [.auth]) =
      filled p data as ++ [(Avp.auth.code, written p data .auth)] := by
  rw [filled, List.map_append, List.map_singleton, filled]

theorem coded_auth (as : List Avp) (mac : Bytes) :
    coded (valued p data as ++ [(.auth, mac)]) = filled p data as ++ [(Avp.auth.code, mac)] := by
  rw [coded, List.map_append, List.map_singleton, ← coded, coded_valued]

theorem lists_auth (hflags : avps < 512) (hauth : avps &&& Avp.auth.flag ≠ 0) {mac : Bytes}
    (hmac : digest p data.auth (built message (totalSize p avps data)
      (filled p data (plain avps ++ [.auth]))) = some mac) :
    Lists p message data avps (valued p data (plain avps) ++ [(.auth, mac)]) := by
  have hsplit := requested_split avps hflags
  rw [if_pos hauth] at hsplit
  have hmaclength := digest_length data hmac
  have hfst : (valued p data (plain avps) ++ [(Avp.auth, mac)]).map Prod.fst = requested avps := by
    rw [List.map_append, valued_fst, hsplit]
    rfl
  have hmem : ∀ other, (Avp.auth, other) ∈ valued p data (plain avps) ++ [(Avp.auth, mac)] →
      other = mac := by
    intro other hother
    rcases List.mem_append.mp hother with hplain | hlast
    · obtain ⟨a, ha, heq⟩ := List.mem_map.mp hplain
      exact absurd (congrArg Prod.fst heq) (mem_plain ha).2
    · exact congrArg Prod.snd (List.mem_singleton.mp hlast)
  constructor
  case length =>
    apply built_totalSize
    rw [coded_auth, hsplit, filled_auth, encodeAvps_append, encodeAvps_append,
      encodeAvps_singleton, encodeAvps_singleton, List.length_append, List.length_append,
      encodeAvp_length, encodeAvp_length, hmaclength, written, List.length_replicate]
  case count =>
    have hle := plain_length_le avps
    rw [List.length_append, valued, List.length_map, List.length_singleton]
    omega
  case nodup =>
    rw [hfst]
    exact requested_nodup avps
  case requested =>
    intro a
    rw [hfst]
    exact requested_iff hflags a
  case last =>
    intro _
    rw [hfst, hsplit, List.getLast?_concat]
  case written =>
    intro avp havp hne
    rcases List.mem_append.mp havp with hplain | hlast
    · obtain ⟨a, _, rfl⟩ := List.mem_map.mp hplain
      rfl
    · rw [List.mem_singleton.mp hlast] at hne
      exact absurd rfl hne
  case digest =>
    intro other hother
    have hgiven := given_auth p data message (totalSize p avps data) (filled p data (plain avps))
      hmaclength
    rw [hmem other hother, coded_auth, hgiven, ← filled_auth, hmac]

theorem Lists.agreeing {values : List (Avp × Bytes)} (h : Lists p message data avps values)
    (hflags : avps < 512) (hsize : totalSize p avps data < 65536) {rounds : Nat}
    (hrounds : 11 ≤ rounds)
    (hcause : Requested avps .terminationCause → data.terminationCause = 0) :
    Agreeing p avps data rounds (built message (totalSize p avps data) (coded values))
      (totalSize p avps data) := by
  have hcount := h.count
  apply built_agreeing h.length hsize (by omega) h.nodup h.requested h.last
  intro avp havp
  have hrequested := (h.requested avp.1).mp (List.mem_map_of_mem havp)
  have hmem := mem_insertionOrder ((requested_iff hflags _).mpr hrequested)
  by_cases hauth : avp.1 = .auth
  · rw [hauth]
    apply h.digest
    rwa [← hauth]
  · rw [h.written avp havp hauth]
    apply given_written p data _ hmem hauth
    intro hterm
    exact hcause (hterm ▸ hrequested)

theorem Lists.found {values : List (Avp × Bytes)} (h : Lists p message data avps values)
    (hsize : totalSize p avps data < 65536) {rounds : Nat} (hrounds : 11 ≤ rounds) {a : Avp}
    (ha : Requested avps a) (hauth : a ≠ .auth) :
    FoundWith rounds (built message (totalSize p avps data) (coded values)) a
      (Pana.written p data a) := by
  have hcount := h.count
  obtain ⟨avp, havp, rfl⟩ := List.mem_map.mp ((h.requested a).mpr ha)
  rw [← h.written avp havp hauth]
  exact built_found h.length hsize (by omega) h.nodup havp

/-- With CMAC a message has to fit into the array of `do_omac`. -/
theorem digest_isSome_iff (key : Vector UInt8 20) (msg : Bytes) :
    (∃ mac, digest p key msg = some mac) ↔ (p.authSuite = .aesCmac → msg.length ≤ 144) := by
  unfold digest
  cases p.authSuite with
  | hmacSha1 => simp
  | aesCmac =>
    simp only [Option.bind_eq_bind, Option.bind_eq_some_iff, forall_const]
    rw [← Eax.doOmac_isSome_iff p.aesencrypt p.uninitialised (aesKey key) msg,
      Option.isSome_iff_exists]
    constructor
    · rintro ⟨_, block, hblock, _⟩
      exact ⟨block, hblock⟩
    · rintro ⟨block, hblock⟩
      exact ⟨block.toList, block, hblock, rfl⟩

/-- The Termination-Cause that is found is the one that `ntohs` left. -/
theorem cause_of_agreeing {rounds : Nat} {msg : Bytes} {total : Nat}
    (h : Agreeing p avps data rounds msg total) (hrequested : Requested avps .terminationCause)
    (hfound : FoundWith rounds msg .terminationCause (written p data .terminationCause)) :
    data.terminationCause = 0 := by
  obtain ⟨value, hgiven, offset, hoffset, _, hvalue⟩ := h.found _ hrequested
  obtain ⟨offset', hoffset', _, hvalue'⟩ := hfound
  rw [hoffset] at hoffset'
  have hsame : offset = offset' := Option.some.inj (Option.some.inj hoffset')
  have hbe : be32 data.terminationCause = value := Option.some.inj hgiven
  rw [← hbe] at hvalue
  rw [← hsame] at hvalue'
  apply (le32_ntohs_iff _).mp
  exact hvalue'.symm.trans hvalue

/-- The digest over the message has a result. -/
def Fits (avps : Nat) : Prop :=
  Requested avps .auth → p.authSuite = .aesCmac → totalSize p avps data ≤ 144

/-- What `insertAvps` does with enough rounds, whatever its flags and data. -/
theorem insertAvps_cases (hnonzero : avps ≠ 0) (hflags : avps < 512)
    (hsize : totalSize p avps data < 65536) :
    (Fits p data avps ∧ ∃ values, Lists p message data avps values ∧ ∀ rounds, 11 ≤ rounds →
      insertAvps p rounds message avps data =
        some (built message (totalSize p avps data) (coded values), totalSize p avps data)) ∨
      (¬ Fits p data avps ∧ ∀ rounds, 11 ≤ rounds →
        insertAvps p rounds message avps data = none) := by
  by_cases hauth : Requested avps .auth
  · have hsplit := requested_split avps hflags
    rw [if_pos (show avps &&& Avp.auth.flag ≠ 0 from hauth)] at hsplit
    have hlength : (built message (totalSize p avps data)
        (filled p data (plain avps ++ [.auth]))).length = totalSize p avps data := by
      apply built_totalSize
      rw [hsplit]
    have hdigestfits := digest_isSome_iff p data.auth (built message (totalSize p avps data)
      (filled p data (plain avps ++ [.auth])))
    rw [hlength] at hdigestfits
    cases hdigest : digest p data.auth (built message (totalSize p avps data)
        (filled p data (plain avps ++ [.auth]))) with
    | none =>
      right
      refine ⟨fun hfits => ?_, fun rounds hrounds => ?_⟩
      · obtain ⟨mac, hmac⟩ := hdigestfits.mpr (hfits hauth)
        simp [hdigest] at hmac
      · rw [insertAvps_auth p message data hflags hauth hsize hrounds, hdigest]
        rfl
    | some mac =>
      left
      refine ⟨fun _ => hdigestfits.mp ⟨mac, hdigest⟩, _,
        lists_auth p message data hflags hauth hdigest, fun rounds hrounds => ?_⟩
      rw [insertAvps_auth p message data hflags hauth hsize hrounds, hdigest, coded_auth]
      rfl
  · left
    have hplain : avps &&& Avp.auth.flag = 0 := not_not.mp hauth
    refine ⟨fun hrequested => absurd hrequested hauth, _,
      lists_plain p message data hflags hplain, fun rounds hrounds => ?_⟩
    rw [insertAvps_plain p message data hnonzero hflags hplain hsize hrounds, coded_valued]

/-- A message that agrees with its flags asks for no Termination-Cause but zero. -/
theorem Agrees.cause (h : Agrees p message avps data) (hnonzero : avps ≠ 0) (hflags : avps < 512)
    (hsize : totalSize p avps data < 65536) (hrequested : Requested avps .terminationCause) :
    data.terminationCause = 0 := by
  obtain ⟨msg, total, enough, hall⟩ := h
  have hrounds : 11 ≤ enough + 11 := Nat.le_add_left ..
  obtain ⟨hinsert, hagreeing⟩ := hall (enough + 11) (Nat.le_add_right ..)
  rcases insertAvps_cases p message data hnonzero hflags hsize with
    ⟨_, values, hlists, hsome⟩ | ⟨_, hnone⟩
  · rw [hsome _ hrounds] at hinsert
    obtain ⟨rfl, rfl⟩ := Prod.mk.inj (Option.some.inj hinsert)
    apply cause_of_agreeing p data hagreeing hrequested
    exact hlists.found p message data hsize hrounds hrequested (by decide)
  · rw [hnone _ hrounds] at hinsert
    cases hinsert

theorem Agrees.fits (h : Agrees p message avps data) (hnonzero : avps ≠ 0) (hflags : avps < 512)
    (hsize : totalSize p avps data < 65536) : Fits p data avps := by
  obtain ⟨msg, total, enough, hall⟩ := h
  obtain ⟨hinsert, _⟩ := hall (enough + 11) (Nat.le_add_right ..)
  rcases insertAvps_cases p message data hnonzero hflags hsize with ⟨hfits, _⟩ | ⟨_, hnone⟩
  · exact hfits
  · rw [hnone _ (Nat.le_add_left ..)] at hinsert
    cases hinsert

/-- `getAvp` agrees with `insertAvps` exactly when no Termination-Cause other than zero
is asked for and a message with CMAC fits into the array of `do_omac`. -/
theorem insertAvps_getAvp_agree_iff (hnonzero : avps ≠ 0) (hflags : avps < 512)
    (hsize : totalSize p avps data < 65536) :
    Agrees p message avps data ↔
      (Requested avps .terminationCause → data.terminationCause = 0) ∧
        (Requested avps .auth → p.authSuite = .aesCmac → totalSize p avps data ≤ 144) := by
  constructor
  · intro h
    constructor
    · exact h.cause p message data hnonzero hflags hsize
    · exact h.fits p message data hnonzero hflags hsize
  · rintro ⟨hcause, hfits⟩
    rcases insertAvps_cases p message data hnonzero hflags hsize with
      ⟨_, values, hlists, hsome⟩ | ⟨hover, _⟩
    · refine ⟨_, _, 11, fun rounds hrounds => ⟨hsome rounds hrounds, ?_⟩⟩
      exact hlists.agreeing p message data hflags hsize hrounds hcause
    · exact absurd hfits hover

end Agreement

/-- HMAC-SHA1 for both suites. -/
def hmacSetting : Setting :=
  { prfSuite := .hmacSha1, authSuite := .hmacSha1, rand := fun _ => 0, fresh := fun _ => 0
    aesencrypt := Eax.maskWithKey, uninitialised := Vector.replicate 150 0
    prf := fun key _ => key }

/-- A PANA message that is all header. -/
def bareHeader : Message := { cells := List.replicate 16 0, hasHeader := by decide }

/-- A session that ends with the cause LOGOUT. -/
def logout : AvpData :=
  { eapPayload := [], integrityAlg := 0, keyId := Vector.replicate 4 0, prfAlg := 0, resultCode := 0
    sessionLifetime := 0, terminationCause := 1, auth := Vector.replicate 20 0 }

theorem insertAvps_getAvp_agree_iff_of_logout :
    (0x0100 ≠ 0 ∧ 0x0100 < 512 ∧ totalSize hmacSetting 0x0100 logout < 65536) ∧
      (Agrees hmacSetting bareHeader 0x0100 logout ↔
        (Requested 0x0100 .terminationCause → logout.terminationCause = 0) ∧
          (Requested 0x0100 .auth → hmacSetting.authSuite = .aesCmac →
            totalSize hmacSetting 0x0100 logout ≤ 144)) :=
  ⟨⟨by decide, by decide, by decide⟩,
    insertAvps_getAvp_agree_iff hmacSetting bareHeader logout (by decide) (by decide) (by decide)⟩

/-- The cause 1 comes out as 65536. -/
theorem logout_not_found :
    ¬ ∀ (p : Setting) (message : Message) (data : AvpData) (avps : Nat), avps ≠ 0 → avps < 512 →
      totalSize p avps data < 65536 → Agrees p message avps data := by
  intro hall
  have hagrees := hall hmacSetting bareHeader logout 0x0100 (by decide) (by decide) (by decide)
  have hcause := hagrees.cause hmacSetting bareHeader logout (by decide) (by decide) (by decide)
    (by decide)
  exact absurd hcause (by decide)

example : insertAvps hmacSetting 16 bareHeader 0x0100 logout =
    some ([0, 0, 0, 28, 0, 0, 0, 0, 0, 0, 0, 0, 0, 0, 0, 0] ++ [0, 9, 0, 0, 0, 4, 0, 0] ++
      [0, 1, 0, 0], 28) := by
  decide +kernel

end CoapEap.Pana
