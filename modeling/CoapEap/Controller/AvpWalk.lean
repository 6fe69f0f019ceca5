import CoapEap.Controller.InsertAvps

/-!
Where `getAvp` reads in a message that came over the network. Its `size` and
`offset` are `uint16_t`, and the lengths it takes off and goes on by are those of
the message.

The message is the memory from its first byte on. It claims a length and may be
shorter or longer than that.
-/

namespace CoapEap.Pana

section

variable (msg : Bytes)

/-- The length that a message claims in its header. -/
def msgLength : Nat := be16At msg 2

/-! The fields of the AVP header at a position. -/

def avpCode (position : Nat) : Nat := be16At msg position

def avpLength (position : Nat) : Nat := be16At msg (position + 4)

/-- From an AVP to the one behind it. -/
def avpSpan (position : Nat) : Nat :=
  avpHeaderSize + avpLength msg position +
    avpPadding (avpCode msg position) (avpLength msg position)

/-- The headers that the first rounds of the loop of `getAvp` read. -/
def headersRead (type : Nat) : (rounds size offset : Nat) → List Nat
  | 0, _, _ => []
  | rounds + 1, size, offset =>
    if size = 0 then []
    else if avpCode msg offset = type then [offset]
    else
      let step := avpSpan msg offset
      offset :: headersRead type rounds (sub16 size step) ((offset + step) % 65536)

/-- The headers that the first rounds of `getAvp` read. -/
def getAvpHeaders (rounds type : Nat) : List Nat :=
  if type < Avp.auth.code ∨ Avp.relayedMessage.code < type then []
  else headersRead msg type rounds (sub16 (msgLength msg) panaSize) panaSize

/-- The AVP headers of a message that lie within its length. The first stands
behind the header of the message, each other one behind the AVP in front of it. -/
inductive IsAvpHeader : Nat → Prop
  | first (h : panaSize + avpHeaderSize ≤ msgLength msg) : IsAvpHeader panaSize
  | next (position : Nat) (before : IsAvpHeader position)
      (h : position + avpSpan msg position + avpHeaderSize ≤ msgLength msg) :
      IsAvpHeader (position + avpSpan msg position)

/-- `getAvp` ends, reads AVP headers of the message only, and finds nothing where it
meets an AVP with a length that runs past the end. -/
structure StaysInside (type : Nat) : Prop where
  ends : ∃ rounds result, getAvp rounds msg type = some result
  inside : ∀ rounds, ∀ position ∈ getAvpHeaders msg rounds type, IsAvpHeader msg position
  cut : ∀ rounds result, ∀ position ∈ getAvpHeaders msg rounds type,
    msgLength msg < position + avpHeaderSize + avpLength msg position →
    getAvp rounds msg type = some result → result = none

/-- From a position on the AVPs follow one another up to the end of the message or up to
the one that is looked for. A last header may also have a length that goes round to it. -/
inductive Tiled (type : Nat) : Nat → Prop
  | done : Tiled type (msgLength msg)
  | found (position : Nat) (code : avpCode msg position = type)
      (fits : position + avpHeaderSize + avpLength msg position ≤ msgLength msg) :
      Tiled type position
  | passed (position : Nat) (code : avpCode msg position ≠ type)
      (rest : Tiled type (position + avpSpan msg position)) : Tiled type position
  | around (position : Nat) (code : avpCode msg position ≠ type)
      (last : position + avpHeaderSize = msgLength msg)
      (span : avpSpan msg position = 65536 + avpHeaderSize) : Tiled type position

end

variable {msg : Bytes} {type : Nat}

/-- A length with its padding is a multiple of four or has none. -/
theorem avpSpan_bounds (msg : Bytes) (position : Nat) :
    avpHeaderSize + avpLength msg position ≤ avpSpan msg position ∧
      avpSpan msg position ≤ 65536 + avpHeaderSize := by
  have hlength : avpLength msg position < 65536 := be16At_lt msg (position + 4)
  unfold avpSpan avpPadding paddingOctetString
  split
  · simp only
    split
    · omega
    · omega
  · omega

/-! The headers of a message stand one behind the other. -/

theorem IsAvpHeader.room {position : Nat} (h : IsAvpHeader msg position) :
    panaSize ≤ position ∧ position + avpHeaderSize ≤ msgLength msg := by
  induction h with
  | first hroom => exact ⟨Nat.le_refl _, hroom⟩
  | next position _ hroom ih => exact ⟨Nat.le_trans ih.1 (Nat.le_add_right _ _), hroom⟩

/-- Of two headers one is behind the AVP of the other. -/
theorem IsAvpHeader.apart {p q : Nat} (hp : IsAvpHeader msg p) (hq : IsAvpHeader msg q) :
    p = q ∨ p + avpSpan msg p ≤ q ∨ q + avpSpan msg q ≤ p := by
  induction hq generalizing p with
  | first _ =>
    induction hp with
    | first _ => exact .inl rfl
    | next p hbefore _ ih =>
      rcases ih with rfl | hbehind | hbehind
      · exact .inr (.inr (Nat.le_refl _))
      · have hspan := (avpSpan_bounds msg p).1
        have hroom := hbefore.room.1
        rw [avpHeaderSize] at hspan
        omega
      · exact .inr (.inr (Nat.le_trans hbehind (Nat.le_add_right _ _)))
  | next q hq _ ih =>
    induction hp with
    | first hroom =>
      have hspan := (avpSpan_bounds msg q).1
      have hbehind := hq.room.1
      rw [avpHeaderSize] at hspan
      rcases ih (.first hroom) with heq | hle | hle
      · exact .inr (.inl (by rw [heq]))
      · exact .inr (.inl (by omega))
      · omega
    | next p hp hroom ihp =>
      rcases ihp with heq | hle | hle
      · exact .inr (.inr (by rw [heq]))
      · -- the next header after `p` is not behind this one
        rcases ih (.next p hp hroom) with heq | hnext | hnext
        · exact .inr (.inl (by rw [heq]))
        · exact .inr (.inl (by omega))
        · exact .inl (Nat.le_antisymm hle hnext)
      · exact .inr (.inr (by omega))

/-! The tiles of a message. -/

theorem Tiled.room {position : Nat} (h : Tiled msg type position) :
    position = msgLength msg ∨ position + avpHeaderSize ≤ msgLength msg := by
  induction h with
  | done => exact .inl rfl
  | found position _ hfits => exact .inr (by omega)
  | passed position _ _ ih =>
    have hspan := (avpSpan_bounds msg position).1
    exact .inr (by omega)
  | around position _ hlast _ => exact .inr (Nat.le_of_eq hlast)

/-- A walk that comes from one header to another is tiled from there. -/
theorem Tiled.forward {p q : Nat} (h : Tiled msg type p) (hp : IsAvpHeader msg p)
    (hq : IsAvpHeader msg q) (hle : p ≤ q)
    (hpassed : ∀ r, IsAvpHeader msg r → r < q → avpCode msg r ≠ type) : Tiled msg type q := by
  induction h with
  | done =>
    have hroom := hp.room.2
    rw [avpHeaderSize] at hroom
    omega
  | found p hcode hfits =>
    rcases Nat.lt_or_eq_of_le hle with hlt | rfl
    · exact absurd hcode (hpassed p hp hlt)
    · exact .found p hcode hfits
  | passed p hcode hrest ih =>
    rcases Nat.lt_or_eq_of_le hle with hlt | rfl
    · have hspan := (avpSpan_bounds msg q).1
      have hroom := hq.room.2
      have hbehind : p + avpSpan msg p ≤ q := by
        rcases hp.apart hq with heq | hbehind | hbehind
        · omega
        · exact hbehind
        · omega
      exact ih (.next p hp (by omega)) hbehind
    · exact .passed p hcode hrest
  | around p hcode hlast hspan =>
    have hroom := hq.room.2
    have heq : p = q := by omega
    rw [← heq]
    exact .around p hcode hlast hspan

/-! The loop, one round at a time. -/

theorem getAvpLoop_succ (rounds size offset : Nat) :
    getAvpLoop msg type (rounds + 1) size offset =
      if size = 0 then some none
      else if avpCode msg offset = type then some (some offset)
      else getAvpLoop msg type rounds (sub16 size (avpSpan msg offset))
        ((offset + avpSpan msg offset) % 65536) := rfl

/-- An AVP that stays within the message leaves what is behind it. -/
theorem next_within {position : Nat} (h : position + avpSpan msg position ≤ msgLength msg) :
    sub16 (msgLength msg - position) (avpSpan msg position) =
        msgLength msg - (position + avpSpan msg position) ∧
      (position + avpSpan msg position) % 65536 = position + avpSpan msg position := by
  have hlength : msgLength msg < 65536 := be16At_lt msg 2
  constructor
  · unfold sub16
    omega
  · exact Nat.mod_eq_of_lt (by omega)

/-- An AVP that does not leads round to the end itself, or to an offset from which the loop
reads on: behind the end, or not ahead of its own value. -/
theorem next_beyond {position : Nat} (hroom : position + avpHeaderSize ≤ msgLength msg)
    (hcut : msgLength msg < position + avpSpan msg position) :
    (position + avpHeaderSize = msgLength msg ∧
        avpSpan msg position = 65536 + avpHeaderSize) ∨
      sub16 (msgLength msg - position) (avpSpan msg position) ≠ 0 ∧
        (msgLength msg < (position + avpSpan msg position) % 65536 ∨
          (position + avpSpan msg position) % 65536 ≤ position + avpHeaderSize ∧
            sub16 (msgLength msg - position) (avpSpan msg position) =
              msgLength msg - (position + avpSpan msg position) % 65536) := by
  have hlength : msgLength msg < 65536 := be16At_lt msg 2
  have hspan := (avpSpan_bounds msg position).2
  unfold sub16
  rw [avpHeaderSize] at hroom hspan ⊢
  omega

/-- A loop that ends with something left has read the header it stands before. -/
theorem mem_headersRead {rounds size offset : Nat} {result : Option Nat}
    (hends : getAvpLoop msg type rounds size offset = some result) (hsize : size ≠ 0) :
    offset ∈ headersRead msg type rounds size offset := by
  cases rounds with
  | zero => cases hends
  | succ rounds =>
    rw [headersRead, if_neg hsize]
    split
    · exact List.mem_singleton.mpr rfl
    · exact List.mem_cons_self

/-- Where the loop ends from a header on and reads headers only, the message is tiled. The
rounds are counted down, as an AVP may lead back to a header that was passed. -/
theorem tiled_of_ends {rounds position : Nat} {result : Option Nat}
    (hheader : IsAvpHeader msg position)
    (hpassed : ∀ q, IsAvpHeader msg q → q < position → avpCode msg q ≠ type)
    (hends : getAvpLoop msg type rounds (msgLength msg - position) position = some result)
    (hinside : ∀ q ∈ headersRead msg type rounds (msgLength msg - position) position,
      IsAvpHeader msg q)
    (hcut : ∀ q ∈ headersRead msg type rounds (msgLength msg - position) position,
      msgLength msg < q + avpHeaderSize + avpLength msg q → result = none) :
    Tiled msg type position := by
  induction rounds generalizing position with
  | zero => cases hends
  | succ rounds ih =>
    have hroom := hheader.room.2
    have hleft : msgLength msg - position ≠ 0 := by
      rw [avpHeaderSize] at hroom
      omega
    rw [getAvpLoop_succ, if_neg hleft] at hends
    rw [headersRead, if_neg hleft] at hinside hcut
    by_cases hcode : avpCode msg position = type
    · rw [if_pos hcode] at hends hcut
      have hresult : result ≠ none := by
        rw [← Option.some.inj hends]
        exact Option.some_ne_none position
      have hfits := fun hbeyond => hresult (hcut position (List.mem_singleton.mpr rfl) hbeyond)
      exact .found position hcode (Nat.le_of_not_lt hfits)
    · rw [if_neg hcode] at hends hinside hcut
      have hrest := fun q hq => hinside q (List.mem_cons_of_mem _ hq)
      have hcutrest := fun q hq => hcut q (List.mem_cons_of_mem _ hq)
      rcases Nat.lt_or_ge (msgLength msg) (position + avpSpan msg position) with hbeyond | hwithin
      · rcases next_beyond hroom hbeyond with ⟨hlast, hspan⟩ | ⟨hsize, hnext⟩
        · exact .around position hcode hlast hspan
        · have hback := hrest _ (mem_headersRead hends hsize)
          have hbackroom := hback.room.2
          rcases hnext with hbehind | ⟨hahead, heq⟩
          · omega
          · -- the loop is back at a header it has passed, and would come here again
            have hle : (position + avpSpan msg position) % 65536 ≤ position := by
              rcases hback.apart hheader with hsame | hbefore | hafter
              · omega
              · omega
              · omega
            rw [heq] at hends hrest hcutrest
            have hpassedback := fun q hq hlt => hpassed q hq (Nat.lt_of_lt_of_le hlt hle)
            have htiled := ih hback hpassedback hends hrest hcutrest
            exact htiled.forward hback hheader hle hpassed
      · obtain ⟨hsize, hoffset⟩ := next_within hwithin
        rw [hsize, hoffset] at hends hrest hcutrest
        apply Tiled.passed position hcode
        by_cases hend : position + avpSpan msg position = msgLength msg
        · rw [hend]
          exact .done
        · have hleft' : msgLength msg - (position + avpSpan msg position) ≠ 0 := by omega
          have hnext := hrest _ (mem_headersRead hends hleft')
          apply ih hnext ?_ hends hrest hcutrest
          intro q hq hlt
          rcases hq.apart hheader with rfl | hbefore | hafter
          · exact hcode
          · have hspan := (avpSpan_bounds msg q).1
            rw [avpHeaderSize] at hspan
            exact hpassed q hq (by omega)
          · omega

/-! Over tiles the loop does what it should. -/

theorem Tiled.within {position : Nat} (h : Tiled msg type position) :
    position ≤ msgLength msg := by
  rcases h.room with heq | hroom
  · exact Nat.le_of_eq heq
  · omega

section Rounds

variable {position : Nat} (hcode : avpCode msg position ≠ type)
  (hroom : position + avpHeaderSize ≤ msgLength msg)
include hcode hroom

theorem getAvpLoop_passed (rounds : Nat) :
    getAvpLoop msg type (rounds + 1) (msgLength msg - position) position =
      getAvpLoop msg type rounds (sub16 (msgLength msg - position) (avpSpan msg position))
        ((position + avpSpan msg position) % 65536) := by
  have hleft : msgLength msg - position ≠ 0 := by
    rw [avpHeaderSize] at hroom
    omega
  rw [getAvpLoop_succ, if_neg hleft, if_neg hcode]

theorem headersRead_passed (rounds : Nat) :
    headersRead msg type (rounds + 1) (msgLength msg - position) position =
      position :: headersRead msg type rounds
        (sub16 (msgLength msg - position) (avpSpan msg position))
        ((position + avpSpan msg position) % 65536) := by
  have hleft : msgLength msg - position ≠ 0 := by
    rw [avpHeaderSize] at hroom
    omega
  rw [headersRead, if_neg hleft, if_neg hcode]

end Rounds

theorem around_left {position : Nat} (hlast : position + avpHeaderSize = msgLength msg)
    (hspan : avpSpan msg position = 65536 + avpHeaderSize) :
    sub16 (msgLength msg - position) (avpSpan msg position) = 0 := by
  unfold sub16
  rw [avpHeaderSize] at hlast hspan
  omega

theorem Tiled.ends {position : Nat} (h : Tiled msg type position) :
    ∃ rounds result,
      getAvpLoop msg type rounds (msgLength msg - position) position = some result := by
  induction h with
  | done => exact ⟨1, none, by rw [getAvpLoop_succ, Nat.sub_self, if_pos rfl]⟩
  | found position hcode hfits =>
    have hleft : msgLength msg - position ≠ 0 := by
      rw [avpHeaderSize] at hfits
      omega
    exact ⟨1, some position, by rw [getAvpLoop_succ, if_neg hleft, if_pos hcode]⟩
  | passed position hcode hrest ih =>
    have hwithin := hrest.within
    have hspan := (avpSpan_bounds msg position).1
    obtain ⟨rounds, result, hends⟩ := ih
    obtain ⟨hsize, hoffset⟩ := next_within hwithin
    refine ⟨rounds + 1, result, ?_⟩
    rw [getAvpLoop_passed hcode (by omega), hsize, hoffset, hends]
  | around position hcode hlast hspan =>
    refine ⟨2, none, ?_⟩
    rw [getAvpLoop_passed hcode (Nat.le_of_eq hlast), around_left hlast hspan, getAvpLoop_succ,
      if_pos rfl]

/-- Every header the loop reads over tiles is one of the message, and one that runs past the
end is the last that it reads. -/
theorem Tiled.reads {position : Nat} (h : Tiled msg type position)
    (hheader : position + avpHeaderSize ≤ msgLength msg → IsAvpHeader msg position)
    (rounds : Nat) :
    ∀ q ∈ headersRead msg type rounds (msgLength msg - position) position,
      IsAvpHeader msg q ∧
        (msgLength msg < q + avpHeaderSize + avpLength msg q → ∀ result,
          getAvpLoop msg type rounds (msgLength msg - position) position = some result →
            result = none) := by
  intro q hq
  induction h generalizing rounds with
  | done =>
    cases rounds with
    | zero => cases hq
    | succ rounds =>
      rw [headersRead, Nat.sub_self, if_pos rfl] at hq
      cases hq
  | found position hcode hfits =>
    cases rounds with
    | zero => cases hq
    | succ rounds =>
      have hleft : msgLength msg - position ≠ 0 := by
        rw [avpHeaderSize] at hfits
        omega
      rw [headersRead, if_neg hleft, if_pos hcode] at hq
      obtain rfl := List.mem_singleton.mp hq
      refine ⟨hheader (by omega), fun hbeyond => ?_⟩
      omega
  | passed position hcode hrest ih =>
    have hwithin := hrest.within
    have hspan := (avpSpan_bounds msg position).1
    have hroom : position + avpHeaderSize ≤ msgLength msg := by omega
    obtain ⟨hsize, hoffset⟩ := next_within hwithin
    cases rounds with
    | zero => cases hq
    | succ rounds =>
      rw [headersRead_passed hcode hroom, hsize, hoffset] at hq
      rw [getAvpLoop_passed hcode hroom, hsize, hoffset]
      rcases List.mem_cons.mp hq with rfl | hq
      · refine ⟨hheader hroom, fun hbeyond => ?_⟩
        omega
      · exact ih (fun hnext => .next position (hheader hroom) hnext) rounds hq
  | around position hcode hlast hspan =>
    have hroom := Nat.le_of_eq hlast
    cases rounds with
    | zero => cases hq
    | succ rounds =>
      rw [headersRead_passed hcode hroom, around_left hlast hspan] at hq
      rw [getAvpLoop_passed hcode hroom, around_left hlast hspan]
      cases rounds with
      | zero =>
        obtain rfl := List.mem_singleton.mp hq
        exact ⟨hheader hroom, fun _ result hends => by cases hends⟩
      | succ rounds =>
        rw [headersRead, if_pos rfl] at hq
        obtain rfl := List.mem_singleton.mp hq
        refine ⟨hheader hroom, fun _ result hends => ?_⟩
        rw [getAvpLoop_succ, if_pos rfl] at hends
        exact (Option.some.inj hends).symm

/-! `getAvp`. -/

/-- The types that `getAvp` walks for. -/
def IsAvpType (type : Nat) : Prop := Avp.auth.code ≤ type ∧ type ≤ Avp.relayedMessage.code

theorem getAvp_of_type (h : IsAvpType type) (rounds : Nat) :
    getAvp rounds msg type =
        getAvpLoop msg type rounds (sub16 (msgLength msg) panaSize) panaSize ∧
      getAvpHeaders msg rounds type =
        headersRead msg type rounds (sub16 (msgLength msg) panaSize) panaSize := by
  have hvalid : ¬ (type < Avp.auth.code ∨ Avp.relayedMessage.code < type) := by
    have hlow := h.1
    have hhigh := h.2
    omega
  rw [getAvp, getAvpHeaders, if_neg hvalid, if_neg hvalid]
  exact ⟨rfl, rfl⟩

theorem staysInside_of_not_type (h : ¬ IsAvpType type) : StaysInside msg type := by
  have hinvalid : type < Avp.auth.code ∨ Avp.relayedMessage.code < type := by
    unfold IsAvpType at h
    omega
  constructor
  · exact ⟨0, none, by rw [getAvp, if_pos hinvalid]⟩
  · intro rounds position hmem
    rw [getAvpHeaders, if_pos hinvalid] at hmem
    cases hmem
  · intro rounds result position hmem
    rw [getAvpHeaders, if_pos hinvalid] at hmem
    cases hmem

/-- A message without room for its own header has a size that is left all the same. -/
theorem headers_left {msg : Bytes} (h : msgLength msg ≠ panaSize) :
    sub16 (msgLength msg) panaSize ≠ 0 := by
  have hlength : msgLength msg < 65536 := be16At_lt msg 2
  unfold sub16
  rw [panaSize] at h ⊢
  omega

theorem headers_size {msg : Bytes} (h : panaSize ≤ msgLength msg) :
    sub16 (msgLength msg) panaSize = msgLength msg - panaSize :=
  sub16_eq h (be16At_lt msg 2)

theorem tiled_of_staysInside (htype : IsAvpType type) (h : StaysInside msg type) :
    Tiled msg type panaSize := by
  by_cases hend : msgLength msg = panaSize
  · rw [← hend]
    exact .done
  · obtain ⟨rounds, result, hends⟩ := h.ends
    have hinside := h.inside rounds
    have hcut := h.cut rounds result
    rw [(getAvp_of_type htype rounds).2] at hinside hcut
    rw [(getAvp_of_type htype rounds).1] at hends hcut
    have hfirst := hinside _ (mem_headersRead hends (headers_left hend))
    have hroom : panaSize ≤ msgLength msg := by
      have hroom := hfirst.room.2
      omega
    rw [headers_size hroom] at hends hinside hcut
    apply tiled_of_ends hfirst ?_ hends hinside (fun q hq hbeyond => hcut q hq hbeyond hends)
    intro q hq hlt
    have hnotbefore := hq.room.1
    omega

theorem staysInside_of_tiled (htype : IsAvpType type) (h : Tiled msg type panaSize) :
    StaysInside msg type := by
  have hsize := headers_size h.within
  have hreads := h.reads IsAvpHeader.first
  constructor
  · obtain ⟨rounds, result, hends⟩ := h.ends
    refine ⟨rounds, result, ?_⟩
    rw [(getAvp_of_type htype rounds).1, hsize, hends]
  · intro rounds position hmem
    rw [(getAvp_of_type htype rounds).2, hsize] at hmem
    exact (hreads rounds position hmem).1
  · intro rounds result position hmem hbeyond hends
    rw [(getAvp_of_type htype rounds).2, hsize] at hmem
    rw [(getAvp_of_type htype rounds).1, hsize] at hends
    exact (hreads rounds position hmem).2 hbeyond result hends

/-- When `getAvp` ends inside the message. -/
theorem staysInside_iff (msg : Bytes) (type : Nat) :
    StaysInside msg type ↔ IsAvpType type → Tiled msg type panaSize := by
  by_cases htype : IsAvpType type
  · constructor
    · intro h _
      exact tiled_of_staysInside htype h
    · intro h
      exact staysInside_of_tiled htype (h htype)
  · constructor
    · intro _ hvalid
      exact absurd hvalid htype
    · intro _
      exact staysInside_of_not_type htype

/-- A message of 24 bytes whose one AVP, an integrity algorithm, claims `FFF8` bytes. -/
def endlessMessage : Bytes :=
  [0, 0, 0, 24, 0, 0, 0, 0, 0, 0, 0, 0, 0, 0, 0, 0, 0, 3, 0, 0, 0xff, 0xf8, 0, 0]

/-- The AVP leads back to itself, and `getAvp` looks for an authentication for ever. -/
theorem walk_never_ends : ¬ ∀ (msg : Bytes) (type : Nat), StaysInside msg type := by
  intro h
  obtain ⟨rounds, result, hends⟩ := (h endlessMessage Avp.auth.code).ends
  have hnever : ∀ rounds, getAvpLoop endlessMessage Avp.auth.code rounds 8 16 = none := by
    intro rounds
    induction rounds with
    | zero => rfl
    | succ rounds ih => exact ih
  have hvalid : IsAvpType Avp.auth.code := by
    constructor
    · decide
    · decide
  rw [(getAvp_of_type hvalid rounds).1] at hends
  cases (hnever rounds).symm.trans hends

end CoapEap.Pana
