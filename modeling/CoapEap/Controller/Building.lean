import CoapEap.Controller.Parsing
import CoapEap.Library.Buffer
import CoapEap.Library.OptionInsertion
import CoapEap.Library.Runs
import Mathlib.Data.List.Induction

/-!
Building a PDU by calls in any order. Every call changes the bytes the way it
changes the parts of a message, with options kept in ascending order however they
are added, so `validate` and the accessors find in the finished PDU what the calls
put there.
-/

namespace CoapEap.Cantcoap

open Library Library.OptionFormat Library.Runs

/-- `shiftPDUUp`, from the last byte on. There is no result when a byte in front of the
buffer is read. -/
def shiftPDUUp : (shiftAmount : Nat) → (destPointer srcPointer : Int) → Bytes → Option Bytes
  | 0, _, _, pdu => some pdu
  | shiftAmount + 1, destPointer, srcPointer, pdu =>
    if 0 ≤ srcPointer then
      shiftPDUUp shiftAmount (destPointer - 1) (srcPointer - 1)
        (pdu.set destPointer.toNat (pdu.getD srcPointer.toNat 0))
    else none

/-- `shiftPDUDown`. -/
def shiftPDUDown : (shiftAmount : Nat) → (startLocation srcPointer : Nat) → Bytes → Bytes
  | 0, _, _, pdu => pdu
  | shiftAmount + 1, startLocation, srcPointer, pdu =>
    shiftPDUDown shiftAmount (startLocation + 1) (srcPointer + 1)
      (pdu.set startLocation (pdu.getD srcPointer 0))

/-- `setTokenLength`. -/
def setTokenLength (pdu : Bytes) (tokenLength : Nat) : Bytes :=
  if tokenLength > 8 then pdu
  else pdu.set 0 (UInt8.ofNat (byteAt pdu 0 / 16 * 16 + tokenLength))

/-- `setToken` as it moves the bytes behind the token. It keeps the old length of the
PDU in a `uint8_t`. `fresh` is what `realloc` leaves behind the old bytes. -/
def setTokenMoving (fresh : Bytes) (p : CoapPDU) (token : Bytes) : Option CoapPDU :=
  if token.length = 0 then some p
  else
    let oldTokenLength := getTokenLength p.pdu
    if token.length = oldTokenLength then
      (Buffer.write p.pdu 4 token).map fun pdu => { p with pdu := pdu }
    else
      let oldPDULength := p.pdu.length % 256
      let pduLength := p.pdu.length - oldTokenLength + token.length
      if pduLength > oldPDULength then do
        let shiftAmount := pduLength - token.length - 4
        let pdu ← shiftPDUUp shiftAmount (pduLength - 1)
          (pduLength - 1 - (pduLength - oldPDULength)) (readBehind p.pdu fresh pduLength)
        let pdu ← Buffer.write pdu 4 token
        some { p with pdu := setTokenLength pdu token.length }
      else do
        let pdu ← Buffer.write p.pdu 4 token
        let shiftOffset := oldPDULength - pduLength
        let pdu := shiftPDUDown (oldPDULength - oldTokenLength - 4) (4 + token.length)
          (4 + token.length + shiftOffset) pdu
        some { p with pdu := setTokenLength (pdu.take pduLength) token.length }

/-- A block moves up over the cells behind it, and what comes to lie in between is of no
account. -/
theorem shiftPDUUp_block (front block gap done : Bytes) (hgap : gap ≠ []) :
    ∃ left, left.length = gap.length ∧
      shiftPDUUp block.length ((front.length + block.length + gap.length : Nat) - 1)
        ((front.length + block.length : Nat) - 1) (front ++ block ++ gap ++ done) =
          some (front ++ left ++ block ++ done) := by
  induction block using List.reverseRecOn generalizing gap done with
  | nil => exact ⟨gap, rfl, by simp [shiftPDUUp]⟩
  | append_singleton block last ih =>
      obtain ⟨cells, spare, rfl⟩ : ∃ cells spare, gap = cells ++ [spare] :=
        ⟨gap.dropLast, gap.getLast hgap, (List.dropLast_append_getLast hgap).symm⟩
      obtain ⟨left, hleft, hrest⟩ := ih (last :: cells) (last :: done) (List.cons_ne_nil _ _)
      have hsrc : ((front.length + (block ++ [last]).length : Nat) : Int) - 1 =
          ((front ++ block).length : Int) := by
        simp only [List.length_append, List.length_singleton]
        omega
      have hdest : ((front.length + (block ++ [last]).length + (cells ++ [spare]).length : Nat) :
          Int) - 1 = ((front ++ block ++ last :: cells).length : Int) := by
        simp only [List.length_append, List.length_cons, List.length_nil]
        omega
      have hread : (front ++ (block ++ [last]) ++ (cells ++ [spare]) ++ done).getD
          (front ++ block).length 0 = last := by
        simp
      have hwrite : (front ++ (block ++ [last]) ++ (cells ++ [spare]) ++ done).set
          (front ++ block ++ last :: cells).length last =
            front ++ block ++ (last :: cells) ++ last :: done := by
        simp
      have hnextSrc : ((front ++ block).length : Int) - 1 =
          ((front.length + block.length : Nat) : Int) - 1 := by
        rw [List.length_append]
      have hnextDest : ((front ++ block ++ last :: cells).length : Int) - 1 =
          ((front.length + block.length + (last :: cells).length : Nat) : Int) - 1 := by
        rw [List.length_append, List.length_append]
      refine ⟨left, by simpa using hleft, ?_⟩
      rw [hsrc, hdest, List.length_append, List.length_singleton, shiftPDUUp, Int.toNat_natCast,
        Int.toNat_natCast, hread, hwrite, if_pos (Int.natCast_nonneg _), hnextSrc, hnextDest, hrest]
      simp

/-- A block of more bytes than stand in front of its end reaches in front of the buffer. -/
theorem shiftPDUUp_eq_none {shiftAmount : Nat} {destPointer srcPointer : Int} {pdu : Bytes}
    (hsrc : -1 ≤ srcPointer) (h : srcPointer + 1 < shiftAmount) :
    shiftPDUUp shiftAmount destPointer srcPointer pdu = none := by
  induction shiftAmount generalizing destPointer srcPointer pdu with
  | zero => omega
  | succ shiftAmount ih =>
      rw [shiftPDUUp]
      split
      · apply ih
        · omega
        · omega
      · rfl

/-- A block moves down over the cells in front of it. -/
theorem shiftPDUDown_block (front block gap : Bytes) (hgap : gap ≠ []) :
    ∃ left, left.length = gap.length ∧
      shiftPDUDown block.length front.length (front.length + gap.length) (front ++ gap ++ block) =
        front ++ block ++ left := by
  induction block generalizing front gap with
  | nil => exact ⟨gap, rfl, by simp [shiftPDUDown]⟩
  | cons byte block ih =>
      cases gap with
      | nil => exact absurd rfl hgap
      | cons spare cells =>
          have hne : cells ++ [byte] ≠ [] := by simp
          obtain ⟨left, hleft, hrest⟩ := ih (front ++ [byte]) (cells ++ [byte]) hne
          have hread : (front ++ spare :: cells ++ byte :: block).getD
              (front.length + (spare :: cells).length) 0 = byte := by
            rw [← List.length_append]
            simp
          have hwrite : (front ++ spare :: cells ++ byte :: block).set front.length byte =
              front ++ [byte] ++ (cells ++ [byte]) ++ block := by
            simp
          have hstart : front.length + 1 = (front ++ [byte]).length := by simp
          have hsrc : front.length + (spare :: cells).length + 1 =
              (front ++ [byte]).length + (cells ++ [byte]).length := by
            simp only [List.length_append, List.length_cons, List.length_nil]
            omega
          refine ⟨left, by simpa using hleft, ?_⟩
          rw [List.length_cons, shiftPDUDown, hread, hwrite, hstart, hsrc, hrest]
          simp

section Token

variable {header old block token fresh : Bytes}

theorem write_token (behind : Bytes) (hheader : header.length = 4) {cells : Bytes}
    (hcells : cells.length = token.length) :
    Buffer.write (header ++ cells ++ behind) 4 token = some (header ++ token ++ behind) := by
  rw [← hheader]
  exact Buffer.write_between header behind hcells

/-- A longer token: what stands behind the old one is moved up first. -/
theorem setTokenMoving_longer (max : Nat) (hheader : header.length = 4)
    (hold : getTokenLength (header ++ old ++ block) = old.length)
    (hlonger : old.length < token.length) (hlength : (header ++ old ++ block).length < 256) :
    setTokenMoving fresh ⟨header ++ old ++ block, max⟩ token =
      some ⟨setTokenLength (header ++ token ++ block) token.length, max⟩ := by
  have hwhole : (header ++ old ++ block).length = 4 + old.length + block.length := by
    rw [List.length_append, List.length_append, hheader]
  have hnew : (header ++ old ++ block).length - old.length + token.length =
      4 + block.length + token.length := by omega
  have hmodulo : (header ++ old ++ block).length % 256 = 4 + old.length + block.length := by omega
  obtain ⟨gap, hgap, hgrown⟩ : ∃ gap, gap.length = token.length - old.length ∧
      readBehind (header ++ old ++ block) fresh (4 + block.length + token.length) =
        header ++ old ++ block ++ gap := by
    refine ⟨(fresh ++ List.replicate (4 + block.length + token.length) 0).take
      (token.length - old.length), ?_, ?_⟩
    · rw [List.length_take, List.length_append, List.length_replicate]
      omega
    · have hover : 4 + block.length + token.length =
          (header ++ old ++ block).length + (token.length - old.length) := by omega
      rw [readBehind, List.append_assoc (header ++ old ++ block), hover,
        List.take_length_add_append]
  have hne : gap ≠ [] := by
    rintro rfl
    rw [List.length_nil] at hgap
    omega
  obtain ⟨left, hleft, hmoved⟩ := shiftPDUUp_block (header ++ old) block gap [] hne
  have hdest : (((header ++ old).length + block.length + gap.length : Nat) : Int) - 1 =
      ((4 + block.length + token.length : Nat) : Int) - 1 := by
    rw [List.length_append, hheader, hgap]
    omega
  have hsrc : (((header ++ old).length + block.length : Nat) : Int) - 1 =
      ((4 + block.length + token.length : Nat) : Int) - 1 -
        (((4 + block.length + token.length : Nat) : Int) -
          ((4 + old.length + block.length : Nat) : Int)) := by
    rw [List.length_append, hheader]
    omega
  have hamount : 4 + block.length + token.length - token.length - 4 = block.length := by omega
  have hlonger : 4 + block.length + token.length > 4 + old.length + block.length := by omega
  have hcells : (old ++ left).length = token.length := by
    rw [List.length_append, hleft, hgap]
    omega
  have hwrite := write_token block hheader hcells
  rw [hdest, hsrc, List.append_nil, List.append_nil, List.append_assoc header old left] at hmoved
  simp only [setTokenMoving, hold, hnew, hmodulo, hgrown, hamount, if_pos hlonger,
    if_neg (show ¬ token.length = 0 by omega), if_neg (show ¬ token.length = old.length by omega),
    hmoved, Option.bind_eq_bind, Option.bind_some, hwrite]

/-- A shorter token: what stands behind the old one is moved down afterwards. -/
theorem setTokenMoving_shorter (max : Nat) (hheader : header.length = 4)
    (hold : getTokenLength (header ++ old ++ block) = old.length) (htoken : token ≠ [])
    (hshorter : token.length < old.length) (hlength : (header ++ old ++ block).length < 256) :
    setTokenMoving fresh ⟨header ++ old ++ block, max⟩ token =
      some ⟨setTokenLength (header ++ token ++ block) token.length, max⟩ := by
  obtain ⟨front, gap, rfl, hfront⟩ : ∃ front gap, old = front ++ gap ∧
      front.length = token.length :=
    ⟨old.take token.length, old.drop token.length, (List.take_append_drop ..).symm, by
      rw [List.length_take]
      omega⟩
  have hgap : gap ≠ [] := by
    rintro rfl
    rw [List.append_nil] at hshorter
    omega
  obtain ⟨left, hleft, hmoved⟩ := shiftPDUDown_block (header ++ token) block gap hgap
  have hwhole : (header ++ (front ++ gap) ++ block).length =
      4 + token.length + gap.length + block.length := by
    simp only [List.length_append]
    omega
  have hgapLength : (front ++ gap).length = token.length + gap.length := by
    rw [List.length_append, hfront]
  have hgapPos := List.length_pos_iff.mpr hgap
  have htokenPos := List.length_pos_iff.mpr htoken
  have hnew : (header ++ (front ++ gap) ++ block).length - (front ++ gap).length + token.length =
      4 + token.length + block.length := by omega
  have hmodulo : (header ++ (front ++ gap) ++ block).length % 256 =
      4 + token.length + gap.length + block.length := by omega
  have hamount : 4 + token.length + gap.length + block.length - (front ++ gap).length - 4 =
      block.length := by omega
  have hoffset : 4 + token.length + (4 + token.length + gap.length + block.length -
      (4 + token.length + block.length)) = (header ++ token).length + gap.length := by
    rw [List.length_append, hheader]
    omega
  have hstart : 4 + token.length = (header ++ token).length := by
    rw [List.length_append, hheader]
  have hkept : (header ++ token ++ block ++ left).take (4 + token.length + block.length) =
      header ++ token ++ block := by
    rw [hstart, ← List.length_append, List.take_left]
  have hwrite : Buffer.write (header ++ (front ++ gap) ++ block) 4 token =
      some (header ++ token ++ gap ++ block) := by
    have hcells := write_token (gap ++ block) hheader hfront
    simpa using hcells
  have hnotLonger : ¬ 4 + token.length + block.length >
      4 + token.length + gap.length + block.length := by omega
  simp only [setTokenMoving, hold, hnew, hmodulo, hwrite, if_neg hnotLonger,
    if_neg (show ¬ token.length = 0 by omega),
    if_neg (show ¬ token.length = (front ++ gap).length by omega), Option.bind_eq_bind,
    Option.bind_some, hamount, hoffset]
  rw [hstart, hmoved, ← hstart, hkept]

/-- In a PDU of 256 bytes or more the distance comes out too large. -/
theorem setTokenMoving_eq_none (max : Nat) (hheader : header.length = 4)
    (hold : getTokenLength (header ++ old ++ block) = old.length) (hshort : old.length ≤ 8)
    (htoken : token.length ≠ 0) (hother : token.length ≠ old.length)
    (hlength : 256 ≤ (header ++ old ++ block).length) :
    setTokenMoving fresh ⟨header ++ old ++ block, max⟩ token = none := by
  simp only [List.length_append] at hlength
  have hlonger : (header ++ old ++ block).length - old.length + token.length >
      (header ++ old ++ block).length % 256 := by
    simp only [List.length_append]
    omega
  have hreach : shiftPDUUp ((header ++ old ++ block).length - old.length + token.length -
      token.length - 4) (((header ++ old ++ block).length - old.length + token.length : Nat) - 1)
      (((header ++ old ++ block).length - old.length + token.length : Nat) - 1 -
        (((header ++ old ++ block).length - old.length + token.length : Nat) -
          ((header ++ old ++ block).length % 256 : Nat)))
      (readBehind (header ++ old ++ block) fresh
        ((header ++ old ++ block).length - old.length + token.length)) = none := by
    apply shiftPDUUp_eq_none
    · omega
    · simp only [List.length_append]
      omega
  simp only [setTokenMoving, hold, if_neg htoken, if_neg hother, if_pos hlonger,
    Option.bind_eq_bind, hreach, Option.bind_none]

/-- The token goes where it belongs exactly when its length stays or the PDU has less
than 256 bytes; otherwise bytes in front of the buffer are read. -/
theorem setTokenMoving_eq (fresh : Bytes) (max : Nat) (hheader : header.length = 4)
    (hold : getTokenLength (header ++ old ++ block) = old.length) (hshort : old.length ≤ 8)
    (hset : token.length ≠ 0) (htoken : token.length ≤ 8) :
    setTokenMoving fresh ⟨header ++ old ++ block, max⟩ token =
      if token.length = old.length ∨ (header ++ old ++ block).length < 256 then
        some ⟨setTokenLength (header ++ token ++ block) token.length, max⟩
      else none := by
  by_cases hsame : token.length = old.length
  · have hwrite := write_token block hheader hsame.symm
    have hzero : byteAt (header ++ token ++ block) 0 = byteAt (header ++ old ++ block) 0 := by
      rw [List.append_assoc, List.append_assoc, byteAt_append_left (by omega),
        byteAt_append_left (by omega)]
    have hkept : setTokenLength (header ++ token ++ block) token.length =
        header ++ token ++ block := by
      have hmod : byteAt (header ++ old ++ block) 0 % 16 = token.length := by
        rw [hsame]
        exact hold
      rw [setTokenLength, if_neg (by omega), hzero, ← hmod, Nat.mul_comm, Nat.div_add_mod, ← hzero]
      cases header with
      | nil => simp at hheader
      | cons first header => simp [byteAt]
    rw [if_pos (Or.inl hsame), hkept]
    simp only [setTokenMoving, hold, if_neg hset, if_pos hsame, hwrite, Option.map_some]
  · by_cases hlength : (header ++ old ++ block).length < 256
    · rw [if_pos (Or.inr hlength)]
      by_cases hlonger : old.length < token.length
      · exact setTokenMoving_longer max hheader hold hlonger hlength
      · have hne : token ≠ [] := List.length_pos_iff.mp (by omega)
        exact setTokenMoving_shorter max hheader hold hne (by omega) hlength
    · rw [if_neg (by omega)]
      exact setTokenMoving_eq_none max hheader hold hshort hset hsame (by omega)

end Token

/-- A call on a PDU under construction, with arguments within the bounds of the
header and of one extension byte. -/
inductive PduCall
  | setType (type : PduType)
  | setCode (code : UInt8) (valid : validCode code.toNat = true)
  | setMessageId (mid : UInt16)
  | setToken (token : Bytes) (short : token.length ≤ 8) (fresh : Bytes)
  | addOption (number : Nat) (value : Bytes) (small : number < 269) (short : value.length < 269)
  | setURI (uri : Bytes) (short : uri.length < 269)

def PduCall.run (p : CoapPDU) : PduCall → Option CoapPDU
  | .setType type => some (Cantcoap.setType p type)
  | .setCode code _ => some (Cantcoap.setCode p code)
  | .setMessageId mid => some (Cantcoap.setMessageId p mid)
  | .setToken token _ fresh => setTokenMoving fresh p token
  | .addOption number value _ _ => some (Cantcoap.addOption p number value)
  | .setURI uri _ => some (Cantcoap.setURI p uri)

/-- The options that the loop of `setURI` makes of what is left of the string. -/
def uriOptionsLoop : Nat → Bytes → UInt8 → Nat → List (Nat × Bytes)
  | 0, _, _, _ => []
  | fuel + 1, uri, splitChar, optionType =>
    match uri with
    | [] => []
    | [_] => []
    | first :: second :: tail =>
      let uri := if first = splitChar then second :: tail else first :: second :: tail
      let (segment, rest, query) := uriSegment uri splitChar
      (optionType, segment) ::
        if query then uriOptionsLoop fuel (rest.drop 1) 0x26 optionUriQuery
        else uriOptionsLoop fuel rest splitChar optionType

def uriOptions (uri : Bytes) : List (Nat × Bytes) :=
  match uri with
  | [] => []
  | [c] => [(optionUriPath, [c])]
  | _ => uriOptionsLoop uri.length uri 0x2F optionUriPath

/-- The options that a call adds. -/
def PduCall.options : PduCall → List (Nat × Bytes)
  | .addOption number value _ _ => [(number, value)]
  | .setURI uri _ => uriOptions uri
  | _ => []

/-- The options a message may get: those that one extension byte reaches from any
other. -/
def SmallOption (option : Nat × Bytes) : Prop := option.1 < 269 ∧ option.2.length < 269

/-- The parts of a message under construction. -/
structure Draft where
  type : PduType
  code : UInt8
  mid : UInt16
  token : Bytes
  options : List (Nat × Bytes)
  code_valid : validCode code.toNat = true
  token_short : token.length ≤ 8
  ascending : Ascending 0 options
  small : ∀ option ∈ options, SmallOption option

/-- The parts of `CoapPDU()`. -/
def Draft.new : Draft where
  type := .confirmable
  code := 0
  mid := 0
  token := []
  options := []
  code_valid := by decide
  token_short := by decide
  ascending := trivial
  small := by simp

def Draft.addOption (d : Draft) (option : Nat × Bytes) (small : SmallOption option) : Draft :=
  { d with
    options := insertByNumber option d.options
    ascending := ascending_insertByNumber d.ascending (Nat.zero_le _)
    small := by
      intro o ho
      rcases mem_insertByNumber.mp ho with rfl | hold
      · exact small
      · exact d.small o hold }

def Draft.addOptions (d : Draft) : (options : List (Nat × Bytes)) →
    (∀ option ∈ options, SmallOption option) → Draft
  | [], _ => d
  | option :: options, small =>
    (d.addOption option (small option (List.mem_cons_self ..))).addOptions options
      fun o ho => small o (List.mem_cons_of_mem _ ho)

theorem uriOptionsLoop_small {fuel : Nat} {uri : Bytes} {splitChar : UInt8} {optionType : Nat}
    (htype : optionType < 269) (huri : uri.length < 269) :
    ∀ option ∈ uriOptionsLoop fuel uri splitChar optionType, SmallOption option := by
  induction fuel generalizing uri splitChar optionType with
  | zero => simp [uriOptionsLoop]
  | succ fuel ih =>
      unfold uriOptionsLoop
      split
      · simp
      · simp
      · rename_i first second tail
        have hleft : (if first = splitChar then second :: tail
            else first :: second :: tail).length < 269 := by
          split
          · simp only [List.length_cons] at huri ⊢
            omega
          · exact huri
        generalize (if first = splitChar then second :: tail
          else first :: second :: tail) = left at *
        obtain ⟨hsegment, hremaining⟩ := uriSegment_length left splitChar
        have hrest : (uriSegment left splitChar).2.1.length < 269 :=
          Nat.lt_of_le_of_lt hremaining hleft
        simp only
        rw [List.forall_mem_cons]
        refine ⟨⟨htype, Nat.lt_of_le_of_lt hsegment hleft⟩, ?_⟩
        split
        · apply ih (by decide)
          rw [List.length_drop]
          exact Nat.lt_of_le_of_lt (Nat.sub_le ..) hrest
        · exact ih htype hrest

theorem uriOptions_small {uri : Bytes} (huri : uri.length < 269) :
    ∀ option ∈ uriOptions uri, SmallOption option := by
  unfold uriOptions
  split
  · simp
  · simp [SmallOption, optionUriPath]
  · exact uriOptionsLoop_small (by decide) huri

theorem PduCall.options_small (call : PduCall) : ∀ option ∈ call.options, SmallOption option := by
  cases call with
  | addOption number value small short => simpa [PduCall.options] using ⟨small, short⟩
  | setURI uri short => exact uriOptions_small short
  | _ => simp [PduCall.options]

/-- What stands in front of the options. -/
def Draft.head (d : Draft) : Bytes :=
  [UInt8.ofNat (64 + 16 * d.type.bits + d.token.length), d.code] ++ be16 d.mid.toNat ++ d.token

def Draft.bytes (d : Draft) : Bytes := d.head ++ encodeOptions 0 d.options

/-- What a call changes of the parts. An empty token is not set, and a token of another
length goes into a PDU of less than 256 bytes only. -/
def Draft.after (d : Draft) (call : PduCall) : Option Draft :=
  match call with
  | .setType type => some { d with type := type }
  | .setCode code valid => some { d with code := code, code_valid := valid }
  | .setMessageId mid => some { d with mid := mid }
  | .setToken token short _ =>
    if token.length = 0 then some d
    else if token.length = d.token.length ∨ d.bytes.length < 256 then
      some { d with token := token, token_short := short }
    else none
  | call => some (d.addOptions call.options call.options_small)

/-- The message of the parts with a payload. -/
def Draft.finish (d : Draft) (payload : Bytes) : WellFormedPdu where
  type := d.type
  code := d.code
  mid := d.mid
  token := d.token
  options := d.options
  payload := payload
  code_valid := d.code_valid
  token_short := d.token_short
  ascending := d.ascending
  narrow := by
    intro option hoption
    have hsmall := d.small option hoption
    unfold SmallOption at hsmall
    omega

/-- The PDU under construction holds the parts. -/
structure Encodes (p : CoapPDU) (d : Draft) : Prop where
  pdu : p.pdu = d.bytes
  last : p.maxAddedOptionNumber = lastNumber 0 d.options

theorem short_of_small {prev : Nat} {options : List (Nat × Bytes)}
    (h : ∀ option ∈ options, SmallOption option) : Short prev options := by
  induction options generalizing prev with
  | nil => trivial
  | cons option options ih =>
      rw [List.forall_mem_cons] at h
      obtain ⟨⟨hnumber, hvalue⟩, hrest⟩ := h
      exact ⟨by omega, hvalue, ih hrest⟩

variable {p : CoapPDU} {d : Draft}

theorem Encodes.built (h : Encodes p d) : Built d.head p d.options where
  pdu := h.pdu
  last := h.last
  short := short_of_small d.small
  ascending := d.ascending

theorem Draft.finish_bytes (d : Draft) (payload : Bytes) :
    (d.finish payload).bytes = d.bytes ++ marked payload := by
  simp only [WellFormedPdu.bytes, WellFormedPdu.first, Draft.finish, datagram, Draft.bytes,
    Draft.head, List.append_assoc]

theorem Draft.getTokenLength_bytes (d : Draft) (rest : Bytes) :
    getTokenLength (d.bytes ++ rest) = d.token.length := by
  have htoken := d.token_short
  have hbits := bits_lt d.type
  have hfirst : getTokenLength (d.bytes ++ rest) =
      (UInt8.ofNat (64 + 16 * d.type.bits + d.token.length)).toNat % 16 := rfl
  rw [hfirst, UInt8.toNat_ofNat']
  omega

theorem Draft.head_length (d : Draft) : d.head.length = 4 + d.token.length := by
  simp only [Draft.head, be16, List.length_append, List.length_cons, List.length_nil]

theorem encodes_new : Encodes newPDU Draft.new where
  pdu := rfl
  last := rfl

/-- The walk stops behind the options that are not larger. -/
theorem findInsertionPosition_options {number fuel prev : Nat} {options : List (Nat × Bytes)}
    (hascending : Ascending prev options) (hsmall : ∀ option ∈ options, SmallOption option)
    (hfuel : options.length ≤ fuel) :
    findInsertionPosition number fuel (encodeOptions prev options) prev =
      ((encodeOptions prev (options.takeWhile fun o => o.1 ≤ number)).length,
        lastNumber prev (options.takeWhile fun o => o.1 ≤ number)) := by
  induction options generalizing fuel prev with
  | nil =>
      cases fuel with
      | zero => rfl
      | succ fuel => rfl
  | cons option options ih =>
      obtain ⟨first, value⟩ := option
      obtain ⟨hle, hrest⟩ := hascending
      rw [List.forall_mem_cons] at hsmall
      obtain ⟨⟨hfirst, hvalue⟩, hmore⟩ := hsmall
      obtain ⟨fuel, rfl⟩ : ∃ k, fuel = k + 1 := ⟨fuel - 1, by simp at hfuel; omega⟩
      have hbehind := ih hrest hmore (by simpa using hfuel)
      have hdelta : first - prev < 269 := by omega
      have hlength : ¬ (encodeOption (first - prev) value ++
          encodeOptions first options).length = 0 := by
        have hpos := encodeOption_length_pos (first - prev) value
        rw [List.length_append]
        omega
      have hmarker : ¬ byteAt (encodeOption (first - prev) value ++
          encodeOptions first options) 0 = 0xFF := by
        rw [byteAt_option_zero]
        exact fun h => header_ne_marker _ _ (UInt8.toNat.inj h)
      have hnumber : (prev + (first - prev)) % 65536 = first := by omega
      have hstop :
          ¬ ((encodeOption (first - prev) value ++ encodeOptions first options).length = 0 ∨
            byteAt (encodeOption (first - prev) value ++ encodeOptions first options) 0 =
              0xFF) := by
        omega
      have hvalue : value.length < 269 := hvalue
      simp only [encodeOptions, findInsertionPosition, if_neg hstop, getOptionDelta_option hdelta,
        hnumber, optionTotalLength_option hdelta hvalue, List.drop_left, hbehind]
      by_cases hlarger : first > number
      · have hnot : ¬ first ≤ number := by omega
        simp [hlarger, hnot, encodeOptions]
      · have hle : first ≤ number := by omega
        rw [if_neg hlarger, List.takeWhile_cons_of_pos (by simpa using hle), encodeOptions,
          List.length_append, lastNumber_cons]

/-- Wherever its place is, an option is put there and the options behind it stay what
they are. -/
theorem addOption_insert {head : Bytes} {options : List (Nat × Bytes)} {number : Nat}
    {value : Bytes} (h : Built head p options)
    (hhead : 4 + getTokenLength p.pdu = head.length)
    (hsmall : ∀ option ∈ options, SmallOption option) (hoption : SmallOption (number, value)) :
    Built head (addOption p number value) (insertByNumber (number, value) options) := by
  obtain ⟨hnumber, hvalue⟩ : number < 269 ∧ value.length < 269 := hoption
  by_cases hlast : p.maxAddedOptionNumber ≤ number
  · rw [insertByNumber_last h.ascending (by rw [← h.last]; exact hlast)]
    exact h.addOption hlast hnumber hvalue
  have hsmaller : number < lastNumber 0 options := by
    rw [← h.last]
    omega
  have hascending : Ascending 0 (insertByNumber (number, value) options) :=
    ascending_insertByNumber h.ascending (Nat.zero_le _)
  have hlastNumber : lastNumber 0 (insertByNumber (number, value) options) =
      lastNumber 0 options :=
    lastNumber_insertByNumber h.ascending hsmaller (Nat.zero_le _)
  have hshort : Short 0 (insertByNumber (number, value) options) := by
    apply short_of_small
    intro o ho
    rcases mem_insertByNumber.mp ho with rfl | hold
    · exact ⟨hnumber, hvalue⟩
    · exact hsmall o hold
  obtain ⟨before, ⟨next, nextValue⟩, after, hoptions, htake, hinsert, hprev, hnext⟩ :=
    insertByNumber_between (number, value) h.ascending hsmaller (Nat.zero_le _)
  simp only at htake hprev hnext
  -- the bytes in front of the position and from it on
  have hpdu : p.pdu = (head ++ encodeOptions 0 before) ++
      (encodeOption (next - lastNumber 0 before) nextValue ++ encodeOptions next after) := by
    rw [h.pdu, hoptions, encodeOptions_append, encodeOptions, List.append_assoc]
  have hcount : options.length ≤ p.pdu.length := by
    have hle := length_le_encodeOptions 0 options
    rw [h.pdu, List.length_append]
    omega
  have hposition : findInsertionPosition number p.pdu.length (p.pdu.drop head.length) 0 =
      ((encodeOptions 0 before).length, lastNumber 0 before) := by
    rw [← htake, ← findInsertionPosition_options h.ascending hsmall hcount, h.pdu, List.drop_left]
  have hstart : head.length + (encodeOptions 0 before).length =
      (head ++ encodeOptions 0 before).length := List.length_append.symm
  have hfirst : p.pdu.take (head ++ encodeOptions 0 before).length =
      head ++ encodeOptions 0 before := by
    rw [hpdu, List.take_left]
  have hrest : p.pdu.drop (head ++ encodeOptions 0 before).length =
      encodeOption (next - lastNumber 0 before) nextValue ++ encodeOptions next after := by
    rw [hpdu, List.drop_left]
  have hpos := encodeOption_length_pos (next - lastNumber 0 before) nextValue
  have hlonger : ¬ p.pdu.length = head.length := by
    rw [hpdu]
    simp only [List.length_append]
    omega
  have hne : encodeOption (next - lastNumber 0 before) nextValue ++ encodeOptions next after ≠
      [] := by
    simp [encodeOption]
  have hnextSmall : next < 269 := by
    have hmem := hsmall (next, nextValue) (by rw [hoptions]; simp)
    exact hmem.1
  have hdelta : next - lastNumber 0 before < 269 := by omega
  have hnewDelta : lastNumber 0 before + (next - lastNumber 0 before) - number = next - number := by
    omega
  have hnot : ¬ (number ≥ p.maxAddedOptionNumber ∨ p.pdu.length = head.length) := by
    omega
  have hadded : addOption p number value =
      { p with pdu := head ++ encodeOptions 0 (before ++ (number, value) :: (next, nextValue) ::
        after) } := by
    simp only [addOption, hhead, if_neg hnot, hposition, hstart, hfirst, hrest, if_neg hne,
      getOptionDelta_option hdelta, hnewDelta]
    rw [setOptionDelta_option hdelta (by omega), insertOption_short (by omega) hvalue,
      encodeOptions_append, encodeOptions, encodeOptions]
    simp only [List.append_assoc]
  rw [hinsert] at hascending hlastNumber hshort ⊢
  rw [hadded]
  exact ⟨rfl, by rw [hlastNumber, h.last], hshort, hascending⟩

theorem Encodes.first_toNat (h : Encodes p d) :
    byteAt p.pdu 0 = 64 + 16 * d.type.bits + d.token.length := by
  have htoken := d.token_short
  have hbits := bits_lt d.type
  have hfirst : byteAt d.bytes 0 =
      (UInt8.ofNat (64 + 16 * d.type.bits + d.token.length)).toNat := rfl
  rw [h.pdu, hfirst, UInt8.toNat_ofNat']
  omega

theorem Encodes.setType (h : Encodes p d) (type : PduType) :
    Encodes (Cantcoap.setType p type) { d with type := type } := by
  refine ⟨?_, h.last⟩
  have htoken := d.token_short
  have hbits := bits_lt d.type
  have hfirst : (Cantcoap.setType p type).pdu = p.pdu.set 0 (UInt8.ofNat
      (byteAt p.pdu 0 / 64 * 64 + type.bits * 16 + byteAt p.pdu 0 % 16)) := by
    cases type with
    | confirmable => rfl
    | nonConfirmable => rfl
    | acknowledgement => rfl
    | reset => rfl
  have hbyte : byteAt p.pdu 0 / 64 * 64 + type.bits * 16 + byteAt p.pdu 0 % 16 =
      64 + 16 * type.bits + d.token.length := by
    rw [h.first_toNat]
    omega
  rw [hfirst, hbyte, h.pdu]
  rfl

theorem Encodes.setCode (h : Encodes p d) (code : UInt8) (valid : validCode code.toNat = true) :
    Encodes (Cantcoap.setCode p code) { d with code := code, code_valid := valid } := by
  refine ⟨?_, h.last⟩
  rw [Cantcoap.setCode, h.pdu]
  rfl

theorem Encodes.setMessageId (h : Encodes p d) (mid : UInt16) :
    Encodes (Cantcoap.setMessageId p mid) { d with mid := mid } := by
  refine ⟨?_, h.last⟩
  rw [Cantcoap.setMessageId, h.pdu]
  rfl

theorem Encodes.addOption (h : Encodes p d) (option : Nat × Bytes) (small : SmallOption option) :
    Encodes (Cantcoap.addOption p option.1 option.2) (d.addOption option small) := by
  have hhead : 4 + getTokenLength p.pdu = d.head.length := by
    have htoken := d.getTokenLength_bytes []
    rw [List.append_nil] at htoken
    rw [h.pdu, htoken, d.head_length]
  have hbuilt := addOption_insert h.built hhead d.small small
  exact ⟨hbuilt.pdu, hbuilt.last⟩

theorem Encodes.addOptions (h : Encodes p d) {options : List (Nat × Bytes)}
    (small : ∀ option ∈ options, SmallOption option) :
    Encodes (options.foldl (fun p option => Cantcoap.addOption p option.1 option.2) p)
      (d.addOptions options small) := by
  induction options generalizing p d with
  | nil => exact h
  | cons option options ih =>
      exact ih (h.addOption option (small option (List.mem_cons_self ..))) _

/-- `setURI` adds its options one by one. -/
theorem setURILoop_eq (fuel : Nat) (p : CoapPDU) (uri : Bytes) (splitChar : UInt8)
    (optionType : Nat) :
    setURILoop fuel p uri splitChar optionType =
      (uriOptionsLoop fuel uri splitChar optionType).foldl
        (fun p option => addOption p option.1 option.2) p := by
  induction fuel generalizing p uri splitChar optionType with
  | zero => rfl
  | succ fuel ih =>
      unfold setURILoop uriOptionsLoop
      split
      · rfl
      · rfl
      · rename_i first second tail
        simp only [List.foldl_cons]
        generalize (if first = splitChar then second :: tail
          else first :: second :: tail) = left
        split
        · rw [ih]
        · rw [ih]

theorem setURI_eq (p : CoapPDU) (uri : Bytes) :
    setURI p uri = (uriOptions uri).foldl (fun p option => addOption p option.1 option.2) p := by
  cases uri with
  | nil => rfl
  | cons first rest =>
      cases rest with
      | nil => rfl
      | cons second tail => exact setURILoop_eq ..

theorem Encodes.setToken (h : Encodes p d) (token : Bytes) (short : token.length ≤ 8)
    (fresh : Bytes) :
    Option.Rel Encodes (setTokenMoving fresh p token) (d.after (.setToken token short fresh)) := by
  by_cases hset : token.length = 0
  · rw [setTokenMoving, Draft.after, if_pos hset, if_pos hset]
    exact .some h
  obtain ⟨pdu, max⟩ := p
  obtain ⟨hpdu, hlast⟩ := h
  simp only at hpdu hlast
  set header : Bytes := [UInt8.ofNat (64 + 16 * d.type.bits + d.token.length), d.code] ++
    be16 d.mid.toNat with hheader
  have hbytes : d.bytes = header ++ d.token ++ encodeOptions 0 d.options := rfl
  have hold : getTokenLength (header ++ d.token ++ encodeOptions 0 d.options) = d.token.length := by
    have htoken := d.getTokenLength_bytes []
    rwa [List.append_nil, hbytes] at htoken
  have hmoving := setTokenMoving_eq fresh max rfl hold d.token_short hset short
  rw [← hbytes, ← hpdu] at hmoving
  rw [hmoving, Draft.after, if_neg hset, ← hpdu]
  split
  · refine .some ⟨?_, hlast⟩
    have htoken := d.token_short
    have hbits := bits_lt d.type
    have hlong : ¬ token.length > 8 := by omega
    have hfirst : byteAt (header ++ token ++ encodeOptions 0 d.options) 0 =
        (UInt8.ofNat (64 + 16 * d.type.bits + d.token.length)).toNat := rfl
    have hbyte : (UInt8.ofNat (64 + 16 * d.type.bits + d.token.length)).toNat / 16 * 16 +
        token.length = 64 + 16 * d.type.bits + token.length := by
      rw [UInt8.toNat_ofNat']
      omega
    simp only [setTokenLength, if_neg hlong, hfirst, hbyte]
    rfl
  · exact .none

/-- A call changes the bytes as it changes the parts. -/
theorem Encodes.run (h : Encodes p d) (call : PduCall) :
    Option.Rel Encodes (call.run p) (d.after call) := by
  cases call with
  | setType type => exact .some (h.setType type)
  | setCode code valid => exact .some (h.setCode code valid)
  | setMessageId mid => exact .some (h.setMessageId mid)
  | setToken token short fresh => exact h.setToken token short fresh
  | addOption number value small short =>
      exact .some (h.addOptions (PduCall.options_small (.addOption number value small short)))
  | setURI uri short =>
      rw [PduCall.run, setURI_eq]
      exact .some (h.addOptions (PduCall.options_small (.setURI uri short)))

variable {d' : Draft}

theorem Draft.filter_addOptions (d : Draft) {options : List (Nat × Bytes)}
    (small : ∀ option ∈ options, SmallOption option) (number : Nat) :
    (d.addOptions options small).options.filter (fun o => o.1 = number) =
      d.options.filter (fun o => o.1 = number) ++ options.filter (fun o => o.1 = number) := by
  induction options generalizing d with
  | nil => simp [Draft.addOptions]
  | cons option options ih =>
      rw [Draft.addOptions, ih, Draft.addOption, filter_insertByNumber d.ascending,
        List.append_assoc, ← List.filter_append, List.singleton_append]

theorem Draft.filter_after {call : PduCall} (h : d.after call = some d') (number : Nat) :
    d'.options.filter (fun o => o.1 = number) =
      d.options.filter (fun o => o.1 = number) ++
        call.options.filter (fun o => o.1 = number) := by
  cases call with
  | setType type =>
      cases h
      simp [PduCall.options]
  | setCode code valid =>
      cases h
      simp [PduCall.options]
  | setMessageId mid =>
      cases h
      simp [PduCall.options]
  | setToken token short fresh =>
      unfold Draft.after at h
      simp only at h
      split at h
      · cases h
        simp [PduCall.options]
      split at h
      · cases h
        simp [PduCall.options]
      · cases h
  | addOption number' value small short =>
      cases h
      exact d.filter_addOptions _ number
  | setURI uri short =>
      cases h
      exact d.filter_addOptions _ number

theorem Draft.filter_run {calls : List PduCall} (h : run Draft.after d calls = some d')
    (number : Nat) :
    d'.options.filter (fun o => o.1 = number) =
      d.options.filter (fun o => o.1 = number) ++
        (calls.flatMap PduCall.options).filter (fun o => o.1 = number) := by
  induction calls generalizing d with
  | nil =>
      cases h
      simp
  | cons call calls ih =>
      rw [run_cons] at h
      obtain ⟨next, hnext, hrest⟩ := Option.bind_eq_some_iff.mp h
      rw [ih hrest, filter_after hnext number, List.flatMap_cons, List.filter_append,
        List.append_assoc]

/-- A PDU that is built by calls within the bounds of `PduCall` in any order, with a
payload set last, is the encoding of the parts that the calls set, and has no bytes
exactly when a token of another length comes into a PDU of 256 bytes or more. `validate`
accepts it, and finds the options of each number in the order in which they were added.
Numbers, values and URIs from 269 on are out of bounds: `insertOption` writes their
two-byte extension over the header of the option. -/
theorem pdu_of_calls (calls : List PduCall) (payload : Bytes) :
    ((run PduCall.run newPDU calls).map fun p => (setPayload p payload).pdu) =
        ((run Draft.after Draft.new calls).map fun d => (d.finish payload).bytes) ∧
      ∀ d, run Draft.after Draft.new calls = some d →
        let pdu := (d.finish payload).bytes
        let v : Validated := ⟨d.options.length, payload⟩
        validate pdu = some v ∧ (d.finish payload).ReadFrom pdu v ∧
          ∀ number, (getOptions pdu v).filter (fun o => o.1 = number) =
            (calls.flatMap PduCall.options).filter (fun o => o.1 = number) := by
  constructor
  · have hruns := run_rel (fun _ _ call h => Encodes.run h call) encodes_new calls
    apply map_eq_of_rel _ hruns
    intro p d h
    rw [Mainserver.setPayload_pdu, h.pdu, Draft.finish_bytes]
  · intro d hd pdu v
    have hread : (d.finish payload).ReadFrom pdu v := (d.finish payload).readFrom_bytes
    refine ⟨(d.finish payload).validate_bytes.1, hread, ?_⟩
    intro number
    rw [hread.options]
    exact Draft.filter_run hd number

end CoapEap.Cantcoap
