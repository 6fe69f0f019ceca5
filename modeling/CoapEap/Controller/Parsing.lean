import CoapEap.Controller.Messages
import CoapEap.Library.OptionReading

/-!
What `validate` accepts. As long as no number in the option headers passes the
sixteen bits that hold it, a PDU is accepted exactly when it is the encoding of a
well-formed message, of one only, and the accessors give the parts of this message.
-/

namespace CoapEap.Cantcoap

open Library.OptionFormat Library.Records

/-- The number that a nibble and the bytes of an option from `offset` on stand for,
before it is stored as a `uint16_t`. -/
def numberAt (bits : Nat) (option : Bytes) (offset : Nat) : Nat :=
  if bits < 13 then bits
  else if bits = 13 then byteAt option offset + 13
  else be16At option offset + 269

/-- The difference in the header of an option. -/
def deltaAt (option : Bytes) : Nat := numberAt (byteAt option 0 / 16) option 1

/-- The length in the header of an option. -/
def lengthAt (option : Bytes) : Nat :=
  numberAt (byteAt option 0 % 16) option (1 + computeExtraBytes (deltaAt option))

/-- On the walk over the options, no option number and no length passes sixteen bits. -/
def numbersFitFrom : Nat → Bytes → Nat → Bool
  | 0, _, _ => true
  | fuel + 1, rest, number =>
    if rest.length = 0 ∨ byteAt rest 0 = 0xFF then true
    else
      number + deltaAt rest < 65536 && lengthAt rest < 65536 &&
        numbersFitFrom fuel (rest.drop (optionTotalLength rest)) (number + deltaAt rest)

def numbersFit (pdu : Bytes) : Bool :=
  numbersFitFrom (pdu.length + 1) (pdu.drop (4 + getTokenLength pdu)) 0

/-- The two bits of a type. -/
def PduType.bits : PduType → Nat
  | .confirmable => 0
  | .nonConfirmable => 1
  | .acknowledgement => 2
  | .reset => 3

/-- The parts of a message that a PDU can carry and the controller accepts. -/
@[ext] structure WellFormedPdu where
  type : PduType
  code : UInt8
  mid : UInt16
  token : Bytes
  options : List (Nat × Bytes)
  payload : Bytes
  code_valid : validCode code.toNat = true
  token_short : token.length ≤ 8
  ascending : Ascending 0 options
  narrow : ∀ option ∈ options, option.1 < 65536 ∧ option.2.length < 65536

/-- The first byte: version, type and length of the token. -/
def WellFormedPdu.first (m : WellFormedPdu) : UInt8 :=
  UInt8.ofNat (64 + 16 * m.type.bits + m.token.length)

def WellFormedPdu.bytes (m : WellFormedPdu) : Bytes :=
  datagram m.first m.code m.mid m.token m.options m.payload

/-- What `validate` records and the accessors return are the parts of the message. -/
structure WellFormedPdu.ReadFrom (m : WellFormedPdu) (pdu : Bytes) (v : Validated) : Prop where
  type : getType pdu = m.type
  code : getCode pdu = m.code.toNat
  mid : getMessageId pdu = m.mid.toNat
  token : getToken pdu = m.token
  options : getOptions pdu v = m.options
  count : v.numOptions = m.options.length
  payload : v.payload = m.payload

variable {delta bits offset : Nat} {value rest option : Bytes}

theorem computeExtraBytes_length (n : Nat) : computeExtraBytes n = (extension n).length := by
  unfold computeExtraBytes extension
  split
  · rfl
  · split
    · rfl
    · rfl

theorem computeExtraBytes_numberAt (hbits : bits < 15) :
    computeExtraBytes (numberAt bits option offset) =
      if bits = 13 then 1 else if bits = 14 then 2 else 0 := by
  have hbyte := byteAt_lt option offset
  unfold numberAt computeExtraBytes
  split
  · have hne : bits ≠ 13 ∧ bits ≠ 14 := by omega
    simp [hne]
  split
  · rename_i hone
    have hlarge : ¬ byteAt option offset + 13 < 13 := by omega
    have hshort : byteAt option offset + 13 < 269 := by omega
    simp [hlarge, hshort]
  · have htwo : bits = 14 := by omega
    have hlarge : ¬ be16At option offset + 269 < 13 := by omega
    have hlong : ¬ be16At option offset + 269 < 269 := by omega
    simp [htwo, hlarge, hlong]

/-- The check of `validate` takes the nibble for the number and asks for no byte too many. -/
theorem computeExtraBytes_nibble_le (n : Nat) :
    computeExtraBytes (nibble n) ≤ (extension n).length := by
  unfold computeExtraBytes nibble extension
  split
  · simp
  split
  · simp
  · simp

/-- With its bytes in the buffer, the number is the one that the format means. -/
theorem readNumber_numberAt (hbits : bits < 15)
    (hbytes : offset + computeExtraBytes (numberAt bits option offset) ≤ option.length) :
    readNumber bits (option.drop offset) =
      some (numberAt bits option offset, computeExtraBytes (numberAt bits option offset)) := by
  rw [computeExtraBytes_numberAt hbits] at hbytes ⊢
  unfold readNumber numberAt
  split
  · have hne : bits ≠ 13 ∧ bits ≠ 14 := by omega
    simp [hne]
  split
  · rename_i hone
    rw [if_pos hone] at hbytes
    have hlt : offset < option.length := by omega
    rw [List.drop_eq_getElem_cons hlt]
    simp [byteAt, hlt]
  · have htwo : bits = 14 := by omega
    rw [if_neg (by omega), if_pos htwo] at hbytes
    have hlt : offset < option.length := by omega
    have hnext : offset + 1 < option.length := by omega
    rw [List.drop_eq_getElem_cons hlt, List.drop_eq_getElem_cons hnext]
    simp [htwo, be16At, byteAt, hlt, hnext]

/-- The number is read where it was written. -/
theorem numberAt_extension {n : Nat} (h : n ≤ largest) (front rest : Bytes) :
    numberAt (nibble n) (front ++ (extension n ++ rest)) front.length = n := by
  have hbyte : ∀ i, byteAt (front ++ (extension n ++ rest)) (front.length + i) =
      byteAt (extension n ++ rest) i := by
    intro i
    rw [byteAt_append_right (Nat.le_add_right ..), Nat.add_sub_cancel_left]
  rcases number_forms h with ⟨hsmall, hnibble, -⟩ | ⟨hnibble, byte, hextension, hvalue⟩ |
    ⟨hnibble, high, low, hextension, hvalue⟩
  · simp [numberAt, hnibble, hsmall]
  · have hfirst : byteAt (front ++ (extension n ++ rest)) front.length = byte.toNat := by
      rw [← Nat.add_zero front.length, hbyte, hextension]
      rfl
    simp [numberAt, hnibble, hfirst, hvalue]
  · have hfirst : byteAt (front ++ (extension n ++ rest)) front.length = high.toNat := by
      rw [← Nat.add_zero front.length, hbyte, hextension]
      rfl
    have hsecond : byteAt (front ++ (extension n ++ rest)) (front.length + 1) = low.toNat := by
      rw [hbyte, hextension]
      rfl
    simp [numberAt, be16At, hnibble, hfirst, hsecond, hvalue]

theorem getOptionDelta_eq (hbits : byteAt option 0 / 16 < 15) (hdelta : deltaAt option < 65536) :
    getOptionDelta option = deltaAt option := by
  unfold deltaAt numberAt at hdelta ⊢
  unfold getOptionDelta
  grind

theorem getOptionValueLength_eq (hdelta : byteAt option 0 / 16 < 15)
    (hlength : lengthAt option < 65536) :
    getOptionValueLength option = lengthAt option := by
  have hoffset : 1 + computeExtraBytes (deltaAt option) = 1 + (if byteAt option 0 / 16 = 13 then 1
      else if byteAt option 0 / 16 = 14 then 2 else 0) := by
    rw [deltaAt, computeExtraBytes_numberAt hdelta]
  unfold lengthAt at hlength ⊢
  rw [hoffset] at hlength ⊢
  unfold numberAt at hlength ⊢
  unfold getOptionValueLength
  grind

theorem deltaAt_encodeOption (hdelta : delta ≤ largest) :
    deltaAt (encodeOption delta value ++ rest) = delta := by
  have hnumber := numberAt_extension hdelta [header delta value.length]
    (extension value.length ++ (value ++ rest))
  rw [deltaAt, byteAt_option_zero, header_div]
  simpa [encodeOption] using hnumber

theorem lengthAt_encodeOption (hdelta : delta ≤ largest) (hvalue : value.length ≤ largest) :
    lengthAt (encodeOption delta value ++ rest) = value.length := by
  have hnumber := numberAt_extension hvalue (header delta value.length :: extension delta)
    (value ++ rest)
  have hoffset : 1 + (extension delta).length =
      (header delta value.length :: extension delta).length := by
    rw [List.length_cons]
    omega
  rw [lengthAt, deltaAt_encodeOption hdelta, byteAt_option_zero, header_mod,
    computeExtraBytes_length, hoffset]
  simpa [encodeOption] using hnumber

/-- The code takes the option at the front whole, when its numbers fit. -/
theorem option_encodeOption (rest : Bytes) (hdelta : delta < 65536)
    (hvalue : value.length < 65536) :
    getOptionDelta (encodeOption delta value ++ rest) = delta ∧
      getOptionValueLength (encodeOption delta value ++ rest) = value.length ∧
      optionTotalLength (encodeOption delta value ++ rest) =
        (encodeOption delta value).length := by
  have hdeltaReach : delta ≤ largest := by unfold largest; omega
  have hvalueReach : value.length ≤ largest := by unfold largest; omega
  have hnibble : byteAt (encodeOption delta value ++ rest) 0 / 16 < 15 := by
    rw [byteAt_option_zero, header_div]
    exact nibble_lt delta
  have hdeltaAt : deltaAt (encodeOption delta value ++ rest) = delta :=
    deltaAt_encodeOption hdeltaReach
  have hlengthAt : lengthAt (encodeOption delta value ++ rest) = value.length :=
    lengthAt_encodeOption hdeltaReach hvalueReach
  have hgetDelta : getOptionDelta (encodeOption delta value ++ rest) = delta := by
    rw [getOptionDelta_eq hnibble (by rwa [hdeltaAt]), hdeltaAt]
  have hgetLength : getOptionValueLength (encodeOption delta value ++ rest) = value.length := by
    rw [getOptionValueLength_eq hnibble (by rwa [hlengthAt]), hlengthAt]
  refine ⟨hgetDelta, hgetLength, ?_⟩
  rw [optionTotalLength, hgetDelta, hgetLength, computeExtraBytes_length, computeExtraBytes_length,
    encodeOption_length]

/-- What is read at the front is what the accessors of one option see there. -/
theorem option_of_readOption {size : Nat} (hread : readOption rest = some ((delta, value), size))
    (hdelta : delta < 65536) (hvalue : value.length < 65536) :
    getOptionDelta rest = delta ∧ getOptionValueLength rest = value.length ∧
      optionTotalLength rest = size ∧
        (rest.drop (size - value.length)).take value.length = value := by
  obtain ⟨-, rfl, hrest⟩ := readOption_delimits.wrote _ _ _ hread
  simp only at hrest ⊢
  generalize rest.drop (encodeOption delta value).length = behind at hrest
  subst hrest
  have hoption := option_encodeOption behind hdelta hvalue
  have hfront : (encodeOption delta value).length - value.length =
      (header delta value.length :: (extension delta ++ extension value.length)).length := by
    rw [encodeOption_length, List.length_cons, List.length_append]
    omega
  refine ⟨hoption.1, hoption.2.1, hoption.2.2, ?_⟩
  have hform : encodeOption delta value ++ behind =
      (header delta value.length :: (extension delta ++ extension value.length)) ++
        (value ++ behind) := by
    simp [encodeOption]
  rw [hfront, hform, List.drop_left, List.take_left]

/-- An option that passes the checks of `validate` stands at the front as the format
has it. -/
theorem readOption_of_total (hdelta : byteAt rest 0 / 16 < 15) (hlength : byteAt rest 0 % 16 < 15)
    (hne : rest ≠ []) (hdeltaFits : deltaAt rest < 65536) (hlengthFits : lengthAt rest < 65536)
    (htotal : optionTotalLength rest ≤ rest.length) :
    ∃ value, readOption rest = some ((deltaAt rest, value), optionTotalLength rest) ∧
      value.length = lengthAt rest := by
  have hsize : optionTotalLength rest = 1 + computeExtraBytes (deltaAt rest) +
      computeExtraBytes (lengthAt rest) + lengthAt rest := by
    rw [optionTotalLength, getOptionDelta_eq hdelta hdeltaFits,
      getOptionValueLength_eq hdelta hlengthFits]
  have hfirst : readNumber (byteAt rest 0 / 16) (rest.drop 1) =
      some (deltaAt rest, computeExtraBytes (deltaAt rest)) :=
    readNumber_numberAt hdelta (by unfold deltaAt at hsize; omega)
  have hsecond : readNumber (byteAt rest 0 % 16)
      (rest.drop (1 + computeExtraBytes (deltaAt rest))) =
        some (lengthAt rest, computeExtraBytes (lengthAt rest)) :=
    readNumber_numberAt hlength (by unfold lengthAt at hsize; omega)
  cases rest with
  | nil => exact absurd rfl hne
  | cons head behind =>
      generalize hd : deltaAt (head :: behind) = d at *
      generalize hl : lengthAt (head :: behind) = l at *
      rw [List.drop_succ_cons, List.drop_zero] at hfirst
      rw [Nat.add_comm 1, List.drop_succ_cons] at hsecond
      rw [List.length_cons] at htotal
      have hfits : l ≤ (behind.drop (computeExtraBytes d + computeExtraBytes l)).length := by
        rw [List.length_drop]
        omega
      refine ⟨(behind.drop (computeExtraBytes d + computeExtraBytes l)).take l, ?_, ?_⟩
      · rw [byteAt_cons_zero] at hfirst hsecond
        simp only [readOption, hfirst, Option.bind_some, hsecond, if_pos hfits, hsize]
      · rw [List.length_take]
        omega

/-- One round of `validate` against the reader of the format. -/
theorem validateOptions_round {fuel number count : Nat} {v : Validated} (hne : rest ≠ [])
    (hmarker : byteAt rest 0 ≠ 0xFF) :
    (validateOptions (fuel + 1) rest count = some v ∧ numbersFitFrom (fuel + 1) rest number) ↔
      ∃ delta value size, readOption rest = some ((delta, value), size) ∧
        number + delta < 65536 ∧ value.length < 65536 ∧
        validateOptions fuel (rest.drop size) (count + 1) = some v ∧
        numbersFitFrom fuel (rest.drop size) (number + delta) := by
  have hlength : ¬ rest.length = 0 := by
    rw [List.length_eq_zero_iff]
    exact hne
  rw [validateOptions, numbersFitFrom]
  simp only [hlength, hmarker, or_self, if_false, Bool.and_eq_true, decide_eq_true_eq]
  constructor
  · rintro ⟨haccept, ⟨hnumber, hlengthFits⟩, hmore⟩
    have hdelta := byteAt_lt rest 0
    split at haccept
    · simp at haccept
    rename_i hnibbles
    split at haccept
    · simp at haccept
    split at haccept
    · simp at haccept
    split at haccept
    · simp at haccept
    rename_i htotal
    obtain ⟨value, hread, hvalue⟩ := readOption_of_total (by omega) (by omega) hne (by omega)
      hlengthFits (Nat.le_of_not_lt htotal)
    exact ⟨deltaAt rest, value, optionTotalLength rest, hread, hnumber, by omega, haccept, hmore⟩
  · rintro ⟨delta, value, size, hread, hnumber, hvalue, haccept, hmore⟩
    obtain ⟨⟨hdelta, hreach⟩, rfl, hrest⟩ := readOption_delimits.wrote _ _ _ hread
    simp only at hdelta hreach hrest haccept hmore
    generalize hbehind : rest.drop (encodeOption delta value).length = behind at *
    obtain ⟨-, -, htotal⟩ := option_encodeOption behind (show delta < 65536 by omega) hvalue
    rw [hrest, htotal, deltaAt_encodeOption hdelta, lengthAt_encodeOption hdelta hreach,
      List.drop_left]
    refine ⟨?_, ⟨hnumber, hvalue⟩, hmore⟩
    have hfirst := computeExtraBytes_nibble_le delta
    have hsecond := computeExtraBytes_nibble_le value.length
    have hdeltaNibble := nibble_lt delta
    have hlengthNibble := nibble_lt value.length
    have hsize := encodeOption_length delta value
    rw [byteAt_option_zero, header_div, header_mod, List.length_append, if_neg (by omega),
      if_neg (by omega), if_neg (by omega), if_neg (by omega)]
    exact haccept

/-- Behind the last option both stop with the same payload. -/
theorem stopped_iff {count : Nat} {payload : Bytes} {v : Validated} :
    some (Validated.mk count payload) = some v ↔
      ∃ options : List (Nat × Bytes), some (([] : List (Nat × Bytes)), payload) =
          some (options, v.payload) ∧
        v.numOptions = count + options.length ∧
        ∀ option ∈ options, option.1 < 65536 ∧ option.2.length < 65536 := by
  constructor
  · rintro ⟨⟩
    exact ⟨[], rfl, rfl, by simp⟩
  · rintro ⟨options, hpayload, hcount, -⟩
    obtain ⟨numOptions, payload'⟩ := v
    simp only [Option.some.injEq, Prod.mk.injEq] at hpayload
    obtain ⟨rfl, rfl⟩ := hpayload
    simpa using hcount.symm

theorem byteAt_zero_eq_iff (h : rest ≠ []) : byteAt rest 0 = 0xFF ↔ rest.headD 0 = 0xFF := by
  cases rest with
  | nil => exact absurd rfl h
  | cons head rest =>
      rw [byteAt_cons_zero, List.headD_cons, ← UInt8.toNat_inj]
      rfl

/-- `validate` walks over the options exactly like the reader of the format. -/
theorem validateOptions_iff {fuel number count : Nat} {v : Validated} :
    (validateOptions fuel rest count = some v ∧ numbersFitFrom fuel rest number) ↔
      ∃ options, decodeOptions fuel number rest = some (options, v.payload) ∧
        v.numOptions = count + options.length ∧
        ∀ option ∈ options, option.1 < 65536 ∧ option.2.length < 65536 := by
  induction fuel generalizing rest number count with
  | zero => simp [validateOptions, decodeOptions]
  | succ fuel ih =>
      by_cases hempty : rest = []
      · subst hempty
        have haccept : validateOptions (fuel + 1) [] count = some ⟨count, []⟩ := rfl
        have hfit : numbersFitFrom (fuel + 1) [] number = true := rfl
        have hdecode : decodeOptions (fuel + 1) number [] = some ([], []) := rfl
        simp only [haccept, hfit, hdecode, and_true]
        exact stopped_iff
      have hlength := List.length_pos_iff.mpr hempty
      by_cases hmarker : byteAt rest 0 = 0xFF
      · have hhead := (byteAt_zero_eq_iff hempty).mp hmarker
        have hfit : numbersFitFrom (fuel + 1) rest number = true := by
          rw [numbersFitFrom, if_pos (Or.inr hmarker)]
        have htail : rest.tail = [] ↔ rest.length = 1 := by
          rw [← List.length_eq_zero_iff, List.length_tail]
          omega
        rw [validateOptions, if_neg (by omega), if_pos hmarker, decodeOptions, if_neg hempty,
          if_pos hhead, hfit, List.drop_one]
        by_cases hpayload : rest.tail = []
        · have hshort : ¬ rest.length > 1 := by
            rw [htail] at hpayload
            omega
          simp [hpayload, hshort]
        · have hlong : rest.length > 1 := by
            rw [htail] at hpayload
            omega
          simp only [if_neg hpayload, if_pos hlong, and_true]
          exact stopped_iff
      · have hhead := mt (byteAt_zero_eq_iff hempty).mpr hmarker
        rw [validateOptions_round hempty hmarker, decodeOptions, if_neg hempty, if_neg hhead]
        constructor
        · rintro ⟨delta, value, size, hread, hnumber, hvalue, haccept⟩
          obtain ⟨options, hdecode, hcount, hnarrow⟩ := ih.mp haccept
          refine ⟨(number + delta, value) :: options, ?_, ?_, ?_⟩
          · simp only [hread, Option.bind_some, hdecode, Option.map_some]
          · rw [hcount, List.length_cons]
            omega
          · exact List.forall_mem_cons.mpr ⟨⟨hnumber, hvalue⟩, hnarrow⟩
        · rintro ⟨options, hdecode, hcount, hnarrow⟩
          simp only [Option.bind_eq_some_iff, Option.map_eq_some_iff, Prod.mk.injEq] at hdecode
          obtain ⟨⟨⟨delta, value⟩, size⟩, hread, ⟨more, _⟩, hmore, rfl, rfl⟩ := hdecode
          rw [List.forall_mem_cons] at hnarrow
          simp only [List.length_cons] at hcount
          exact ⟨delta, value, size, hread, hnarrow.1.1, hnarrow.1.2,
            ih.mpr ⟨more, hmore, by omega, hnarrow.2⟩⟩

/-- `getOptions` walks over the same options again. -/
theorem optionsFrom_decodeOptions {fuel number : Nat} {options : List (Nat × Bytes)}
    {payload : Bytes} (hdecode : decodeOptions fuel number rest = some (options, payload))
    (hnarrow : ∀ option ∈ options, option.1 < 65536 ∧ option.2.length < 65536) :
    optionsFrom options.length rest number = options := by
  induction options generalizing fuel number rest with
  | nil => rfl
  | cons option options ih =>
      cases fuel with
      | zero => simp [decodeOptions] at hdecode
      | succ fuel =>
          rw [decodeOptions] at hdecode
          split at hdecode
          · simp at hdecode
          split at hdecode
          · split at hdecode
            · simp at hdecode
            · simp at hdecode
          simp only [Option.bind_eq_some_iff, Option.map_eq_some_iff, Prod.mk.injEq,
            List.cons.injEq] at hdecode
          obtain ⟨⟨⟨delta, value⟩, size⟩, hread, ⟨more, _⟩, hmore, ⟨rfl, rfl⟩, rfl⟩ := hdecode
          rw [List.forall_mem_cons] at hnarrow
          obtain ⟨⟨hnumber, hvalue⟩, hbehind⟩ := hnarrow
          have hrest := ih hmore hbehind
          simp only at hnumber hvalue hrest
          obtain ⟨hdelta, hlength, htotal, htake⟩ :=
            option_of_readOption hread (show delta < 65536 by omega) hvalue
          rw [List.length_cons, optionsFrom, hdelta, hlength, htotal, htake,
            Nat.mod_eq_of_lt hnumber, hrest]

theorem validate_eq_some_iff {pdu : Bytes} {v : Validated} : validate pdu = some v ↔
    4 + getTokenLength pdu ≤ pdu.length ∧ getVersion pdu = 1 ∧ getTokenLength pdu ≤ 8 ∧
      validCode (getCode pdu) = true ∧
      validateOptions (pdu.length + 1) (pdu.drop (4 + getTokenLength pdu)) 0 = some v := by
  unfold validate
  constructor
  · intro haccept
    split at haccept
    · simp at haccept
    split at haccept
    · simp at haccept
    split at haccept
    · simp at haccept
    split at haccept
    · simp at haccept
    split at haccept
    · simp at haccept
    rename_i hlength hversion htoken hfits hcode
    exact ⟨by omega, by omega, by omega, by simpa using hcode, haccept⟩
  · rintro ⟨hfits, hversion, htoken, hcode, haccept⟩
    rw [if_neg (by omega), if_neg (by omega), if_neg (by omega), if_neg (by omega),
      if_neg (by simp [hcode])]
    exact haccept

theorem bits_lt (type : PduType) : type.bits < 4 := by
  cases type <;> decide

theorem getType_bits (pdu : Bytes) : (getType pdu).bits = byteAt pdu 0 / 16 % 4 := by
  have hlt : byteAt pdu 0 / 16 % 4 < 4 := Nat.mod_lt _ (by decide)
  unfold getType
  generalize byteAt pdu 0 / 16 % 4 = bits at hlt
  match bits, hlt with
  | 0, _ => rfl
  | 1, _ => rfl
  | 2, _ => rfl
  | 3, _ => rfl

theorem bits_inj {type type' : PduType} (h : type.bits = type'.bits) : type = type' := by
  cases type <;> cases type' <;> first | rfl | cases h

namespace WellFormedPdu

variable (m : WellFormedPdu)

theorem first_toNat : m.first.toNat = 64 + 16 * m.type.bits + m.token.length := by
  have hbits := bits_lt m.type
  have htoken := m.token_short
  rw [first, UInt8.toNat_ofNat']
  omega

theorem getTokenLength_bytes : getTokenLength m.bytes = m.token.length := by
  have htoken := m.token_short
  have hfirst : getTokenLength m.bytes = m.first.toNat % 16 := rfl
  rw [hfirst, first_toNat]
  omega

theorem drop_bytes : m.bytes.drop (4 + getTokenLength m.bytes) =
    encodeOptions 0 m.options ++ marked m.payload := by
  have hdrop := datagram_drop_token m.first m.code m.mid m.token m.options m.payload []
  rw [List.append_nil, List.append_nil] at hdrop
  rw [getTokenLength_bytes]
  exact hdrop

theorem reaching : Reaching 0 m.options := by
  apply reaching_of_le
  intro option hoption
  have hnarrow := m.narrow option hoption
  unfold largest
  omega

theorem decode_bytes : decodeOptions (m.bytes.length + 1) 0
    (m.bytes.drop (4 + getTokenLength m.bytes)) = some (m.options, m.payload) := by
  have hlength : (m.bytes.drop (4 + getTokenLength m.bytes)).length < m.bytes.length + 1 := by
    rw [List.length_drop]
    omega
  exact (decodeOptions_iff hlength).mpr ⟨m.ascending, m.reaching, m.drop_bytes⟩

/-- What the encoding of a message is read as. -/
theorem readFrom_bytes : m.ReadFrom m.bytes ⟨m.options.length, m.payload⟩ where
  type := by
    have hbits : (getType m.bytes).bits = m.first.toNat / 16 % 4 := getType_bits m.bytes
    have htoken := m.token_short
    have htype := bits_lt m.type
    apply bits_inj
    rw [hbits, first_toNat]
    omega
  code := rfl
  mid := by
    have hmid := datagram_mid m.first m.code m.mid m.token m.options m.payload []
    rwa [List.append_nil] at hmid
  token := by
    have hdrop := datagram_drop_header m.first m.code m.mid m.token m.options m.payload []
    rw [List.append_nil] at hdrop
    rw [getToken, getTokenLength_bytes, bytes, hdrop, List.take_left]
  options := optionsFrom_decodeOptions m.decode_bytes m.narrow
  count := rfl
  payload := rfl

theorem validate_bytes : validate m.bytes = some ⟨m.options.length, m.payload⟩ ∧
    numbersFit m.bytes := by
  have htoken := m.token_short
  have hlength : 4 + m.token.length ≤ m.bytes.length := by
    rw [bytes, datagram_length]
    omega
  have hversion : getVersion m.bytes = 1 := by
    have hfirst : getVersion m.bytes = m.first.toNat / 64 := rfl
    have hbits := bits_lt m.type
    rw [hfirst, first_toNat]
    omega
  have hcount : (Validated.mk m.options.length m.payload).numOptions = 0 + m.options.length :=
    (Nat.zero_add _).symm
  have hwalk := validateOptions_iff.mpr ⟨m.options, m.decode_bytes, hcount, m.narrow⟩
  refine ⟨validate_eq_some_iff.mpr ⟨?_, hversion, ?_, m.code_valid, hwalk.1⟩, hwalk.2⟩
  · rw [getTokenLength_bytes]
    exact hlength
  · rw [getTokenLength_bytes]
    exact htoken

/-- A message is determined by what the accessors return. -/
theorem ReadFrom.unique {m m' : WellFormedPdu} {pdu : Bytes} {v : Validated}
    (h : m.ReadFrom pdu v) (h' : m'.ReadFrom pdu v) : m = m' := by
  ext1
  · rw [← h.type, h'.type]
  · apply UInt8.toNat.inj
    rw [← h.code, h'.code]
  · apply UInt16.toNat.inj
    rw [← h.mid, h'.mid]
  · rw [← h.token, h'.token]
  · rw [← h.options, h'.options]
  · rw [← h.payload, h'.payload]

end WellFormedPdu

/-- The message that an accepted PDU encodes, when the numbers of its options fit. -/
theorem exists_wellFormed {pdu : Bytes} {v : Validated} (haccept : validate pdu = some v)
    (hfit : numbersFit pdu) : ∃ m : WellFormedPdu, m.bytes = pdu := by
  obtain ⟨hlength, hversion, htoken, hcode, hwalk⟩ := validate_eq_some_iff.mp haccept
  obtain ⟨options, hdecode, -, hnarrow⟩ := validateOptions_iff.mp ⟨hwalk, hfit⟩
  have hshort : (pdu.drop (4 + getTokenLength pdu)).length < pdu.length + 1 := by
    rw [List.length_drop]
    omega
  obtain ⟨hascending, -, hoptions⟩ := (decodeOptions_iff hshort).mp hdecode
  obtain ⟨first, code, high, low, behind, rfl⟩ : ∃ first code high low behind,
      pdu = first :: code :: high :: low :: behind := by
    match pdu, hlength with
    | first :: code :: high :: low :: behind, _ => exact ⟨first, code, high, low, behind, rfl⟩
  have hfirst : getTokenLength (first :: code :: high :: low :: behind) = first.toNat % 16 := rfl
  generalize hpdu : first :: code :: high :: low :: behind = pdu at *
  have htokenLength : (getToken pdu).length = getTokenLength pdu := by
    rw [getToken, List.length_take, List.length_drop]
    omega
  have hcodeValid : validCode code.toNat = true := by
    rw [← hpdu] at hcode
    exact hcode
  have htokenShort : (getToken pdu).length ≤ 8 := by
    rw [htokenLength]
    exact htoken
  refine ⟨⟨getType pdu, code, UInt16.ofNat (getMessageId pdu), getToken pdu, options, v.payload,
    hcodeValid, htokenShort, hascending, hnarrow⟩, ?_⟩
  have hfirstByte : UInt8.ofNat (64 + 16 * (getType pdu).bits + (getToken pdu).length) = first := by
    have hzero : byteAt pdu 0 = first.toNat := by
      rw [← hpdu, byteAt_cons_zero]
    have hlt := UInt8.toNat_lt first
    rw [getVersion, hzero] at hversion
    apply UInt8.toNat.inj
    rw [UInt8.toNat_ofNat', getType_bits, htokenLength, hfirst, hzero]
    omega
  have hmid : be16 (UInt16.ofNat (getMessageId pdu)).toNat = [high, low] := by
    have hload : getMessageId pdu = be16At [high, low] 0 := by
      rw [← hpdu]
      rfl
    rw [UInt16.toNat_ofNat', hload, Nat.mod_eq_of_lt (be16At_lt _ _)]
    exact be16_be16At high low []
  have hbehind : behind = getToken pdu ++ (encodeOptions 0 options ++ marked v.payload) := by
    rw [← hoptions, getToken, ← List.drop_drop, List.take_append_drop, ← hpdu]
    rfl
  rw [WellFormedPdu.bytes, WellFormedPdu.first, datagram, hfirstByte, hmid, ← hbehind]
  exact hpdu

/-- The message that is read from an accepted PDU is the one it encodes. -/
theorem readFrom_of_bytes {m : WellFormedPdu} {v : Validated}
    (haccept : validate m.bytes = some v) : m.ReadFrom m.bytes v := by
  have hagain := m.validate_bytes.1
  rw [haccept] at hagain
  rw [Option.some.inj hagain]
  exact m.readFrom_bytes

/-- A difference over sixteen bits comes out as a small one, and what is accepted then
is no encoding. -/
example : validate [0x40, 0x02, 0, 1, 0xE0, 0xFF, 0] = some ⟨2, []⟩ ∧
    numbersFit [0x40, 0x02, 0, 1, 0xE0, 0xFF, 0] = false := by
  decide

end CoapEap.Cantcoap
